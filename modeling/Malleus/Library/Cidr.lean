import Mathlib.Algebra.Group.Nat.Defs
import Mathlib.Data.Set.Lattice
import Mathlib.Data.Setoid.Basic
import Mathlib.Order.CompletePartialOrder

/-! Address blocks given by a prefix length: two of them are nested or disjoint. -/
namespace Cidr

/-! ### Classes of a finer and a coarser relation -/

section Classes
variable {α : Type*} {fine coarse : Setoid α}

theorem class_subset (h : fine ≤ coarse) {x y : α} (hxy : coarse x y) :
    {z | fine z x} ⊆ {z | coarse z y} :=
  fun _ hz => coarse.trans' (h hz) hxy

/-- A class of the finer relation lies inside a class of the coarser one, or apart from it. -/
theorem class_subset_or_disjoint (h : fine ≤ coarse) (x y : α) :
    {z | fine z x} ⊆ {z | coarse z y} ∨ Disjoint {z | fine z x} {z | coarse z y} := by
  by_cases hxy : coarse x y
  · exact Or.inl (class_subset h hxy)
  · refine Or.inr (Set.disjoint_left.mpr ?_)
    intro z hx hy
    exact hxy (coarse.trans' (coarse.symm' (h hx)) hy)

end Classes

/-! ### Blocks -/

/-- An address with a prefix length: the bits after the prefix may be anything. -/
structure Block (w : Nat) where
  addr : BitVec w
  prefixLen : Nat
  prefixLen_le : prefixLen ≤ w
  deriving DecidableEq

namespace Block
variable {w : Nat}

/-- The bits that tell the addresses of a block apart. -/
def hostBits (b : Block w) : Nat := w - b.prefixLen

/-- The bits that all addresses of a block share. -/
def netmask (b : Block w) : BitVec w := BitVec.allOnes w <<< b.hostBits

def hostmask (b : Block w) : BitVec w := BitVec.allOnes w >>> b.prefixLen

/-- The first address. -/
def network (b : Block w) : BitVec w := b.addr &&& b.netmask

/-- The last address. -/
def broadcast (b : Block w) : BitVec w := b.addr ||| b.hostmask

/-- The addresses that agree with the block's own under its mask. -/
def addresses (b : Block w) : Set (BitVec w) := {x | x &&& b.netmask = b.network}

/-- `b` begins and ends within `a`. -/
def contains (a b : Block w) : Bool :=
  decide (a.network ≤ b.network) && decide (b.broadcast ≤ a.broadcast)

/-- Equal in all but the last `k` bits. -/
def agree (w k : Nat) : Setoid (BitVec w) := Setoid.ker fun x => x >>> k

theorem agree_iff {k : Nat} {x y : BitVec w} :
    agree w k x y ↔ x.toNat >>> k = y.toNat >>> k := by
  show x >>> k = y >>> k ↔ _
  rw [BitVec.toNat_eq, BitVec.toNat_ushiftRight, BitVec.toNat_ushiftRight]

theorem agree_le {k l : Nat} (h : k ≤ l) : agree w k ≤ agree w l := by
  intro x y hxy
  obtain ⟨m, rfl⟩ := Nat.exists_eq_add_of_le h
  rw [agree_iff] at hxy
  rw [agree_iff, Nat.shiftRight_add, Nat.shiftRight_add, hxy]

theorem network_eq (b : Block w) : b.network = b.addr >>> b.hostBits <<< b.hostBits :=
  BitVec.shiftLeft_ushiftRight.symm

/-- Shifting out and back in loses only the last bits. -/
theorem shift_back_inj {k : Nat} {x y : BitVec w} :
    x >>> k <<< k = y >>> k <<< k ↔ x >>> k = y >>> k := by
  constructor
  · intro h
    ext i hi
    have hb := congrArg (fun z => z.getLsbD (i + k)) h
    by_cases hw : i + k < w
    · simpa [hw, Nat.not_lt.mpr (Nat.le_add_left k i)] using hb
    · simp [BitVec.getLsbD_of_ge, Nat.not_lt.mp hw, Nat.add_comm k i]
  · intro h
    rw [h]

/-- The addresses of a block are a class: those with its prefix. -/
theorem addresses_eq (b : Block w) : b.addresses = {x | agree w b.hostBits x b.addr} := by
  ext x
  show x &&& b.netmask = b.network ↔ x >>> b.hostBits = b.addr >>> b.hostBits
  rw [network_eq, netmask, ← BitVec.shiftLeft_ushiftRight, shift_back_inj]

theorem addr_mem (b : Block w) : b.addr ∈ b.addresses := rfl

/-- Of two blocks one lies in the other, or they share no address. -/
theorem nested_or_disjoint (a b : Block w) :
    a.addresses ⊆ b.addresses ∨ b.addresses ⊆ a.addresses ∨ Disjoint a.addresses b.addresses := by
  rw [addresses_eq, addresses_eq]
  cases Nat.le_total a.hostBits b.hostBits with
  | inl h =>
    cases class_subset_or_disjoint (agree_le h) a.addr b.addr with
    | inl hs => exact Or.inl hs
    | inr hd => exact Or.inr (Or.inr hd)
  | inr h =>
    cases class_subset_or_disjoint (agree_le h) b.addr a.addr with
    | inl hs => exact Or.inr (Or.inl hs)
    | inr hd => exact Or.inr (Or.inr hd.symm)

/-! ### First and last address -/

theorem toNat_network (b : Block w) :
    b.network.toNat = b.addr.toNat / 2 ^ b.hostBits * 2 ^ b.hostBits := by
  have hle : b.addr.toNat / 2 ^ b.hostBits * 2 ^ b.hostBits ≤ b.addr.toNat := Nat.div_mul_le_self _ _
  rw [network_eq, BitVec.toNat_shiftLeft, BitVec.toNat_ushiftRight, Nat.shiftRight_eq_div_pow,
    Nat.shiftLeft_eq, Nat.mod_eq_of_lt (Nat.lt_of_le_of_lt hle b.addr.isLt)]

theorem toNat_hostmask (b : Block w) : b.hostmask.toNat = 2 ^ b.hostBits - 1 := by
  have hw : 2 ^ w = 2 ^ b.hostBits * 2 ^ b.prefixLen := by
    rw [← Nat.pow_add, hostBits, Nat.sub_add_cancel b.prefixLen_le]
  have hq : 2 ^ b.prefixLen ≤ 2 ^ b.hostBits * 2 ^ b.prefixLen :=
    Nat.le_mul_of_pos_left _ (Nat.two_pow_pos _)
  have hr : 0 < 2 ^ b.prefixLen := Nat.two_pow_pos _
  rw [hostmask, BitVec.toNat_ushiftRight, BitVec.toNat_allOnes, Nat.shiftRight_eq_div_pow, hw,
    Nat.div_eq_iff hr, Nat.sub_one_mul]
  omega

/-- The host bits, which the network has clear, are all set. -/
theorem toNat_broadcast (b : Block w) :
    b.broadcast.toNat = b.network.toNat + (2 ^ b.hostBits - 1) := by
  have hm : 2 ^ b.hostBits - 1 < 2 ^ b.hostBits := Nat.sub_one_lt (Nat.two_pow_pos _).ne'
  rw [broadcast, BitVec.toNat_or, toNat_hostmask, toNat_network, ← Nat.shiftLeft_eq,
    Nat.shiftLeft_add_eq_or_of_lt hm]
  apply Nat.eq_of_testBit_eq
  intro i
  rw [Nat.testBit_or, Nat.testBit_or, Nat.testBit_two_pow_sub_one, Nat.testBit_shiftLeft,
    Nat.testBit_div_two_pow]
  by_cases hi : i < b.hostBits
  · simp [hi]
  · simp [hi, Nat.not_lt.mp hi]

/-- The addresses of a block are those from its first to its last. -/
theorem mem_addresses {b : Block w} {x : BitVec w} :
    x ∈ b.addresses ↔ b.network ≤ x ∧ x ≤ b.broadcast := by
  have hpos : 0 < 2 ^ b.hostBits := Nat.two_pow_pos _
  have hshift := Nat.div_eq_iff (x := x.toNat) (y := b.addr.toNat / 2 ^ b.hostBits) hpos
  rw [addresses_eq, BitVec.le_def, BitVec.le_def, toNat_broadcast, toNat_network]
  show agree w b.hostBits x b.addr ↔ _
  rw [agree_iff, Nat.shiftRight_eq_div_pow, Nat.shiftRight_eq_div_pow, hshift]
  omega

theorem network_le_broadcast (b : Block w) : b.network ≤ b.broadcast := by
  rw [BitVec.le_def, toNat_broadcast]
  omega

/-- Beginning and ending within a block is lying in it. -/
theorem contains_iff {a b : Block w} : a.contains b = true ↔ b.addresses ⊆ a.addresses := by
  rw [contains, Bool.and_eq_true, decide_eq_true_eq, decide_eq_true_eq]
  constructor
  · intro ⟨hn, hb⟩ x hx
    obtain ⟨hl, hu⟩ := mem_addresses.mp hx
    exact mem_addresses.mpr ⟨BitVec.le_trans hn hl, BitVec.le_trans hu hb⟩
  · intro h
    have hf : b.network ∈ a.addresses :=
      h (mem_addresses.mpr ⟨BitVec.le_refl _, b.network_le_broadcast⟩)
    have hl : b.broadcast ∈ a.addresses :=
      h (mem_addresses.mpr ⟨b.network_le_broadcast, BitVec.le_refl _⟩)
    exact ⟨(mem_addresses.mp hf).1, (mem_addresses.mp hl).2⟩

/-- **Blocks overlap exactly when one contains the other.** -/
theorem contains_or_contains {a b : Block w} :
    (a.contains b = true ∨ b.contains a = true) ↔ ∃ x, x ∈ a.addresses ∧ x ∈ b.addresses := by
  rw [contains_iff, contains_iff]
  constructor
  · intro h
    cases h with
    | inl hb => exact ⟨b.addr, hb b.addr_mem, b.addr_mem⟩
    | inr ha => exact ⟨a.addr, a.addr_mem, ha a.addr_mem⟩
  · intro ⟨x, ha, hb⟩
    obtain h | h | h := nested_or_disjoint a b
    · exact Or.inr h
    · exact Or.inl h
    · exact absurd hb (Set.disjoint_left.mp h ha)

end Block

end Cidr
