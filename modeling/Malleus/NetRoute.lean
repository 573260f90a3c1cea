import Malleus.Library.Cidr
import Malleus.Library.Numbers

/-! Routes that overlap a wanted subnet.

`contains` is the ipnet crate's, a parameter here; `Documented` is what its
documentation says of it, and all that `findConflict` relies on. -/
namespace Malleus.NetRoute
open Numbers

/-- The address as a number, the first octet the highest. -/
def toBits (ip : Ipv4Addr) : BitVec 32 :=
  BitVec.ofNat 32 (((ip.a.toNat * 256 + ip.b.toNat) * 256 + ip.c.toNat) * 256 + ip.d.toNat)

/-- The address with these bits, its first octet uppermost. -/
def ofBits (x : BitVec 32) : Ipv4Addr :=
  ⟨UInt8.ofNat (x.toNat / 256 / 256 / 256), UInt8.ofNat (x.toNat / 256 / 256),
    UInt8.ofNat (x.toNat / 256), UInt8.ofNat x.toNat⟩

/-- Every number of 32 bits is an address. -/
theorem toBits_ofBits (x : BitVec 32) : toBits (ofBits x) = x := by
  have hx : x.toNat < 4294967296 := x.isLt
  apply BitVec.eq_of_toNat_eq
  simp only [toBits, ofBits, BitVec.toNat_ofNat, UInt8.toNat_ofNat']
  omega

/-- An address with a prefix length; its host bits may be set. -/
structure Ipv4Net where
  addr : Ipv4Addr
  prefixLen : Nat
  prefixLen_le : prefixLen ≤ 32
  deriving DecidableEq

namespace Ipv4Net

def block (n : Ipv4Net) : Cidr.Block 32 := ⟨toBits n.addr, n.prefixLen, n.prefixLen_le⟩

def network (n : Ipv4Net) : BitVec 32 := n.block.network

def broadcast (n : Ipv4Net) : BitVec 32 := n.block.broadcast

/-- The address has the first `prefixLen` bits of the net's own. -/
def Has (n : Ipv4Net) (ip : Ipv4Addr) : Prop := toBits ip &&& n.block.netmask = n.network

/-- Some address belongs to both. -/
def Overlaps (n m : Ipv4Net) : Prop := ∃ ip, n.Has ip ∧ m.Has ip

end Ipv4Net

/-- The first of the existing routes that contains the wanted block or lies in it. -/
def findConflict (contains : Ipv4Net → Ipv4Net → Bool) (wanted : Ipv4Net)
    (existing : List Ipv4Net) : Option Ipv4Net :=
  existing.find? fun route => contains route wanted || contains wanted route

/-- `a.contains(b)`: `b` begins and ends within `a`. -/
def Documented (contains : Ipv4Net → Ipv4Net → Bool) : Prop :=
  ∀ a b, contains a b = true ↔ a.network ≤ b.network ∧ b.broadcast ≤ a.broadcast

section Documented
variable {contains : Ipv4Net → Ipv4Net → Bool}

theorem Documented.eq_block (h : Documented contains) (a b : Ipv4Net) :
    contains a b = a.block.contains b.block := by
  rw [Bool.eq_iff_iff, h a b, Cidr.Block.contains, Bool.and_eq_true, decide_eq_true_eq,
    decide_eq_true_eq]
  rfl

/-- An address shared as a number is shared as an address. -/
theorem overlaps_iff {a b : Ipv4Net} :
    a.Overlaps b ↔ ∃ x, x ∈ a.block.addresses ∧ x ∈ b.block.addresses := by
  constructor
  · intro ⟨ip, ha, hb⟩
    exact ⟨toBits ip, ha, hb⟩
  · intro ⟨x, ha, hb⟩
    rw [← toBits_ofBits x] at ha hb
    exact ⟨ofBits x, ha, hb⟩

/-- The two containments between them notice every overlap. -/
theorem Documented.either_iff (h : Documented contains) (route wanted : Ipv4Net) :
    (contains route wanted || contains wanted route) = true ↔ route.Overlaps wanted := by
  rw [Bool.or_eq_true, h.eq_block, h.eq_block, Cidr.Block.contains_or_contains, overlaps_iff]

/-- **A conflict is found exactly when some route overlaps the wanted block, and it
is the first that does; without one, no wanted address belongs to any route.** -/
theorem findConflict_finds (h : Documented contains) (wanted : Ipv4Net)
    (existing : List Ipv4Net) :
    ((findConflict contains wanted existing).isSome = true ↔
        ∃ route ∈ existing, route.Overlaps wanted) ∧
      (∀ route, findConflict contains wanted existing = some route →
        ∃ before after, existing = before ++ route :: after ∧ route.Overlaps wanted ∧
          ∀ earlier ∈ before, ¬ earlier.Overlaps wanted) ∧
      (findConflict contains wanted existing = none →
        ∀ ip, wanted.Has ip → ∀ route ∈ existing, ¬ route.Has ip) := by
  refine ⟨?_, ?_, ?_⟩
  · rw [findConflict, List.find?_isSome]
    simp only [h.either_iff]
  · intro route hroute
    obtain ⟨hhit, before, after, hsplit, hearlier⟩ := List.find?_eq_some_iff_append.mp hroute
    refine ⟨before, after, hsplit, (h.either_iff _ _).mp hhit, fun earlier hmem hover => ?_⟩
    have hmiss := hearlier earlier hmem
    rw [(h.either_iff _ _).mpr hover] at hmiss
    exact absurd hmiss (by decide)
  · intro hnone ip hwanted route hmem hroute
    have hmiss := List.find?_eq_none.mp hnone route hmem
    exact hmiss ((h.either_iff _ _).mpr ⟨ip, hroute, hwanted⟩)

/-- The routes of a VPN pushing 10/8, with host bits set in the wanted subnet. -/
theorem findConflict_vpn :
    let contains := fun a b : Ipv4Net => a.block.contains b.block
    let vpn : Ipv4Net := ⟨⟨10, 0, 0, 0⟩, 8, by decide⟩
    let wanted : Ipv4Net := ⟨⟨10, 174, 0, 1⟩, 24, by decide⟩
    findConflict contains wanted [⟨⟨192, 168, 64, 0⟩, 24, by decide⟩, vpn] = some vpn ∧
      ∃ route ∈ [⟨⟨192, 168, 64, 0⟩, 24, by decide⟩, vpn], route.Overlaps wanted := by
  intro contains vpn wanted
  have hdoc : Documented contains := by
    intro a b
    simp only [contains, Cidr.Block.contains, Bool.and_eq_true, decide_eq_true_eq]
    rfl
  have hfound : findConflict contains wanted [⟨⟨192, 168, 64, 0⟩, 24, by decide⟩, vpn] = some vpn := by
    decide
  exact ⟨hfound, (findConflict_finds hdoc wanted _).1.mp (by rw [hfound]; rfl)⟩

end Documented

end Malleus.NetRoute
