import Malleus.LeaseRecords

/-! Hardware addresses as text.

The lookups compare hardware addresses by the text that `normalizeMac` makes of
them. `normalizeMac_canonical` says that this text stands for the six octets: it is
the same for two addresses just when their octets are. `normalizeMac_strict` says
which texts are taken for an address although they do not spell one. -/
namespace Malleus.Leases
open Strings Numbers

/-! ### Values -/

/-- The value of hexadecimal digits. -/
def hexValue (digits : Text) : Nat := digits.foldl (fun n c => 16 * n + (toDigit 16 c).getD 0) 0

/-- The values of the groups between the colons; a sign before the digits does not count. -/
def groupValues (mac : Text) : List Nat := (mac.splitOn ':').map fun g => hexValue (stripPlus g)

theorem foldl_digits {n m : Nat} {t : Text} (h : digitsOnto 16 n t = some m) :
    t.foldl (fun n c => 16 * n + (toDigit 16 c).getD 0) n = m := by
  induction t generalizing n with
  | nil => exact Option.some.inj h
  | cons c t ih =>
    rw [digitsOnto] at h
    cases hc : toDigit 16 c with
    | none => simp [hc] at h
    | some d =>
      rw [hc] at h
      rw [List.foldl_cons, hc]
      exact ih h

/-- A number that is read is the value of its digits, behind the sign. -/
theorem fromStrRadix_value {bound m : Nat} {g : Text} (h : fromStrRadix 16 bound g = some m) :
    hexValue (stripPlus g) = m := by
  obtain ⟨h, _⟩ := Option.filter_eq_some_iff.mp h
  unfold parseDigits at h
  split at h
  · cases h
  · exact foldl_digits h

theorem mapM_values {groups : List Text} {octets : List UInt8}
    (h : (groups.mapM fun g => (fromStrRadix 16 256 g).map UInt8.ofNat) = some octets) :
    groups.map (fun g => hexValue (stripPlus g)) = octets.map UInt8.toNat := by
  induction groups generalizing octets with
  | nil =>
    obtain rfl := Option.some.inj h
    rfl
  | cons g groups ih =>
    rw [List.mapM_cons] at h
    obtain ⟨b, hb, h⟩ := Option.bind_eq_some_iff.mp h
    obtain ⟨bs, hbs, h⟩ := Option.bind_eq_some_iff.mp h
    obtain rfl := Option.some.inj h
    obtain ⟨n, hn, rfl⟩ := Option.map_eq_some_iff.mp hb
    have hlt : n < 256 := by simpa using (Option.filter_eq_some_iff.mp hn).2
    rw [List.map_cons, List.map_cons, ih hbs, fromStrRadix_value hn, UInt8.toNat_ofNat_of_lt' hlt]

/-- What is read as six octets has their values. -/
theorem read_values {mac : Text} {m : Mac} (h : Mac.read mac = some m) :
    groupValues mac = m.octets.map UInt8.toNat := by
  obtain ⟨octets, hoctets, h⟩ := Option.bind_eq_some_iff.mp h
  split at h
  · obtain rfl := Option.some.inj h
    exact mapM_values hoctets
  · cases h

/-- Normalizing is reading six octets and writing them down again. -/
theorem normalizeMac_eq_some {mac n : Text} :
    normalizeMac mac = some n ↔ ∃ m, Mac.read mac = some m ∧ m.canonical = n := by
  rw [normalizeMac_eq_read, Option.map_eq_some_iff]

/-! ### The canonical text -/

/-- The digits that `normalize_mac` writes. -/
def isLowerHex (c : Char) : Bool := c.isDigit || (decide ('a' ≤ c) && decide (c ≤ 'f'))

/-- Six groups of two lower-case digits. -/
def SixPairs (t : Text) : Prop :=
  ∃ pairs : List Text, pairs.length = 6 ∧ (∀ p ∈ pairs, p.length = 2 ∧ p.all isLowerHex = true) ∧
    t = [':'].intercalate pairs

theorem hexPair_lower (b : UInt8) : (hexPair b).all isLowerHex = true := by
  have h : ∀ n : Fin 256, (hexPair (UInt8.ofNat n)).all isLowerHex = true := by decide +kernel
  have := h ⟨b.toNat, b.toNat_lt⟩
  simpa using this

/-- What is written has six pairs of digits. -/
theorem Mac.canonical_pairs (m : Mac) : SixPairs m.canonical := by
  refine ⟨m.octets.map hexPair, by rw [List.length_map, m.six], ?_, rfl⟩
  intro p hp
  obtain ⟨b, _, rfl⟩ := List.mem_map.mp hp
  exact ⟨rfl, hexPair_lower b⟩

theorem intercalate_length {k : Nat} {ps : List Text} (h : ∀ p ∈ ps, p.length = k) (c : Char) :
    ([c].intercalate ps).length = ps.length * (k + 1) - 1 := by
  induction ps with
  | nil => simp
  | cons p ps ih =>
    have hp := h p (List.mem_cons_self ..)
    cases ps with
    | nil => simp [hp]
    | cons q ps =>
      have hpos : 0 < (q :: ps).length * (k + 1) := Nat.mul_pos (Nat.succ_pos _) (Nat.succ_pos k)
      have hmul : (p :: q :: ps).length * (k + 1) = (q :: ps).length * (k + 1) + (k + 1) :=
        Nat.succ_mul ..
      rw [List.intercalate_cons_cons, List.length_append, List.length_append, hp,
        ih fun r hr => h r (List.mem_cons_of_mem p hr), List.length_singleton, hmul]
      omega

theorem SixPairs.length {t : Text} (h : SixPairs t) : t.length = 17 := by
  obtain ⟨pairs, hsix, hpairs, rfl⟩ := h
  rw [intercalate_length (fun p hp => (hpairs p hp).1), hsix]

/-- The canonical text is one of the spellings. -/
theorem Mac.spells_canonical (m : Mac) : SpellsMac m m.canonical :=
  ⟨m.octets.map hexPair,
    List.forall₂_map_right_iff.mpr (List.forall₂_same.mpr fun b _ => spellsOctet_hexPair b), rfl⟩

/-- Every spelling of an address is read as that address. -/
theorem Mac.read_spells {m : Mac} {t : Text} (h : SpellsMac m t) : Mac.read t = some m := by
  obtain ⟨m', hread, hcanonical⟩ := normalizeMac_eq_some.mp (normalizeMac_spells h)
  rw [hread, Mac.canonical_injective hcanonical]

/-- Two texts are normalized alike exactly if their groups have the same values. -/
theorem normalizeMac_eq_iff {a b : Text} (ha : (normalizeMac a).isSome) (hb : (normalizeMac b).isSome) :
    normalizeMac a = normalizeMac b ↔ groupValues a = groupValues b := by
  obtain ⟨n, hn⟩ := Option.isSome_iff_exists.mp ha
  obtain ⟨n', hn'⟩ := Option.isSome_iff_exists.mp hb
  obtain ⟨m, hm, rfl⟩ := normalizeMac_eq_some.mp hn
  obtain ⟨m', hm', rfl⟩ := normalizeMac_eq_some.mp hn'
  rw [hn, hn', read_values hm, read_values hm', Option.some.injEq]
  constructor
  · intro h
    rw [Mac.canonical_injective h]
  · intro h
    have hoctets : m.octets = m'.octets :=
      List.map_injective_iff.mpr (fun _ _ => UInt8.toNat_inj.mp) h
    rw [Mac.canonical, Mac.canonical, hoctets]

/-- **The text that is compared stands for the octets**: two addresses get the same one
just when their groups have the same values, every spelling of six octets gets the one with
six pairs of lower-case digits, and that one stays as it is. -/
theorem normalizeMac_canonical :
    (∀ a b : Text, (normalizeMac a).isSome → (normalizeMac b).isSome →
      (normalizeMac a = normalizeMac b ↔ groupValues a = groupValues b)) ∧
    (∀ (m : Mac) (t : Text), SpellsMac m t → ∃ n, normalizeMac t = some n ∧ n.length = 17 ∧
      SixPairs n ∧ groupValues n = m.octets.map UInt8.toNat) ∧
    ∀ a n : Text, normalizeMac a = some n → normalizeMac n = some n := by
  refine ⟨fun a b => normalizeMac_eq_iff, ?_, ?_⟩
  · intro m t h
    exact ⟨m.canonical, normalizeMac_spells h, m.canonical_pairs.length, m.canonical_pairs,
      read_values (Mac.read_spells m.spells_canonical)⟩
  · intro a n h
    obtain ⟨m, _, rfl⟩ := normalizeMac_eq_some.mp h
    exact normalizeMac_spells m.spells_canonical

/-- The lease file's spelling and the one on the command line are one address. -/
theorem normalizeMac_canonical_stripped :
    normalizeMac "52:54:0:12:34:56".toList = normalizeMac "52:54:00:12:34:56".toList ∧
      normalizeMac "52:54:00:12:34:56".toList = some "52:54:00:12:34:56".toList :=
  ⟨(normalizeMac_canonical.1 _ _ (by decide) (by decide)).mpr (by decide),
    normalizeMac_canonical.2.2 "52:54:0:12:34:56".toList _ (by decide)⟩

/-! ### What is accepted -/

/-- One or two hexadecimal digits. -/
def SpellsGroup (g : Text) : Prop :=
  (g.length = 1 ∨ g.length = 2) ∧ ∀ c ∈ g, (toDigit 16 c).isSome

/-- The groups are the text between its colons. -/
def SixGroups (groups : List Text) (s : Text) : Prop :=
  groups.length = 6 ∧ s = [':'].intercalate groups

/-- Six groups of one or two hexadecimal digits between single colons. -/
def Spelled (s : Text) : Prop := ∃ groups, SixGroups groups s ∧ ∀ g ∈ groups, SpellsGroup g

/-- A group with a plus sign, or with zeros, before its one or two digits. -/
def LooseGroup (g : Text) : Prop :=
  ∃ sign zeros digits, g = sign ++ (zeros ++ digits) ∧ (sign = [] ∨ sign = ['+']) ∧
    (∀ c ∈ zeros, c = '0') ∧ SpellsGroup digits

/-- The group has a sign or more than two places. -/
def Overlong (g : Text) : Prop := g.head? = some '+' ∨ 2 < g.length

theorem SpellsGroup.ne_nil {g : Text} (h : SpellsGroup g) : g ≠ [] := by
  intro hnil
  subst hnil
  have := h.1
  simp at this

theorem SpellsGroup.loose {g : Text} (h : SpellsGroup g) : LooseGroup g :=
  ⟨[], [], g, rfl, Or.inl rfl, by simp, h⟩

theorem SpellsGroup.not_overlong {g : Text} (h : SpellsGroup g) : ¬ Overlong g := by
  intro hover
  cases hover with
  | inl hplus =>
    have hdigit := h.2 '+' (List.mem_of_head? hplus)
    exact absurd hdigit (by decide)
  | inr hlong =>
    have := h.1
    omega

/-- What is left without a sign or a third place is a group. -/
theorem LooseGroup.spells {g : Text} (h : LooseGroup g) (hover : ¬ Overlong g) : SpellsGroup g := by
  obtain ⟨sign, zeros, digits, rfl, hsign, hzeros, hdigits⟩ := h
  obtain ⟨hplus, hlength⟩ := not_or.mp hover
  obtain rfl : sign = [] := hsign.resolve_right fun heq => hplus (by rw [heq]; rfl)
  rw [List.nil_append] at hlength ⊢
  refine ⟨?_, ?_⟩
  · rw [List.length_append] at hlength ⊢
    have := hdigits.1
    omega
  · intro c hc
    cases List.mem_append.mp hc with
    | inl hzero =>
      rw [hzeros c hzero]
      rfl
    | inr hdigit => exact hdigits.2 c hdigit

/-- Zeros before a group count for nothing, and it is an octet. -/
theorem SpellsGroup.parse {zeros digits : Text} (hzeros : ∀ c ∈ zeros, c = '0') (h : SpellsGroup digits) :
    ∃ n, parseDigits 16 (zeros ++ digits) = some n ∧ n < 256 := by
  have hne : zeros ++ digits ≠ [] := List.append_ne_nil_of_right_ne_nil _ h.ne_nil
  rw [parseDigits, if_neg hne, digitsOnto_zeros (by decide) hzeros]
  obtain ⟨hone | htwo, hdigits⟩ := h
  · obtain ⟨c, rfl⟩ := List.length_eq_one_iff.mp hone
    obtain ⟨d, hd⟩ := Option.isSome_iff_exists.mp (hdigits c (by simp))
    have := toDigit_lt hd
    exact ⟨d, by simp [digitsOnto, hd], by omega⟩
  · obtain ⟨c, c', rfl⟩ := List.length_eq_two.mp htwo
    obtain ⟨d, hd⟩ := Option.isSome_iff_exists.mp (hdigits c (by simp))
    obtain ⟨d', hd'⟩ := Option.isSome_iff_exists.mp (hdigits c' (by simp))
    have := toDigit_lt hd
    have := toDigit_lt hd'
    exact ⟨16 * d + d', by simp [digitsOnto, hd, hd'], by omega⟩

/-- An octet has at most two places after its zeros. -/
theorem spellsGroup_of_parse {t : Text} {n : Nat} (h : parseDigits 16 t = some n) (hlt : n < 256) :
    ∃ zeros digits, t = zeros ++ digits ∧ (∀ c ∈ zeros, c = '0') ∧ SpellsGroup digits := by
  obtain ⟨hne, hdigits⟩ := parseDigits_digits h
  have hzeros : ∀ c ∈ t.takeWhile (· == '0'), c = '0' := fun c hc => by
    simpa using List.mem_takeWhile_imp hc
  have hsplit : t.takeWhile (· == '0') ++ t.dropWhile (· == '0') = t := List.takeWhile_append_dropWhile
  cases hrest : t.dropWhile (· == '0') with
  | nil =>
    -- nothing but zeros: the last of them is the digit
    rw [hrest, List.append_nil] at hsplit
    rw [hsplit] at hzeros
    obtain ⟨init, last, rfl⟩ := (List.eq_nil_or_concat t).resolve_left hne
    rw [List.concat_eq_append] at hzeros hdigits ⊢
    refine ⟨init, [last], rfl, fun c hc => hzeros c (List.mem_append_left _ hc), Or.inl rfl, ?_⟩
    exact fun c hc => hdigits c (List.mem_append_right _ hc)
  | cons c rest =>
    have hc : c ≠ '0' := by
      have := List.head?_dropWhile_not (· == '0') t
      rw [hrest] at this
      simpa using this
    rw [hrest] at hsplit
    refine ⟨_, c :: rest, hsplit.symm, hzeros, ?_, fun d hd => hdigits d ?_⟩
    · obtain _ | ⟨c', _ | ⟨c'', rest⟩⟩ := rest
      · exact Or.inl rfl
      · exact Or.inr rfl
      · rw [parseDigits, if_neg hne, ← hsplit, digitsOnto_zeros (by decide) hzeros] at h
        have hlong := digitsOnto_long (by decide) hc h
        omega
    · rw [← hsplit]
      exact List.mem_append_right _ hd

/-- A number of two places, with zeros before it. -/
theorem parseDigits_isSome {t : Text} :
    ((parseDigits 16 t).filter (· < 256)).isSome ↔
      ∃ zeros digits, t = zeros ++ digits ∧ (∀ c ∈ zeros, c = '0') ∧ SpellsGroup digits := by
  constructor
  · intro h
    obtain ⟨n, hn⟩ := Option.isSome_iff_exists.mp h
    obtain ⟨hparse, hlt⟩ := Option.filter_eq_some_iff.mp hn
    exact spellsGroup_of_parse hparse (by simpa using hlt)
  · intro h
    obtain ⟨zeros, digits, rfl, hzeros, hdigits⟩ := h
    obtain ⟨n, hn, hlt⟩ := hdigits.parse hzeros
    simp [hn, Option.filter, hlt]

/-- The groups that are read as an octet. -/
theorem fromStrRadix_isSome {g : Text} : (fromStrRadix 16 256 g).isSome ↔ LooseGroup g := by
  rw [fromStrRadix, parseDigits_isSome]
  constructor
  · intro h
    obtain ⟨zeros, digits, heq, hzeros, hdigits⟩ := h
    unfold stripPlus at heq
    split at heq
    · exact ⟨['+'], zeros, digits, by rw [heq]; rfl, Or.inr rfl, hzeros, hdigits⟩
    · exact ⟨[], zeros, digits, heq, Or.inl rfl, hzeros, hdigits⟩
  · intro h
    obtain ⟨sign, zeros, digits, rfl, hsign, hzeros, hdigits⟩ := h
    refine ⟨zeros, digits, ?_, hzeros, hdigits⟩
    cases hsign with
    | inl hnone =>
      subst hnone
      unfold stripPlus
      split
      · next rest heq =>
        have hplus : '+' ∈ zeros ++ digits := by
          rw [← List.nil_append (zeros ++ digits), heq]
          exact List.mem_cons_self ..
        cases List.mem_append.mp hplus with
        | inl hzero => exact absurd (hzeros '+' hzero) (by decide)
        | inr hdigit => exact absurd (hdigits.2 '+' hdigit) (by decide)
      · rfl
    | inr hplus =>
      subst hplus
      rfl

theorem LooseGroup.no_colon {g : Text} (h : LooseGroup g) : ':' ∉ g := by
  obtain ⟨sign, zeros, digits, rfl, hsign, hzeros, hdigits⟩ := h
  intro hc
  cases List.mem_append.mp hc with
  | inl hc =>
    cases hsign with
    | inl hnone => simp [hnone] at hc
    | inr hplus => simp [hplus] at hc
  | inr hc =>
    cases List.mem_append.mp hc with
    | inl hzero => exact absurd (hzeros ':' hzero) (by decide)
    | inr hdigit => exact absurd (hdigits.2 ':' hdigit) (by decide)

/-- Groups without colons come apart again. -/
theorem SixGroups.split {groups : List Text} {s : Text} (h : SixGroups groups s)
    (hgroups : ∀ g ∈ groups, ':' ∉ g) : s.splitOn ':' = groups := by
  obtain ⟨hsix, rfl⟩ := h
  refine List.splitOn_intercalate ':' hgroups fun hnil => ?_
  rw [hnil] at hsix
  simp at hsix

theorem mapM_isSome {α β : Type} {f : α → Option β} {xs : List α} :
    (xs.mapM f).isSome ↔ ∀ x ∈ xs, (f x).isSome := by
  induction xs with
  | nil => simp
  | cons x xs ih =>
    rw [List.mapM_cons, List.forall_mem_cons, ← ih]
    cases f x with
    | none => simp
    | some b => cases xs.mapM f <;> simp

/-- What is accepted: six groups, each with its sign and its zeros. -/
theorem normalizeMac_isSome {s : Text} :
    (normalizeMac s).isSome ↔ ∃ groups, SixGroups groups s ∧ ∀ g ∈ groups, LooseGroup g := by
  have hgroups : (∃ groups, SixGroups groups s ∧ ∀ g ∈ groups, LooseGroup g) ↔
      (s.splitOn ':').length = 6 ∧ ∀ g ∈ s.splitOn ':', LooseGroup g := by
    constructor
    · intro h
      obtain ⟨groups, hsix, hloose⟩ := h
      rw [hsix.split fun g hg => (hloose g hg).no_colon]
      exact ⟨hsix.1, hloose⟩
    · intro h
      exact ⟨s.splitOn ':', ⟨h.1, (List.intercalate_splitOn ':').symm⟩, h.2⟩
  have hmapM : (∀ g ∈ s.splitOn ':', LooseGroup g) ↔
      ((s.splitOn ':').mapM fun g => (fromStrRadix 16 256 g).map UInt8.ofNat).isSome := by
    rw [mapM_isSome]
    exact forall₂_congr fun g _ => by rw [Option.isSome_map, fromStrRadix_isSome]
  rw [hgroups, hmapM, normalizeMac_eq_read, Option.isSome_map, Mac.read]
  cases hread : (s.splitOn ':').mapM fun g => (fromStrRadix 16 256 g).map UInt8.ofNat with
  | none => simp
  | some octets =>
    have hlength : octets.length = (s.splitOn ':').length := by
      have := congrArg List.length (mapM_values hread)
      rwa [List.length_map, List.length_map, eq_comm] at this
    by_cases h : octets.length = 6
    · simp [h, ← hlength]
    · simp [h, ← hlength]

/-- **Just the spellings are accepted**, but for the texts of six groups one of which has
a sign or a third place. -/
theorem normalizeMac_strict (s : Text) :
    ((normalizeMac s).isSome ↔ Spelled s) ↔
      ¬ ∃ groups, SixGroups groups s ∧ (∀ g ∈ groups, LooseGroup g) ∧ ∃ g ∈ groups, Overlong g := by
  rw [normalizeMac_isSome]
  constructor
  · intro hiff hodd
    obtain ⟨groups, hsix, hloose, g, hg, hover⟩ := hodd
    obtain ⟨groups', hsix', hspells⟩ := hiff.mp ⟨groups, hsix, hloose⟩
    have hsplit := hsix.split fun g hg => (hloose g hg).no_colon
    obtain rfl : groups = groups' :=
      hsplit.symm.trans (hsix'.split fun g hg => (hspells g hg).loose.no_colon)
    exact (hspells g hg).not_overlong hover
  · intro hodd
    constructor
    · intro h
      obtain ⟨groups, hsix, hloose⟩ := h
      refine ⟨groups, hsix, fun g hg => ?_⟩
      exact (hloose g hg).spells fun hover => hodd ⟨groups, hsix, hloose, g, hg, hover⟩
    · intro h
      obtain ⟨groups, hsix, hspells⟩ := h
      exact ⟨groups, hsix, fun g hg => (hspells g hg).loose⟩

/-- A sign and a third place are accepted; neither belongs to a hardware address. -/
theorem normalizeMac_loose :
    ¬ ((normalizeMac "+52:054:0:12:34:56".toList).isSome ↔ Spelled "+52:054:0:12:34:56".toList) := by
  intro h
  obtain ⟨groups, hsix, hspells⟩ := h.mp (by decide)
  have hsplit : "+52:054:0:12:34:56".toList.splitOn ':' = groups :=
    hsix.split fun g hg => (hspells g hg).loose.no_colon
  have hmem : "+52".toList ∈ "+52:054:0:12:34:56".toList.splitOn ':' := by decide
  exact (hspells _ (hsplit ▸ hmem)).not_overlong (Or.inl rfl)

end Malleus.Leases
