import Mathlib.Algebra.Group.Nat.Defs
import Malleus.Library.Strings

/-! Unsigned numbers and IPv4 addresses in text. -/
namespace Numbers
open Strings

/-- The value of a digit in a radix up to 36. -/
def toDigit (radix : Nat) (c : Char) : Option Nat :=
  let n := c.toNat
  let value :=
    if 48 ≤ n ∧ n ≤ 57 then some (n - 48)
    else if 97 ≤ n ∧ n ≤ 122 then some (n - 87)
    else if 65 ≤ n ∧ n ≤ 90 then some (n - 55)
    else none
  value.filter (· < radix)

/-- The digits of a number, one after the other onto what is read already. -/
def digitsOnto (radix : Nat) : Nat → Text → Option Nat
  | n, [] => some n
  | n, c :: rest =>
    match toDigit radix c with
    | some d => digitsOnto radix (radix * n + d) rest
    | none => none

/-- A number in full; an empty text is none. -/
def parseDigits (radix : Nat) (t : Text) : Option Nat :=
  if t = [] then none else digitsOnto radix 0 t

/-- The text behind a sign, which may stand once. -/
def stripPlus : Text → Text
  | '+' :: rest => rest
  | t => t

/-- An unsigned number below `bound`: at least one digit, after an optional plus sign. -/
def fromStrRadix (radix bound : Nat) (t : Text) : Option Nat :=
  (parseDigits radix (stripPlus t)).filter (· < bound)

/-- The digits of a number, without zeros before them. -/
def decimal (n : Nat) : Text := Nat.toDigits 10 n

/-- Two lower-case hexadecimal digits. -/
def hexPair (b : UInt8) : Text := [Nat.digitChar (b.toNat / 16), Nat.digitChar (b.toNat % 16)]

/-! ### Printing and parsing -/

theorem decimal_digits (n : Nat) : ∀ c ∈ decimal n, c.isDigit = true :=
  fun _ hc => Nat.isDigit_of_mem_toDigits (by decide) (by decide) hc

theorem isWhitespace_of_isDigit {c : Char} (h : c.isDigit = true) : isWhitespace c = false := by
  simp only [Char.isDigit, Bool.and_eq_true, decide_eq_true_eq, ge_iff_le,
    UInt32.le_iff_toNat_le] at h
  have hc : 48 ≤ c.toNat ∧ c.toNat ≤ 57 := h
  simp only [isWhitespace, Bool.or_eq_false_iff, Bool.and_eq_false_iff, beq_eq_false_iff_ne,
    decide_eq_false_iff_not]
  omega

theorem toDigit_of_isDigit {c : Char} (h : c.isDigit = true) :
    toDigit 10 c = some (c.toNat - '0'.toNat) := by
  have hr : 48 ≤ c.toNat ∧ c.toNat ≤ 57 := by
    simp only [Char.isDigit, Bool.and_eq_true, decide_eq_true_eq] at h
    exact ⟨UInt32.le_iff_toNat_le.mp h.1, UInt32.le_iff_toNat_le.mp h.2⟩
  have hlt : c.toNat - 48 < 10 := by omega
  simp only [toDigit, hr, and_self, if_true, Char.reduceToNat, Option.filter, hlt, decide_true]

theorem digitsOnto_isDigit {t : Text} (h : ∀ c ∈ t, c.isDigit = true) (n : Nat) :
    digitsOnto 10 n t = some (Nat.ofDigitChars 10 t n) := by
  induction t generalizing n with
  | nil => simp [digitsOnto]
  | cons c rest ih =>
    rw [digitsOnto, toDigit_of_isDigit (h c (List.mem_cons_self ..)), Nat.ofDigitChars_cons]
    exact ih (fun d hd => h d (List.mem_cons_of_mem c hd)) _

/-- What was read as a number consists of digits. -/
theorem digitsOnto_digits {radix n m : Nat} {t : Text} (h : digitsOnto radix n t = some m) :
    ∀ c ∈ t, (toDigit radix c).isSome := by
  induction t generalizing n with
  | nil => simp
  | cons c rest ih =>
    intro d hd
    rw [digitsOnto] at h
    cases hc : toDigit radix c with
    | none => simp [hc] at h
    | some v =>
      rw [hc] at h
      rcases List.mem_cons.mp hd with rfl | hd
      · rw [hc]
        rfl
      · exact ih h d hd

theorem parseDigits_digits {radix m : Nat} {t : Text} (h : parseDigits radix t = some m) :
    t ≠ [] ∧ ∀ c ∈ t, (toDigit radix c).isSome := by
  unfold parseDigits at h
  split at h
  · simp at h
  · next hne => exact ⟨hne, digitsOnto_digits h⟩

theorem toDigit_lt {radix d : Nat} {c : Char} (h : toDigit radix c = some d) : d < radix := by
  unfold toDigit at h
  simpa using (Option.filter_eq_some_iff.mp h).2

theorem toDigit_zero {radix : Nat} (hr : 0 < radix) : toDigit radix '0' = some 0 := by
  simp [toDigit, hr]

/-- Only the zero is worth nothing. -/
theorem toDigit_pos {radix d : Nat} {c : Char} (h : toDigit radix c = some d) (hc : c ≠ '0') : 0 < d := by
  have hne : c.toNat ≠ 48 := fun heq => hc (Char.toNat_inj.mp heq)
  unfold toDigit at h
  obtain ⟨h, _⟩ := Option.filter_eq_some_iff.mp h
  split at h
  · obtain rfl := Option.some.inj h
    omega
  split at h
  · obtain rfl := Option.some.inj h
    omega
  split at h
  · obtain rfl := Option.some.inj h
    omega
  · cases h

/-- Digits only add to what was read before them. -/
theorem le_digitsOnto {radix n m : Nat} {t : Text} (hr : 0 < radix) (h : digitsOnto radix n t = some m) :
    n ≤ m := by
  induction t generalizing n with
  | nil => exact (Option.some.inj h).le
  | cons c rest ih =>
    rw [digitsOnto] at h
    cases hc : toDigit radix c with
    | none => simp [hc] at h
    | some d =>
      rw [hc] at h
      have hn : n ≤ radix * n := Nat.le_mul_of_pos_left n hr
      have := ih h
      omega

/-- Leading zeros change nothing. -/
theorem digitsOnto_zeros {radix : Nat} (hr : 0 < radix) {zeros : Text} (h : ∀ c ∈ zeros, c = '0')
    (t : Text) : digitsOnto radix 0 (zeros ++ t) = digitsOnto radix 0 t := by
  induction zeros with
  | nil => rfl
  | cons c zeros ih =>
    obtain rfl := h c (List.mem_cons_self ..)
    rw [List.cons_append, digitsOnto, toDigit_zero hr]
    exact ih fun d hd => h d (List.mem_cons_of_mem _ hd)

/-- Three digits after the zeros are too many for two places. -/
theorem digitsOnto_long {radix m : Nat} {c c' c'' : Char} {t : Text} (hr : 0 < radix) (hc : c ≠ '0')
    (h : digitsOnto radix 0 (c :: c' :: c'' :: t) = some m) : radix * radix ≤ m := by
  have hdigits := digitsOnto_digits h
  obtain ⟨d, hd⟩ := Option.isSome_iff_exists.mp (hdigits c (by simp))
  obtain ⟨d', hd'⟩ := Option.isSome_iff_exists.mp (hdigits c' (by simp))
  obtain ⟨d'', hd''⟩ := Option.isSome_iff_exists.mp (hdigits c'' (by simp))
  rw [digitsOnto, hd] at h
  dsimp only at h
  rw [digitsOnto, hd'] at h
  dsimp only at h
  rw [digitsOnto, hd''] at h
  have hpos := toDigit_pos hd hc
  rw [Nat.mul_zero, Nat.zero_add] at h
  calc radix * radix ≤ radix * (radix * d) := Nat.mul_le_mul_left _ (Nat.le_mul_of_pos_right _ hpos)
    _ ≤ radix * (radix * d + d') := Nat.mul_le_mul_left _ (Nat.le_add_right ..)
    _ ≤ radix * (radix * d + d') + d'' := Nat.le_add_right ..
    _ ≤ m := le_digitsOnto hr h

/-- Without a sign, digits are all there is to a number. -/
theorem fromStrRadix_of_parseDigits {radix bound m : Nat} {t : Text}
    (h : parseDigits radix t = some m) (hm : m < bound) :
    fromStrRadix radix bound t = some m := by
  have hplus : stripPlus t = t := by
    unfold stripPlus
    split
    · next rest =>
      have hd := (parseDigits_digits h).2 '+' (List.mem_cons_self ..)
      simp [toDigit] at hd
    · rfl
  rw [fromStrRadix, hplus, h]
  simp [hm]

theorem hexPair_spells (b : UInt8) : (hexPair b).length = 2 ∧ parseDigits 16 (hexPair b) = some b.toNat := by
  have h : ∀ n : Fin 256, parseDigits 16 (hexPair (UInt8.ofNat n)) = some n.val := by decide +kernel
  refine ⟨rfl, ?_⟩
  have := h ⟨b.toNat, b.toNat_lt⟩
  simpa using this

theorem hexPair_injective {b c : UInt8} (h : hexPair b = hexPair c) : b = c := by
  have hb := (hexPair_spells b).2
  rw [h, (hexPair_spells c).2] at hb
  exact UInt8.toNat_inj.mp (Option.some.inj hb).symm

theorem decimal_ne_nil (n : Nat) : decimal n ≠ [] := by
  rw [decimal, Nat.toDigits_eq_if (by decide)]
  split <;> simp

@[simp] theorem parseDigits_decimal (n : Nat) : parseDigits 10 (decimal n) = some n := by
  rw [parseDigits, if_neg (decimal_ne_nil n), digitsOnto_isDigit (decimal_digits n)]
  simp [decimal]

/-- The first digits of a number are those of a quotient. -/
theorem take_decimal {n k : Nat} (hk : k < (decimal n).length) :
    (decimal n).take ((decimal n).length - k) = decimal (n / 10 ^ k) := by
  induction k generalizing n with
  | zero => rw [Nat.sub_zero, List.take_length, Nat.pow_zero, Nat.div_one]
  | succ k ih =>
    by_cases hn : 10 ≤ n
    · have hdigits : decimal n = decimal (n / 10) ++ [Nat.digitChar (n % 10)] :=
        Nat.toDigits_of_base_le (by decide) hn
      have hlength : (decimal n).length = (decimal (n / 10)).length + 1 := by simp [hdigits]
      have htake : (decimal (n / 10)).length - k ≤ (decimal (n / 10)).length := Nat.sub_le _ _
      rw [hlength, Nat.add_sub_add_right, hdigits, List.take_append_of_le_length htake, ih (by omega),
        Nat.div_div_eq_div_mul, Nat.pow_succ']
    · have hlength : (decimal n).length = 1 := by
        rw [decimal, Nat.toDigits_of_lt_base (by omega)]
        rfl
      omega

theorem stripPlus_decimal (n : Nat) : stripPlus (decimal n) = decimal n := by
  unfold stripPlus
  split
  · next rest heq =>
    have hc := decimal_digits n '+' (by rw [heq]; exact List.mem_cons_self ..)
    exact absurd hc (by decide)
  · rfl

/-- A number below the bound reads back. -/
theorem fromStrRadix_decimal {bound n : Nat} (h : n < bound) :
    fromStrRadix 10 bound (decimal n) = some n := by
  rw [fromStrRadix, stripPlus_decimal, parseDigits_decimal]
  simp [h]

/-! ### IPv4 addresses -/

/-- `std::net::Ipv4Addr`. -/
structure Ipv4Addr where
  a : UInt8
  b : UInt8
  c : UInt8
  d : UInt8
  deriving DecidableEq, Repr

namespace Ipv4Addr

def octets (ip : Ipv4Addr) : List UInt8 := [ip.a, ip.b, ip.c, ip.d]

/-- `Display`: the octets between dots. -/
def toText (ip : Ipv4Addr) : Text := ['.'].intercalate (ip.octets.map fun o => decimal o.toNat)

/-- One to three digits, no leading zero, at most 255. -/
def parseOctet (t : Text) : Option UInt8 :=
  if t.length ≤ 3 ∧ (t.head? = some '0' → t.length = 1) then
    ((parseDigits 10 t).filter (· < 256)).map UInt8.ofNat
  else none

/-- `FromStr`: four octets between dots, and nothing around them. -/
def parse (t : Text) : Option Ipv4Addr :=
  match (t.splitOn '.').mapM parseOctet with
  | some [a, b, c, d] => some ⟨a, b, c, d⟩
  | _ => none

theorem octet_length (o : UInt8) : (decimal o.toNat).length ≤ 3 ∧
    ((decimal o.toNat).head? = some '0' → (decimal o.toNat).length = 1) := by
  have h : ∀ n : Fin 256, (decimal n).length ≤ 3 ∧
      ((decimal n).head? = some '0' → (decimal n).length = 1) := by decide +kernel
  exact h ⟨o.toNat, o.toNat_lt⟩

@[simp] theorem parseOctet_decimal (o : UInt8) : parseOctet (decimal o.toNat) = some o := by
  have hlt : o.toNat < 256 := o.toNat_lt
  rw [parseOctet, if_pos (octet_length o), parseDigits_decimal]
  simp [Option.filter, hlt]

theorem dot_not_mem_decimal (n : Nat) : '.' ∉ decimal n :=
  fun h => absurd (decimal_digits n '.' h) (by decide)

/-- An address reads back. -/
@[simp] theorem parse_toText (ip : Ipv4Addr) : parse ip.toText = some ip := by
  have hs : ip.toText.splitOn '.' = ip.octets.map fun o => decimal o.toNat := by
    refine List.splitOn_intercalate '.' (fun l hl => ?_) (by simp [octets])
    obtain ⟨o, _, rfl⟩ := List.mem_map.mp hl
    exact dot_not_mem_decimal _
  simp [parse, hs, octets]

theorem toText_ne_nil (ip : Ipv4Addr) : ip.toText ≠ [] := by
  intro hnil
  have hparse := ip.parse_toText
  rw [hnil] at hparse
  exact absurd hparse (by simp [parse, parseOctet, parseDigits])

theorem toText_chars (ip : Ipv4Addr) : ∀ c ∈ ip.toText, c.isDigit = true ∨ c = '.' := by
  intro c hc
  have hd := decimal_digits
  simp only [toText, octets, List.map, List.intercalate_cons_cons, List.intercalate_singleton,
    List.mem_append, List.mem_singleton] at hc
  rcases hc with ((h | h) | (h | h) | (h | h) | h)
  all_goals first
    | exact Or.inl (hd _ c h)
    | exact Or.inr h

theorem toText_no_space (ip : Ipv4Addr) : ∀ c ∈ ip.toText, isWhitespace c = false := by
  intro c hc
  cases ip.toText_chars c hc with
  | inl hdigit => exact isWhitespace_of_isDigit hdigit
  | inr hdot =>
    subst hdot
    decide

end Ipv4Addr

end Numbers
