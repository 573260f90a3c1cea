import Malleus.LeaseRecords

/-! One table of addresses, as the ARP table's lines and as a lease file's records.

The two are read by different code. `lookups_agree` says that both lookups give the
address of the first pair with the wanted octets, whatever the spelling and whatever
lines about unresolved hosts stand in between. -/
namespace Malleus.Leases
open Strings Numbers

/-! ### Lines -/

/-- A resolved host as `arp -an` prints it. -/
def pairLine (ip : Ipv4Addr) (mac rest : Text) : Text :=
  "? (".toList ++ ip.toText ++ ") at ".toList ++ mac ++ " on ".toList ++ rest

/-- The line has no hardware address in fourth place: its host is unresolved, or it is short. -/
def isUnresolved (line : Text) : Bool :=
  match words isAsciiWhitespace line with
  | _ :: _ :: _ :: mac :: _ => (normalizeMac mac).isNone
  | _ => true

/-- The lines show the pairs of the table, in order. -/
inductive Prints : List (Ipv4Addr × Mac) → List Text → Prop
  | done : Prints [] []
  | pair {ip : Ipv4Addr} {m : Mac} {mac : Text} {table : List (Ipv4Addr × Mac)} {ls : List Text}
      (hmac : SpellsMac m mac) (rest : Text) (h : Prints table ls) :
      Prints ((ip, m) :: table) (pairLine ip mac rest :: ls)
  | unresolved {line : Text} {table : List (Ipv4Addr × Mac)} {ls : List Text}
      (hline : isUnresolved line = true) (h : Prints table ls) : Prints table (line :: ls)

/-! ### Reading -/

theorem SpellsMac.no_space {m : Mac} {t : Text} (h : SpellsMac m t) :
    ∀ c ∈ t, isAsciiWhitespace c = false :=
  fun c hc => isAsciiWhitespace_eq_false (P := fun d => (toDigit 16 d).isSome ∨ d = ':') (h.chars c hc) (by decide)

/-- The address between its parentheses. -/
def inParentheses (ip : Ipv4Addr) : Text := '(' :: (ip.toText ++ [')'])

theorem inParentheses_ne_nil (ip : Ipv4Addr) : inParentheses ip ≠ [] := List.cons_ne_nil _ _

theorem inParentheses_no_space (ip : Ipv4Addr) : ∀ c ∈ inParentheses ip, isAsciiWhitespace c = false := by
  intro c hc
  rw [inParentheses, List.mem_cons, List.mem_append, List.mem_singleton] at hc
  obtain rfl | hc | rfl := hc
  · decide
  · exact isAsciiWhitespace_of_isWhitespace (ip.toText_no_space c hc)
  · decide

theorem isParenthesis_toText (ip : Ipv4Addr) : ∀ c ∈ ip.toText, isParenthesis c = false := by
  intro c hc
  rw [Bool.eq_false_iff]
  intro hparen
  have hchar := ip.toText_chars c hc
  simp only [isParenthesis, Bool.or_eq_true, beq_iff_eq] at hparen
  obtain rfl | rfl := hparen
  all_goals exact absurd hchar (by decide)

theorem trim_inParentheses (ip : Ipv4Addr) :
    trimEndBy isParenthesis ((inParentheses ip).dropWhile isParenthesis) = ip.toText := by
  have hinner := isParenthesis_toText ip
  have hdrop : (inParentheses ip).dropWhile isParenthesis = ip.toText ++ [')'] := by
    rw [inParentheses, List.dropWhile_cons_of_pos (by decide)]
    cases hip : ip.toText with
    | nil => exact absurd hip ip.toText_ne_nil
    | cons c t =>
      rw [List.cons_append, List.dropWhile_cons_of_neg (by simp [hinner c (by simp [hip])])]
  rw [hdrop]
  exact trimEndBy_append (by simp [isParenthesis]) fun c hc => hinner c (List.mem_of_getLast? hc)

theorem spaced {before ip between at_ mac after on : Text} (hbefore : before = ['?', ' ', '('])
    (hbetween : between = ')' :: ' ' :: (at_ ++ [' '])) (hafter : after = ' ' :: on) (rest : Text) :
    before ++ ip ++ between ++ mac ++ after ++ rest =
      ['?'] ++ ' ' :: ('(' :: (ip ++ [')']) ++ ' ' :: (at_ ++ ' ' :: (mac ++ ' ' :: (on ++ rest)))) := by
  rw [hbefore, hbetween, hafter]
  simp only [List.append_assoc, List.cons_append, List.nil_append]

/-- The first four words of a resolved host's line. -/
theorem words_pairLine {m : Mac} {mac : Text} (hmac : SpellsMac m mac) (ip : Ipv4Addr) (rest : Text) :
    words isAsciiWhitespace (pairLine ip mac rest) =
      ['?'] :: inParentheses ip :: "at".toList :: mac :: words isAsciiWhitespace ("on ".toList ++ rest) := by
  have hspace : isAsciiWhitespace ' ' = true := by decide
  have hline : pairLine ip mac rest = ['?'] ++ ' ' :: (inParentheses ip ++ ' ' ::
      ("at".toList ++ ' ' :: (mac ++ ' ' :: ("on ".toList ++ rest)))) :=
    spaced (by decide) (by decide) (by decide) rest
  have hmark : words isAsciiWhitespace ['?'] = [['?']] := by decide
  have hat : words isAsciiWhitespace "at".toList = ["at".toList] := by decide
  rw [hline, words_append_cons hspace, words_append_cons hspace, words_append_cons hspace,
    words_append_cons hspace, hmark, hat,
    words_singleton (inParentheses_ne_nil ip) (inParentheses_no_space ip),
    words_singleton hmac.ne_nil hmac.no_space]
  rfl

/-- A line of the table gives the address of the machine that is looked for, in any spelling. -/
theorem arpLine_pair {m wanted : Mac} {mac : Text} (hmac : SpellsMac m mac) (ip : Ipv4Addr) (rest : Text) :
    arpLine wanted.canonical (pairLine ip mac rest) = if m = wanted then some ip else none := by
  rw [arpLine, words_pairLine hmac]
  dsimp only
  rw [normalizeMac_spells hmac, trim_inParentheses, Ipv4Addr.parse_toText]
  by_cases h : m = wanted
  · rw [if_pos h, if_pos ⟨rfl, by rw [h]⟩]
  · rw [if_neg h, if_neg fun heq => h (Mac.canonical_injective (Option.some.inj heq.2))]

/-- A line without a hardware address gives nothing. -/
theorem arpLine_unresolved {line : Text} (h : isUnresolved line = true) (wanted : Text) :
    arpLine wanted line = none := by
  unfold isUnresolved at h
  unfold arpLine
  split
  · next hwords =>
    rw [hwords] at h
    rw [if_neg fun heq => by simp [heq.2] at h]
  · rfl

/-- The search goes by the pairs. -/
theorem findSome_prints {table : List (Ipv4Addr × Mac)} {ls : List Text} (h : Prints table ls)
    (wanted : Mac) : ls.findSome? (arpLine wanted.canonical) =
      (table.find? fun p => decide (p.2 = wanted)).map Prod.fst := by
  induction h with
  | done => rfl
  | @pair ip m mac table ls hmac rest _ ih =>
    rw [List.findSome?_cons, arpLine_pair hmac, List.find?_cons]
    by_cases hm : m = wanted
    · simp [hm]
    · simp [hm, ih]
  | unresolved hline _ ih => rw [List.findSome?_cons, arpLine_unresolved hline, ih]

/-! ### Both lookups -/

/-- Without octets there is nothing to find in a lease file. -/
theorem findLease_malformed {mac : Text} (h : Mac.read mac = none) (contents : Text) :
    findLease contents mac none = none := by
  have hanswer : ∀ r, answer none none r = none := by
    intro r
    have hmac : r.any (namesMac none) = false := by
      rw [List.any_eq_false]
      intro word _
      rw [namesMac]
      cases macOf word <;> simp
    have hname : r.any (hitsName none) = false := by
      rw [List.any_eq_false]
      intro word _
      rw [hitsName]
      cases field word <;> simp [matchesName]
    rw [answer, hmac, hname]
    rfl
  rw [findLease_records, h, List.findSome?_eq_none_iff]
  exact fun r _ => hanswer r

/-- **The ARP table and the lease file are searched alike**: whatever is wanted, both
lookups give the first pair of the table with the wanted octets. -/
theorem lookups_agree {table : List (Ipv4Addr × Mac)} {leases : List Lease} {arpText leaseText : Text}
    (harp : Prints table (lines arpText)) (hleases : leases.map (fun l => (l.ip, l.mac)) = table)
    (hrenders : Renders leases leaseText) (mac : Text) :
    findInArp arpText mac = findLease leaseText mac none ∧
      findLease leaseText mac none =
        (table.find? fun p => decide (some p.2 = Mac.read mac)).map Prod.fst := by
  cases hread : Mac.read mac with
  | none =>
    have hnorm : normalizeMac mac = none := by rw [normalizeMac_eq_read, hread]; rfl
    have hfind : table.find? (fun p => decide (some p.2 = none)) = none := by simp
    rw [findInArp, hnorm, findLease_malformed hread, hfind]
    exact ⟨rfl, rfl⟩
  | some wanted =>
    have hnorm : normalizeMac mac = some wanted.canonical := by rw [normalizeMac_eq_read, hread]; rfl
    have hlease : findLease leaseText mac none =
        (table.find? fun p => decide (p.2 = wanted)).map Prod.fst := by
      rw [findLease_octets hrenders hnorm, ← hleases, List.find?_map, Option.map_map]
      simp only [Lease.Matches, Option.isSome_none, Bool.false_eq_true, false_and, or_false]
      rfl
    have hsearch : findInArp arpText mac = (lines arpText).findSome? (arpLine wanted.canonical) := by
      rw [findInArp, hnorm]
      rfl
    simp only [Option.some.injEq]
    exact ⟨by rw [hsearch, findSome_prints harp, hlease], hlease⟩

/-- An unresolved host and an empty line before the pair, and another spelling in the lease file. -/
def sampleArp : Text :=
  ("? (192.168.64.7) at (incomplete) on bridge100 ifscope [bridge]\n\n" ++
    "? (192.168.64.5) at 52:54:00:12:34:56 on bridge100 ifscope [ethernet]\n").toList

theorem lookups_agree_sample :
    findInArp sampleArp "52:54:0:12:34:56".toList = findLease sampleText "52:54:0:12:34:56".toList none := by
  have hlines : lines sampleArp =
      ["? (192.168.64.7) at (incomplete) on bridge100 ifscope [bridge]".toList, [],
        pairLine ⟨192, 168, 64, 5⟩ "52:54:00:12:34:56".toList "bridge100 ifscope [ethernet]".toList] := by
    decide +kernel
  have hprints : Prints [(⟨192, 168, 64, 5⟩, sampleMac)] (lines sampleArp) := by
    rw [hlines]
    exact .unresolved (by decide +kernel) (.unresolved (by decide) (.pair sampleMac_padded _ .done))
  exact (lookups_agree hprints rfl sample_renders _).1

end Malleus.Leases
