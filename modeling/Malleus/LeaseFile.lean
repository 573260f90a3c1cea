import Mathlib.Data.List.Forall2
import Malleus.Leases

/-! Lease files with well-formed records.

A record has an address, a hardware address, perhaps a host name and a client
identifier, and any other fields. It may be written in any order of its fields,
with any white space between the words, the octets in any hexadecimal spelling
and punctuation after the values; `findLease_renders` says that the search then
gives the address of the first record that matches. -/
namespace Malleus.Leases
open Strings Numbers

/-! ### Hardware addresses -/

/-- Six octets. -/
structure Mac where
  octets : List UInt8
  six : octets.length = 6
  deriving DecidableEq, Repr

/-- One or two hexadecimal digits: a leading zero may be left out. -/
def SpellsOctet (b : UInt8) (t : Text) : Prop := t.length ≤ 2 ∧ parseDigits 16 t = some b.toNat

instance (b : UInt8) (t : Text) : Decidable (SpellsOctet b t) := inferInstanceAs (Decidable (_ ∧ _))

/-- Octets between colons, each in one of its spellings. -/
def SpellsMac (m : Mac) (t : Text) : Prop :=
  ∃ parts, List.Forall₂ SpellsOctet m.octets parts ∧ t = [':'].intercalate parts

/-- Six pairs of lower-case digits. -/
def Mac.canonical (m : Mac) : Text := [':'].intercalate (m.octets.map hexPair)

theorem SpellsOctet.no_colon {b : UInt8} {t : Text} (h : SpellsOctet b t) : ':' ∉ t := fun hc =>
  absurd ((parseDigits_digits h.2).2 ':' hc) (by decide)

theorem spellsOctet_hexPair (b : UInt8) : SpellsOctet b (hexPair b) :=
  ⟨(hexPair_spells b).1.le, (hexPair_spells b).2⟩

/-- Two pairs of digits for each octet leave nothing open. -/
theorem Mac.canonical_injective {m m' : Mac} (h : m.canonical = m'.canonical) : m = m' := by
  have hsplit : ∀ m : Mac, m.canonical.splitOn ':' = m.octets.map hexPair := by
    intro m
    refine List.splitOn_intercalate ':' (fun t ht => ?_) fun hnil => ?_
    · obtain ⟨b, _, rfl⟩ := List.mem_map.mp ht
      exact (spellsOctet_hexPair b).no_colon
    · have := congrArg List.length hnil
      simp [m.six] at this
  have hoctets := congrArg (List.splitOn ':') h
  rw [hsplit, hsplit] at hoctets
  obtain ⟨o, _⟩ := m
  obtain ⟨o', _⟩ := m'
  obtain rfl : o = o' := List.map_injective_iff.mpr (fun _ _ => hexPair_injective) hoctets
  rfl

theorem mapM_spells {octets : List UInt8} {parts : List Text}
    (h : List.Forall₂ SpellsOctet octets parts) :
    parts.mapM (fun part => (fromStrRadix 16 256 part).map fun byte => hexPair (UInt8.ofNat byte)) =
      some (octets.map hexPair) := by
  induction h with
  | nil => rfl
  | cons hpart _ ih =>
    rw [List.mapM_cons, ih, fromStrRadix_of_parseDigits hpart.2 (UInt8.toNat_lt _)]
    simp

/-- Every spelling is accepted and rewritten to the same text. -/
theorem normalizeMac_spells {m : Mac} {t : Text} (h : SpellsMac m t) :
    normalizeMac t = some m.canonical := by
  obtain ⟨parts, hparts, rfl⟩ := h
  have hlen : parts.length = 6 := hparts.length_eq ▸ m.six
  have hcolon : ∀ part ∈ parts, ':' ∉ part := by
    have hall := List.forall₂_iff_get.mp hparts
    intro part hp
    obtain ⟨i, hi, rfl⟩ := List.getElem_of_mem hp
    exact (hall.2 i (by omega) hi).no_colon
  have hsplit : ([':'].intercalate parts).splitOn ':' = parts :=
    List.splitOn_intercalate ':' hcolon fun hnil => by simp [hnil] at hlen
  rw [normalizeMac, hsplit, mapM_spells hparts]
  simp [Mac.canonical, m.six]

/-! ### Layout -/

/-- Neither white space nor a brace. -/
def Clean (t : Text) : Prop := ∀ c ∈ t, isAsciiWhitespace c = false ∧ c ≠ '{' ∧ c ≠ '}'

instance (t : Text) : Decidable (Clean t) := List.decidableBAll _ t

/-- Any run of white space, or none. -/
def Gap (t : Text) : Prop := ∀ c ∈ t, isAsciiWhitespace c = true

instance (t : Text) : Decidable (Gap t) := List.decidableBAll _ t

/-- Nothing follows a word directly but white space or a brace. -/
def Apart (t : Text) : Prop := ∀ c ∈ t.head?, isAsciiWhitespace c = true ∨ c = '{' ∨ c = '}'

instance (t : Text) : Decidable (Apart t) := Option.decidableForallMem t.head?

/-- A text that shows the words: white space between them wherever, and somewhere
between any two that are not braces. -/
inductive Layout : List Text → Text → Prop
  | done {gap : Text} (hgap : Gap gap) : Layout [] gap
  | brace {gap : Text} {c : Char} {ws : List Text} {text : Text} (hgap : Gap gap)
      (hc : c = '{' ∨ c = '}') (h : Layout ws text) : Layout ([c] :: ws) (gap ++ c :: text)
  | word {gap w : Text} {ws : List Text} {text : Text} (hgap : Gap gap) (hw : w ≠ [])
      (hclean : Clean w) (hapart : Apart text) (h : Layout ws text) :
      Layout (w :: ws) (gap ++ (w ++ text))

@[simp] theorem pad_append (t u : Text) : pad (t ++ u) = pad t ++ pad u := List.flatMap_append

theorem pad_clean {t : Text} (h : ∀ c ∈ t, c ≠ '{' ∧ c ≠ '}') : pad t = t := by
  induction t with
  | nil => rfl
  | cons c t ih =>
    obtain ⟨hopen, hclose⟩ := h c (List.mem_cons_self ..)
    have hc : pad (c :: t) = c :: pad t := by simp [pad, hopen, hclose]
    rw [hc, ih fun d hd => h d (List.mem_cons_of_mem c hd)]

theorem pad_brace {c : Char} (hc : c = '{' ∨ c = '}') (t : Text) :
    pad (c :: t) = ' ' :: c :: ' ' :: pad t := by
  simp [pad, hc]

theorem Gap.pad {g : Text} (h : Gap g) : Leases.pad g = g := by
  refine pad_clean fun c hc => ⟨?_, ?_⟩ <;> rintro rfl
  · exact absurd (h _ hc) (by decide)
  · exact absurd (h _ hc) (by decide)

/-- The words that a layout shows are the words that are read. -/
theorem tokens_layout {ws : List Text} {text : Text} (h : Layout ws text) : tokens text = ws := by
  induction h with
  | done hgap =>
    rw [tokens, hgap.pad]
    have := words_gap hgap []
    simpa using this
  | @brace gap c ws text hgap hc _ ih =>
    have hword : words isAsciiWhitespace [c] = [[c]] := by
      rcases hc with rfl | rfl <;> decide
    have hsplit := words_append_cons (show isAsciiWhitespace ' ' = true by decide) [c] (pad text)
    rw [tokens, pad_append, hgap.pad, words_gap hgap, pad_brace hc, words_cons (by decide)]
    rw [hword] at hsplit
    exact hsplit.trans (congrArg _ ih)
  | @word gap w ws text hgap hw hclean hapart _ ih =>
    have hpad : pad w = w := pad_clean fun c hc => (hclean c hc).2
    have hword : words isAsciiWhitespace w = [w] := words_singleton hw fun c hc => (hclean c hc).1
    rw [tokens, pad_append, pad_append, hgap.pad, words_gap hgap, hpad]
    rw [tokens] at ih
    cases text with
    | nil =>
      rw [show pad [] = [] from rfl, List.append_nil, hword, ← ih]
      simp [pad]
    | cons c rest =>
      -- the padded rest starts with white space, which ends the word
      obtain ⟨d, u, hu, hd⟩ : ∃ d u, pad (c :: rest) = d :: u ∧ isAsciiWhitespace d = true := by
        rcases hapart c rfl with hc | hc
        · refine ⟨c, pad rest, ?_, hc⟩
          rw [← List.singleton_append, pad_append, Gap.pad (by simpa [Gap] using hc)]
          rfl
        · exact ⟨' ', _, pad_brace hc rest, by decide⟩
      rw [hu] at ih ⊢
      rw [words_append_cons hd, hword, ← ih, words_cons hd]
      rfl

/-! ### Records -/

/-- What the client called itself: the hardware address again, or something that
is not one. -/
inductive Identifier where
  | hardware
  | foreign (value : Text)
  deriving DecidableEq, Repr

/-- The keys that the search knows. -/
def keys : List Text :=
  ["ip_address".toList, "hw_address".toList, "identifier".toList, "name".toList]

/-- A record as it is meant: what it says of a machine, without its layout. Neither a name nor
an identifier is one that the search would read in another way. -/
structure Lease where
  ip : Ipv4Addr
  mac : Mac
  name : Option Text
  identifier : Option Identifier
  others : List (Text × Text)
  name_ends : ∀ n, name = some n → ∀ c ∈ n.getLast?, isTrailing c = false
  identifier_foreign : ∀ value, identifier = some (.foreign value) →
    normalizeMac (afterComma (trimEndBy isTrailing value)) = none
  others_keys : ∀ entry ∈ others, '=' ∉ entry.1 ∧ entry.1 ∉ keys

/-- One `key=value` of a record. -/
inductive Field where
  | address (ip : Ipv4Addr)
  | hardware (key : Text) (mac : Mac)
  | host (name : Text)
  | foreign (value : Text)
  | other (key value : Text)

def Field.key : Field → Text
  | address _ => "ip_address".toList
  | hardware key _ => key
  | host _ => "name".toList
  | foreign _ => "identifier".toList
  | other key _ => key

theorem key_address (ip : Ipv4Addr) : (Field.address ip).key = "ip_address".toList := rfl

theorem key_host (name : Text) : (Field.host name).key = "name".toList := rfl

def identifierField (mac : Mac) : Identifier → Field
  | .hardware => .hardware "identifier".toList mac
  | .foreign value => .foreign value

/-- The fields of a record, in no particular order: a file has them in any. -/
def Lease.fields (l : Lease) : List Field :=
  .address l.ip :: .hardware "hw_address".toList l.mac ::
    ((l.name.map Field.host).toList ++ (l.identifier.map (identifierField l.mac)).toList ++
      l.others.map fun entry => .other entry.1 entry.2)

/-- A hardware address may be preceded by a type and a comma. -/
inductive SpellsValue : Field → Text → Prop
  | address (ip : Ipv4Addr) : SpellsValue (.address ip) ip.toText
  | hardware {key : Text} {mac : Mac} {t : Text} (h : SpellsMac mac t) :
      SpellsValue (.hardware key mac) t
  | typed {key kind : Text} {mac : Mac} {t : Text} (hkind : ',' ∉ kind) (h : SpellsMac mac t) :
      SpellsValue (.hardware key mac) (kind ++ ',' :: t)
  | host (name : Text) : SpellsValue (.host name) name
  | foreign (value : Text) : SpellsValue (.foreign value) value
  | other (key value : Text) : SpellsValue (.other key value) value

/-- A word for the field: any `;` and `,` may follow the value. -/
inductive SpellsField (f : Field) : Text → Prop
  | mk {value tail : Text} (h : SpellsValue f value) (htail : ∀ c ∈ tail, isTrailing c = true) :
      SpellsField f (f.key ++ '=' :: (value ++ tail))

theorem SpellsField.equals {f : Field} {w : Text} (h : SpellsField f w) : '=' ∈ w := by
  obtain ⟨_, _⟩ := h
  simp

/-- The words of a record, its fields in any order. -/
def SpellsLease (l : Lease) (ws : List Text) : Prop :=
  ∃ fs : List Field, fs.Perm l.fields ∧ List.Forall₂ SpellsField fs ws

/-- The text shows the records one after the other, each between braces. -/
def Renders (leases : List Lease) (text : Text) : Prop :=
  ∃ wss : List (List Text), List.Forall₂ SpellsLease leases wss ∧
    Layout (wss.flatMap fun ws => ['{'] :: (ws ++ [['}']])) text

def Lease.Matches (wanted : Mac) (name : Option Text) (l : Lease) : Prop :=
  l.mac = wanted ∨ (name.isSome ∧ l.name = name)

instance (wanted : Mac) (name : Option Text) (l : Lease) : Decidable (l.Matches wanted name) :=
  inferInstanceAs (Decidable (_ ∨ _))

/-! ### What a field says -/

/-- What a record's fields have to be for their words to mean what they say. -/
def Field.Valid : Field → Prop
  | address _ => True
  | hardware key _ => key = "hw_address".toList ∨ key = "identifier".toList
  | host name => ∀ c ∈ name.getLast?, isTrailing c = false
  | foreign value => normalizeMac (afterComma (trimEndBy isTrailing value)) = none
  | other key _ => '=' ∉ key ∧ key ∉ keys

/-- The address that a field gives, if it is the field of one. -/
def Field.ip : Field → Option (Option Ipv4Addr)
  | address ip => some (some ip)
  | _ => none

def Field.hasMac (wanted : Mac) : Field → Bool
  | hardware _ mac => mac = wanted
  | _ => false

def Field.hasName (name : Option Text) : Field → Bool
  | host n => some n = name
  | _ => false

theorem Lease.fields_valid (l : Lease) : ∀ f ∈ l.fields, f.Valid := by
  intro f hf
  simp only [fields, List.mem_cons, List.mem_append, Option.mem_toList, Option.map_eq_some_iff,
    List.mem_map] at hf
  rcases hf with rfl | rfl | (⟨n, hn, rfl⟩ | ⟨i, hi, rfl⟩) | ⟨entry, hentry, rfl⟩
  · trivial
  · exact Or.inl rfl
  · exact l.name_ends n hn
  · cases i with
    | hardware => exact Or.inr rfl
    | foreign value => exact l.identifier_foreign value hi
  · exact l.others_keys entry hentry

theorem SpellsMac.chars {m : Mac} {t : Text} (h : SpellsMac m t) :
    ∀ c ∈ t, (toDigit 16 c).isSome ∨ c = ':' := by
  obtain ⟨parts, hparts, rfl⟩ := h
  intro c hc
  rcases mem_intercalate hc with hc | ⟨part, hpart, hc⟩
  · exact Or.inr hc
  · obtain ⟨i, hi, rfl⟩ := List.getElem_of_mem hpart
    have hspells := (List.forall₂_iff_get.mp hparts).2 i (hparts.length_eq ▸ hi) hi
    exact Or.inl ((parseDigits_digits hspells.2).2 c hc)

theorem SpellsMac.no_comma {m : Mac} {t : Text} (h : SpellsMac m t) : ',' ∉ t := fun hc =>
  absurd (h.chars ',' hc) (by decide)

theorem SpellsMac.ne_nil {m : Mac} {t : Text} (h : SpellsMac m t) : t ≠ [] := by
  intro heq
  subst heq
  have hsome := normalizeMac_spells h
  rw [show normalizeMac [] = none by decide] at hsome
  simp at hsome

theorem SpellsMac.trailing {m : Mac} {t : Text} (h : SpellsMac m t) :
    ∀ c ∈ t.getLast?, isTrailing c = false := by
  intro c hc
  have := h.chars c (List.mem_of_getLast? hc)
  by_contra ht
  simp only [isTrailing, Bool.not_eq_false, Bool.or_eq_true, beq_iff_eq] at ht
  rcases ht with rfl | rfl <;> exact absurd this (by decide)

/-- A hardware address, with its type or without, is read as its octets. -/
theorem matchesMac_canonical {m wanted : Mac} {t : Text} (h : SpellsMac m t) :
    matchesMac (some wanted.canonical) t = decide (m = wanted) := by
  have hcomma : afterComma t = t := by rw [afterComma, splitOnce_eq_none h.no_comma]
  rw [matchesMac, hcomma, normalizeMac_spells h]
  simp only [Option.some.injEq, decide_eq_decide]
  exact ⟨Mac.canonical_injective, fun h => h ▸ rfl⟩

/-- The type before the comma has no say. -/
theorem matchesMac_typed {m wanted : Mac} {kind t : Text} (hkind : ',' ∉ kind) (h : SpellsMac m t) :
    matchesMac (some wanted.canonical) (kind ++ ',' :: t) = decide (m = wanted) := by
  have hcomma : afterComma (kind ++ ',' :: t) = t := by rw [afterComma, splitOnce_append hkind]
  rw [← matchesMac_canonical h, matchesMac, matchesMac, hcomma, afterComma, splitOnce_eq_none h.no_comma]

theorem Ipv4Addr.trailing (ip : Ipv4Addr) : ∀ c ∈ ip.toText.getLast?, isTrailing c = false := by
  intro c hc
  have := ip.toText_chars c (List.mem_of_getLast? hc)
  by_contra ht
  simp only [isTrailing, Bool.not_eq_false, Bool.or_eq_true, beq_iff_eq] at ht
  rcases ht with rfl | rfl <;> exact absurd this (by decide)

theorem Field.Valid.no_equals {f : Field} (hf : f.Valid) : '=' ∉ f.key := by
  cases f with
  | address => exact (by decide : '=' ∉ "ip_address".toList)
  | hardware key =>
    rcases hf with rfl | rfl
    · exact (by decide : '=' ∉ "hw_address".toList)
    · exact (by decide : '=' ∉ "identifier".toList)
  | host => exact (by decide : '=' ∉ "name".toList)
  | foreign => exact (by decide : '=' ∉ "identifier".toList)
  | other key => exact hf.1

section Says
variable {f : Field} {w : Text} (hf : f.Valid) (h : SpellsField f w)
include hf h

/-- A word gives the address of the field that it spells, and no other word gives one. -/
theorem ipOf_spells : ipOf w = f.ip := by
  obtain ⟨hv, htail⟩ := h
  rw [ipOf_written hf.no_equals htail]
  cases hv with
  | address ip =>
    rw [key_address, if_pos rfl, trimEndBy_of_getLast (Ipv4Addr.trailing ip), Ipv4Addr.parse_toText]
    rfl
  | hardware | typed => rcases hf with rfl | rfl <;> rfl
  | host => rfl
  | foreign => rfl
  | other key =>
    refine if_neg fun heq => hf.2 ?_
    rw [show key = _ from heq]
    decide

theorem hitsName_spells (name : Option Text) : hitsName name w = f.hasName name := by
  obtain ⟨hv, htail⟩ := h
  rw [hitsName_written hf.no_equals htail]
  cases hv with
  | address ip => rfl
  | hardware | typed => rcases hf with rfl | rfl <;> rfl
  | host n =>
    rw [key_host, trimEndBy_of_getLast hf, decide_eq_true rfl, Bool.true_and]
    cases name with
    | none => rfl
    | some wantedName => simp [matchesName, Field.hasName]
  | foreign => rfl
  | other key =>
    have hne : key ≠ "name".toList := fun heq => hf.2 (by rw [heq]; decide)
    rw [show (Field.other key _).key = key from rfl, decide_eq_false hne, Bool.false_and]
    rfl

theorem hitsMac_spells (wanted : Mac) : hitsMac (some wanted.canonical) w = f.hasMac wanted := by
  obtain ⟨hv, htail⟩ := h
  rw [hitsMac_written hf.no_equals htail]
  cases hv with
  | address ip => rfl
  | hardware h =>
    rw [trimEndBy_of_getLast h.trailing, matchesMac_canonical h]
    rcases hf with rfl | rfl <;> rfl
  | typed hkind h =>
    rw [trimEndBy_of_getLast, matchesMac_typed hkind h]
    · rcases hf with rfl | rfl <;> rfl
    · rw [List.getLast?_append, List.getLast?_cons]
      obtain ⟨c, hc⟩ := Option.isSome_iff_exists.mp (List.getLast?_isSome.mpr h.ne_nil)
      simpa [hc] using h.trailing c hc
  | host n => rfl
  | foreign =>
    rename_i value _
    have hno : matchesMac (some wanted.canonical) (trimEndBy isTrailing value) = false := by
      rw [matchesMac, show normalizeMac _ = none from hf]
      rfl
    rw [hno, Bool.and_false]
    rfl
  | other key =>
    have hhw : key ≠ "hw_address".toList := fun heq => hf.2 (by rw [heq]; decide)
    have hid : key ≠ "identifier".toList := fun heq => hf.2 (by rw [heq]; decide)
    rw [show (Field.other key _).key = key from rfl, decide_eq_false hhw, decide_eq_false hid]
    rfl

end Says

/-! ### What a record says -/

theorem fields_ip (l : Lease) : l.fields.filterMap Field.ip = [some l.ip] := by
  obtain ⟨ip, mac, name, identifier, others, _, _, _⟩ := l
  have hothers : (others.map fun entry => Field.other entry.1 entry.2).filterMap Field.ip = [] := by
    rw [List.filterMap_map, List.filterMap_eq_nil_iff]
    exact fun _ _ => rfl
  rw [Lease.fields, List.filterMap_cons, List.filterMap_cons, List.filterMap_append,
    List.filterMap_append, hothers]
  rcases name with _ | n <;> rcases identifier with _ | _ | v <;> rfl

theorem fields_hasMac (l : Lease) (wanted : Mac) :
    l.fields.any (Field.hasMac wanted) = decide (l.mac = wanted) := by
  rcases l with ⟨ip, mac, name, identifier, others, _, _, _⟩
  rcases name with _ | n <;> rcases identifier with _ | _ | v <;>
    simp [Lease.fields, Field.hasMac, identifierField]

theorem fields_hasName (l : Lease) (name : Option Text) :
    l.fields.any (Field.hasName name) = decide (name.isSome ∧ l.name = name) := by
  rcases l with ⟨ip, mac, n, identifier, others, _, _, _⟩
  rcases n with _ | n <;> rcases identifier with _ | _ | v <;> rcases name with _ | name <;>
    simp [Lease.fields, Field.hasName, identifierField]

/-- In whatever order the fields are written, their words say the same together. -/
theorem words_say {fs : List Field} {ws : List Text} (h : List.Forall₂ SpellsField fs ws)
    (hvalid : ∀ f ∈ fs, f.Valid) (wanted : Mac) (name : Option Text) :
    ws.filterMap ipOf = fs.filterMap Field.ip ∧
      ws.any (hitsMac (some wanted.canonical)) = fs.any (Field.hasMac wanted) ∧
      ws.any (hitsName name) = fs.any (Field.hasName name) := by
  induction h with
  | nil => exact ⟨rfl, rfl, rfl⟩
  | @cons f w fs ws hw _ ih =>
    have hf := hvalid f (List.mem_cons_self ..)
    obtain ⟨hip, hmac, hname⟩ := ih fun g hg => hvalid g (List.mem_cons_of_mem f hg)
    refine ⟨?_, ?_, ?_⟩
    · rw [List.filterMap_cons, List.filterMap_cons, ipOf_spells hf hw, hip]
    · rw [List.any_cons, List.any_cons, hitsMac_spells hf hw, hmac]
    · rw [List.any_cons, List.any_cons, hitsName_spells hf hw, hname]

/-- Whatever the order and the spelling, a record's words amount to the record. -/
theorem fold_lease {l : Lease} {ws : List Text} (h : SpellsLease l ws) (wanted : Mac)
    (name : Option Text) : ws.foldl (readWord (some wanted.canonical) name) .fresh =
      ⟨some l.ip, decide (l.mac = wanted), decide (name.isSome ∧ l.name = name)⟩ := by
  obtain ⟨fs, hperm, hws⟩ := h
  obtain ⟨hip, hmac, hname⟩ := words_say hws
    (fun f hf => l.fields_valid f (hperm.mem_iff.mp hf)) wanted name
  have hperm_ip : fs.filterMap Field.ip = [some l.ip] :=
    List.perm_singleton.mp (fields_ip l ▸ hperm.filterMap Field.ip)
  rw [fold_readWord, hip, hmac, hname, hperm_ip, hperm.any_eq, hperm.any_eq, fields_hasMac,
    fields_hasName]
  rfl

/-- A record as it is meant answers with its address, if it is the wanted machine's. -/
theorem found_lease {l : Lease} {ws : List Text} (h : SpellsLease l ws) (wanted : Mac)
    (name : Option Text) : (ws.foldl (readWord (some wanted.canonical) name) .fresh).found =
      if l.Matches wanted name then some l.ip else none := by
  rw [fold_lease h, Record.found]
  by_cases hm : l.Matches wanted name
  · rw [if_pos hm, if_pos]
    simpa [Lease.Matches] using hm
  · rw [if_neg hm, if_neg]
    simpa [Lease.Matches] using hm

/-- Nothing within a record ends it. -/
theorem not_brace {l : Lease} {ws : List Text} (h : SpellsLease l ws) :
    ∀ word ∈ ws, word ≠ ['{'] ∧ word ≠ ['}'] := by
  obtain ⟨fs, _, hws⟩ := h
  intro word hword
  obtain ⟨i, hi, rfl⟩ := List.getElem_of_mem hword
  have hspells := (List.forall₂_iff_get.mp hws).2 i (hws.length_eq ▸ hi) hi
  have hequals : '=' ∈ ws[i] := hspells.equals
  constructor <;> intro heq <;> rw [heq] at hequals <;> simp at hequals

/-- The search for a text that stands for some octets. -/
theorem findLease_octets {leases : List Lease} {text mac : Text} {wanted : Mac}
    (hrenders : Renders leases text) (hmac : normalizeMac mac = some wanted.canonical)
    (name : Option Text) :
    findLease text mac name = (leases.find? (fun l => decide (l.Matches wanted name))).map Lease.ip := by
  obtain ⟨wss, hwss, hlayout⟩ := hrenders
  rw [findLease, hmac, tokens_layout hlayout]
  clear hlayout
  induction hwss with
  | nil => rfl
  | @cons l ws leases wss hl _ ih =>
    have happend : ((ws :: wss).flatMap fun ws => ['{'] :: (ws ++ [['}']])) =
        ['{'] :: (ws ++ ['}'] :: wss.flatMap fun ws => ['{'] :: (ws ++ [['}']])) := by simp
    rw [happend, scan_record (not_brace hl), found_lease hl, List.find?_cons]
    by_cases hm : l.Matches wanted name
    · simp [hm]
    · simp [hm, ih]

/-- **The search finds the first record that matches**, however the file is written. -/
theorem findLease_renders (leases : List Lease) (text : Text) (hrenders : Renders leases text)
    (wanted : Mac) (mac : Text) (hmac : SpellsMac wanted mac) (name : Option Text) :
    findLease text mac name = (leases.find? (fun l => decide (l.Matches wanted name))).map Lease.ip :=
  findLease_octets hrenders (normalizeMac_spells hmac) name

/-! ### Punctuation in identifiers -/

/-- What follows the comma of the identifier is no hardware address, but only
because of its semicolon, which the search takes off first: it finds a record of
another machine. An `=` in another key makes it a name. -/
theorem misread_records :
    (normalizeMac "52:54:00:12:34:56;".toList = none ∧
      findLease ("\x7bip_address=10.0.0.1 hw_address=aa:bb:cc:dd:ee:ff ".toList ++
        "identifier=1,52:54:00:12:34:56;\x7d".toList) "52:54:00:12:34:56".toList none =
        some ⟨10, 0, 0, 1⟩) ∧
    findLease "\x7bip_address=10.0.0.1 hw_address=aa:bb:cc:dd:ee:ff name=x=\x7d".toList
      "52:54:00:12:34:56".toList (some "x=".toList) = some ⟨10, 0, 0, 1⟩ := by
  decide +kernel

def sampleMac : Mac := ⟨[0x52, 0x54, 0x00, 0x12, 0x34, 0x56], rfl⟩

def sampleLease : Lease where
  ip := ⟨192, 168, 64, 5⟩
  mac := sampleMac
  name := none
  identifier := none
  others := []
  name_ends := by simp
  identifier_foreign := by simp
  others_keys := by simp

theorem sampleMac_stripped : SpellsMac sampleMac "52:54:0:12:34:56".toList := by
  refine ⟨["52".toList, "54".toList, "0".toList, "12".toList, "34".toList, "56".toList], ?_, by decide⟩
  simp only [sampleMac, List.forall₂_cons, List.Forall₂.nil, and_true]
  decide +kernel

theorem sampleMac_padded : SpellsMac sampleMac "52:54:00:12:34:56".toList := by
  refine ⟨["52".toList, "54".toList, "00".toList, "12".toList, "34".toList, "56".toList], ?_, by decide⟩
  simp only [sampleMac, List.forall₂_cons, List.Forall₂.nil, and_true]
  decide +kernel

/-- A record in an unusual layout. -/
def sampleText : Text := "\x7b\tip_address=192.168.64.5;\nhw_address=1,52:54:0:12:34:56\x7d".toList

theorem sample_renders : Renders [sampleLease] sampleText := by
  have hip : SpellsField (.address ⟨192, 168, 64, 5⟩) "ip_address=192.168.64.5;".toList :=
    .mk (.address _) (show ∀ c ∈ ";".toList, isTrailing c = true by simp [isTrailing])
  have hhw : SpellsField (.hardware "hw_address".toList sampleMac)
      "hw_address=1,52:54:0:12:34:56".toList :=
    .mk (.typed (show ',' ∉ "1".toList by decide) sampleMac_stripped)
      (show ∀ c ∈ "".toList, isTrailing c = true by simp)
  have htext : sampleText = [] ++ '{' :: ("\t".toList ++ ("ip_address=192.168.64.5;".toList ++
      ("\n".toList ++ ("hw_address=1,52:54:0:12:34:56".toList ++ ([] ++ '}' :: []))))) := by
    decide +kernel
  have hclose : Layout [['}']] ([] ++ '}' :: []) :=
    .brace (by decide) (Or.inr rfl) (.done (by decide))
  have hsecond : Layout ["hw_address=1,52:54:0:12:34:56".toList, ['}']]
      ("\n".toList ++ ("hw_address=1,52:54:0:12:34:56".toList ++ ([] ++ '}' :: []))) :=
    .word (by decide) (by decide) (by decide +kernel) (by decide) hclose
  refine ⟨[["ip_address=192.168.64.5;".toList, "hw_address=1,52:54:0:12:34:56".toList]],
    .cons ⟨sampleLease.fields, .refl _, .cons hip (.cons hhw .nil)⟩ .nil, ?_⟩
  rw [htext]
  exact .brace (by decide) (Or.inl rfl)
    (.word (by decide) (by decide) (by decide +kernel) (by decide) hsecond)

/-- Tabs, a semicolon and a stripped zero make no difference. -/
theorem sample_found : findLease sampleText "52:54:00:12:34:56".toList none = some ⟨192, 168, 64, 5⟩ :=
  findLease_renders [sampleLease] sampleText sample_renders sampleMac _ sampleMac_padded none

end Malleus.Leases
