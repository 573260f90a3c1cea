import Malleus.LeaseRecords

/-! A host name among the lines of the lease file.

A DHCP client chooses its own host name, and the search reads the words of it as
it reads the words of any line. `hostName_inert` says which names leave every
search as it would be with another name. -/
namespace Malleus.Leases
open Strings Numbers

/-! ### Layout -/

/-- One field on a line of its own. -/
structure Entry where
  key : Text
  value : Text
  single : '\n' ∉ key ∧ '\n' ∉ value

def Entry.line (e : Entry) : Text := '\t' :: (e.key ++ '=' :: e.value)

/-- A host name: any text on one line. -/
structure HostName where
  text : Text
  single : '\n' ∉ text

def HostName.entry (v : HostName) : Entry := ⟨"name".toList, v.text, by decide, v.single⟩

def recordLines (entries : List Entry) : List Text :=
  ['{'] :: (entries.map Entry.line ++ [['}']])

/-- A file of records in the layout of macOS. -/
def leaseFile (rs : List (List Entry)) : Text := unlines (rs.flatMap recordLines)

/-- A lease file but for one record's host name. -/
structure Context where
  before : List (List Entry)
  above : List Entry
  below : List Entry
  after : List (List Entry)

def Context.file (c : Context) (v : HostName) : Text :=
  leaseFile (c.before ++ (c.above ++ v.entry :: c.below) :: c.after)

/-! ### The words of the lines -/

/-- A line feed stands between words. -/
theorem tokens_append_line (t u : Text) : tokens (t ++ '\n' :: u) = tokens t ++ tokens u := by
  have hpad : pad ('\n' :: u) = '\n' :: pad u := rfl
  rw [tokens, pad_append, hpad, words_append_cons (by decide)]
  rfl

theorem tokens_unlines (ls : List Text) : tokens (unlines ls) = ls.flatMap tokens := by
  induction ls with
  | nil => rfl
  | cons l ls ih => rw [unlines_cons, tokens_append_line, ih, List.flatMap_cons]

theorem tokens_tab (t : Text) : tokens ('\t' :: t) = tokens t := by
  have hpad : pad ('\t' :: t) = '\t' :: pad t := rfl
  rw [tokens, hpad, words_cons (by decide)]
  rfl

/-- The words of a field; a plain one has one. -/
def Entry.words (e : Entry) : List Text := tokens (e.key ++ '=' :: e.value)

theorem Entry.tokens_line (e : Entry) : tokens e.line = e.words := tokens_tab _

theorem tokens_clean {w : Text} (hne : w ≠ []) (h : Clean w) : tokens w = [w] := by
  rw [tokens, pad_clean fun c hc => (h c hc).2, words_singleton hne fun c hc => (h c hc).1]

/-- A field without white space and braces is one word. -/
theorem Entry.words_clean {e : Entry} (hkey : Clean e.key) (hvalue : Clean e.value) :
    e.words = [e.key ++ '=' :: e.value] := by
  apply tokens_clean (by simp)
  intro c hc
  cases List.mem_append.mp hc with
  | inl hc => exact hkey c hc
  | inr hc =>
    cases List.mem_cons.mp hc with
    | inl heq => exact heq ▸ by decide
    | inr hc => exact hvalue c hc

theorem tokens_recordLines (entries : List Entry) : (recordLines entries).flatMap tokens =
    ['{'] :: (entries.flatMap Entry.words ++ [['}']]) := by
  have hopen : tokens ['{'] = [['{']] := by decide
  have hclose : tokens ['}'] = [['}']] := by decide
  have hline : tokens ∘ Entry.line = Entry.words := funext Entry.tokens_line
  rw [recordLines, List.flatMap_cons, List.flatMap_append, List.flatMap_map, hopen,
    List.flatMap_singleton, hclose]
  change [['{']] ++ (entries.flatMap (tokens ∘ Entry.line) ++ [['}']]) = _
  rw [hline]
  rfl

namespace Context

/-- The words that come before the host name's. -/
def wordsAbove (c : Context) : List Text :=
  (c.before.flatMap recordLines).flatMap tokens ++ ['{'] :: c.above.flatMap Entry.words

/-- The words that come after them. -/
def wordsBelow (c : Context) : List Text :=
  c.below.flatMap Entry.words ++ ['}'] :: (c.after.flatMap recordLines).flatMap tokens

theorem tokens_file (c : Context) (v : HostName) :
    tokens (c.file v) = c.wordsAbove ++ (v.entry.words ++ c.wordsBelow) := by
  rw [file, leaseFile, tokens_unlines, List.flatMap_append, List.flatMap_append, List.flatMap_cons,
    List.flatMap_append, tokens_recordLines, List.flatMap_append, List.flatMap_cons, wordsAbove,
    wordsBelow]
  simp only [List.append_assoc, List.cons_append, List.nil_append]

end Context

/-! ### Harmless names -/

/-- The word is no brace, and gives no address, no hardware address and not the wanted name. -/
def HarmlessWord (name : Option Text) (word : Text) : Prop :=
  (word ≠ ['{'] ∧ word ≠ ['}']) ∧ ipOf word = none ∧ macOf word = none ∧
    hitsName name word = false

instance (name : Option Text) (word : Text) : Decidable (HarmlessWord name word) :=
  inferInstanceAs (Decidable (_ ∧ _))

/-- None of the words that the line of the host name is cut into does any harm. -/
def Harmless (name : Option Text) (v : HostName) : Prop :=
  ∀ word ∈ v.entry.words, HarmlessWord name word

instance (name : Option Text) (v : HostName) : Decidable (Harmless name v) :=
  List.decidableBAll _ v.entry.words

/-- No search tells the two names apart, in any file. -/
def Alike (name : Option Text) (v v' : HostName) : Prop :=
  ∀ (c : Context) (mac : Text), findLease (c.file v) mac name = findLease (c.file v') mac name

/-- No other harmless name in its place changes what is found in any file. -/
def Inert (name : Option Text) (v : HostName) : Prop :=
  ∀ v' : HostName, name ≠ some v'.text → Harmless name v' →
    ∀ (c : Context) (mac : Text), findLease (c.file v) mac name = findLease (c.file v') mac name

theorem hitsMac_eq_false {word : Text} (h : macOf word = none) (mac : Text) :
    hitsMac (normalizeMac mac) word = false := by
  rw [hitsMac_eq_namesMac, namesMac, h]
  rfl

/-- A word that gives a hardware address is of a machine that someone may look for. -/
theorem exists_hitsMac {word : Text} {m : Mac} (h : macOf word = some m) :
    ∃ mac, hitsMac (normalizeMac mac) word = true := by
  obtain ⟨mac, hmac⟩ : ∃ mac, Mac.read mac = some m := by
    cases hfield : field word with
    | none =>
      rw [macOf, hfield] at h
      cases h
    | some entry =>
      obtain ⟨key, value⟩ := entry
      rw [macOf_field hfield] at h
      split at h
      · exact ⟨_, h⟩
      · cases h
  refine ⟨mac, ?_⟩
  rw [hitsMac_eq_namesMac, namesMac, h, hmac, decide_eq_true rfl]
  rfl

section Insert
variable {name : Option Text} {inserted : List Text}

/-- Harmless words leave what is known of the record as it is. -/
theorem fold_harmless (h : ∀ word ∈ inserted, HarmlessWord name word) (mac : Text) (r : Record) :
    inserted.foldl (readWord (normalizeMac mac) name) r = r := by
  have hip : inserted.filterMap ipOf = [] :=
    List.filterMap_eq_nil_iff.mpr fun word hw => (h word hw).2.1
  have hmac : inserted.any (hitsMac (normalizeMac mac)) = false :=
    List.any_eq_false.mpr fun word hw => by simp [hitsMac_eq_false (h word hw).2.2.1 mac]
  have hname : inserted.any (hitsName name) = false :=
    List.any_eq_false.mpr fun word hw => by simp [(h word hw).2.2.2]
  rw [fold_readWord, hip, hmac, hname, Bool.or_false, Bool.or_false]
  rfl

/-- Harmless words are passed over wherever they stand. -/
theorem scan_insert (h : ∀ word ∈ inserted, HarmlessWord name word) (mac : Text) (r : Record)
    (above below : List Text) : scan (normalizeMac mac) name r (above ++ (inserted ++ below)) =
      scan (normalizeMac mac) name r (above ++ below) := by
  induction above generalizing r with
  | nil =>
    rw [List.nil_append, List.nil_append, scan_words fun word hw => (h word hw).1, fold_harmless h]
  | cons word above ih =>
    rw [List.cons_append, List.cons_append, scan, scan]
    split
    · exact ih .fresh
    split
    · cases r.found with
      | none => exact ih .fresh
      | some ip => rfl
    · exact ih _

/-- The search reads the file as if the line were not there. -/
theorem findLease_harmless {v : HostName} (h : Harmless name v) (c : Context) (mac : Text) :
    findLease (c.file v) mac name =
      scan (normalizeMac mac) name .fresh (c.wordsAbove ++ c.wordsBelow) := by
  rw [findLease, c.tokens_file, scan_insert h]

end Insert

/-- Any other name of one word is harmless, if it does not end in punctuation. -/
theorem harmless_clean {name : Option Text} {v : HostName} (hclean : Clean v.text)
    (htrailing : ∀ c ∈ v.text.getLast?, isTrailing c = false) (hne : name ≠ some v.text) :
    Harmless name v := by
  have hfield : field ("name".toList ++ '=' :: (v.text ++ [])) =
      some ("name".toList, trimEndBy isTrailing v.text) := field_written (by decide) (by simp)
  rw [List.append_nil, trimEndBy_of_getLast htrailing] at hfield
  have hwords : v.entry.words = ["name".toList ++ '=' :: v.text] :=
    Entry.words_clean (show Clean "name".toList by decide) hclean
  intro word hw
  rw [hwords, List.mem_singleton] at hw
  subst hw
  refine ⟨by simp, ?_, ?_, ?_⟩
  · rw [ipOf, hfield]
    exact if_neg (by decide)
  · rw [macOf_field hfield]
    exact if_neg (by decide)
  · rw [hitsName, hfield]
    cases name with
    | none => rfl
    | some n => simpa [matchesName] using fun h => hne (congrArg some h.symm)

/-- There is a harmless name, whatever name is wanted. -/
theorem exists_harmless (name : Option Text) :
    ∃ v : HostName, name ≠ some v.text ∧ Harmless name v := by
  by_cases h : name = some "a".toList
  · have hb : name ≠ some "b".toList := by rw [h]; decide
    exact ⟨⟨"b".toList, by decide⟩, hb, harmless_clean (by decide) (by simp [isTrailing]) hb⟩
  · exact ⟨⟨"a".toList, by decide⟩, h, harmless_clean (by decide) (by simp [isTrailing]) h⟩

/-! ### Files that tell -/

def addressEntry (ip : Ipv4Addr) : Entry where
  key := "ip_address".toList
  value := ip.toText
  single := ⟨by decide, fun h => absurd (ip.toText_chars _ h) (by decide)⟩

/-- A machine that someone looks for. -/
def someMac : Text := "52:54:00:12:34:56".toList

def macEntry : Entry := ⟨"hw_address".toList, someMac, by decide, by decide⟩

theorem clean_toText (ip : Ipv4Addr) : Clean ip.toText := by
  intro c hc
  have hchar := ip.toText_chars c hc
  refine ⟨?_, ?_, ?_⟩
  · exact isAsciiWhitespace_of_isWhitespace (ip.toText_no_space c hc)
  · intro heq
    subst heq
    exact absurd hchar (by decide)
  · intro heq
    subst heq
    exact absurd hchar (by decide)

theorem addressEntry_words (ip : Ipv4Addr) :
    (addressEntry ip).words = ["ip_address".toList ++ '=' :: ip.toText] :=
  Entry.words_clean (show Clean "ip_address".toList by decide) (clean_toText ip)

theorem macEntry_words : macEntry.words = ["hw_address".toList ++ '=' :: someMac] := by decide +kernel

theorem readWord_address (wantedMac name : Option Text) (r : Record) (ip : Ipv4Addr) :
    readWord wantedMac name r ("ip_address".toList ++ '=' :: ip.toText) = {r with ip := some ip} := by
  rw [readWord, splitOnce_append (by decide)]
  dsimp only
  rw [if_pos rfl, trimEndBy_of_getLast (Ipv4Addr.trailing ip), Ipv4Addr.parse_toText]

theorem readWord_mac (name : Option Text) (r : Record) :
    readWord (normalizeMac someMac) name r ("hw_address".toList ++ '=' :: someMac) =
      {r with hwMatched := true} := by
  have hmatches : matchesMac (normalizeMac someMac) (trimEndBy isTrailing someMac) = true := by
    decide +kernel
  rw [readWord, splitOnce_append (by decide)]
  dsimp only
  rw [if_neg (by decide), if_pos (Or.inl rfl), hmatches, Bool.or_true]

/-- A file of one record. -/
def Context.lone (above below : List Entry) : Context := ⟨[], above, below, []⟩

theorem findLease_lone {above : List Entry}
    (h : ∀ word ∈ above.flatMap Entry.words, word ≠ ['{'] ∧ word ≠ ['}']) (below : List Entry)
    (v : HostName) (mac : Text) (name : Option Text) :
    findLease ((Context.lone above below).file v) mac name =
      scan (normalizeMac mac) name
        ((above.flatMap Entry.words).foldl (readWord (normalizeMac mac) name) .fresh)
        (v.entry.words ++ (below.flatMap Entry.words ++ [['}']])) := by
  have habove : (Context.lone above below).wordsAbove = ['{'] :: above.flatMap Entry.words := rfl
  have hbelow : (Context.lone above below).wordsBelow = below.flatMap Entry.words ++ [['}']] := rfl
  rw [findLease, Context.tokens_file, habove, hbelow, List.cons_append, scan, if_pos rfl, scan_words h]

section Inert
variable {name : Option Text} {v : HostName} (h : Inert name v)
include h

/-- An inert name alone in a file with one record's other fields. -/
theorem Inert.lone (above below : List Entry) (mac : Text)
    (habove : ∀ word ∈ above.flatMap Entry.words, word ≠ ['{'] ∧ word ≠ ['}']) :
    scan (normalizeMac mac) name
        ((above.flatMap Entry.words).foldl (readWord (normalizeMac mac) name) .fresh)
        (v.entry.words ++ (below.flatMap Entry.words ++ [['}']])) =
      scan (normalizeMac mac) name
        ((above.flatMap Entry.words).foldl (readWord (normalizeMac mac) name) .fresh)
        (below.flatMap Entry.words ++ [['}']]) := by
  obtain ⟨v', hne, hv'⟩ := exists_harmless name
  have hsame := h v' hne hv' (.lone above below) mac
  have hpassed := scan_insert hv' mac
    ((above.flatMap Entry.words).foldl (readWord (normalizeMac mac) name) .fresh) []
    (below.flatMap Entry.words ++ [['}']])
  rw [findLease_lone habove, findLease_lone habove] at hsame
  exact hsame.trans hpassed

/-- A record that is the machine's, and its address, above the host name. -/
theorem Inert.leased (ip : Ipv4Addr) : scan (normalizeMac someMac) name ⟨some ip, true, false⟩
    (v.entry.words ++ [['}']]) = some ip := by
  have hwords : [addressEntry ip, macEntry].flatMap Entry.words =
      ["ip_address".toList ++ '=' :: ip.toText, "hw_address".toList ++ '=' :: someMac] := by
    rw [List.flatMap_cons, List.flatMap_singleton, addressEntry_words, macEntry_words]
    rfl
  have hlone := h.lone [addressEntry ip, macEntry] [] someMac (by rw [hwords]; simp)
  rw [hwords, List.foldl_cons, List.foldl_cons, List.foldl_nil, readWord_address, readWord_mac] at hlone
  exact hlone

/-- A record of nobody in particular stays one. -/
theorem Inert.unleased (ip : Ipv4Addr) (mac : Text) : scan (normalizeMac mac) name
    ⟨some ip, false, false⟩ (v.entry.words ++ [['}']]) = none := by
  have hwords : [addressEntry ip].flatMap Entry.words = ["ip_address".toList ++ '=' :: ip.toText] := by
    rw [List.flatMap_singleton, addressEntry_words]
  have hlone := h.lone [addressEntry ip] [] mac (by rw [hwords]; simp)
  rw [hwords, List.foldl_cons, List.foldl_nil, readWord_address] at hlone
  exact hlone

/-- The hardware address is looked for behind the host name as well. -/
theorem Inert.leased_below (ip : Ipv4Addr) : scan (normalizeMac someMac) name
    ⟨some ip, false, false⟩ (v.entry.words ++ ["hw_address".toList ++ '=' :: someMac, ['}']]) =
      some ip := by
  have hwords : [addressEntry ip].flatMap Entry.words = ["ip_address".toList ++ '=' :: ip.toText] := by
    rw [List.flatMap_singleton, addressEntry_words]
  have hlone := h.lone [addressEntry ip] [macEntry] someMac (by rw [hwords]; simp)
  rw [hwords, List.foldl_cons, List.foldl_nil, readWord_address, List.flatMap_singleton,
    macEntry_words] at hlone
  refine hlone.trans ?_
  rw [List.cons_append, List.nil_append, scan, if_neg (by simp), if_neg (by simp), readWord_mac]
  rfl

end Inert

/-- The words up to the first brace. -/
theorem exists_first_brace (ws : List Text) : ∃ head rest, ws = head ++ rest ∧
    (∀ word ∈ head, word ≠ ['{'] ∧ word ≠ ['}']) ∧
    (rest = [] ∨ ∃ t, rest = ['{'] :: t ∨ rest = ['}'] :: t) := by
  induction ws with
  | nil => exact ⟨[], [], rfl, by simp, Or.inl rfl⟩
  | cons word ws ih =>
    by_cases hopen : word = ['{']
    · exact ⟨[], word :: ws, rfl, by simp, Or.inr ⟨ws, Or.inl (by rw [hopen])⟩⟩
    by_cases hclose : word = ['}']
    · exact ⟨[], word :: ws, rfl, by simp, Or.inr ⟨ws, Or.inr (by rw [hclose])⟩⟩
    obtain ⟨head, rest, rfl, hhead, hrest⟩ := ih
    refine ⟨word :: head, rest, rfl, fun w hw => ?_, hrest⟩
    cases List.mem_cons.mp hw with
    | inl heq => exact heq ▸ ⟨hopen, hclose⟩
    | inr hw => exact hhead w hw

/-- One result is not every address. -/
theorem not_every_address (found : Option Ipv4Addr) (h : ∀ ip : Ipv4Addr, found = some ip) : False := by
  have heq : some (⟨0, 0, 0, 0⟩ : Ipv4Addr) = some ⟨0, 0, 0, 1⟩ := (h _).symm.trans (h _)
  exact absurd heq (by decide)

section Necessary
variable {name : Option Text} {v : HostName} {head rest : List Text} (h : Inert name v)
  (hwords : v.entry.words = head ++ rest) (hhead : ∀ word ∈ head, word ≠ ['{'] ∧ word ≠ ['}'])
include h hwords hhead

/-- A search that has forgotten the address of the record it is in cannot give it back. -/
theorem Inert.not_open (t : List Text) : rest ≠ ['{'] :: t := by
  intro heq
  subst heq
  refine not_every_address (scan (normalizeMac someMac) name .fresh (t ++ [['}']]))
    fun ip => ?_
  have hleased := h.leased ip
  rw [hwords, List.append_assoc, scan_words hhead, List.cons_append, scan, if_pos rfl] at hleased
  exact hleased

/-- An address in the host name would take the place of the record's own. -/
theorem Inert.no_ip : ∀ word ∈ head, ipOf word = none := by
  rw [← List.filterMap_eq_nil_iff]
  by_contra hne
  obtain ⟨found, hfound⟩ := Option.isSome_iff_exists.mp (List.getLast?_isSome.mpr hne)
  refine not_every_address (scan (normalizeMac someMac) name
    ⟨found, true, head.any (hitsName name)⟩ (rest ++ [['}']])) fun ip => ?_
  have hleased := h.leased ip
  rw [hwords, List.append_assoc, scan_words hhead, fold_readWord, hfound] at hleased
  exact hleased

theorem Inert.fold_head (mac : Text) (ip : Ipv4Addr) :
    head.foldl (readWord (normalizeMac mac) name) ⟨some ip, false, false⟩ =
      ⟨some ip, head.any (hitsMac (normalizeMac mac)), head.any (hitsName name)⟩ := by
  rw [fold_readWord, List.filterMap_eq_nil_iff.mpr (h.no_ip hwords hhead)]
  rfl

/-- The record has not matched when the first brace closes it. -/
theorem Inert.no_match {t : List Text} (hclose : rest ++ [['}']] = ['}'] :: t) (mac : Text) :
    head.any (hitsMac (normalizeMac mac)) = false ∧ head.any (hitsName name) = false := by
  have hunleased := h.unleased ⟨0, 0, 0, 0⟩ mac
  rw [hwords, List.append_assoc, scan_words hhead, h.fold_head hwords hhead, hclose, scan,
    if_neg (by decide), if_pos rfl, Record.found] at hunleased
  dsimp only at hunleased
  rw [← Bool.or_eq_false_iff]
  by_contra hmatch
  rw [Bool.not_eq_false] at hmatch
  rw [hmatch] at hunleased
  exact Option.some_ne_none _ hunleased

/-- A brace that closes the record would cut off the hardware address below. -/
theorem Inert.not_close (t : List Text) : rest ≠ ['}'] :: t := by
  intro heq
  subst heq
  have hnone := h.no_match hwords hhead (t := t ++ [['}']]) rfl someMac
  refine not_every_address (scan (normalizeMac someMac) name .fresh
    (t ++ ["hw_address".toList ++ '=' :: someMac, ['}']])) fun ip => ?_
  have hleased := h.leased_below ip
  rw [hwords, List.append_assoc, scan_words hhead, h.fold_head hwords hhead, hnone.1, hnone.2,
    List.cons_append, scan, if_neg (by decide), if_pos rfl] at hleased
  exact hleased

end Necessary

/-- Each way to do harm shows in some file. -/
theorem Inert.harmless {name : Option Text} {v : HostName} (h : Inert name v) : Harmless name v := by
  obtain ⟨head, rest, hwords, hhead, hrest⟩ := exists_first_brace v.entry.words
  have hend : rest = [] := by
    rcases hrest with hnil | ⟨t, hopen | hclose⟩
    · exact hnil
    · exact absurd hopen (h.not_open hwords hhead t)
    · exact absurd hclose (h.not_close hwords hhead t)
  subst hend
  have hmatch := h.no_match hwords hhead (t := []) rfl
  rw [List.append_nil] at hwords
  intro word hw
  rw [hwords] at hw
  refine ⟨hhead word hw, h.no_ip (hwords.trans (List.append_nil head).symm) hhead word hw, ?_, ?_⟩
  · cases hmac : macOf word with
    | none => rfl
    | some m =>
      obtain ⟨mac, hhits⟩ := exists_hitsMac hmac
      exact absurd hhits (List.any_eq_false.mp (hmatch mac).1 word hw)
  · exact Bool.not_eq_true _ ▸ List.any_eq_false.mp (hmatch []).2 word hw

/-- Two names of which neither does any harm. -/
theorem alike_of_harmless {name : Option Text} {v v' : HostName} (h : Harmless name v)
    (h' : Harmless name v') : Alike name v v' := by
  intro c mac
  rw [findLease_harmless h, findLease_harmless h']

/-- **A host name leaves every search alone** exactly when it is harmless: it is measured
against the names that are harmless. Two that are not may well be alike, such as a name and
the same name with a space behind it. -/
theorem hostName_inert (name : Option Text) (v : HostName) : Inert name v ↔ Harmless name v := by
  constructor
  · exact Inert.harmless
  · exact fun h v' _ hv' => alike_of_harmless h hv'

/-- Of two names of which one is harmless: no search tells them apart exactly if the other
is harmless too. -/
theorem alike_iff {name : Option Text} {v v' : HostName} (h' : Harmless name v') :
    Alike name v v' ↔ Harmless name v := by
  constructor
  · intro h
    have hinert : Inert name v := fun v'' _ hv'' c mac => by
      rw [h c mac, findLease_harmless h', findLease_harmless hv'']
    exact hinert.harmless
  · exact fun h => alike_of_harmless h h'

/-- The file of two leases, but for the other machine's name. -/
def twoLeases : Context where
  before := []
  above := []
  below := [⟨"ip_address".toList, "192.168.64.4".toList, by decide, by decide⟩,
    ⟨"hw_address".toList, "1,aa:bb:cc:dd:ee:ff".toList, by decide, by decide⟩,
    ⟨"identifier".toList, "1,aa:bb:cc:dd:ee:ff".toList, by decide, by decide⟩,
    ⟨"lease".toList, "0x687a1000".toList, by decide, by decide⟩]
  after := [[⟨"name".toList, "debian".toList, by decide, by decide⟩,
    ⟨"ip_address".toList, "192.168.64.5".toList, by decide, by decide⟩,
    ⟨"hw_address".toList, "1,52:54:0:12:34:56".toList, by decide, by decide⟩,
    ⟨"identifier".toList, "1,52:54:0:12:34:56".toList, by decide, by decide⟩,
    ⟨"lease".toList, "0x687a2000".toList, by decide, by decide⟩]]

def otherVm : HostName := ⟨"other-vm".toList, by decide⟩

/-- A name that goes on with the guest's identifier. -/
def impostor : HostName := ⟨"x identifier=1,52:54:0:12:34:56".toList, by decide⟩

/-- The other machine is taken for the guest. -/
theorem impostor_found :
    findLease (twoLeases.file otherVm) "52:54:00:12:34:56".toList none = some ⟨192, 168, 64, 5⟩ ∧
      findLease (twoLeases.file impostor) "52:54:00:12:34:56".toList none =
        some ⟨192, 168, 64, 4⟩ := by
  decide +kernel

end Malleus.Leases
