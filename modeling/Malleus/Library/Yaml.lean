import Mathlib.Data.List.Basic
import Malleus.Library.Strings

/-! The parts of YAML that are told by lines: entries of a mapping, sections under
keys without indentation, and sequences between brackets. -/
namespace Yaml
open Strings

/-! ### Entries -/

/-- A line ends at a line feed or a carriage return. -/
def isBreak (c : Char) : Bool := c == '\n' || c == '\r'

/-- The lines with something on them. -/
def filledLines (t : Text) : List Text := words isBreak t

/-- The key and the value of a line, around its first colon and space. -/
def entry : Text → Option (Text × Text)
  | [] => none
  | c :: t =>
    if c = ':' ∧ t.head? = some ' ' then some ([], t.tail)
    else (entry t).map fun e => (c :: e.1, e.2)

theorem entry_append {key : Text} (h : ':' ∉ key) (value : Text) :
    entry (key ++ ':' :: ' ' :: value) = some (key, value) := by
  induction key with
  | nil => rfl
  | cons c key ih =>
    have hc : c ≠ ':' := fun heq => h (by simp [heq])
    rw [List.cons_append, entry, if_neg fun hcolon => hc hcolon.1,
      ih fun hmem => h (List.mem_cons_of_mem c hmem)]
    rfl

/-- A value is part of its line. -/
theorem entry_value {l key value : Text} (h : entry l = some (key, value)) : value <:+ l := by
  induction l generalizing key with
  | nil => cases h
  | cons c t ih =>
    rw [entry] at h
    split at h
    · obtain rfl : t.tail = value := congrArg Prod.snd (Option.some.inj h)
      exact (List.tail_suffix t).trans (List.suffix_cons c t)
    · obtain ⟨e, he, heq⟩ := Option.map_eq_some_iff.mp h
      obtain rfl : e.2 = value := congrArg Prod.snd heq
      exact (ih he).trans (List.suffix_cons c t)

/-- A line that was written may hold several that are read. -/
theorem filledLines_flatMap (ls : List Text) : filledLines (unlines ls) = ls.flatMap filledLines := by
  induction ls with
  | nil => exact words_nil
  | cons l ls ih =>
    rw [unlines_cons, filledLines, words_append_cons (by decide), List.flatMap_cons, ← ih]
    rfl

/-- Lines with something on them and no break in them come out as they were written. -/
theorem filledLines_unlines {ls : List Text} (h : ∀ l ∈ ls, l ≠ [] ∧ ∀ c ∈ l, isBreak c = false) :
    filledLines (unlines ls) = ls := by
  have hself : ∀ l ∈ ls, filledLines l = [l] := fun l hl => words_singleton (h l hl).1 (h l hl).2
  rw [filledLines_flatMap, List.flatMap_congr hself, List.flatMap_singleton']

/-- The lines that the breaks within a text begin. -/
def brokenOff (t : Text) : List Text := (t.splitOnP isBreak).tail.filter (· ≠ [])

/-- What stands before a text goes to the first of its lines. -/
theorem filledLines_append {u : Text} (hne : u ≠ []) (hu : ∀ c ∈ u, isBreak c = false) (t : Text) :
    ∃ v, filledLines (u ++ t) = (u ++ v) :: brokenOff t := by
  have hsplit : (u ++ t).splitOnP isBreak = (t.splitOnP isBreak).modifyHead (u ++ ·) :=
    splitOnP_append hu t
  obtain ⟨v, pieces, hv⟩ := List.exists_cons_of_ne_nil (List.splitOnP_ne_nil isBreak t)
  refine ⟨v, ?_⟩
  rw [filledLines, words, hsplit, brokenOff, hv, List.modifyHead_cons, List.tail_cons,
    List.filter_cons_of_pos (by simp [hne])]

/-- What is read as a value has no break in it. -/
theorem not_isBreak_value {t l key value : Text} (hl : l ∈ filledLines t)
    (h : entry l = some (key, value)) : ∀ c ∈ value, isBreak c = false :=
  fun c hc => (mem_words hl).2 c ((entry_value h).subset hc)

/-! ### Sections -/

/-- The line is not indented. -/
def isTop (l : Text) : Bool :=
  match l with
  | [] => false
  | c :: _ => c != ' '

/-- What comes before the first line that is not indented, and the sections from there on. -/
def cut : List Text → List Text × List (Text × List Text)
  | [] => ([], [])
  | l :: ls => if isTop l then ([], (l, (cut ls).1) :: (cut ls).2) else (l :: (cut ls).1, (cut ls).2)

/-- The lines without indentation, each with the lines below it. -/
def sections (ls : List Text) : List (Text × List Text) := (cut ls).2

/-- Lines up to one without indentation are cut by themselves. -/
theorem cut_top {rest : List Text} (h : (cut rest).1 = []) (ls : List Text) :
    cut (ls ++ rest) = ((cut ls).1, (cut ls).2 ++ (cut rest).2) := by
  induction ls with
  | nil => exact Prod.ext h rfl
  | cons l ls ih =>
    rw [List.cons_append, cut, cut, ih]
    split
    · rfl
    · rfl

/-- The sections stand under the lines without indentation. -/
theorem map_fst_sections (ls : List Text) : (sections ls).map Prod.fst = ls.filter isTop := by
  unfold sections
  induction ls with
  | nil => rfl
  | cons l ls ih =>
    rw [cut]
    by_cases hl : isTop l = true
    · rw [if_pos hl, List.filter_cons_of_pos hl, List.map_cons, ih]
    · rw [if_neg hl, List.filter_cons_of_neg hl, ih]

theorem cut_append {body : List Text} (h : ∀ l ∈ body, isTop l = false) (rest : List Text) :
    cut (body ++ rest) = (body ++ (cut rest).1, (cut rest).2) := by
  induction body with
  | nil => rfl
  | cons l body ih =>
    have hl : isTop l = false := h l (List.mem_cons_self ..)
    rw [List.cons_append, cut, if_neg (by simp [hl]), ih fun m hm => h m (List.mem_cons_of_mem l hm)]
    rfl

/-- The lines of some sections are read as those sections. -/
theorem cut_flatMap {ss : List (Text × List Text)}
    (h : ∀ s ∈ ss, isTop s.1 = true ∧ ∀ l ∈ s.2, isTop l = false) :
    cut (ss.flatMap fun s => s.1 :: s.2) = ([], ss) := by
  induction ss with
  | nil => rfl
  | cons s ss ih =>
    obtain ⟨htop, hbody⟩ := h s (List.mem_cons_self ..)
    rw [List.flatMap_cons, List.cons_append, cut, if_pos htop, cut_append hbody,
      ih fun t ht => h t (List.mem_cons_of_mem s ht), List.append_nil]

/-! ### Keys -/

/-- What plain keys are made of. -/
def isKeyChar (c : Char) : Bool := c.isAlphanum || c == '_' || c == '-'

/-- The plain key that a line begins with: its colon ends the line or has a space after it. -/
def keyOf (l : Text) : Option Text :=
  let key := l.takeWhile isKeyChar
  let rest := l.dropWhile isKeyChar
  if key ≠ [] ∧ (rest = [':'] ∨ [':', ' '].isPrefixOf rest = true) then some key else none

/-- A line that is for the reader only. -/
def isComment (l : Text) : Bool := l.head? == some '#'

/-- The lines of a document that count. -/
def contentLines (t : Text) : List Text := (filledLines t).filter fun l => !isComment l

theorem contentLines_flatMap (ls : List Text) :
    contentLines (unlines ls) = ls.flatMap contentLines := by
  rw [contentLines, filledLines_flatMap, List.filter_flatMap]
  rfl

theorem contentLines_singleton {l : Text} (hne : l ≠ []) (h : ∀ c ∈ l, isBreak c = false)
    (hcomment : isComment l = false) : contentLines l = [l] := by
  rw [contentLines, filledLines, words_singleton hne h,
    List.filter_cons_of_pos (by simp [hcomment]), List.filter_nil]

/-- Every section stands under a plain key. -/
def Keyed (ss : List (Text × List Text)) : Prop := ∀ s ∈ ss, (keyOf s.1).isSome = true

instance (ss : List (Text × List Text)) : Decidable (Keyed ss) := List.decidableBAll _ ss

theorem keyed_append {ss ss' : List (Text × List Text)} : Keyed (ss ++ ss') ↔ Keyed ss ∧ Keyed ss' :=
  List.forall_mem_append

/-- The lines below a key, of every section with that key. -/
def pick (key : Text) (ss : List (Text × List Text)) : List (List Text) :=
  (ss.filter fun s => keyOf s.1 = some key).map Prod.snd

theorem pick_append (key : Text) (ss ss' : List (Text × List Text)) :
    pick key (ss ++ ss') = pick key ss ++ pick key ss' := by
  rw [pick, List.filter_append, List.map_append]
  rfl

theorem pick_cons_of_ne {key l : Text} (h : keyOf l ≠ some key) (body : List Text)
    (ss : List (Text × List Text)) : pick key ((l, body) :: ss) = pick key ss := by
  simp [pick, h]

theorem pick_cons_self {key l : Text} (h : keyOf l = some key) (body : List Text)
    (ss : List (Text × List Text)) : pick key ((l, body) :: ss) = body :: pick key ss := by
  simp [pick, h]

/-- Nothing is picked exactly if no section has the key. -/
theorem pick_eq_nil {key : Text} {ss : List (Text × List Text)} :
    pick key ss = [] ↔ ∀ s ∈ ss, keyOf s.1 ≠ some key := by
  simp [pick, List.filter_eq_nil_iff]

/-! ### Sequences -/

/-- Where the reader of a sequence stands, with what it has of the item. -/
inductive Mode where
  | between
  | plain (item : Text)
  | quoted (item : Text)
  | escaped (item : Text)

/-- The items up to the closing bracket. -/
def readItems : Mode → Text → List Text
  | .between, [] => []
  | .plain item, [] => [item]
  | .quoted item, [] => [item]
  | .escaped item, [] => [item]
  | .between, c :: t =>
    if c = '"' then readItems (.quoted []) t
    else if c = ',' ∨ c = ' ' then readItems .between t
    else if c = ']' then []
    else readItems (.plain [c]) t
  | .plain item, c :: t =>
    if c = ',' then trimEndBy (· == ' ') item :: readItems .between t
    else if c = ']' then [trimEndBy (· == ' ') item]
    else readItems (.plain (item ++ [c])) t
  | .quoted item, c :: t =>
    if c = '"' then item :: readItems .between t
    else if c = '\\' then readItems (.escaped item) t
    else readItems (.quoted (item ++ [c])) t
  | .escaped item, c :: t => readItems (.quoted (item ++ [c])) t

/-- The items of a sequence that is an item of a list itself, on a line of its own. -/
def sequence (l : Text) : Option (List Text) :=
  if "  - [".toList.isPrefixOf l then some (readItems .between (l.drop "  - [".toList.length)) else none

theorem readItems_quoted {t : Text} (h : '"' ∉ t ∧ '\\' ∉ t) (item rest : Text) :
    readItems (.quoted item) (t ++ '"' :: rest) = (item ++ t) :: readItems .between rest := by
  induction t generalizing item with
  | nil =>
    rw [List.nil_append, readItems, if_pos rfl, List.append_nil]
  | cons c t ih =>
    obtain ⟨hquote, hescape⟩ := h
    rw [List.mem_cons, not_or] at hquote hescape
    rw [List.cons_append, readItems, if_neg fun heq => hquote.1 heq.symm,
      if_neg fun heq => hescape.1 heq.symm, ih ⟨hquote.2, hescape.2⟩, List.append_assoc]
    rfl

/-- An item between quotes, with nothing in it that the quotes would treat. -/
theorem readItems_between_quoted {t : Text} (h : '"' ∉ t ∧ '\\' ∉ t) (rest : Text) :
    readItems .between ('"' :: (t ++ '"' :: rest)) = t :: readItems .between rest := by
  rw [readItems, if_pos rfl, readItems_quoted h, List.nil_append]

theorem readItems_between_skip {c : Char} (h : c = ',' ∨ c = ' ') (rest : Text) :
    readItems .between (c :: rest) = readItems .between rest := by
  have hquote : c ≠ '"' := by
    obtain rfl | rfl := h
    all_goals decide
  rw [readItems, if_neg hquote, if_pos h]

theorem readItems_plain {t : Text} (h : ',' ∉ t ∧ ']' ∉ t) (item rest : Text) :
    readItems (.plain item) (t ++ rest) = readItems (.plain (item ++ t)) rest := by
  induction t generalizing item with
  | nil => rw [List.nil_append, List.append_nil]
  | cons c t ih =>
    obtain ⟨hcomma, hclose⟩ := h
    rw [List.mem_cons, not_or] at hcomma hclose
    rw [List.cons_append, readItems, if_neg fun heq => hcomma.1 heq.symm,
      if_neg fun heq => hclose.1 heq.symm, ih ⟨hcomma.2, hclose.2⟩, List.append_assoc]
    rfl

/-- A text that can stand as an item without quotes. -/
structure Bare (t : Text) : Prop where
  ne_nil : t ≠ []
  start : t.head? ≠ some '"' ∧ t.head? ≠ some ' '
  inside : ',' ∉ t ∧ ']' ∉ t
  ending : t.getLast? ≠ some ' '

theorem Bare.trim {t : Text} (h : Bare t) : trimEndBy (· == ' ') t = t := by
  apply trimEndBy_of_getLast
  intro c hc
  rw [beq_eq_false_iff_ne]
  intro hspace
  subst hspace
  exact h.ending hc

theorem readItems_between_bare {t : Text} (h : Bare t) (rest : Text) :
    readItems .between (t ++ rest) = readItems (.plain t) rest := by
  obtain ⟨c, u, rfl⟩ := List.exists_cons_of_ne_nil h.ne_nil
  have hquote : c ≠ '"' := fun heq => h.start.1 (by rw [heq]; rfl)
  have hspace : c ≠ ' ' := fun heq => h.start.2 (by rw [heq]; rfl)
  obtain ⟨hcomma, hclose⟩ := h.inside
  rw [List.mem_cons, not_or] at hcomma hclose
  rw [List.cons_append, readItems, if_neg hquote, if_neg, if_neg fun heq => hclose.1 heq.symm,
    readItems_plain ⟨hcomma.2, hclose.2⟩]
  · rfl
  · intro hskip
    cases hskip with
    | inl heq => exact hcomma.1 heq.symm
    | inr heq => exact hspace heq

/-- An item without quotes goes up to a comma, or up to the end of the sequence. -/
theorem readItems_bare_comma {t : Text} (h : Bare t) (rest : Text) :
    readItems .between (t ++ ',' :: rest) = t :: readItems .between rest := by
  rw [readItems_between_bare h, readItems, if_pos rfl, h.trim]

theorem readItems_bare_close {t : Text} (h : Bare t) (rest : Text) :
    readItems .between (t ++ ']' :: rest) = [t] := by
  rw [readItems_between_bare h, readItems, if_neg (by decide), if_pos rfl, h.trim]

theorem sequence_append (t : Text) : sequence ("  - [".toList ++ t) = some (readItems .between t) := by
  have hprefix : "  - [".toList.isPrefixOf ("  - [".toList ++ t) = true :=
    List.isPrefixOf_iff_prefix.mpr (List.prefix_append ..)
  rw [sequence, if_pos hprefix, List.drop_left]

/-- The first item is known from the beginning of the line. -/
theorem sequence_of_prefix {t l : Text} (ht : Bare t) (h : "  - [".toList ++ (t ++ [',']) <+: l) :
    ∃ items, sequence l = some (t :: items) := by
  obtain ⟨rest, rfl⟩ := h
  refine ⟨readItems .between rest, ?_⟩
  rw [List.append_assoc, sequence_append, List.append_assoc, List.singleton_append,
    readItems_bare_comma ht]

end Yaml
