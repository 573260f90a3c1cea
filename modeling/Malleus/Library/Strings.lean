import Mathlib.Data.List.TakeWhile

/-! Strings as the Rust standard library reads them.

A text is the list of its characters. `words`, `lines`, `splitOnce`, the `trim`
family and the number parsers are those of `str` and `core::num`: white space is
Unicode's or ASCII's as the caller chooses, a line may end in a carriage return,
and an unsigned number may carry a plus sign. Printing and parsing a number or an
IPv4 address are inverse to each other. -/
namespace Strings

/-- A string, by its characters. -/
abbrev Text := List Char

/-! ### White space -/

/-- Unicode's `White_Space`. -/
def isWhitespace (c : Char) : Bool :=
  let n := c.toNat
  (9 ≤ n && n ≤ 13) || n == 32 || n == 0x85 || n == 0xA0 || n == 0x1680 ||
    (0x2000 ≤ n && n ≤ 0x200A) || n == 0x2028 || n == 0x2029 || n == 0x202F || n == 0x205F ||
    n == 0x3000

/-- Space, tab, line feed, form feed and carriage return. -/
def isAsciiWhitespace (c : Char) : Bool :=
  c == ' ' || c == '\t' || c == '\n' || c == '\x0c' || c == '\r'

/-- What is left when everything of a kind is taken off the end. -/
def trimEndBy {α : Type} (p : α → Bool) (t : List α) : List α := (t.reverse.dropWhile p).reverse

def trim (t : Text) : Text := trimEndBy isWhitespace (t.dropWhile isWhitespace)

/-- A property that no white space has keeps it out. -/
theorem isAsciiWhitespace_eq_false {P : Char → Prop} [DecidablePred P] {c : Char} (hc : P c)
    (h : [' ', '\t', '\n', '\x0c', '\r'].all (fun d => !decide (P d)) = true) :
    isAsciiWhitespace c = false := by
  rw [Bool.eq_false_iff]
  intro hspace
  have hmem : c ∈ [' ', '\t', '\n', '\x0c', '\r'] := by
    simpa [isAsciiWhitespace, or_assoc] using hspace
  have := List.all_eq_true.mp h c hmem
  simp [hc] at this

theorem isAsciiWhitespace_of_isWhitespace {c : Char} (h : isWhitespace c = false) :
    isAsciiWhitespace c = false :=
  isAsciiWhitespace_eq_false (P := fun d => isWhitespace d = false) h (by decide)

/-- The non-empty pieces between separators. -/
def words (sep : Char → Bool) (t : Text) : List Text := (t.splitOnP sep).filter (· ≠ [])

section TrimEnd
variable {α : Type} {p : α → Bool} {t u : List α}

theorem trimEndBy_of_getLast (h : ∀ c ∈ t.getLast?, p c = false) :
    trimEndBy p t = t := by
  unfold trimEndBy
  cases hr : t.reverse with
  | nil => rw [List.reverse_eq_nil_iff.mp hr]; rfl
  | cons c rest =>
    have hlast : t.getLast? = some c := by rw [← List.head?_reverse, hr]; rfl
    rw [List.dropWhile_cons_of_neg (by simp [h c hlast]), ← hr, List.reverse_reverse]

/-- A tail that may be taken off makes no difference. -/
theorem trimEndBy_append_tail (hu : ∀ c ∈ u, p c = true) (t : List α) :
    trimEndBy p (t ++ u) = trimEndBy p t := by
  unfold trimEndBy
  rw [List.reverse_append, List.dropWhile_append_of_pos (by simpa using hu)]

theorem trimEndBy_append (hu : ∀ c ∈ u, p c = true)
    (ht : ∀ c ∈ t.getLast?, p c = false) : trimEndBy p (t ++ u) = t := by
  rw [trimEndBy_append_tail hu, trimEndBy_of_getLast ht]

/-- What stays at the beginning. -/
theorem trimEndBy_cons (p : α → Bool) {c : α} (hc : p c = false) (t : List α) :
    trimEndBy p (c :: t) = c :: trimEndBy p t := by
  rw [trimEndBy, trimEndBy, List.reverse_cons, List.dropWhile_append]
  cases h : t.reverse.dropWhile p with
  | nil => simp [hc]
  | cons d u => simp

theorem isPrefix_trimEndBy (p : α → Bool) (t : List α) : trimEndBy p t <+: t := by
  rw [trimEndBy, ← List.reverse_suffix, List.reverse_reverse]
  exact List.dropWhile_suffix p

/-- What is taken off. -/
theorem trimEndBy_split (p : α → Bool) (t : List α) :
    ∃ u, t = trimEndBy p t ++ u ∧ ∀ c ∈ u, p c = true := by
  refine ⟨(t.reverse.takeWhile p).reverse, ?_, ?_⟩
  · rw [trimEndBy, ← List.reverse_append, List.takeWhile_append_dropWhile, List.reverse_reverse]
  · intro c hc
    exact List.mem_takeWhile_imp (List.mem_reverse.mp hc)

/-- What is left does not end in something to take off. -/
theorem trimEndBy_getLast {c : α} (h : (trimEndBy p t).getLast? = some c) : p c = false := by
  rw [trimEndBy, List.getLast?_reverse] at h
  have := List.head?_dropWhile_not p t.reverse
  simpa [h] using this

end TrimEnd

/-- Only the ends of a text are trimmed. -/
theorem trim_of_ends {t : Text} (hhead : ∀ c ∈ t.head?, isWhitespace c = false)
    (hlast : ∀ c ∈ t.getLast?, isWhitespace c = false) : trim t = t := by
  have hd : t.dropWhile isWhitespace = t := by
    cases t with
    | nil => rfl
    | cons c rest => rw [List.dropWhile_cons_of_neg (by simp [hhead c rfl])]
  rw [trim, hd]
  exact trimEndBy_of_getLast hlast

theorem trim_eq_self {t : Text} (h : ∀ c ∈ t, isWhitespace c = false) : trim t = t :=
  trim_of_ends (fun c hc => h c (List.mem_of_head? hc)) fun c hc => h c (List.mem_of_getLast? hc)

section Words
variable {sep : Char → Bool}

@[simp] theorem words_nil : words sep [] = [] := by simp [words]

/-- A separator cuts the words. -/
theorem words_append_cons {c : Char} (hc : sep c = true) (t u : Text) :
    words sep (t ++ c :: u) = words sep t ++ words sep u := by
  rw [words, List.splitOnP_append_cons _ _ hc, List.filter_append]
  rfl

theorem words_cons {c : Char} (hc : sep c = true) (u : Text) : words sep (c :: u) = words sep u := by
  have := words_append_cons hc [] u
  simpa using this

/-- A word by itself. -/
theorem words_singleton {t : Text} (hne : t ≠ []) (h : ∀ c ∈ t, sep c = false) :
    words sep t = [t] := by
  simp [words, List.splitOnP_eq_singleton h, hne]

theorem words_gap {g : Text} (hg : ∀ c ∈ g, sep c = true) (u : Text) :
    words sep (g ++ u) = words sep u := by
  induction g with
  | nil => rfl
  | cons c rest ih =>
    rw [List.cons_append, words_cons (hg c (List.mem_cons_self ..))]
    exact ih fun d hd => hg d (List.mem_cons_of_mem c hd)

/-- A text that starts in a word has it first. -/
theorem words_cons_of_neg {c : Char} (hc : sep c = false) (u : Text) :
    ∃ w ws, words sep (c :: u) = (c :: w) :: ws := by
  have hsplit : (c :: u).splitOnP sep = (u.splitOnP sep).modifyHead (List.cons c) := by
    rw [List.splitOnP_cons_eq_if_modifyHead, if_neg (by simp [hc])]
  rw [words, hsplit]
  cases hu : u.splitOnP sep with
  | nil => exact absurd hu (List.splitOnP_ne_nil sep u)
  | cons w ws => exact ⟨w, ws.filter (· ≠ []), by simp⟩

theorem splitOnP_head (t : Text) :
    ∃ ps, t.splitOnP sep = (t.takeWhile fun c => !sep c) :: ps := by
  induction t with
  | nil => exact ⟨[], by simp⟩
  | cons c t ih =>
    rw [List.splitOnP_cons_eq_if_modifyHead]
    by_cases hc : sep c = true
    · rw [if_pos hc, List.takeWhile_cons_of_neg (by simp [hc])]
      exact ⟨_, rfl⟩
    · obtain ⟨ps, hps⟩ := ih
      rw [if_neg hc, List.takeWhile_cons_of_pos (by simp [hc]), hps]
      exact ⟨ps, rfl⟩

/-- A text without separators goes to the first piece of what follows it. -/
theorem splitOnP_append {u : Text} (h : ∀ c ∈ u, sep c = false) (t : Text) :
    (u ++ t).splitOnP sep = (t.splitOnP sep).modifyHead (u ++ ·) := by
  induction u with
  | nil =>
    show t.splitOnP sep = (t.splitOnP sep).modifyHead id
    rw [List.modifyHead_id]
    rfl
  | cons c u ih =>
    have hc : ¬ sep c = true := by simp [h c (List.mem_cons_self ..)]
    rw [List.cons_append, List.splitOnP_cons_eq_if_modifyHead, if_neg hc,
      ih fun d hd => h d (List.mem_cons_of_mem c hd), List.modifyHead_modifyHead]
    rfl

/-- The first word goes up to the first separator after it. -/
theorem words_head (t : Text) :
    (words sep t).head?.getD [] = (t.dropWhile sep).takeWhile fun c => !sep c := by
  induction t with
  | nil => simp
  | cons c t ih =>
    by_cases hc : sep c = true
    · rw [words_cons hc, List.dropWhile_cons_of_pos hc, ih]
    · obtain ⟨ps, hps⟩ := splitOnP_head (c :: t)
      rw [List.dropWhile_cons_of_neg hc, words, hps, List.filter_cons_of_pos, List.head?_cons,
        Option.getD_some]
      simp [hc]

end Words

/-! ### Pieces -/

/-- The text around the first `c`. -/
def splitOnce (c : Char) (t : Text) : Option (Text × Text) :=
  match t.dropWhile (· != c) with
  | [] => none
  | _ :: rest => some (t.takeWhile (· != c), rest)

theorem splitOnce_append {c : Char} {key : Text} (h : c ∉ key) (value : Text) :
    splitOnce c (key ++ c :: value) = some (key, value) := by
  have hk : ∀ x ∈ key, (x != c) = true := fun x hx => by
    simp only [bne_iff_ne, ne_eq]
    intro heq
    subst heq
    exact h hx
  have hd : (key ++ c :: value).dropWhile (· != c) = c :: value := by
    rw [List.dropWhile_append_of_pos hk, List.dropWhile_cons_of_neg (by simp)]
  have ht : (key ++ c :: value).takeWhile (· != c) = key := by
    rw [List.takeWhile_append_of_pos hk, List.takeWhile_cons_of_neg (by simp), List.append_nil]
  simp only [splitOnce, hd, ht]

theorem splitOnce_eq_none {c : Char} {t : Text} (h : c ∉ t) : splitOnce c t = none := by
  have hd : t.dropWhile (· != c) = [] := by
    rw [List.dropWhile_eq_nil_iff]
    intro x hx
    simp only [bne_iff_ne, ne_eq]
    intro heq
    subst heq
    exact h hx
  simp only [splitOnce, hd]

theorem mem_intercalate {c d : Char} {pieces : List Text} (h : c ∈ [d].intercalate pieces) :
    c = d ∨ ∃ piece ∈ pieces, c ∈ piece := by
  induction pieces with
  | nil => simp at h
  | cons piece pieces ih =>
    cases pieces with
    | nil => exact Or.inr ⟨piece, by simp, by simpa using h⟩
    | cons next pieces =>
      rw [List.intercalate_cons_cons, List.mem_append, List.mem_append, List.mem_singleton] at h
      rcases h with (h | h) | h
      · exact Or.inr ⟨piece, by simp, h⟩
      · exact Or.inl h
      · rcases ih h with h | ⟨p, hp, hc⟩
        · exact Or.inl h
        · exact Or.inr ⟨p, List.mem_cons_of_mem _ hp, hc⟩

/-- No separator is in a piece it makes. -/
theorem not_sep_of_mem_splitOnP {sep : Char → Bool} {t piece : Text} (h : piece ∈ t.splitOnP sep) :
    ∀ c ∈ piece, sep c = false := by
  induction t generalizing piece with
  | nil =>
    obtain rfl : piece = [] := by simpa using h
    simp
  | cons x rest ih =>
    rw [List.splitOnP_cons_eq_if_modifyHead] at h
    split at h
    · rcases List.mem_cons.mp h with rfl | h
      · simp
      · exact ih h
    · next hx =>
      obtain ⟨p, ps, hp⟩ := List.exists_cons_of_ne_nil (List.splitOnP_ne_nil sep rest)
      rw [hp, List.modifyHead_cons] at h
      rw [hp] at ih
      rcases List.mem_cons.mp h with rfl | h
      · intro c hc
        rcases List.mem_cons.mp hc with rfl | hc
        · simpa using hx
        · exact ih (List.mem_cons_self ..) c hc
      · exact ih (List.mem_cons_of_mem p h)

theorem not_mem_of_mem_splitOn {c : Char} {t piece : Text} (h : piece ∈ t.splitOn c) : c ∉ piece := by
  intro hc
  have := not_sep_of_mem_splitOnP h c hc
  simp at this

/-- A word has no separator in it, and something else. -/
theorem mem_words {sep : Char → Bool} {t word : Text} (h : word ∈ words sep t) :
    word ≠ [] ∧ ∀ c ∈ word, sep c = false := by
  obtain ⟨hsplit, hne⟩ := List.mem_filter.mp h
  exact ⟨by simpa using hne, not_sep_of_mem_splitOnP hsplit⟩

/-- The text from the first occurrence of `needle` on, without it. -/
def after (needle : Text) : Text → Option Text
  | [] => if needle.isEmpty then some [] else none
  | c :: t => if needle.isPrefixOf (c :: t) then some ((c :: t).drop needle.length) else after needle t

def contains (needle t : Text) : Bool := (after needle t).isSome

theorem contains_iff {needle t : Text} : contains needle t = true ↔ needle <:+: t := by
  unfold contains
  induction t with
  | nil => cases needle <;> simp [after]
  | cons c t ih =>
    rw [after, List.infix_cons_iff]
    by_cases h : needle <+: c :: t
    · simp [h]
    · rw [if_neg (by simpa using h), ih]
      simp [h]

/-- A needle that begins with a character of its own is first found where it first stands. -/
theorem after_append {d : Char} {needle u : Text} (hd : d ∉ needle) (hu : ¬ d :: needle <:+: u) (t : Text) :
    after (d :: needle) (u ++ (d :: needle ++ t)) = some t := by
  induction u with
  | nil =>
    have hprefix : (d :: needle).isPrefixOf (d :: needle ++ t) = true :=
      List.isPrefixOf_iff_prefix.mpr (List.prefix_append ..)
    rw [List.nil_append, List.cons_append, after, ← List.cons_append, if_pos hprefix, List.drop_left]
  | cons c u ih =>
    have hno : ¬ (d :: needle) <+: c :: u ++ (d :: needle ++ t) := by
      intro hprefix
      have hself : c :: u <+: c :: u ++ (d :: needle ++ t) := List.prefix_append ..
      cases List.prefix_or_prefix_of_prefix hprefix hself with
      | inl hin => exact hu hin.isInfix
      | inr hover =>
        -- the needle would begin again inside itself
        obtain ⟨rest, hrest⟩ := hover
        obtain ⟨s, hs⟩ := hprefix
        have hrest_eq : rest ++ s = d :: needle ++ t := by
          apply List.append_cancel_left
          rw [← List.append_assoc, hrest]
          exact hs
        cases rest with
        | nil =>
          rw [List.append_nil] at hrest
          exact hu (hrest ▸ List.infix_rfl)
        | cons e rest =>
          obtain rfl : e = d := (List.cons.inj hrest_eq).1
          apply hd
          rw [List.cons_append] at hrest
          rw [← (List.cons.inj hrest).2]
          simp
    rw [List.cons_append, after, if_neg (by rwa [List.isPrefixOf_iff_prefix, ← List.cons_append])]
    exact ih fun h => hu (List.infix_cons h)

/-- What cannot be part of the needle can be left out at the end. -/
theorem infix_append_of_disjoint {needle u g : Text} (hne : needle ≠ []) (hg : ∀ c ∈ g, c ∉ needle) :
    needle <:+: u ++ g ↔ needle <:+: u := by
  have hnone : ∀ part, part <:+: g → (∀ c ∈ part, c ∈ needle) → part = [] := by
    intro part hpart hneedle
    cases part with
    | nil => rfl
    | cons c part => exact absurd (hneedle c (by simp)) (hg c (hpart.subset (by simp)))
  rw [List.infix_append_iff]
  constructor
  · intro h
    obtain h | h | ⟨l, r, heq, hl, hr⟩ := h
    · exact h
    · exact absurd (hnone needle h fun c hc => hc) hne
    · have hnil := hnone r hr.isInfix fun c hc => by
        rw [heq]
        exact List.mem_append_right l hc
      rw [heq, hnil, List.append_nil]
      exact hl.isInfix
  · exact Or.inl

/-- A needle that begins with a character of its own is not found in its first part. -/
theorem not_infix_append_prefix {d : Char} {needle u g : Text} (hd : d ∉ needle)
    (hu : ¬ d :: needle <:+: u) (hg : g <+: d :: needle) (hlt : g.length < needle.length + 1) :
    ¬ d :: needle <:+: u ++ g := by
  rw [List.infix_append_iff]
  rintro (hin | hin | ⟨l, r, heq, hl, hr⟩)
  · exact hu hin
  · have := hin.length_le
    rw [List.length_cons] at this
    omega
  · have hlength := hr.length_le
    cases r with
    | nil =>
      rw [List.append_nil] at heq
      exact hu (heq ▸ hl.isInfix)
    | cons e r =>
      obtain ⟨s, hs⟩ := hr.trans hg
      obtain rfl : e = d := (List.cons.inj hs).1
      cases l with
      | nil =>
        rw [heq, List.nil_append] at hg
        have := congrArg List.length heq
        simp only [List.nil_append, List.length_cons] at this hlength
        omega
      | cons c l =>
        apply hd
        rw [(List.cons.inj heq).2]
        simp

/-- Every trailing repetition of `suffix` taken off; a text holds fewer than its length. -/
def trimEndMatches (suffix t : Text) : Text := go t.length t
where
  go : Nat → Text → Text
    | 0, t => t
    | fuel + 1, t =>
      if suffix.isSuffixOf t && !suffix.isEmpty then go fuel (t.take (t.length - suffix.length)) else t

section TrimEndMatches
variable {suffix t : Text}

theorem trimEndMatches_go (h : ¬ suffix <:+ t) (fuel : Nat) : trimEndMatches.go suffix fuel t = t := by
  cases fuel with
  | zero => rfl
  | succ n =>
    rw [trimEndMatches.go, if_neg]
    rw [Bool.and_eq_true, List.isSuffixOf_iff_suffix]
    exact fun hs => h hs.1

theorem trimEndMatches_of_not_suffix (h : ¬ suffix <:+ t) : trimEndMatches suffix t = t :=
  trimEndMatches_go h _

/-- One repetition is taken off. -/
theorem trimEndMatches_append (hne : suffix ≠ []) (h : ¬ suffix <:+ t) :
    trimEndMatches suffix (t ++ suffix) = t := by
  have hpos : (t ++ suffix).length ≠ 0 := by simp [hne]
  obtain ⟨n, hn⟩ := Nat.exists_eq_succ_of_ne_zero hpos
  rw [trimEndMatches, hn, trimEndMatches.go, if_pos, List.length_append, Nat.add_sub_cancel,
    List.take_left, trimEndMatches_go h]
  rw [Bool.and_eq_true, List.isSuffixOf_iff_suffix]
  exact ⟨List.suffix_append _ _, by simpa using hne⟩

end TrimEndMatches

def eqIgnoreAsciiCase (t u : Text) : Bool := t.map Char.toLower == u.map Char.toLower

/-! ### Byte offsets -/

/-- How long a text is in UTF-8. -/
def byteLength : Text → Nat
  | [] => 0
  | c :: t => c.utf8Size + byteLength t

/-- Where `needle` first stands, in bytes. -/
def findAt (needle : Text) : Text → Option Nat
  | [] => if needle.isEmpty then some 0 else none
  | c :: t => if needle.isPrefixOf (c :: t) then some 0 else (findAt needle t).map (c.utf8Size + ·)

/-- The text from a byte on; no text begins past the end or inside a character. -/
def sliceFrom : Text → Nat → Option Text
  | [], pos => if pos = 0 then some [] else none
  | c :: t, pos =>
    if pos = 0 then some (c :: t)
    else if c.utf8Size ≤ pos then sliceFrom t (pos - c.utf8Size)
    else none

theorem byteLength_append (t u : Text) : byteLength (t ++ u) = byteLength t + byteLength u := by
  induction t with
  | nil => rw [List.nil_append, byteLength, Nat.zero_add]
  | cons c t ih => rw [List.cons_append, byteLength, byteLength, ih, Nat.add_assoc]

theorem sliceFrom_append (u t : Text) : sliceFrom (u ++ t) (byteLength u) = some t := by
  induction u with
  | nil => cases t <;> rfl
  | cons c u ih =>
    have hpos := c.utf8Size_pos
    rw [byteLength, List.cons_append, sliceFrom, if_neg (by omega), if_pos (by omega),
      Nat.add_sub_cancel_left]
    exact ih

/-- The offset of what is found is the length of the text before it. -/
theorem findAt_cases (needle t : Text) :
    (findAt needle t = none ∧ after needle t = none) ∨
      ∃ u part, t = u ++ (needle ++ part) ∧ findAt needle t = some (byteLength u) ∧
        after needle t = some part := by
  induction t with
  | nil =>
    rw [findAt, after]
    cases needle with
    | nil => exact Or.inr ⟨[], [], rfl, rfl, rfl⟩
    | cons d needle => exact Or.inl ⟨rfl, rfl⟩
  | cons c t ih =>
    rw [findAt, after]
    by_cases h : needle.isPrefixOf (c :: t) = true
    · obtain ⟨part, hpart⟩ := List.isPrefixOf_iff_prefix.mp h
      rw [if_pos h, if_pos h, ← hpart, List.drop_left]
      exact Or.inr ⟨[], part, rfl, rfl, rfl⟩
    · rw [if_neg h, if_neg h]
      obtain ⟨hfind, hafter⟩ | ⟨u, part, rfl, hfind, hafter⟩ := ih
      · rw [hfind, hafter]
        exact Or.inl ⟨rfl, rfl⟩
      · rw [hfind, hafter]
        exact Or.inr ⟨c :: u, part, rfl, rfl, rfl⟩

/-! ### Lines -/

/-- A line without the carriage return of its ending. -/
def stripCr (l : Text) : Text := if l.getLast? = some '\r' then l.dropLast else l

/-- The lines of a text: a final line feed starts no line of its own, and a line
that ended in one loses a carriage return before it. -/
def lines (t : Text) : List Text :=
  (t.splitOn '\n').dropLast.map stripCr ++ ((t.splitOn '\n').getLast?.filter (· ≠ [])).toList

/-- Every line with a line feed behind it. -/
def unlines (ls : List Text) : Text := ls.flatMap fun l => l ++ ['\n']

@[simp] theorem unlines_nil : unlines [] = [] := rfl

@[simp] theorem unlines_cons (l : Text) (ls : List Text) :
    unlines (l :: ls) = l ++ '\n' :: unlines ls := by simp [unlines]

@[simp] theorem unlines_append (ls ls' : List Text) : unlines (ls ++ ls') = unlines ls ++ unlines ls' := by
  simp [unlines]

/-- A line that `lines` gives back as it was written. -/
def Plain (l : Text) : Prop := '\n' ∉ l ∧ '\r' ∉ l

instance (l : Text) : Decidable (Plain l) := inferInstanceAs (Decidable (_ ∧ _))

theorem plain_append {t u : Text} (ht : Plain t) (hu : Plain u) : Plain (t ++ u) :=
  ⟨List.not_mem_append ht.1 hu.1, List.not_mem_append ht.2 hu.2⟩

/-- The characters of a literal, without decoding its bytes. -/
theorem toList_literal {s : String} {t : Text} (hs : s = String.ofList t) : s.toList = t := by
  rw [hs, String.toList_ofList]

theorem not_mem_literal {s : String} {t : Text} {c : Char} (hs : s = String.ofList t) (h : c ∉ t) :
    c ∉ s.toList := by
  rwa [toList_literal hs]

theorem plain_literal {s : String} {t : Text} (hs : s = String.ofList t) (h : Plain t) :
    Plain s.toList := by
  rwa [toList_literal hs]

/-- Only the end of a line is looked at. -/
theorem stripCr_append (u : Text) {t : Text} (h : t ≠ []) : stripCr (u ++ t) = u ++ stripCr t := by
  have hlast : (u ++ t).getLast? = t.getLast? := by
    obtain ⟨c, hc⟩ := Option.isSome_iff_exists.mp (List.getLast?_isSome.mpr h)
    rw [List.getLast?_append, hc]
    rfl
  rw [stripCr, stripCr, hlast]
  split
  · exact List.dropLast_append_of_ne_nil h
  · rfl

theorem stripCr_of_not_mem {l : Text} (h : '\r' ∉ l) : stripCr l = l := by
  unfold stripCr
  split
  · next hl => exact absurd (List.mem_of_getLast? hl) h
  · rfl

/-- A line up to its line feed, which may follow a carriage return. -/
theorem lines_cons {l : Text} (h : '\n' ∉ l) (t : Text) :
    lines (l ++ '\n' :: t) = stripCr l :: lines t := by
  obtain ⟨p, ps, hp⟩ := List.exists_cons_of_ne_nil (List.splitOn_ne_nil '\n' t)
  simp [lines, List.splitOn_append_cons_self_of_not_mem h, hp]

theorem lines_append {l : Text} (h : Plain l) (t : Text) :
    lines (l ++ '\n' :: t) = l :: lines t := by
  rw [lines_cons h.1, stripCr_of_not_mem h.2]

/-- Lines that end in a line feed are read without the carriage return before it. -/
theorem lines_unlines_strip {ls : List Text} (h : ∀ l ∈ ls, '\n' ∉ l) (t : Text) :
    lines (unlines ls ++ t) = ls.map stripCr ++ lines t := by
  induction ls with
  | nil => rfl
  | cons l ls ih =>
    rw [unlines_cons, List.append_assoc, List.cons_append, lines_cons (h l (List.mem_cons_self ..)),
      ih fun l' hl => h l' (List.mem_cons_of_mem l hl)]
    rfl

theorem map_stripCr {ls : List Text} (h : ∀ l ∈ ls, '\r' ∉ l) : ls.map stripCr = ls :=
  (List.map_congr_left fun l hl => stripCr_of_not_mem (h l hl)).trans (List.map_id ls)

theorem lines_unlines_append {ls : List Text} (h : ∀ l ∈ ls, Plain l) (t : Text) :
    lines (unlines ls ++ t) = ls ++ lines t := by
  rw [lines_unlines_strip (fun l hl => (h l hl).1), map_stripCr fun l hl => (h l hl).2]

/-- Cutting at the line feeds and ending every line in one adds one at the end. -/
theorem unlines_splitOn (t : Text) : unlines (t.splitOn '\n') = t ++ ['\n'] := by
  have h : ∀ ps : List Text, ps ≠ [] → unlines ps = ['\n'].intercalate ps ++ ['\n'] := by
    intro ps hps
    induction ps with
    | nil => exact absurd rfl hps
    | cons p ps ih =>
      cases ps with
      | nil => simp
      | cons q ps =>
        rw [unlines_cons, ih (by simp), List.intercalate_cons_cons]
        simp
  rw [h _ (List.splitOn_ne_nil '\n' t), List.intercalate_splitOn]

/-- A text that is empty or ends in a line feed is lines that each end in one. -/
theorem exists_unlines {t : Text} (h : ∀ c ∈ t.getLast?, c = '\n') :
    ∃ ls, t = unlines ls ∧ ∀ l ∈ ls, '\n' ∉ l := by
  rcases List.eq_nil_or_concat t with rfl | ⟨init, last, rfl⟩
  · exact ⟨[], rfl, by simp⟩
  · obtain rfl : last = '\n' := h last (by simp)
    refine ⟨init.splitOn '\n', ?_, fun l hl => not_mem_of_mem_splitOn hl⟩
    rw [unlines_splitOn, List.concat_eq_append]

/-- What follows a line feed begins a line of its own. -/
theorem lines_append_of_ended {t : Text} (h : ∀ c ∈ t.getLast?, c = '\n') (u : Text) :
    lines (t ++ u) = lines t ++ lines u := by
  obtain ⟨ls, rfl, hls⟩ := exists_unlines h
  have hwhole := lines_unlines_strip hls []
  rw [List.append_nil, show lines [] = [] from rfl, List.append_nil] at hwhole
  rw [lines_unlines_strip hls, hwhole]

/-- A line that has not ended keeps a carriage return. -/
theorem lines_singleton {l : Text} (hne : l ≠ []) (h : '\n' ∉ l) : lines l = [l] := by
  simp [lines, List.splitOn_eq_singleton h, hne]

/-- A line without a line feed stays whole, whatever the others are. -/
theorem mem_splitOn_unlines {ls : List Text} {l : Text} (h : l ∈ ls) (hl : '\n' ∉ l) :
    l ∈ (unlines ls).splitOn '\n' := by
  induction ls with
  | nil => exact absurd h (List.not_mem_nil)
  | cons m ls ih =>
    rw [unlines_cons, List.splitOn_append_cons_self, List.mem_append]
    cases List.mem_cons.mp h with
    | inl heq =>
      subst heq
      rw [List.splitOn_eq_singleton hl]
      exact Or.inl (List.mem_singleton_self l)
    | inr hmem => exact Or.inr (ih hmem)

/-- What is in a line is in the text. -/
theorem mem_of_mem_line {c : Char} {t line : Text} (h : line ∈ t.splitOn '\n') (hc : c ∈ line) :
    c ∈ t := by
  have hmem : c ∈ unlines (t.splitOn '\n') := List.mem_flatMap.mpr ⟨line, h, by simp [hc]⟩
  rw [unlines_splitOn, List.mem_append, List.mem_singleton] at hmem
  exact hmem.resolve_right fun heq => not_mem_of_mem_splitOn h (heq ▸ hc)

theorem prefix_of_stripCr (l : Text) : stripCr l <+: l := by
  unfold stripCr
  split
  · exact List.dropLast_prefix l
  · exact List.prefix_rfl

/-- A line begins a piece between line feeds, and is all of it but for a carriage return. -/
theorem prefix_of_mem_lines {t line : Text} (h : line ∈ lines t) :
    ∃ piece ∈ t.splitOn '\n', line <+: piece := by
  rw [lines, List.mem_append, List.mem_map] at h
  cases h with
  | inl hinit =>
    obtain ⟨piece, hpiece, rfl⟩ := hinit
    exact ⟨piece, (List.dropLast_sublist _).subset hpiece, prefix_of_stripCr piece⟩
  | inr hlast =>
    rw [Option.mem_toList] at hlast
    exact ⟨line, List.mem_of_getLast? (Option.filter_eq_some_iff.mp hlast).1, List.prefix_rfl⟩

theorem not_mem_of_mem_lines {t line : Text} (h : line ∈ lines t) : '\n' ∉ line := by
  obtain ⟨piece, hpiece, hpart⟩ := prefix_of_mem_lines h
  exact fun hc => not_mem_of_mem_splitOn hpiece (hpart.subset hc)

/-- A text that does not end in a line feed has something on its last line. -/
theorem last_line_ne_nil {t : Text} (hne : t ≠ []) (hlast : t.getLast? ≠ some '\n') :
    ∀ l ∈ (t.splitOn '\n').getLast?, l ≠ [] := by
  rintro l hl rfl
  obtain ⟨init, hinit⟩ := List.getLast?_eq_some_iff.mp hl
  have ht : t = unlines init := by
    have := unlines_splitOn t
    rw [hinit, unlines_append] at this
    exact (List.append_cancel_right this).symm
  rcases List.eq_nil_or_concat init with rfl | ⟨init, last, rfl⟩
  · exact hne ht
  · apply hlast
    rw [ht]
    simp [unlines]

/-- The lines of a text that ends in the middle of one. -/
theorem lines_eq_splitOn {t : Text} (hne : t ≠ []) (hlast : t.getLast? ≠ some '\n') (hcr : '\r' ∉ t) :
    lines t = t.splitOn '\n' := by
  obtain ⟨last, hl⟩ : ∃ last, (t.splitOn '\n').getLast? = some last :=
    Option.isSome_iff_exists.mp (List.getLast?_isSome.mpr (List.splitOn_ne_nil '\n' t))
  have hsome := last_line_ne_nil hne hlast last hl
  have hstrip : (t.splitOn '\n').dropLast.map stripCr = (t.splitOn '\n').dropLast :=
    map_stripCr fun l hmem hc => hcr (mem_of_mem_line ((List.dropLast_sublist _).subset hmem) hc)
  rw [lines, hstrip, hl]
  obtain ⟨init, hinit⟩ := List.getLast?_eq_some_iff.mp hl
  simp [hinit, hsome]

end Strings
