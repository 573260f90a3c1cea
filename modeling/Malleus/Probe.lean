import Malleus.Library.Paths
import Malleus.Process

/-! What the probe says of a process.

The probe looks for `vfkit` in the second word of the line that `ps` prints, not in the
last component of the path. `describes_exactly` says for which paths that makes no
difference. -/
namespace Malleus
open Strings

/-! ### Paths and states -/

/-- The last component of a path. -/
def lastComponent (path : Text) : Text := (path.splitOn '/').getLast?.getD []

/-- The path up to the first white space in it. -/
def firstWord (path : Text) : Text := (words isAsciiWhitespace path).head?.getD []

def vfkitName : Text := "vfkit".toList

/-- A process state code: at least a letter, and no white space. -/
def StateCode (state : Text) : Prop := state ≠ [] ∧ ∀ c ∈ state, isWhitespace c = false

instance (state : Text) : Decidable (StateCode state) :=
  @instDecidableAnd _ _ inferInstance (List.decidableBAll _ state)

/-- A `vfkit` in a directory with white space in its path, and no `vfkit` before it. -/
def Unseen (path : Text) : Prop :=
  lastComponent path = vfkitName ∧ contains vfkitName (firstWord path) = false

/-- Another program, with `vfkit` somewhere in its path before any white space. -/
def Lookalike (path : Text) : Prop :=
  lastComponent path ≠ vfkitName ∧ contains vfkitName (firstWord path) = true

/-! ### The second word -/

theorem vfkitName_no_space : ∀ c ∈ vfkitName, isWhitespace c = false := by
  have hall : vfkitName.all (fun c => !isWhitespace c) = true := by decide
  intro c hc
  simpa using List.all_eq_true.mp hall c hc

theorem StateCode.no_space {state : Text} (h : StateCode state) :
    ∀ c ∈ state, isAsciiWhitespace c = false :=
  fun c hc => isAsciiWhitespace_of_isWhitespace (h.2 c hc)

/-- The state code alone is no line of a vfkit. -/
theorem describes_state {state : Text} (h : StateCode state) : describesLiveVfkit state = false := by
  rw [describesLiveVfkit, words_singleton h.1 h.no_space]
  dsimp only
  split <;> rfl

/-- The probe looks for the name in the first word of the path only. -/
theorem describes_line {state : Text} (h : StateCode state) (path : Text) :
    describesLiveVfkit (state ++ ' ' :: path) =
      (!isZombie state && contains vfkitName (firstWord path)) := by
  have hwords : words isAsciiWhitespace (state ++ ' ' :: path) = state :: words isAsciiWhitespace path := by
    rw [words_append_cons (by decide), words_singleton h.1 h.no_space]
    rfl
  rw [describesLiveVfkit, hwords, firstWord]
  dsimp only
  cases isZombie state with
  | true => rfl
  | false =>
    cases words isAsciiWhitespace path with
    | nil => rfl
    | cons command _ => rfl

/-- White space at the end of a path takes nothing from its first word that counts. -/
theorem firstWord_append {g : Text} (hg : ∀ c ∈ g, isWhitespace c = true) (path : Text) :
    contains vfkitName (firstWord (path ++ g)) = contains vfkitName (firstWord path) := by
  have hne : vfkitName ≠ [] := List.cons_ne_nil _ _
  have hdisjoint : ∀ u : Text, u <:+: g → ∀ c ∈ u, c ∉ vfkitName := by
    intro u hu c hc hname
    have hspace := hg c (hu.subset hc)
    rw [vfkitName_no_space c hname] at hspace
    cases hspace
  rw [Bool.eq_iff_iff, contains_iff, contains_iff, firstWord, firstWord, words_head, words_head,
    List.dropWhile_append]
  by_cases hpath : path.dropWhile isAsciiWhitespace = []
  · have hword : (g.dropWhile isAsciiWhitespace).takeWhile (fun c => !isAsciiWhitespace c) <:+: g :=
      (List.takeWhile_prefix _).isInfix.trans (List.dropWhile_suffix _).isInfix
    have hempty := infix_append_of_disjoint (u := []) hne (hdisjoint _ hword)
    rw [List.nil_append] at hempty
    rw [hpath, if_pos (by rfl), hempty]
    rfl
  · rw [if_neg (by simpa using hpath), List.takeWhile_append]
    split
    · next hall =>
      have hword : g.takeWhile (fun c => !isAsciiWhitespace c) <:+: g := (List.takeWhile_prefix _).isInfix
      have hwhole : (path.dropWhile isAsciiWhitespace).takeWhile (fun c => !isAsciiWhitespace c) =
          path.dropWhile isAsciiWhitespace :=
        List.IsPrefix.eq_of_length (List.takeWhile_prefix _) hall
      rw [hwhole]
      exact infix_append_of_disjoint hne (hdisjoint _ hword)
    · rfl

/-- The probe's caller takes white space off both ends of the line. -/
theorem trim_psLine {p : Process} (h : StateCode p.state) :
    trim p.psLine = trimEndBy isWhitespace (p.state ++ ' ' :: p.comm) := by
  obtain ⟨c, state, hstate⟩ := List.exists_cons_of_ne_nil h.1
  have hc : isWhitespace c = false := h.2 c (by simp [hstate])
  have hdrop : p.psLine.dropWhile isWhitespace = p.psLine := by
    rw [Process.psLine, hstate, List.cons_append, List.cons_append,
      List.dropWhile_cons_of_neg (by simp [hc])]
  rw [trim, hdrop, Process.psLine, trimEndBy_append_tail (List.forall_mem_singleton.mpr rfl)]

theorem describes_trimmed {p : Process} (h : StateCode p.state) :
    describesLiveVfkit (trim p.psLine) = (!isZombie p.state && contains vfkitName (firstWord p.comm)) := by
  obtain ⟨g, hcomm, hg⟩ := trimEndBy_split isWhitespace p.comm
  have hfirst := firstWord_append hg (trimEndBy isWhitespace p.comm)
  rw [← hcomm] at hfirst
  rw [trim_psLine h, hfirst]
  cases hpath : trimEndBy isWhitespace p.comm with
  | nil =>
    -- nothing is left of the line but the state
    rw [hpath, List.nil_append] at hcomm
    have hblank : ∀ c ∈ ' ' :: p.comm, isWhitespace c = true := by
      intro c hc
      rw [hcomm] at hc
      cases List.mem_cons.mp hc with
      | inl hspace =>
        subst hspace
        decide
      | inr hmem => exact hg c hmem
    rw [trimEndBy_append hblank fun c hc => h.2 c (List.mem_of_getLast? hc), describes_state h]
    cases isZombie p.state <;> rfl
  | cons c path =>
    have hline : p.state ++ ' ' :: p.comm = p.state ++ ' ' :: (c :: path) ++ g := by
      rw [hcomm, hpath]
      simp
    have hlast : ∀ d ∈ (p.state ++ ' ' :: (c :: path)).getLast?, isWhitespace d = false := by
      intro d hd
      apply trimEndBy_getLast
      rw [hpath]
      simpa [List.getLast?_append, List.getLast?_cons] using hd
    rw [hline, trimEndBy_append hg hlast, describes_line h]

/-- **The probe tells vfkit from other programs** except where its path has white space
before the name, or the path of another program has the name in it. -/
theorem describes_exactly {p : Process} {line : Text} (hstate : StateCode p.state)
    (hline : line = p.state ++ ' ' :: p.comm ∨ line = trim p.psLine) :
    (describesLiveVfkit line = true ↔ p.state.head? ≠ some 'Z' ∧ lastComponent p.comm = vfkitName) ↔
      p.state.head? = some 'Z' ∨ (¬ Unseen p.comm ∧ ¬ Lookalike p.comm) := by
  have hprobe : describesLiveVfkit line =
      (!isZombie p.state && contains vfkitName (firstWord p.comm)) := by
    cases hline with
    | inl hbare => rw [hbare, describes_line hstate]
    | inr htrimmed => rw [htrimmed, describes_trimmed hstate]
  rw [hprobe, isZombie, Unseen, Lookalike]
  by_cases hzombie : p.state.head? = some 'Z'
  · simp [hzombie]
  by_cases hname : lastComponent p.comm = vfkitName
  · simp [hzombie, hname]
  · simp [hzombie, hname]

/-- The usual place is told right, also when the process is gone. -/
theorem describes_exactly_homebrew :
    (describesLiveVfkit "S+ /opt/homebrew/bin/vfkit".toList = true ↔
      "S+".toList.head? ≠ some 'Z' ∧ lastComponent "/opt/homebrew/bin/vfkit".toList = vfkitName) :=
  (describes_exactly (p := ⟨"S+".toList, "/opt/homebrew/bin/vfkit".toList, none⟩) (by decide)
    (Or.inl (by decide))).mpr (Or.inr ⟨fun h => absurd h.2 (by decide), fun h => absurd (by decide) h.1⟩)

/-- A vfkit below a directory with a space in its name is missed, and a helper in a
directory named after vfkit is taken for it. -/
theorem describes_wrong :
    ¬ (describesLiveVfkit "S+ /Applications/My Tools/vfkit".toList = true ↔
      "S+".toList.head? ≠ some 'Z' ∧ lastComponent "/Applications/My Tools/vfkit".toList = vfkitName) ∧
    ¬ (describesLiveVfkit "S+ /usr/local/vfkit-tools/ssh".toList = true ↔
      "S+".toList.head? ≠ some 'Z' ∧ lastComponent "/usr/local/vfkit-tools/ssh".toList = vfkitName) := by
  decide +kernel

end Malleus
