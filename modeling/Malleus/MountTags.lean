import Malleus.Library.Paths
import Malleus.CloudConfig
import Malleus.Commands

/-! Names and tags where they are used.

The filter on names looks at characters one by one. `name_is_safe` says which of the
names it accepts are safe as the last component of a path and as a word of a command
line, and `parent_escapes` shows one that is not. -/
namespace Malleus.MountTags
open Strings Incus

/-! ### The filter -/

/-- A name the program goes on with: as the name of a mount or a remote, or as a tag. -/
def Accepted (s : Text) : Prop :=
  validMountName s = true ∨ Provision.validateMountTag s = .ok ()

theorem validateMountTag_iff {s : Text} :
    Provision.validateMountTag s = .ok () ↔ validMountName s = true := by
  unfold Provision.validateMountTag validMountName
  by_cases he : (trim s).isEmpty = true
  · simp [he]
  · by_cases hc : s.all Provision.isNameChar = true
    · simp [he, hc]
    · simp [he, hc]

/-- Both filters are one. -/
theorem Accepted.valid {s : Text} (h : Accepted s) : validMountName s = true := by
  rwa [Accepted, validateMountTag_iff, or_self] at h

/-! ### Command lines -/

/-- A dash and more. A dash alone is an operand; two are the end of the options. -/
def isOption (word : Text) : Bool := word.head? == some '-' && decide (2 ≤ word.length)

/-- The words that are not read as options: those in `valued` take the next word with
them, and after `--` there are no more options. -/
def operands (valued : List Text) : Bool → List Text → List Text
  | _, [] => []
  | true, _ :: rest => operands valued false rest
  | false, word :: rest =>
    if word = "--".toList then rest
    else if isOption word then operands valued (valued.contains word) rest
    else word :: operands valued false rest

section Operands
variable {valued : List Text} {word : Text} {rest : List Text}

theorem operands_operand (h : isOption word = false) :
    operands valued false (word :: rest) = word :: operands valued false rest := by
  have hne : word ≠ "--".toList := by
    intro he
    rw [he] at h
    exact absurd h (by decide)
  rw [operands, if_neg hne, h]
  simp

theorem operands_option (h : isOption word = true) : operands valued false [word] = [] := by
  rw [operands]
  split
  · rfl
  · cases valued.contains word with
    | true => rfl
    | false => rfl

end Operands

/-! ### Where a name stands -/

def mountDir : Text := "/mnt/mac".toList

/-- Where a share with the tag is mounted. -/
def mountPath (tag : Text) : Text := mountDir ++ '/' :: tag

/-- The words after `mount`, as the script that reports the address runs it. -/
def mountArgs (tag : Text) : List Text :=
  ["-t".toList, "virtiofs".toList, tag, mountPath tag]

def everyOther {α : Type} : List α → List α
  | _ :: x :: rest => x :: everyOther rest
  | _ => []

/-- What stands between the quotes of a line. -/
def columns (line : Text) : List Text := everyOther (line.splitOn '"')

/-- Two uses of a tag between fixed texts, as pieces between quotes. -/
theorem quoted_around {q : Char} {before gap dir first : Text} {more : List Text} (tag : Text)
    {a b c : Text} (ha : a = before ++ [q]) (hb : b = [q] ++ gap ++ [q] ++ dir ++ ['/'])
    (hc : c = [q] ++ [q].intercalate (first :: more)) :
    a ++ tag ++ b ++ tag ++ c =
      [q].intercalate (before :: tag :: gap :: (dir ++ '/' :: tag) :: first :: more) := by
  rw [ha, hb, hc]
  simp only [List.intercalate_cons_cons, List.append_assoc, List.cons_append, List.nil_append]

/-- The line of a mount says what is mounted, and where. -/
theorem columns_mountLine {tag : Text} (h : '"' ∉ tag) :
    columns (Provision.mountLine tag) = [tag, mountPath tag, "virtiofs".toList,
      "defaults,_netdev".toList, "0".toList, "0".toList] := by
  have hpath : '"' ∉ mountPath tag := by
    rw [mountPath, List.mem_append, List.mem_cons, not_or, not_or]
    exact ⟨by decide, by decide, h⟩
  have hline : Provision.mountLine tag = ['"'].intercalate ["  - [ ".toList, tag, ", ".toList,
      mountPath tag, ", ".toList, "virtiofs".toList, ", ".toList, "defaults,_netdev".toList,
      ", ".toList, "0".toList, ", ".toList, "0".toList, " ]".toList] :=
    quoted_around tag (by decide) (by decide) (by decide)
  rw [columns, hline, List.splitOn_intercalate]
  · rfl
  · intro piece hpiece
    simp only [List.mem_cons, List.not_mem_nil, or_false] at hpiece
    obtain rfl | rfl | rfl | rfl | rfl | rfl | rfl | rfl | rfl | rfl | rfl | rfl | rfl := hpiece
    all_goals first
      | exact h
      | exact hpath
      | decide
  · exact List.cons_ne_nil _ _

/-- The line that makes the directory. -/
def mkdirLine (tag : Text) : Text := "  - [mkdir, -p,".toList ++ ' ' :: (mountPath tag ++ [']'])

theorem joined_before {before dir after : Text} (tag : Text) {a b : Text}
    (ha : a = before ++ ' ' :: (dir ++ ['/'])) (hb : b = after) :
    a ++ tag ++ b = before ++ ' ' :: (dir ++ '/' :: tag ++ after) := by
  rw [ha, hb]
  simp only [List.append_assoc, List.cons_append, List.nil_append]

theorem mkdirLine_eq (tag : Text) :
    "  - [mkdir, -p, /mnt/mac/".toList ++ tag ++ "]".toList = mkdirLine tag :=
  joined_before tag (by decide) (by decide)

/-- What stands around the items of a flow sequence. -/
def isFlow (c : Char) : Bool := c == ',' || c == ' ' || c == '[' || c == ']'

/-- The items of a flow sequence on a line of its own. -/
def items (line : Text) : List Text := (words isFlow line).tail

theorem not_isFlow {c : Char} (h : Provision.isNameChar c = true) : isFlow c = false := by
  rw [Bool.eq_false_iff]
  intro hflow
  simp only [isFlow, Bool.or_eq_true, beq_iff_eq] at hflow
  obtain ((rfl | rfl) | rfl) | rfl := hflow
  all_goals exact absurd h (by decide)

theorem items_mkdirLine {tag : Text} (h : ∀ c ∈ tag, Provision.isNameChar c = true) :
    items (mkdirLine tag) = ["mkdir".toList, "-p".toList, mountPath tag] := by
  have hdir : ∀ c ∈ mountDir, isFlow c = false := by
    have hall : mountDir.all (fun c => !isFlow c) = true := by decide
    simpa using hall
  have hpath : ∀ c ∈ mountPath tag, isFlow c = false := by
    intro c hc
    rw [mountPath, List.mem_append, List.mem_cons] at hc
    obtain hc | rfl | hc := hc
    · exact hdir c hc
    · decide
    · exact not_isFlow (h c hc)
  have hne : mountPath tag ≠ [] := by
    rw [mountPath]
    exact List.append_ne_nil_of_right_ne_nil _ (List.cons_ne_nil _ _)
  have hspace : isFlow ' ' = true := by decide
  have hend : isFlow ']' = true := by decide
  have hhead : words isFlow "  - [mkdir, -p,".toList = ["-".toList, "mkdir".toList, "-p".toList] := by
    decide
  have hline : words isFlow (mkdirLine tag) =
      words isFlow "  - [mkdir, -p,".toList ++ words isFlow (mountPath tag ++ [']']) :=
    words_append_cons hspace _ _
  rw [items, hline, hhead, words_append_cons hend, words_singleton hne hpath, words_nil]
  simp only [List.cons_append, List.nil_append, List.tail_cons]

section Document
variable {spec : ProvisionSpec} {doc tag : Text}

theorem isInfix_unlines {ls : List Text} {l : Text} (h : l ∈ ls) : l ++ ['\n'] <:+: unlines ls := by
  obtain ⟨before, after, rfl⟩ := List.append_of_mem h
  exact ⟨unlines before, unlines after, by simp⟩

/-- A share with the tag: its line stands among the mounts. -/
theorem mountLine_rendered (h : Provision.renderUserData spec = .ok doc)
    (htag : tag ∈ spec.mounts.map (fun mount => mount.tag) ∨ spec.stateTag = some tag) :
    Provision.mountLine tag ++ ['\n'] <:+: doc := by
  have hsection : Provision.mountLine tag ++ ['\n'] <:+: Provision.mountsSection spec := by
    rw [Provision.mountsSection]
    cases htag with
    | inl hm =>
      obtain ⟨mount, hmem, rfl⟩ := List.mem_map.mp hm
      rw [if_pos (by simp [List.ne_nil_of_mem hmem])]
      apply isInfix_unlines
      simp only [List.cons_append, List.mem_cons, List.mem_append, List.mem_map]
      exact Or.inr (Or.inl ⟨mount, hmem, rfl⟩)
    | inr hs =>
      rw [hs, if_pos (by simp)]
      apply isInfix_unlines
      simp
  rw [Provision.renderUserData_ok h]
  exact hsection.trans (List.infix_append _ _ _)

/-- The directory of a share is made. -/
theorem mkdirLine_rendered (h : Provision.renderUserData spec = .ok doc) {mount : MountSpec}
    (hm : mount ∈ spec.mounts) : mkdirLine mount.tag ++ ['\n'] <:+: doc := by
  have hsection : mkdirLine mount.tag ++ ['\n'] <:+: Provision.runcmdSection spec := by
    apply isInfix_unlines
    apply List.mem_append_left
    apply List.mem_append_right
    exact List.mem_map.mpr ⟨mount, hm, mkdirLine_eq mount.tag⟩
  rw [Provision.renderUserData_ok h]
  exact hsection.trans (List.suffix_append _ _).isInfix

/-- The script that reports the guest's address gets the tag as its argument. -/
theorem reportScript_rendered (h : Provision.renderUserData spec = .ok doc)
    (htag : spec.stateTag = some tag) : Provision.reportScript tag ++ ['\n'] <:+: doc := by
  have hsection : Provision.reportScript tag ++ ['\n'] <:+: Provision.runcmdSection spec := by
    apply isInfix_unlines
    apply List.mem_append_left
    apply List.mem_append_left
    apply List.mem_append_left
    apply List.mem_append_right
    rw [htag]
    exact List.mem_singleton_self _
  rw [Provision.renderUserData_ok h]
  exact hsection.trans (List.suffix_append _ _).isInfix

end Document

/-- The texts that a tag is spliced into, as they stand in every document with such a share. -/
structure Rendered (s : Text) : Prop where
  mount : ∀ {spec : ProvisionSpec} {doc : Text}, Provision.renderUserData spec = .ok doc →
    (s ∈ spec.mounts.map (fun mount => mount.tag) ∨ spec.stateTag = some s) →
    Provision.mountLine s ++ ['\n'] <:+: doc
  mkdir : ∀ {spec : ProvisionSpec} {doc : Text}, Provision.renderUserData spec = .ok doc →
    s ∈ spec.mounts.map (fun mount => mount.tag) → mkdirLine s ++ ['\n'] <:+: doc
  report : ∀ {spec : ProvisionSpec} {doc : Text}, Provision.renderUserData spec = .ok doc →
    spec.stateTag = some s → Provision.reportScript s ++ ['\n'] <:+: doc

theorem tag_rendered (s : Text) : Rendered s where
  mount := mountLine_rendered
  mkdir h hs := by
    obtain ⟨mount, hmount, rfl⟩ := List.mem_map.mp hs
    exact mkdirLine_rendered h hmount
  report := reportScript_rendered

/-! ### Safety -/

/-- A name is safe wherever the program puts it. -/
structure Safe (s : Text) : Prop where
  /-- Where the document mounts the share is an entry of `/mnt/mac`. -/
  child : ∃ path, (columns (Provision.mountLine s))[1]? = some path ∧ Paths.DirectChild mountDir path
  /-- So is the directory it makes for it. -/
  mkdir : ∃ path, operands [] false (items (mkdirLine s)) = ["mkdir".toList, path] ∧
    Paths.DirectChild mountDir path
  mount : operands ["-t".toList] false (mountArgs s) = [s, mountPath s]
  add : ∀ vmIp, operands [] false (Call.add s (remoteUrl vmIp)).args =
    ["remote".toList, "add".toList, s, remoteUrl vmIp]
  switch : operands [] false (Call.switch s).args = ["remote".toList, "switch".toList, s]

/-- **A name that is accepted is safe exactly when it is neither `.` nor `..` and does
not begin as an option does.** What `Safe` reads is what every document holds that has a
share of the name. -/
theorem name_is_safe {s : Text} (h : Accepted s) :
    (Safe s ↔ s ≠ ['.'] ∧ s ≠ ['.', '.'] ∧ isOption s = false) ∧ Rendered s := by
  refine ⟨?_, tag_rendered s⟩
  have hname := chars_of_validMountName h.valid
  have hslash : '/' ∉ s := not_mem_of_validMountName h.valid (by decide)
  have hcolumn : (columns (Provision.mountLine s))[1]? = some (mountPath s) := by
    rw [columns_mountLine (not_mem_of_validMountName h.valid (by decide))]
    rfl
  have hchild : Paths.DirectChild mountDir (mountPath s) ↔ _ := Paths.directChild_iff hslash
  constructor
  · intro hsafe
    obtain ⟨path, hpath, hdir⟩ := hsafe.child
    obtain rfl : mountPath s = path := Option.some.inj (hcolumn.symm.trans hpath)
    obtain ⟨_, hdot, hup⟩ := hchild.mp hdir
    refine ⟨hdot, hup, Bool.eq_false_iff.mpr fun hopt => ?_⟩
    have hswitch := hsafe.switch
    rw [Call.args, operands_operand (by decide), operands_operand (by decide),
      operands_option hopt] at hswitch
    exact absurd (congrArg List.length hswitch) (by simp)
  · intro ⟨hdot, hup, hopt⟩
    have hdir : Paths.DirectChild mountDir (mountPath s) := hchild.mpr ⟨hname.1, hdot, hup⟩
    have hurl : ∀ vmIp, isOption (remoteUrl vmIp) = false := fun vmIp => rfl
    exact {
      child := ⟨mountPath s, hcolumn, hdir⟩
      mkdir := by
        refine ⟨mountPath s, ?_, hdir⟩
        rw [items_mkdirLine hname.2]
        rfl
      mount := by
        have hargs : operands ["-t".toList] false (mountArgs s) =
            operands ["-t".toList] false [s, mountPath s] := rfl
        rw [hargs, operands_operand hopt]
        rfl
      add := by
        intro vmIp
        rw [Call.args, operands_operand (by decide), operands_operand (by decide),
          operands_operand hopt, operands_operand (hurl vmIp)]
        rfl
      switch := by
        rw [Call.args, operands_operand (by decide), operands_operand (by decide),
          operands_operand hopt]
        rfl }

/-- The name of the default remote is safe. -/
theorem name_is_safe_malleus : Safe defaultIncusRemoteName :=
  (name_is_safe (Or.inl (by decide))).1.mpr (by decide)

/-- Both filters accept the parent directory, whose share is mounted on `/mnt`, and an
option, which leaves `incus remote switch` without a name. -/
theorem parent_escapes :
    Accepted "..".toList ∧ ¬ Safe "..".toList ∧
      Accepted "--help".toList ∧ ¬ Safe "--help".toList := by
  refine ⟨Or.inl (by decide), fun hsafe => ?_, Or.inl (by decide), fun hsafe => ?_⟩
  · obtain ⟨path, hpath, name, hname⟩ := hsafe.child
    obtain rfl : "/mnt/mac/..".toList = path := by
      have hcolumn : (columns (Provision.mountLine "..".toList))[1]? = some "/mnt/mac/..".toList := by
        decide
      exact Option.some.inj (hcolumn.symm.trans hpath)
    have hup : Paths.resolve "/mnt/mac/..".toList = ["mnt".toList] := by decide
    have hdir : Paths.resolve mountDir = ["mnt".toList, "mac".toList] := by decide
    rw [hup, hdir] at hname
    exact absurd (congrArg List.length hname) (by simp)
  · have hswitch := hsafe.switch
    exact absurd hswitch (by decide)

end Malleus.MountTags
