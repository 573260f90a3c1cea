import Malleus.UserData

/-! What cloud-init finds under the keys of `user-data`.

A text goes into its block line by line, cut at line feeds, and YAML ends a line at a
carriage return as well: what a lone one begins stands outside the block (`escapes`).
`below_eq` says what those lines add to a key, and `Contained` is the condition that they
add nothing to the mounts and the commands. -/
namespace Malleus.Provision
open Strings Yaml MountTags

/-! ### Reading -/

def mountsKey : Text := "mounts".toList

def runcmdKey : Text := "runcmd".toList

/-- The lines below a key, of every section with that key. A document with a line that is
not indented and neither a comment nor a plain key is not read at all. -/
def below (key doc : Text) : Option (List (List Text)) :=
  if Keyed (sections (contentLines doc)) then some (pick key (sections (contentLines doc))) else none

/-- What lone carriage returns begin in the texts that go into blocks. -/
def escapes (spec : ProvisionSpec) : List Text :=
  (fileEntries spec).flatMap fun e => (lines (trimEndBy (· == '\n') e.content)).flatMap brokenOff

/-- The line is nothing to the mounts and the commands: it is indented, or a comment, or it
begins with another plain key. -/
def isAside (l : Text) : Bool :=
  !isTop l || isComment l || (keyOf l).any fun key => key != mountsKey && key != runcmdKey

/-- No lone carriage return puts a line of a text where it counts as another. -/
def Contained (spec : ProvisionSpec) : Prop := ∀ l ∈ escapes spec, isAside l = true

instance (spec : ProvisionSpec) : Decidable (Contained spec) := List.decidableBAll _ (escapes spec)

/-- A line that counts and is read as it was written. -/
structure Counts (l : Text) : Prop where
  ne_nil : l ≠ []
  unbroken : ∀ c ∈ l, isBreak c = false
  comment : isComment l = false

instance (l : Text) : Decidable (Counts l) :=
  decidable_of_iff (l ≠ [] ∧ l.all (fun c => !isBreak c) = true ∧ isComment l = false)
    ⟨fun h => ⟨h.1, by simpa using h.2.1, h.2.2⟩,
      fun h => ⟨h.ne_nil, by simpa using h.unbroken, h.comment⟩⟩

theorem Counts.contentLines_eq {l : Text} (h : Counts l) : contentLines l = [l] :=
  contentLines_singleton h.ne_nil h.unbroken h.comment

theorem flatMap_contentLines {ls : List Text} (h : ∀ l ∈ ls, Counts l) :
    ls.flatMap contentLines = ls := by
  rw [List.flatMap_congr fun l hl => (h l hl).contentLines_eq, List.flatMap_singleton']

theorem not_isBreak_of_plain {l : Text} (h : Plain l) : ∀ c ∈ l, isBreak c = false := by
  intro c hc
  have hfeed : c ≠ '\n' := fun heq => h.1 (heq ▸ hc)
  have hreturn : c ≠ '\r' := fun heq => h.2 (heq ▸ hc)
  simp [isBreak, hfeed, hreturn]

theorem PlainInner.counts {l : Text} (h : PlainInner l) : Counts l where
  ne_nil := by
    rintro rfl
    exact absurd h.1 (by simp)
  unbroken := not_isBreak_of_plain h.2
  comment := by
    rw [isComment, h.1]
    rfl

theorem isTop_of_head {l : Text} (h : l.head? = some ' ') : isTop l = false := by
  obtain ⟨t, rfl⟩ := List.head?_eq_some_iff.mp h
  rfl

/-- The sections after the files. -/
def lastSections (spec : ProvisionSpec) : List (Text × List Text) :=
  mountsSections spec ++ [commandSection spec]

theorem lastSections_inner {spec : ProvisionSpec} (h : Accepted spec) :
    ∀ s ∈ lastSections spec, ∀ l ∈ s.2, PlainInner l := by
  intro s hs l hl
  cases List.mem_append.mp hs with
  | inl hs =>
    rw [mountsSections] at hs
    split at hs
    · exact absurd hs (List.not_mem_nil)
    · obtain rfl := List.mem_singleton.mp hs
      obtain ⟨tag, htag, rfl⟩ := List.mem_map.mp hl
      exact mountLine_inner (h.tags tag htag)
  | inr hs =>
    obtain rfl := List.mem_singleton.mp hs
    have hstate : ∀ tag ∈ spec.stateTag, TagWord tag := fun tag htag =>
      h.tags tag (List.mem_append_right _ (Option.mem_toList.mpr htag))
    cases List.mem_append.mp hl with
    | inl hl => exact firstCommands_inner hstate l hl
    | inr hl => exact mountCommands_inner h l hl

theorem lastSections_keys {spec : ProvisionSpec} :
    ∀ s ∈ lastSections spec, s.1 = mountsLine ∨ s.1 = runcmdLine := by
  intro s hs
  cases List.mem_append.mp hs with
  | inl hs =>
    rw [mountsSections] at hs
    split at hs
    · exact absurd hs (List.not_mem_nil)
    · exact Or.inl (congrArg Prod.fst (List.mem_singleton.mp hs))
  | inr hs => exact Or.inr (congrArg Prod.fst (List.mem_singleton.mp hs))

/-! ### What escapes from the blocks -/

/-- The lines below `write_files`, as YAML ends lines. -/
def fileLines (spec : ProvisionSpec) : List Text := (fileSection spec).2.flatMap contentLines

/-- The sections that they begin. -/
def strays (spec : ProvisionSpec) : List (Text × List Text) := sections (fileLines spec)

/-- A line of a block keeps its indentation, and what is broken off from it has none of it. -/
theorem contentLines_block (line : Text) :
    ∃ v, contentLines (List.replicate 6 ' ' ++ line) =
      (List.replicate 6 ' ' ++ v) :: (brokenOff line).filter fun l => !isComment l := by
  have hspaces : ∀ c ∈ List.replicate 6 ' ', isBreak c = false := by
    intro c hc
    rw [List.eq_of_mem_replicate hc]
    rfl
  obtain ⟨v, hv⟩ := filledLines_append (by simp) hspaces line
  exact ⟨v, by rw [contentLines, hv, List.filter_cons_of_pos (by rfl)]⟩

theorem top_block (content : Text) :
    ((blockOf content).flatMap contentLines).filter isTop =
      (((lines (trimEndBy (· == '\n') content)).flatMap brokenOff).filter fun l => !isComment l).filter
        isTop := by
  rw [blockOf, List.flatMap_map, List.filter_flatMap, List.filter_flatMap, List.filter_flatMap]
  apply List.flatMap_congr
  intro line _
  obtain ⟨v, hv⟩ := contentLines_block line
  have hindented : isTop (List.replicate 6 ' ' ++ v) = false := isTop_of_head rfl
  rw [hv, List.filter_cons_of_neg (by rw [hindented]; decide)]

theorem top_header {e : FileEntry} (hpath : Plain e.path) (hpermissions : Plain e.permissions) :
    (e.header.flatMap contentLines).filter isTop = [] := by
  have hinner := header_inner hpath hpermissions
  rw [flatMap_contentLines fun l hl => (hinner l hl).counts, List.filter_eq_nil_iff]
  intro l hl
  rw [isTop_of_head (hinner l hl).1]
  decide

/-- The strays stand under the lines that carriage returns have put outside the blocks. -/
theorem map_fst_strays (spec : ProvisionSpec) :
    (strays spec).map Prod.fst = ((escapes spec).filter fun l => !isComment l).filter isTop := by
  have hentry : ∀ e ∈ fileEntries spec, (e.written.flatMap contentLines).filter isTop =
      (((lines (trimEndBy (· == '\n') e.content)).flatMap brokenOff).filter fun l => !isComment l).filter
        isTop := by
    intro e he
    obtain ⟨hpath, hpermissions⟩ := fileEntries_plain e he
    rw [FileEntry.written, List.flatMap_append, List.filter_append, top_header hpath hpermissions,
      List.nil_append, top_block]
  have hfiles : fileLines spec = (fileEntries spec).flatMap fun e => e.written.flatMap contentLines :=
    List.flatMap_assoc
  rw [strays, map_fst_sections, hfiles, List.filter_flatMap, List.flatMap_congr hentry, escapes,
    List.filter_flatMap, List.filter_flatMap]

/-- What is contained begins sections of its own, and none of the two that matter. -/
theorem contained_iff {spec : ProvisionSpec} : Contained spec ↔ Keyed (strays spec) ∧
    pick mountsKey (strays spec) = [] ∧ pick runcmdKey (strays spec) = [] := by
  have hheads : ∀ P : Text → Prop, (∀ s ∈ strays spec, P s.1) ↔
      ∀ l ∈ escapes spec, isComment l = false → isTop l = true → P l := by
    intro P
    have hmap : (∀ s ∈ strays spec, P s.1) ↔ ∀ l ∈ (strays spec).map Prod.fst, P l := by simp
    rw [hmap, map_fst_strays]
    simp only [List.mem_filter, Bool.not_eq_true', and_imp]
  rw [Keyed, pick_eq_nil, pick_eq_nil, hheads fun l => (keyOf l).isSome = true,
    hheads fun l => keyOf l ≠ some mountsKey, hheads fun l => keyOf l ≠ some runcmdKey]
  constructor
  · intro h
    have haside : ∀ l ∈ escapes spec, isComment l = false → isTop l = true →
        ∃ key, keyOf l = some key ∧ key ≠ mountsKey ∧ key ≠ runcmdKey := by
      intro l hl hcomment htop
      have hany := h l hl
      rw [isAside, hcomment, htop] at hany
      simpa [Option.any_eq_true] using hany
    refine ⟨fun l hl hcomment htop => ?_, fun l hl hcomment htop => ?_, fun l hl hcomment htop => ?_⟩
    all_goals obtain ⟨key, hkey, hmounts, hruncmd⟩ := haside l hl hcomment htop
    · rw [hkey]
      rfl
    · rw [hkey]
      exact fun heq => hmounts (Option.some.inj heq)
    · rw [hkey]
      exact fun heq => hruncmd (Option.some.inj heq)
  · rintro ⟨hkeyed, hmounts, hruncmd⟩ l hl
    rw [isAside]
    cases htop : isTop l with
    | false => rfl
    | true =>
      cases hcomment : isComment l with
      | true => rfl
      | false =>
        obtain ⟨key, hkey⟩ := Option.isSome_iff_exists.mp (hkeyed l hl hcomment htop)
        have hnotMounts : key ≠ mountsKey := fun heq => hmounts l hl hcomment htop (heq ▸ hkey)
        have hnotRuncmd : key ≠ runcmdKey := fun heq => hruncmd l hl hcomment htop (heq ▸ hkey)
        rw [hkey]
        simp [hnotMounts, hnotRuncmd]

/-! ### The sections of the document -/

/-- The keys besides the two. -/
def otherKeys : List Text :=
  ["output".toList, "network".toList, "bootcmd".toList, "write_files".toList]

theorem preamble_keys :
    (preambleSections.tail.map fun s => keyOf s.1) = (otherKeys.take 3).map some := by decide +kernel

theorem write_files_key : keyOf "write_files:".toList = some "write_files".toList := by decide

theorem preamble_key {s : Text × List Text} (hs : s ∈ preambleSections.tail) :
    ∃ key ∈ otherKeys, keyOf s.1 = some key := by
  have hmem : keyOf s.1 ∈ (otherKeys.take 3).map some := by
    rw [← preamble_keys]
    exact List.mem_map.mpr ⟨s, hs, rfl⟩
  obtain ⟨key, hkey, heq⟩ := List.mem_map.mp hmem
  exact ⟨key, List.mem_of_mem_take hkey, heq.symm⟩

section Doc
variable {spec : ProvisionSpec} {doc : Text} (hdoc : renderUserData spec = .ok doc)
include hdoc

/-- **The document is read as its sections**, with the strays after the files. -/
theorem sections_doc : sections (contentLines doc) =
    preambleSections.tail ++ ("write_files:".toList, (cut (fileLines spec)).1) ::
      (strays spec ++ lastSections spec) := by
  have haccepted := accepted_of_render hdoc
  have hpreamble : (sectionLines preambleSections).flatMap contentLines =
      sectionLines preambleSections.tail := by decide +kernel
  have hfile : contentLines "write_files:".toList = ["write_files:".toList] := by decide
  have hlast : (sectionLines (lastSections spec)).flatMap contentLines =
      sectionLines (lastSections spec) := by
    refine flatMap_contentLines fun l hl => ?_
    obtain ⟨s, hs, hl⟩ := List.mem_flatMap.mp hl
    cases List.mem_cons.mp hl with
    | inl heq =>
      obtain hkey | hkey := lastSections_keys s hs
      all_goals
        rw [heq, hkey]
        decide
    | inr hl => exact (lastSections_inner haccepted s hs l hl).counts
  have hcutLast : cut (sectionLines (lastSections spec)) = ([], lastSections spec) := by
    refine cut_flatMap fun s hs => ⟨?_, fun l hl => ?_⟩
    · obtain hkey | hkey := lastSections_keys s hs
      all_goals
        rw [hkey]
        decide
    · exact isTop_of_head (lastSections_inner haccepted s hs l hl).1
  have hcutPreamble : cut (sectionLines preambleSections.tail) = ([], preambleSections.tail) := by
    decide +kernel
  have hlines : contentLines doc = sectionLines preambleSections.tail ++
      ("write_files:".toList :: fileLines spec ++ sectionLines (lastSections spec)) := by
    have hsplit : sectionLines (docSections spec) = sectionLines preambleSections ++
        (["write_files:".toList] ++ (fileSection spec).2 ++ sectionLines (lastSections spec)) := by
      rw [docSections, sectionLines_append]
      rfl
    rw [doc_eq hdoc, contentLines_flatMap, hsplit, List.flatMap_append, List.flatMap_append,
      List.flatMap_append, hpreamble, hlast, List.flatMap_singleton, hfile, fileLines]
    rfl
  have hcutFile : cut ("write_files:".toList :: fileLines spec ++ sectionLines (lastSections spec)) =
      ([], ("write_files:".toList, (cut (fileLines spec)).1) :: (strays spec ++ lastSections spec)) := by
    rw [List.cons_append, cut, if_pos (by decide), cut_top (congrArg Prod.fst hcutLast), hcutLast]
    rfl
  rw [sections, hlines, cut_top (congrArg Prod.fst hcutFile), hcutPreamble, hcutFile]

/-- A key of its own has what the strays say under it, and what was meant. -/
theorem below_eq {key : Text} (hother : key ∉ otherKeys) : below key doc =
      if Keyed (strays spec) then some (pick key (strays spec) ++ pick key (lastSections spec))
      else none := by
  have hkeys : Keyed preambleSections.tail := by
    intro s hs
    obtain ⟨other, -, hkey⟩ := preamble_key hs
    rw [hkey]
    rfl
  have hpreamble : pick key preambleSections.tail = [] := by
    rw [pick_eq_nil]
    intro s hs heq
    obtain ⟨other, hmem, hkey⟩ := preamble_key hs
    obtain rfl : other = key := Option.some.inj (hkey.symm.trans heq)
    exact hother hmem
  have hfile : keyOf "write_files:".toList ≠ some key := by
    rw [write_files_key]
    intro heq
    obtain rfl := Option.some.inj heq
    exact hother (by decide)
  have hlast : Keyed (lastSections spec) := by
    intro s hs
    obtain hkey | hkey := lastSections_keys s hs
    all_goals
      rw [hkey]
      decide
  have hkeyed : Keyed (sections (contentLines doc)) ↔ Keyed (strays spec) := by
    have hfileKey : (keyOf "write_files:".toList).isSome = true := by
      rw [write_files_key]
      rfl
    have hcons : ∀ (body : List Text) ss, Keyed (("write_files:".toList, body) :: ss) ↔ Keyed ss :=
      fun body ss => List.forall_mem_cons.trans (and_iff_right hfileKey)
    rw [sections_doc hdoc, keyed_append, and_iff_right hkeys, hcons, keyed_append, and_iff_left hlast]
  have hpick : pick key (sections (contentLines doc)) =
      pick key (strays spec) ++ pick key (lastSections spec) := by
    rw [sections_doc hdoc, pick_append, hpreamble, List.nil_append,
      pick_cons_of_ne hfile, pick_append]
  rw [below, hpick]
  exact if_congr hkeyed rfl rfl

end Doc

theorem pick_mounts (spec : ProvisionSpec) : pick mountsKey (lastSections spec) =
    if tags spec = [] then [] else [(tags spec).map mountLine] := by
  have hmounts : keyOf mountsLine = some mountsKey := by decide
  have hruncmd : keyOf runcmdLine ≠ some mountsKey := by decide
  rw [lastSections, pick_append, commandSection, pick_cons_of_ne hruncmd, mountsSections]
  split
  · rfl
  · rw [pick_cons_self hmounts]
    rfl

theorem pick_runcmd (spec : ProvisionSpec) : pick runcmdKey (lastSections spec) =
    [firstCommands spec.stateTag ++ mountCommands spec] := by
  have hmounts : keyOf mountsLine ≠ some runcmdKey := by decide
  have hruncmd : keyOf runcmdLine = some runcmdKey := by decide
  have hnone : pick runcmdKey (mountsSections spec) = [] := by
    rw [mountsSections]
    split
    · rfl
    · rw [pick_cons_of_ne hmounts]
      rfl
  rw [lastSections, pick_append, hnone, commandSection, pick_cons_self hruncmd]
  rfl

section Doc
variable {spec : ProvisionSpec} {doc : Text} (hdoc : renderUserData spec = .ok doc)
include hdoc

theorem below_mounts_eq : below mountsKey doc = if Keyed (strays spec) then
    some (pick mountsKey (strays spec) ++ if tags spec = [] then [] else [(tags spec).map mountLine])
    else none := by
  rw [below_eq hdoc (by decide), pick_mounts]

theorem below_runcmd_eq : below runcmdKey doc = if Keyed (strays spec) then
    some (pick runcmdKey (strays spec) ++ [firstCommands spec.stateTag ++ mountCommands spec])
    else none := by
  rw [below_eq hdoc (by decide), pick_runcmd]

/-- Under `mounts` stands what is mounted, if nothing escapes. -/
theorem below_mounts (h : Contained spec) : below mountsKey doc =
    some (if tags spec = [] then [] else [(tags spec).map mountLine]) := by
  obtain ⟨hkeyed, hmounts, -⟩ := contained_iff.mp h
  rw [below_mounts_eq hdoc, if_pos hkeyed, hmounts, List.nil_append]

theorem below_runcmd (h : Contained spec) : below runcmdKey doc =
    some [firstCommands spec.stateTag ++ mountCommands spec] := by
  obtain ⟨hkeyed, -, hruncmd⟩ := contained_iff.mp h
  rw [below_runcmd_eq hdoc, if_pos hkeyed, hruncmd, List.nil_append]

/-- Whatever escapes and matters shows in the number of the sections. -/
theorem contained_of_lengths
    (hmounts : (below mountsKey doc).map List.length = some (if tags spec = [] then 0 else 1))
    (hruncmd : (below runcmdKey doc).map List.length = some 1) : Contained spec := by
  rw [below_mounts_eq hdoc] at hmounts
  rw [below_runcmd_eq hdoc] at hruncmd
  by_cases hkeyed : Keyed (strays spec)
  · rw [if_pos hkeyed, Option.map_some, Option.some_inj, List.length_append] at hmounts hruncmd
    rw [List.length_singleton] at hruncmd
    refine contained_iff.mpr ⟨hkeyed, List.eq_nil_of_length_eq_zero ?_, List.eq_nil_of_length_eq_zero ?_⟩
    · split at hmounts
      · rwa [List.length_nil, Nat.add_zero] at hmounts
      · rw [List.length_singleton] at hmounts
        omega
    · omega
  · rw [if_neg hkeyed] at hruncmd
    cases hruncmd

end Doc

end Malleus.Provision
