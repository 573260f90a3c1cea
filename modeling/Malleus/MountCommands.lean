import Malleus.UserDataKeys

/-! The mounts in `user-data` and the commands that serve them.

`mounts_in_step` says that the mounts, the directories made for them and `mount -a` agree
exactly if no lone carriage return in the certificates lets a line out of its block that
counts as one of the document's; `return_adds_mount` is a certificate that has one. -/
namespace Malleus.Provision
open Strings Yaml MountTags

/-! ### Mounts and commands -/

/-- What is mounted, where, and how. -/
def mountEntry (tag : Text) : List Text :=
  [tag, mountPath tag, "virtiofs".toList, "defaults,_netdev".toList, "0".toList, "0".toList]

def mkdirEntry (tag : Text) : List Text := ["mkdir".toList, "-p".toList, mountPath tag]

def mountAllEntry : List Text := ["mount".toList, "-a".toList]

/-- The command makes the directory of a share, or mounts what is listed. -/
def ServesMounts (items : List Text) : Prop := items = mountAllEntry ∨ ∃ tag, items = mkdirEntry tag

theorem sequence_around {a b c dir rest : Text} (tag : Text) (htag : '"' ∉ tag ∧ '\\' ∉ tag)
    (hdir : '"' ∉ dir ∧ '\\' ∉ dir) (ha : a = "  - [".toList ++ [' ', '"'])
    (hb : b = '"' :: ',' :: ' ' :: '"' :: (dir ++ ['/'])) (hc : c = '"' :: rest) :
    sequence (a ++ tag ++ b ++ tag ++ c) =
      some (tag :: (dir ++ '/' :: tag) :: readItems .between rest) := by
  have hpath : '"' ∉ dir ++ '/' :: tag ∧ '\\' ∉ dir ++ '/' :: tag := by
    simp [htag, hdir]
  have hline : a ++ tag ++ b ++ tag ++ c = "  - [".toList ++ (' ' :: '"' :: (tag ++ '"' ::
      (',' :: ' ' :: '"' :: ((dir ++ '/' :: tag) ++ '"' :: rest)))) := by
    rw [ha, hb, hc]
    simp only [List.append_assoc, List.cons_append, List.nil_append]
  rw [hline, sequence_append, readItems_between_skip (Or.inr rfl), readItems_between_quoted htag,
    readItems_between_skip (Or.inl rfl), readItems_between_skip (Or.inr rfl),
    readItems_between_quoted hpath]

theorem sequence_mountLine {tag : Text} (h : TagWord tag) :
    sequence (mountLine tag) = some (mountEntry tag) := by
  have hrest : readItems .between ", \"virtiofs\", \"defaults,_netdev\", \"0\", \"0\" ]".toList =
      ["virtiofs".toList, "defaults,_netdev".toList, "0".toList, "0".toList] := by decide +kernel
  have hmount : sequence (mountLine tag) = some (tag :: (mountDir ++ '/' :: tag) ::
      readItems .between ", \"virtiofs\", \"defaults,_netdev\", \"0\", \"0\" ]".toList) :=
    sequence_around tag ⟨h.not_mem (by decide), h.not_mem (by decide)⟩ (by decide) (by decide)
      (by decide) (by decide)
  rw [hmount, hrest]
  rfl

theorem bare_mountPath {tag : Text} (h : TagWord tag) : Bare (mountPath tag) := by
  have hnot : ∀ c : Char, isNameChar c = false → c ∉ '/' :: mountDir → c ∉ mountPath tag := by
    intro c hc hdir hmem
    rw [mountPath, List.mem_append, List.mem_cons] at hmem
    obtain hmem | heq | hmem := hmem
    · exact hdir (List.mem_cons_of_mem _ hmem)
    · exact hdir (heq ▸ List.mem_cons_self ..)
    · exact h.not_mem hc hmem
  have hhead : (mountPath tag).head? = some '/' := rfl
  refine ⟨List.cons_ne_nil _ _, ?_, ?_, ?_⟩
  · rw [hhead]
    decide
  · exact ⟨hnot ',' (by decide) (by decide), hnot ']' (by decide) (by decide)⟩
  · intro hlast
    exact hnot ' ' (by decide) (by decide) (List.mem_of_getLast? hlast)

theorem bare_mkdir : Bare "mkdir".toList := ⟨by decide, by decide, by decide, by decide⟩

theorem bare_option : Bare "-p".toList := ⟨by decide, by decide, by decide, by decide⟩

theorem sequence_three {a t u v : Text} (ht : Bare t) (hu : Bare u) (hv : Bare v)
    (ha : a = "  - [".toList ++ (t ++ ',' :: ' ' :: (u ++ [',']))) :
    sequence (a ++ ' ' :: (v ++ [']'])) = some [t, u, v] := by
  have hline : a ++ ' ' :: (v ++ [']']) =
      "  - [".toList ++ (t ++ ',' :: (' ' :: (u ++ ',' :: (' ' :: (v ++ ']' :: []))))) := by
    rw [ha]
    simp only [List.append_assoc, List.cons_append, List.nil_append]
  rw [hline, sequence_append, readItems_bare_comma ht, readItems_between_skip (Or.inr rfl),
    readItems_bare_comma hu, readItems_between_skip (Or.inr rfl), readItems_bare_close hv]

theorem sequence_mkdir {tag : Text} (h : TagWord tag) :
    sequence ("  - [mkdir, -p, /mnt/mac/".toList ++ tag ++ "]".toList) = some (mkdirEntry tag) := by
  rw [mkdirLine_eq]
  exact sequence_three bare_mkdir bare_option (bare_mountPath h) (by decide)

theorem sequence_mountAll : sequence mountAll = some mountAllEntry := by decide

/-- A command whose first word is another does not serve the mounts. -/
theorem not_serves {items : List Text} {t : Text} (hmkdir : t ≠ "mkdir".toList) (hmount : t ≠ "mount".toList) :
    ¬ ServesMounts (t :: items) := by
  intro h
  obtain h | ⟨tag, h⟩ := h
  · exact hmount (List.cons.inj h).1
  · exact hmkdir (List.cons.inj h).1

/-- A command that is read, and has nothing to do with the mounts. -/
def Unrelated (l : Text) : Prop := ∃ items, sequence l = some items ∧ ¬ ServesMounts items

theorem unrelated_word {t l : Text} (ht : Bare t) (hmkdir : t ≠ "mkdir".toList)
    (hmount : t ≠ "mount".toList) (h : "  - [".toList ++ (t ++ [',']) <+: l) : Unrelated l := by
  obtain ⟨items, hitems⟩ := sequence_of_prefix ht h
  exact ⟨t :: items, hitems, not_serves hmkdir hmount⟩

theorem prefix_literal {s : String} {t u : Text} (hs : s = String.ofList t) (h : u.isPrefixOf t = true) :
    u <+: s.toList := by
  rw [toList_literal hs]
  exact List.isPrefixOf_iff_prefix.mp h

theorem unrelated_sh {l : Text} (h : "  - [".toList ++ ("sh".toList ++ [',']) <+: l) : Unrelated l :=
  unrelated_word ⟨by decide, by decide, by decide, by decide⟩ (by decide) (by decide) h

theorem unrelated_apt {l : Text} (h : "  - [".toList ++ ("apt-get".toList ++ [',']) <+: l) :
    Unrelated l :=
  unrelated_word ⟨by decide, by decide, by decide, by decide⟩ (by decide) (by decide) h

theorem unrelated_incus {l : Text} (h : "  - [".toList ++ ("incus".toList ++ [',']) <+: l) :
    Unrelated l :=
  unrelated_word ⟨by decide, by decide, by decide, by decide⟩ (by decide) (by decide) h

theorem unrelated_reportScript (tag : Text) : Unrelated (reportScript tag) := by
  apply unrelated_sh
  iterate 10 apply List.prefix_append_of_prefix
  exact prefix_literal rfl (by decide)

theorem unrelated_vsockScript : Unrelated vsockScript := by
  apply unrelated_sh
  iterate 6 apply List.prefix_append_of_prefix
  exact prefix_literal rfl (by decide)

/-- A directory is made that is not a share's. -/
theorem unrelated_keyrings : Unrelated "  - [mkdir, -p, /etc/apt/keyrings]".toList := by
  have hread : sequence "  - [mkdir, -p, /etc/apt/keyrings]".toList =
      some ["mkdir".toList, "-p".toList, "/etc/apt/keyrings".toList] := by decide +kernel
  refine ⟨_, hread, fun h => ?_⟩
  obtain h | ⟨tag, h⟩ := h
  · exact absurd h (by decide)
  · have hpath : "/etc/apt/keyrings".toList = mountPath tag :=
      (List.cons.inj (List.cons.inj (List.cons.inj h).2).2).1
    have hsecond : (mountPath tag)[1]? = some 'm' := rfl
    rw [← hpath] at hsecond
    exact absurd hsecond (by decide)

theorem unrelated_last : ∀ l ∈ lastCommands, Unrelated l := by
  refine List.forall_mem_cons.mpr ⟨unrelated_vsockScript, ?_⟩
  refine List.forall_mem_cons.mpr ⟨unrelated_keyrings, ?_⟩
  refine List.forall_mem_cons.mpr ⟨unrelated_sh ?_, ?_⟩
  · exact List.prefix_append_of_prefix (prefix_literal rfl (by decide))
  refine List.forall_mem_cons.mpr ⟨unrelated_sh ?_, ?_⟩
  · apply List.prefix_append_of_prefix
    exact List.prefix_append_of_prefix (prefix_literal rfl (by decide))
  iterate 2 refine List.forall_mem_cons.mpr ⟨unrelated_apt (prefix_literal rfl (by decide)), ?_⟩
  refine List.forall_mem_cons.mpr ⟨unrelated_sh (prefix_literal rfl (by decide)), ?_⟩
  refine List.forall_mem_cons.mpr ⟨unrelated_incus ?_, List.forall_mem_nil _⟩
  exact List.prefix_append_of_prefix (prefix_literal rfl (by decide))

theorem unrelated_first (stateTag : Option Text) : ∀ l ∈ firstCommands stateTag, Unrelated l := by
  intro l hl
  rw [firstCommands, List.mem_append, List.mem_append, Option.mem_toList] at hl
  obtain (hl | hl) | hl := hl
  · revert l
    iterate 2 refine List.forall_mem_cons.mpr ⟨unrelated_sh (prefix_literal rfl (by decide)), ?_⟩
    exact List.forall_mem_nil _
  · obtain ⟨tag, _, rfl⟩ := Option.map_eq_some_iff.mp hl
    exact unrelated_reportScript tag
  · exact unrelated_last l hl

/-- What a list of lines is read as, when each is read. -/
theorem map_sequence {ls : List Text} (h : ∀ l ∈ ls, Unrelated l) :
    ∃ commands : List (List Text), ls.map sequence = commands.map some ∧
      ∀ items ∈ commands, ¬ ServesMounts items := by
  induction ls with
  | nil => exact ⟨[], rfl, by simp⟩
  | cons l ls ih =>
    obtain ⟨items, hitems, hno⟩ := h l (List.mem_cons_self ..)
    obtain ⟨commands, hcommands, hall⟩ := ih fun m hm => h m (List.mem_cons_of_mem l hm)
    exact ⟨items :: commands, by rw [List.map_cons, hitems, hcommands, List.map_cons],
      List.forall_mem_cons.mpr ⟨hno, hall⟩⟩

/-- The commands for the mounts: a directory for each, and then all are mounted. -/
def mountEntries (spec : ProvisionSpec) : List (List Text) :=
  spec.mounts.map (fun mount => mkdirEntry mount.tag) ++
    if spec.mounts = [] then [] else [mountAllEntry]

theorem sequence_mountCommands {spec : ProvisionSpec} (h : Accepted spec) :
    (mountCommands spec).map sequence = (mountEntries spec).map some := by
  have hmkdir : (spec.mounts.map fun mount =>
      "  - [mkdir, -p, /mnt/mac/".toList ++ mount.tag ++ "]".toList).map sequence =
      (spec.mounts.map fun mount => mkdirEntry mount.tag).map some := by
    rw [List.map_map, List.map_map]
    apply List.map_congr_left
    intro mount hm
    exact sequence_mkdir (h.tags _ (List.mem_append_left _ (List.mem_map.mpr ⟨mount, hm, rfl⟩)))
  have hlast : [mountAll].map sequence = [mountAllEntry].map some := by
    rw [List.map_cons, sequence_mountAll]
    rfl
  rw [mountCommands, mountEntries, List.map_append, List.map_append, hmkdir]
  cases spec.mounts with
  | nil => rfl
  | cons mount mounts => rw [if_neg (by simp), if_neg (by simp), hlast]

/-- What is read of the document: the mounts are the tags in order, if there are any, and the
commands end in one directory for each mount and `mount -a`, which none before them serves. -/
structure InStep (spec : ProvisionSpec) (doc : Text) : Prop where
  mounts : (below mountsKey doc).map (List.map (List.map sequence)) =
    some (if tags spec = [] then [] else [(tags spec).map fun tag => some (mountEntry tag)])
  commands : ∃ commands : List (List Text),
    (below runcmdKey doc).map (List.map (List.map sequence)) =
      some [(commands ++ mountEntries spec).map some] ∧
    ∀ items ∈ commands, ¬ ServesMounts items

section InStep
variable {spec : ProvisionSpec} {doc : Text} (hdoc : renderUserData spec = .ok doc)
include hdoc

theorem inStep_of_contained (h : Contained spec) : InStep spec doc where
  mounts := by
    have hread : ((tags spec).map mountLine).map sequence =
        (tags spec).map fun tag => some (mountEntry tag) := by
      rw [List.map_map]
      apply List.map_congr_left
      intro tag htag
      exact sequence_mountLine ((accepted_of_render hdoc).tags tag htag)
    rw [below_mounts hdoc h, Option.map_some]
    split
    · rfl
    · rw [List.map_cons, hread]
      rfl
  commands := by
    obtain ⟨commands, hcommands, hall⟩ := map_sequence (unrelated_first spec.stateTag)
    refine ⟨commands, ?_, hall⟩
    rw [below_runcmd hdoc h, Option.map_some, List.map_cons, List.map_nil, List.map_append, hcommands,
      sequence_mountCommands (accepted_of_render hdoc), List.map_append]

theorem contained_of_inStep (h : InStep spec doc) : Contained spec := by
  have hlength : ∀ (found : Option (List (List Text))) (read : List (List (Option (List Text)))),
      found.map (List.map (List.map sequence)) = some read →
      found.map List.length = some read.length := by
    intro found read hread
    obtain ⟨bodies, rfl, rfl⟩ := Option.map_eq_some_iff.mp hread
    rw [List.length_map]
    rfl
  obtain ⟨commands, hcommands, -⟩ := h.commands
  have hmounts := hlength _ _ h.mounts
  refine contained_of_lengths hdoc ?_ (hlength _ _ hcommands)
  rw [hmounts]
  split
  · rfl
  · rfl

end InStep

/-- **Mounts and commands stay in step**: a specification is accepted just when its texts are
not blank and its tags are words, and what is read of its document is in step exactly if
no lone carriage return lets a line out of its block. -/
theorem mounts_in_step (spec : ProvisionSpec) :
    ((∃ doc, renderUserData spec = .ok doc) ↔ Accepted spec) ∧
      ∀ doc, renderUserData spec = .ok doc → (InStep spec doc ↔ Contained spec) := by
  refine ⟨⟨fun h => ?_, render_of_accepted⟩, fun doc hdoc => ?_⟩
  · obtain ⟨doc, hdoc⟩ := h
    exact accepted_of_render hdoc
  · exact ⟨contained_of_inStep hdoc, inStep_of_contained hdoc⟩

/-- A client certificate with a carriage return before a section of its own. -/
def returning : ProvisionSpec :=
  {sharedSpec with
    clientCertPem := "CERT\rmounts:\r  - [ code, /etc, virtiofs, ro, 0, 0 ]".toList
    mounts := []
    stateTag := none}

theorem tags_returning : tags returning = [] := rfl

theorem returning_accepted : Accepted returning := by
  refine ⟨by decide, by decide, fun tag htag => ?_⟩
  rw [tags_returning] at htag
  exact absurd htag List.not_mem_nil

/-- The certificate mounts a share that nobody asked for. -/
theorem return_adds_mount : ∃ doc, renderUserData returning = .ok doc ∧ tags returning = [] ∧
    (below mountsKey doc).map (List.map (List.filterMap sequence)) = some [[["code".toList,
      "/etc".toList, "virtiofs".toList, "ro".toList, "0".toList, "0".toList]]] ∧
    ¬ InStep returning doc := by
  obtain ⟨doc, hdoc⟩ := render_of_accepted returning_accepted
  have hkeyed : Keyed (strays returning) := by decide +kernel
  have hmounts : (pick mountsKey (strays returning)).map (List.filterMap sequence) = [[["code".toList,
      "/etc".toList, "virtiofs".toList, "ro".toList, "0".toList, "0".toList]]] := by decide +kernel
  refine ⟨doc, hdoc, tags_returning, ?_, fun h => ?_⟩
  · rw [below_mounts_eq hdoc, if_pos hkeyed, if_pos tags_returning, List.append_nil, Option.map_some, hmounts]
  · exact absurd (contained_of_inStep hdoc h) (by decide +kernel)

end Malleus.Provision
