import Malleus.MountCommands
import Malleus.StartOutcome
import Malleus.VmOptions

/-! Where the two ends of a boot meet.

vfkit is told what to share under which tag, where the readiness socket and the console
end, and what to boot from; the guest is told what to mount where, and on which port to
answer; and malleus looks for reports, and writes what the guest boots from, in files of
the state directory. `Wired` says that the three agree. `spawns_wired`: whatever a start
spawns, they do exactly if there is no comma in the path of the state directory, and no lone
carriage return lets a line of the key material out of its block. -/
namespace Malleus.Wiring
open Effect Strings Numbers Storage Provision Yaml MountTags Vm StartOutcome

/-! ### What the guest reaches -/

/-- What is left of a path beneath a directory. -/
def beneath (dir path : Text) : Option Text :=
  if (dir ++ ['/']).isPrefixOf path then some (path.drop (dir.length + 1)) else none

/-- What a document that is read says under a key; one that is not says nothing. -/
def said (key doc : Text) : List Text := ((below key doc).getD []).flatten

/-- The tags that the guest mounts, and where. -/
def guestMounts (doc : Text) : List (Text × Text) :=
  ((said mountsKey doc).filterMap sequence).filterMap fun
    | [tag, dir, kind, _, _, _] => if kind = "virtiofs".toList then some (tag, dir) else none
    | _ => none

/-- The directories that vfkit shares under a tag. -/
def sharedDirs (args : List Text) (tag : Text) : List Text :=
  (readArgs args).shares.flatMap fun share => if share.2.contains tag then share.1 else []

/-- The paths of the host that a path of the guest leads to. -/
def hostPaths (args : List Text) (doc path : Text) : List Text :=
  (guestMounts doc).flatMap fun mount =>
    (beneath mount.2 path).toList.flatMap fun rest =>
      (sharedDirs args mount.1).map fun dir => join dir rest

/-- The vsock port that a command listens on. -/
def portOf (line : Text) : Option (Option Nat) :=
  (after "VSOCK-LISTEN:".toList line).map fun rest =>
    fromStrRadix 10 UInt32.size (rest.takeWhile Char.isDigit)

/-- The vsock ports on which the guest answers. -/
def answeredPorts (doc : Text) : List (Option Nat) := (said runcmdKey doc).filterMap portOf

section Reaches
variable {vm : VmSpec} {spec : ProvisionSpec} {doc : Text}

theorem guestMounts_render (hdoc : renderUserData spec = .ok doc) (h : Contained spec) :
    guestMounts doc = (tags spec).map fun tag => (tag, mountPath tag) := by
  have hflatten : said mountsKey doc = (tags spec).map mountLine := by
    rw [said, below_mounts hdoc h, Option.getD_some]
    split
    · next hnil =>
      rw [hnil]
      rfl
    · simp
  have hread : ((tags spec).map mountLine).filterMap sequence = (tags spec).map mountEntry := by
    rw [List.filterMap_map, ← List.filterMap_eq_map]
    refine List.filterMap_congr fun tag htag => ?_
    exact sequence_mountLine ((accepted_of_render hdoc).tags tag htag)
  rw [guestMounts, hflatten, hread, List.filterMap_map, ← List.filterMap_eq_map]
  rfl

theorem sharedDirs_buildArgs (hvm : ∀ t ∈ texts vm, ',' ∉ t) (tag : Text) :
    sharedDirs (buildArgs vm) tag =
      (vm.shares.filter fun share => share.tag = tag).map Share.hostPath := by
  have hshares : (readArgs (buildArgs vm)).shares =
      vm.shares.map fun share => ([share.hostPath], [share.tag]) := by
    rw [readArgs]
    dsimp only
    rw [devices_fs hvm, List.map_map]
    rfl
  rw [sharedDirs, hshares, List.flatMap_map]
  induction vm.shares with
  | nil => rfl
  | cons share shares ih =>
    rw [List.flatMap_cons, ih, List.filter_cons]
    by_cases htag : share.tag = tag
    · simp [htag]
    · simp [htag, Ne.symm htag]

/-- What is mounted and shared, as the two specifications say. -/
theorem hostPaths_eq (hvm : ∀ t ∈ texts vm, ',' ∉ t) (hdoc : renderUserData spec = .ok doc)
    (h : Contained spec) (path : Text) : hostPaths (buildArgs vm) doc path = (tags spec).flatMap fun tag =>
      (beneath (mountPath tag) path).toList.flatMap fun rest =>
        (vm.shares.filter fun share => share.tag = tag).map fun share => join share.hostPath rest := by
  rw [hostPaths, guestMounts_render hdoc h, List.flatMap_map]
  simp only [sharedDirs_buildArgs hvm, List.map_map]
  rfl

end Reaches

/-- What vfkit and the guest are told fits together and fits the files of the host; the guest
finds one list of mounts and one of commands. -/
structure Wired (host : Host) (args : List Text) (doc : Text) : Prop where
  mounts : (below mountsKey doc).map List.length = some 1
  commands : (below runcmdKey doc).map List.length = some 1
  share : ∀ path, hostPaths args doc path =
    (beneath (mountPath "malleus-state".toList) path).toList.map (join host.stateDir)
  port : (readArgs args).readyPort = answeredPorts doc
  socket : (readArgs args).readySocket = [host.path .readySock]
  console : (readArgs args).serialLog = [host.path .guestLog]
  cloudInit : (readArgs args).cloudInit = [host.path .userData, host.path .metaData]
  disks : (readArgs args).disks = [host.path .rootRaw, host.path .poolRaw]
  mac : (readArgs args).mac = [defaultVmMac]

/-- What the guest writes to `guest-ip` is what the search for its address reads. -/
theorem Wired.guestIp {host : Host} {args : List Text} {doc : Text} (h : Wired host args doc) :
    hostPaths args doc "/mnt/mac/malleus-state/guest-ip".toList = [host.path .guestIp] := by
  have hrest : beneath (mountPath "malleus-state".toList) "/mnt/mac/malleus-state/guest-ip".toList =
      some "guest-ip".toList := by decide
  rw [h.share, hrest]
  rfl

section Start
variable {host : Host} {cfg : Config} {m : PkiMaterial}

theorem join_comma (dir : Text) {name : Text} (hname : ',' ∉ name) :
    ',' ∈ join dir name ↔ ',' ∈ dir := by
  unfold join
  split
  · simp [hname]
  · simp [hname]

theorem vmSpec_texts (h : ',' ∉ host.stateDir) : ∀ t ∈ texts (vmSpec host cfg), ',' ∉ t := by
  have hjoin : ∀ name : Text, ',' ∉ name → ',' ∉ join host.stateDir name := fun name hname =>
    mt (join_comma host.stateDir hname).mp h
  intro t ht
  simp only [texts, vmSpec, List.flatMap_singleton, Option.toList_some, List.cons_append,
    List.nil_append, List.mem_cons, List.not_mem_nil, or_false] at ht
  rcases ht with rfl | rfl | rfl | rfl | rfl | rfl | rfl | rfl | rfl | rfl
  · exact hjoin _ (by decide)
  · exact hjoin _ (by decide)
  · exact hjoin _ (by decide)
  · decide
  · exact hjoin _ (by decide)
  · exact hjoin _ (by decide)
  · exact hjoin _ (by decide)
  · exact h
  · decide
  · exact hjoin _ (by decide)

/-- A line that does not name the letter V opens no port. -/
theorem portOf_eq_none {line : Text} (h : 'V' ∉ line) : portOf line = none := by
  have hno : ¬ "VSOCK-LISTEN:".toList <:+: line := fun hpart =>
    h (hpart.subset (by decide))
  rw [← contains_iff, contains, Option.not_isSome_iff_eq_none] at hno
  rw [portOf, hno]
  rfl

theorem filterMap_portOf {ls : List Text} (h : ∀ l ∈ ls, 'V' ∉ l) : ls.filterMap portOf = [] :=
  List.filterMap_eq_nil_iff.mpr fun l hl => portOf_eq_none (h l hl)

theorem silent_reportScript {tag : Text} (h : 'V' ∉ tag) : 'V' ∉ reportScript tag := by
  refine List.not_mem_append (List.not_mem_append ?_ h) (not_mem_literal rfl (by decide))
  iterate 8 refine List.not_mem_append ?_ (not_mem_literal rfl (by decide))
  exact not_mem_literal rfl (by decide)

theorem silent_last : ∀ l ∈ lastCommands.tail, 'V' ∉ l := by
  refine List.forall_mem_cons.mpr ⟨not_mem_literal rfl (by decide), ?_⟩
  refine List.forall_mem_cons.mpr ⟨?_, ?_⟩
  · exact List.not_mem_append (not_mem_literal rfl (by decide)) (not_mem_literal rfl (by decide))
  refine List.forall_mem_cons.mpr ⟨?_, ?_⟩
  · iterate 2 refine List.not_mem_append ?_ (not_mem_literal rfl (by decide))
    exact not_mem_literal rfl (by decide)
  iterate 3 refine List.forall_mem_cons.mpr ⟨not_mem_literal rfl (by decide), ?_⟩
  refine List.forall_mem_cons.mpr ⟨?_, List.forall_mem_nil _⟩
  exact List.not_mem_append (not_mem_literal rfl (by decide)) (not_mem_literal rfl (by decide))

/-- Only the end of the script names a port. -/
theorem portOf_vsockScript : portOf vsockScript = some (some defaultReadyPort.toNat) := by
  have hend : "VSOCK-LISTEN:5,reuseaddr; break; fi; fi; sleep 2; done) &\", \"\", \"\"]".toList =
      'V' :: "SOCK-LISTEN:".toList ++
        "5,reuseaddr; break; fi; fi; sleep 2; done) &\", \"\", \"\"]".toList := by decide
  have hafter : after "VSOCK-LISTEN:".toList vsockScript =
      some "5,reuseaddr; break; fi; fi; sleep 2; done) &\", \"\", \"\"]".toList := by
    unfold vsockScript
    rw [hend]
    refine after_append (by decide) (fun hpart => ?_) _
    refine absurd (hpart.subset (List.mem_cons_self ..)) ?_
    iterate 5 refine List.not_mem_append ?_ (not_mem_literal rfl (by decide))
    exact not_mem_literal rfl (by decide)
  rw [portOf, hafter]
  decide

theorem answeredPorts_userDataOf (h : Contained (provisionSpec m)) :
    answeredPorts (userDataOf m) = [some defaultReadyPort.toNat] := by
  have hlast : lastCommands = vsockScript :: lastCommands.tail := rfl
  have hcommands : said runcmdKey (userDataOf m) =
      (firstCommands none).take 2 ++ [reportScript "malleus-state".toList] ++ lastCommands := by
    rw [said, below_runcmd (renderUserData_provisionSpec m) h]
    exact List.append_nil _
  have hfirst : ∀ l ∈ (firstCommands none).take 2, 'V' ∉ l := by
    iterate 2 refine List.forall_mem_cons.mpr ⟨not_mem_literal rfl (by decide), ?_⟩
    exact List.forall_mem_nil _
  have htag : 'V' ∉ "malleus-state".toList := by decide
  rw [answeredPorts, hcommands, List.filterMap_append, List.filterMap_append, filterMap_portOf hfirst,
    List.filterMap_cons_none (portOf_eq_none (silent_reportScript htag)), hlast,
    List.filterMap_cons_some portOf_vsockScript, filterMap_portOf silent_last]
  rfl

/-- The arguments of a start and the document fit together if nothing is cut at a comma, or at
a carriage return. -/
theorem wired_iff : Wired host (buildArgs (vmSpec host cfg)) (userDataOf m) ↔
    ',' ∉ host.stateDir ∧ Contained (provisionSpec m) := by
  have hdoc := renderUserData_provisionSpec m
  have htags : tags (provisionSpec m) = ["malleus-state".toList] := rfl
  constructor
  · intro h
    have hmounts : (below mountsKey (userDataOf m)).map List.length =
        some (if tags (provisionSpec m) = [] then 0 else 1) := h.mounts
    refine ⟨?_, contained_of_lengths hdoc hmounts h.commands⟩
    have hdisk : host.path .rootRaw ∈ (readArgs (buildArgs (vmSpec host cfg))).texts := by
      simp [Reading.texts, h.disks]
    have hname : ',' ∉ "root.raw".toList := by decide
    exact mt (join_comma host.stateDir hname).mpr (not_mem_readArgs hdisk)
  · rintro ⟨h, hcontained⟩
    have hvm : ∀ t ∈ texts (vmSpec host cfg), ',' ∉ t := vmSpec_texts h
    have huser : ',' ∉ host.path .userData := hvm _ (by simp [texts, vmSpec])
    have hmeta : ',' ∉ host.path .metaData := hvm _ (by simp [texts, vmSpec])
    refine ⟨?_, ?_, fun path => ?_, ?_, ?_, ?_, ?_, ?_, ?_⟩
    · rw [below_mounts hdoc hcontained]
      rfl
    · rw [below_runcmd hdoc hcontained]
      rfl
    · -- one tag is mounted, and one share has it
      have hshares : (vmSpec host cfg).shares = [⟨host.stateDir, "malleus-state".toList⟩] := rfl
      rw [hostPaths_eq hvm hdoc hcontained, htags, hshares, List.flatMap_singleton,
        List.filter_cons_of_pos (by simp), List.filter_nil]
      exact List.map_eq_flatMap.symm
    · rw [answeredPorts_userDataOf hcontained]
      simp only [readArgs, devices_vsock hvm]
      exact congrArg (fun port => [port]) (fromStrRadix_decimal (UInt32.toNat_lt _))
    · simp only [readArgs, devices_vsock hvm]
      rfl
    · simp only [readArgs, devices_serial hvm]
      rfl
    · simp only [readArgs, occurrences_cloudInit, List.flatMap_singleton]
      exact readOptions_cloudInit huser hmeta
    · simp only [readArgs, devices_disk hvm]
      rfl
    · simp only [readArgs, devices_net hvm]
      rfl

/-- What the log of a start gains: nothing, or one process, whose arguments and whose guest's
document fit together if the path of the state directory has no comma and the key material
on the disk stays in its blocks. -/
def SpawnsWired (host : Host) (w w' : World) : Prop :=
  w'.log = w.log ∨ ∃ pid args doc m, (w'.disk.file .userData).bind decode = some doc ∧
    Pki.Reads w'.disk m ∧
    (Wired host args doc ↔ ',' ∉ host.stateDir ∧ Contained (provisionSpec m)) ∧
    (w'.log = .spawned pid args :: w.log ∨
      ∃ user metaData, w'.log = .started user metaData :: .spawned pid args :: w.log)

/-- **What is spawned is wired up**: wherever a start stops, under whatever faults, the
arguments of the process it has spawned and the document its guest boots from agree
with each other and with the files malleus reads, exactly if the path of the state directory
holds no comma and no lone carriage return lets a line of the key material out of its
block. -/
theorem spawns_wired (host : Host) (env : StartEnv) (w : World) :
    SpawnsWired host w (cmdStart host env w).2 := by
  have hspawns : SpawnsEquipped host w (cmdStart host env w).2 := (ends_cmdStart_equipped host env w).final
  obtain hnone | ⟨pid, args, hequipped, hlog⟩ := hspawns
  · exact Or.inl hnone
  · obtain ⟨m, hreads, huser, -⟩ := hequipped.documents
    obtain ⟨cfg, -, rfl⟩ := hequipped.settings
    refine Or.inr ⟨pid, _, userDataOf m, m, ?_, hreads, wired_iff, hlog⟩
    rw [huser, Option.bind_some, decode_encode]

end Start

end Malleus.Wiring
