import Malleus.Vm
import Malleus.World

/-! `malleus start`: everything the VM needs is put on the disk (`prepare`), and then
vfkit is spawned and watched for as long as it may reject its arguments (`startVm`).

`prepare` works on the disk alone; the process table comes in with `startVm`. -/
namespace Malleus
open Effect Strings Numbers Storage

/-! ### What a start meets -/

/-- The places where `cmd_start` itself can stop before it launches the VM. -/
inductive StartSite where
  | createStateDir
  | readConfig
  | writeUserData
  | writeMetaData
  | writeArgs
  deriving DecidableEq, Repr

/-- What vfkit does within the grace period, or malleus while it waits. -/
inductive Early where
  | outlives
  | exits (status : Option Int) (stderr : Bytes) (readErr : Fault)
  | waitFails
  | killed
  deriving DecidableEq, Repr

/-- A vfkit that the system spawns, with a PID that is free. -/
structure Child where
  pid : Pid
  state : Text
  comm : Text
  writePid : Fault
  early : Early
  deriving DecidableEq, Repr

/-- The answer to the offer to install vfkit, and how the installation ends. -/
structure Prompt where
  input : Option Text
  installed : Option Bool
  deriving DecidableEq, Repr

/-- What running vfkit comes to. -/
inductive Spawn where
  | child (c : Child)
  /-- There is no vfkit; there may be a Homebrew to offer. -/
  | notFound (brew : Option Prompt)
  | failed (reason : Text)
  deriving DecidableEq, Repr

/-- One turn of the loop of `start_vm`. -/
structure Launch where
  createLog : Fault
  createErr : Fault
  spawn : Spawn
  deriving DecidableEq, Repr

/-- What a start meets: the faults of its files, the image server, the generator of keys, and
the launches. -/
structure StartEnv where
  fault : StartSite → Fault
  image : ImageEnv
  pki : PkiEnv
  launches : List Launch

/-! ### Preparing the disk -/

abbrev Prepare (α : Type) := Cmd StateDisk CliError α

/-- The settings, if they pass their check. -/
def checked (cfg : Config) : Prepare Config :=
  match cfg.validate with
  | .ok () => pure cfg
  | .error e => Cmd.fail (.configValidation e)

/-- The settings of config.toml, or the defaults where there is none; both are checked. -/
def loadConfig (host : Host) (readConfig : Fault) : Prepare Config := do
  if ← (present .configToml).mapError .io then
    let raw ← (readToString readConfig .configToml).mapError .io
    match host.parseConfig raw with
    | .ok cfg => checked cfg
    | .error reason => Cmd.fail (.configParse (host.path .configToml) reason)
  else checked Config.default

/-- What the guest is provisioned with: the state share, and nothing that the user has a say in.
-/
def provisionSpec (m : PkiMaterial) : ProvisionSpec where
  hostname := "malleus".toList
  bridgeCidr := defaultBridgeCidr
  clientCertPem := m.client.certPem
  serverCertPem := m.server.certPem
  serverKeyPem := m.server.keyPem
  mounts := []
  stateTag := some "malleus-state".toList

/-- What vfkit is asked for. The paths are those of the state directory, and the sizes of the
disks are on the disks. -/
def vmSpec (host : Host) (cfg : Config) : VmSpec where
  cpus := cfg.cpus
  memoryMib := cfg.memoryMib
  efiStore := join host.stateDir "efi-store".toList
  rootDisk := host.path .rootRaw
  poolDisk := host.path .poolRaw
  mac := defaultVmMac
  userData := host.path .userData
  metaData := host.path .metaData
  networkConfig := none
  readySocket := host.path .readySock
  readyPort := defaultReadyPort
  restfulPort := defaultRestfulPort
  shares := [⟨host.stateDir, "malleus-state".toList⟩]
  serialLog := some (host.path .guestLog)

def rendered {α : Type} : Except ProvisionError α → Prepare α
  | .ok a => pure a
  | .error e => Cmd.fail (.provision e)

/-- The documents that the guest boots from. -/
def writeDocuments (env : StartEnv) (m : PkiMaterial) : Prepare Unit := do
  let userData ← rendered (Provision.renderUserData (provisionSpec m))
  let metaData ← rendered (Provision.renderMetaData (provisionSpec m))
  (write (env.fault .writeUserData) .userData (encode userData)).mapError .io
  (write (env.fault .writeMetaData) .metaData (encode metaData)).mapError .io

/-- `cmd_start` up to the launch: the arguments for vfkit. -/
def prepare (host : Host) (env : StartEnv) : Prepare (List Text) := do
  (createDirAll (env.fault .createStateDir) .stateDir).mapError .io
  let cfg ← loadConfig host (env.fault .readConfig)
  (Image.ensureImages host.names env.image cfg).mapError .image
  let material ← (Pki.loadOrCreate env.pki host.pkiDir).mapError .pki
  writeDocuments env material
  let args := Vm.buildArgs (vmSpec host cfg)
  (write (env.fault .writeArgs) .vfkitArgs (encode (['\n'].intercalate args))).mapError .io
  pure args

/-! ### Launching the VM -/

/-- A PID that the system can give to a new process. -/
def Free (procs : Pid → Option Process) (pid : Pid) : Prop := pid ≠ 0 ∧ procs pid = none

instance (procs : Pid → Option Process) (pid : Pid) : Decidable (Free procs pid) :=
  inferInstanceAs (Decidable (_ ∧ _))

/-- `input.trim().to_lowercase() == "y"`. -/
def saysYes (input : Text) : Bool := (trim input).map Char.toLower = ['y']

/-- The child runs; it is the next VM run. -/
def World.spawn (c : Child) (args : List Text) (w : World) : World :=
  {((w.setProc c.pid (some ⟨c.state, c.comm, some w.boots⟩)).note (.spawned c.pid args)) with
    boots := w.boots + 1}

/-- Write the PID file, and see the child through the grace period. -/
def watch (c : Child) : Do Unit := do
  io (write c.writePid .vfkitPid (pidText c.pid))
  match c.early with
  | .outlives => pure ()
  | .exits status stderr readErr =>
    Cmd.modify fun w => (w.setDisk (w.disk.put .vfkitErr stderr)).setProc c.pid none
    let stderr ← (io (readToString readErr .vfkitErr)).attempt
    Cmd.fail (.vfkitExited (status.getD (-1)) (trim (stderr.getD [])))
  | .waitFails => Cmd.fail (.io .failed)
  | .killed => Cmd.die

/-- Spawn vfkit and watch it; where it is missing, offer to install it and try again. -/
def startVm : List Launch → List Text → Do Unit
  | [], _ => Cmd.die
  | launch :: launches, args => do
    io (createFile launch.createLog .vfkitLog)
    io (createFile launch.createErr .vfkitErr)
    match launch.spawn with
    | .child c =>
      if ← Cmd.gets fun w => decide (Free w.procs c.pid) then
        Cmd.modify (World.spawn c args)
        watch c
      else Cmd.fail (.vfkitExec "no free PID".toList)
    | .failed reason => Cmd.fail (.vfkitExec reason)
    | .notFound none => Cmd.fail .vfkitNotFound
    | .notFound (some prompt) =>
      match prompt.input with
      | none => Cmd.fail (.io .failed)
      | some input =>
        if saysYes input then
          match prompt.installed with
          | none => Cmd.fail (.io .failed)
          | some true => startVm launches args
          | some false => Cmd.fail (.vfkitExec "brew install vfkit failed".toList)
        else Cmd.fail .vfkitNotFound

/-- Prepare and launch. Whether a VM is running already is not asked. -/
def cmdStart (host : Host) (env : StartEnv) : Do Unit := do
  let args ← onDisk (prepare host env)
  startVm env.launches args
  record (.started (← Cmd.gets fun w => w.disk.file .userData)
    (← Cmd.gets fun w => w.disk.file .metaData))

/-! ### The documents -/

/-- Only the material varies, and the checks are about the rest. -/
theorem validate_provisionSpec (m : PkiMaterial) : Provision.validate (provisionSpec m) = .ok () := by
  have hsame : Provision.validate (provisionSpec m) =
      Provision.validate (provisionSpec ⟨⟨[], []⟩, ⟨[], []⟩⟩) := rfl
  rw [hsame]
  decide +kernel

/-- The user data for this material. -/
def userDataOf (m : PkiMaterial) : Text :=
  (Provision.renderUserData (provisionSpec m)).toOption.getD []

/-- The meta data, which are the same for any material. -/
def metaDataOf (m : PkiMaterial) : Text :=
  (Provision.renderMetaData (provisionSpec m)).toOption.getD []

/-- The document of a start is never refused. -/
theorem renderUserData_provisionSpec (m : PkiMaterial) :
    Provision.renderUserData (provisionSpec m) = .ok (userDataOf m) := by
  unfold userDataOf Provision.renderUserData
  rw [validate_provisionSpec]
  rfl

theorem renderMetaData_provisionSpec (m : PkiMaterial) :
    Provision.renderMetaData (provisionSpec m) = .ok (metaDataOf m) := by
  unfold metaDataOf Provision.renderMetaData
  rw [validate_provisionSpec]
  rfl

/-- The disk with both documents written. -/
def withDocuments (m : PkiMaterial) (d : StateDisk) : StateDisk :=
  (d.put .userData (encode (userDataOf m))).put .metaData (encode (metaDataOf m))

section Rules
variable {host : Host} {env : StartEnv} {d : StateDisk} {Q : StateDisk → Prop}

/-- How far the two documents get. -/
theorem ends_writeDocuments {m : PkiMaterial} {P : Unit → StateDisk → Prop}
    (hw : P () (withDocuments m d)) (hnone : Q d)
    (huser : ∀ n, (env.fault .writeUserData).progress = some n →
      Q (d.put .userData ((encode (userDataOf m)).take n)))
    (hone : Q (d.put .userData (encode (userDataOf m))))
    (hmeta : ∀ n, (env.fault .writeMetaData).progress = some n →
      Q ((d.put .userData (encode (userDataOf m))).put .metaData ((encode (metaDataOf m)).take n))) :
    Ends (writeDocuments env m) d P Q := by
  unfold writeDocuments
  rw [renderUserData_provisionSpec, renderMetaData_provisionSpec]
  unfold rendered
  rw [ends_bind, ends_pure, ends_bind, ends_pure, ends_bind, ends_mapError]
  refine ends_write (fun _ _ => ?_) hnone huser
  rw [ends_mapError]
  exact ends_write (fun _ _ => hw) hone hmeta

end Rules

/-! ### What preparing touches -/

def documents : List File := [.userData, .metaData, .vfkitArgs]

/-- All that a start has in place when it launches. -/
def preparedFiles : List File := Image.imageFiles ++ Pki.pkiPaths ++ documents

section Frames
variable {S : File → Prop} (host : Host) (env : StartEnv)

theorem within_checked {R : StateDisk → StateDisk → Prop} (hr : ∀ d, R d d) (cfg : Config) :
    Within R (checked cfg) := by
  unfold checked
  split
  · exact within_pure hr cfg
  · exact within_fail hr _

theorem within_loadConfig {R : StateDisk → StateDisk → Prop} (hr : ∀ d, R d d)
    (ht : ∀ d d' d'', R d d' → R d' d'' → R d d'') (readConfig : Fault) :
    Within R (loadConfig host readConfig) := by
  refine within_bind ht (within_mapError (within_gets hr _) _) fun there => ?_
  split
  · refine within_bind ht (within_mapError (within_readToString _ hr _) _) fun raw => ?_
    split
    · exact within_checked hr _
    · exact within_fail hr _
  · exact within_checked hr _

theorem within_rendered {α : Type} (doc : Except ProvisionError α) : Within (Only S) (rendered doc) := by
  cases doc with
  | ok a => exact within_pure Only.refl a
  | error e => exact within_fail Only.refl _

theorem within_writeDocuments (m : PkiMaterial) :
    Within (Only (· ∈ documents)) (writeDocuments env m) := by
  refine within_bind Only.trans (within_rendered _) fun userData => ?_
  refine within_bind Only.trans (within_rendered _) fun metaData => ?_
  refine within_bind Only.trans (within_mapError (within_write _ (by decide) _) _) fun _ => ?_
  exact within_mapError (within_write _ (by decide) _) _

/-- Preparing changes the files that are prepared. -/
theorem within_prepare : Within (Only (· ∈ preparedFiles)) (prepare host env) := by
  have himage : ∀ f, f ∈ Image.imageFiles → f ∈ preparedFiles := fun f h => by simp [preparedFiles, h]
  have hpki : ∀ f, f ∈ Pki.pkiPaths → f ∈ preparedFiles := fun f h => by simp [preparedFiles, h]
  have hdocs : ∀ f, f ∈ documents → f ∈ preparedFiles := fun f h => by simp [preparedFiles, h]
  refine within_bind Only.trans (within_mapError (within_createDirAll _ _) _) fun _ => ?_
  refine within_bind Only.trans (within_loadConfig host Only.refl Only.trans _) fun cfg => ?_
  refine within_bind Only.trans (within_mapError (fun d => ?_) _) fun _ => ?_
  · exact (Image.within_ensureImages env.image cfg host.names d).mono himage
  refine within_bind Only.trans (within_mapError (fun d => ?_) _) fun m => ?_
  · exact (Pki.within_loadOrCreate env.pki host.pkiDir d).mono hpki
  refine within_bind Only.trans (fun d => (within_writeDocuments env m d).mono hdocs) fun _ => ?_
  refine within_bind Only.trans (within_mapError (within_write _ (by decide) _) _) fun _ => ?_
  exact within_pure Only.refl _

end Frames

section Rules
variable {host : Host} {env : StartEnv} {d : StateDisk} {Q : StateDisk → Prop}

/-- The images come first, then the key material, the documents and the arguments. -/
theorem ends_prepare {P : List Text → StateDisk → Prop} (hsetup : ∀ d', d'.file = d.file → Q d')
    (hmake : ∀ cfg d', d'.file = d.file →
      Ends (Image.ensureImages host.names env.image cfg) d' (fun _ d1 =>
        Ends (Pki.loadOrCreate env.pki host.pkiDir) d1 (fun m d2 =>
          Ends (writeDocuments env m) d2 (fun _ d3 =>
            ∀ args d4, Only (· ∈ [File.vfkitArgs]) d3 d4 → P args d4 ∧ Q d4) Q) Q) Q) :
    Ends (prepare host env) d P Q := by
  unfold prepare
  rw [ends_bind, ends_mapError]
  refine ends_createDirAll (fun _ => ?_) fun _ ds => hsetup _ rfl
  let d0 := d.mkdirs (Tree.path File Dir.stateDir)
  have hconfig := (within_loadConfig host (fun _ => rfl) (fun _ _ _ => Eq.trans)
    (env.fault .readConfig)).ends d0
  rw [ends_bind]
  refine hconfig.mono ?_ ?_
  · intro cfg d' hsame
    subst hsame
    rw [ends_bind, ends_mapError]
    refine (hmake cfg d0 rfl).mono (fun _ d1 h1 => ?_) fun _ h => h
    rw [ends_bind, ends_mapError]
    refine h1.mono (fun m d2 h2 => ?_) fun _ h => h
    rw [ends_bind]
    refine h2.mono (fun _ d3 h3 => ?_) fun _ h => h
    rw [ends_bind, ends_mapError]
    have hargs : ∀ b, Only (· ∈ [File.vfkitArgs]) d3 (d3.put .vfkitArgs b) :=
      fun b => only_put d3 (by decide) b
    exact ends_write (fun _ _ => (h3 _ _ (hargs _)).1) (h3 [] d3 (Only.refl d3)).2
      fun n _ => (h3 [] _ (hargs _)).2
  · intro d' hsame
    subst hsame
    exact hsetup _ rfl

end Rules

/-! ### What a start can come to -/

def logFiles : List File := [.vfkitLog, .vfkitErr]

/-- The child that these launches come to, if they come to one. -/
def spawned (procs : Pid → Option Process) : List Launch → Option Child
  | [] => none
  | launch :: launches =>
    if launch.createLog = .none ∧ launch.createErr = .none then
      match launch.spawn with
      | .child c => if Free procs c.pid then some c else none
      | .failed _ => none
      | .notFound none => none
      | .notFound (some prompt) =>
        match prompt.input with
        | none => none
        | some input =>
          if saysYes input ∧ prompt.installed = some true then spawned procs launches else none
    else none

/-- What the write of the PID file leaves. -/
inductive PidLeft (c : Child) (d : StateDisk) : StateDisk → Prop
  | untouched (hfault : c.writePid ≠ .none) (hprogress : c.writePid.progress = none) : PidLeft c d d
  | part (n : Nat) (hprogress : c.writePid.progress = some n) :
      PidLeft c d (d.put .vfkitPid ((pidText c.pid).take n))
  | whole (hfault : c.writePid = .none) : PidLeft c d (d.put .vfkitPid (pidText c.pid))

section Rules
variable {w : World} {P : Unit → World → Prop} {Q : World → Prop}

/-- The child outlives the watch, or strays with whatever PID file there is, or is reaped. -/
theorem ends_watch {c : Child} (hdir : w.disk.dir .stateDir = true)
    (houtlives : c.writePid = .none → P () (w.setDisk (w.disk.put .vfkitPid (pidText c.pid))))
    (hstray : ∀ d, PidLeft c w.disk d → Q (w.setDisk d))
    (hexit : c.writePid = .none → ∀ stderr, Q ((w.setDisk
      ((w.disk.put .vfkitPid (pidText c.pid)).put .vfkitErr stderr)).setProc c.pid none)) :
    Ends (watch c) w P Q := by
  unfold watch
  rw [ends_bind, ends_io]
  refine ends_write_of_dir hdir (fun hwhole => ?_) (fun h h' => hstray _ (.untouched h h'))
    fun n hn => hstray _ (.part n hn)
  split
  · exact houtlives hwhole
  · next status stderr readErr hearly =>
    rw [ends_bind, ends_modify, ends_bind]
    have hgone := hexit hwhole stderr
    refine ends_attempt (fun _ w' => Ends (Cmd.fail _) w' P Q) ?_ fun _ h => h
    rw [ends_io]
    exact ends_readToString (fun _ _ _ _ _ => hgone) fun _ => hgone
  · exact hstray _ (.whole hwhole)
  · exact hstray _ (.whole hwhole)

/-- The loop comes to a child and watches it, or stops with no more than new logs. -/
theorem ends_startVm {launches : List Launch} {args : List Text}
    (hstop : ∀ d, Only (· ∈ logFiles) w.disk d → Q (w.setDisk d))
    (hchild : ∀ c d, spawned w.procs launches = some c → Only (· ∈ logFiles) w.disk d →
      d.dir .stateDir = true → Ends (watch c) ((w.setDisk d).spawn c args) P Q) :
    Ends (startVm launches args) w P Q := by
  induction launches generalizing w with
  | nil => exact hstop w.disk (Only.refl _)
  | cons launch launches ih =>
    unfold startVm
    rw [ends_bind, ends_io]
    refine ends_createFile (fun hcreate _ => ?_) (hstop _ (Only.refl _)) fun _ =>
      hstop _ (only_put _ (by decide) _)
    have h1 : Only (· ∈ logFiles) w.disk (w.disk.put .vfkitLog []) := only_put _ (by decide) _
    rw [ends_bind, ends_io]
    refine ends_createFile (fun hcreate' hdir => ?_) (hstop _ h1) fun _ =>
      hstop _ (Only.trans _ _ _ h1 (only_put _ (by decide) _))
    have h2 : Only (· ∈ logFiles) w.disk ((w.disk.put .vfkitLog []).put .vfkitErr []) :=
      Only.trans _ _ _ h1 (only_put _ (by decide) _)
    have hstop2 := hstop _ h2
    have hspawned : spawned w.procs (launch :: launches) =
        match launch.spawn with
        | .child c => if Free w.procs c.pid then some c else none
        | .failed _ => none
        | .notFound none => none
        | .notFound (some prompt) =>
          match prompt.input with
          | none => none
          | some input =>
            if saysYes input ∧ prompt.installed = some true then spawned w.procs launches
            else none := by
      rw [spawned, if_pos ⟨hcreate, hcreate'⟩]
    split
    · next c hspawn =>
      rw [ends_bind, ends_gets]
      split
      · next hfree =>
        have hfree : Free w.procs c.pid := of_decide_eq_true hfree
        rw [ends_bind, ends_modify]
        exact hchild c _ (by rw [hspawned, hspawn]; exact if_pos hfree) h2 hdir
      · exact hstop2
    · exact hstop2
    · exact hstop2
    · next prompt hspawn =>
      split
      · exact hstop2
      · next input hinput =>
        split
        · next hyes =>
          split
          · exact hstop2
          · next hinstalled =>
            refine ih (fun d hd => hstop d (Only.trans _ _ _ h2 hd)) fun c d hc hd hdir => ?_
            refine hchild c d ?_ (Only.trans _ _ _ h2 hd) hdir
            rw [hspawned, hspawn]
            dsimp only
            rw [hinput]
            exact (if_pos ⟨hyes, hinstalled⟩).trans hc
          · exact hstop2
        · exact hstop2

variable {host : Host} {env : StartEnv}

/-- The start gets to launching vfkit with these arguments, and spawns this child. -/
structure Launches (host : Host) (env : StartEnv) (w : World) (args : List Text) (c : Child) : Prop where
  prepared : (prepare host env w.disk).1 = .ok args
  spawned : spawned w.procs env.launches = some c

/-- The disk as the child is spawned: prepared, and with new logs. -/
def AtLaunch (host : Host) (env : StartEnv) (w : World) (d : StateDisk) : Prop :=
  Only (· ∈ logFiles) (prepare host env w.disk).2 d

theorem AtLaunch.only {d : StateDisk} (h : AtLaunch host env w d) :
    Only (fun f => f ∈ preparedFiles ∨ f ∈ logFiles) w.disk d :=
  Only.trans _ _ _ ((within_prepare host env w.disk).mono fun _ => Or.inl) (h.mono fun _ => Or.inr)

/-- A start stops without a child, boots one, leaves one behind as it stops, or sees
it exit. -/
theorem ends_cmdStart (hstop : ∀ d, AtLaunch host env w d → Q (w.setDisk d))
    (hboot : ∀ args c d, Launches host env w args c → AtLaunch host env w d → c.writePid = .none →
      P () (((w.setDisk (d.put .vfkitPid (pidText c.pid))).spawn c args).note
        (.started (d.file .userData) (d.file .metaData))))
    (hstray : ∀ args c d d', Launches host env w args c → AtLaunch host env w d → PidLeft c d d' →
      Q ((w.setDisk d').spawn c args))
    (hexit : ∀ args c d, Launches host env w args c → AtLaunch host env w d → c.writePid = .none →
      ∀ stderr, Q (((w.setDisk ((d.put .vfkitPid (pidText c.pid)).put .vfkitErr stderr)).spawn
        c args).setProc c.pid none)) :
    Ends (cmdStart host env) w P Q := by
  unfold cmdStart
  rw [ends_bind, ends_onDisk, ends_iff]
  refine ⟨fun args d hd => ?_, fun e d hd => ?_, fun d hd => ?_⟩
  · have hdisk : (prepare host env w.disk).2 = d := by rw [hd]
    have hargs : (prepare host env w.disk).1 = .ok args := by rw [hd]
    rw [ends_bind]
    have hat : ∀ d', Only (· ∈ logFiles) d d' → AtLaunch host env w d' := fun d' hd' => by
      rw [AtLaunch, hdisk]
      exact hd'
    refine ends_startVm (fun d' hd' => hstop d' (hat d' hd')) fun c d' hc hd' hdir => ?_
    have hlaunch : Launches host env w args c := ⟨hargs, hc⟩
    have hat := hat d' hd'
    refine ends_watch hdir (fun hwhole => ?_) (fun d'' hleft => ?_) fun hwhole stderr => ?_
    · have h := hboot args c d' hlaunch hat hwhole
      have huser : (d'.put .vfkitPid (pidText c.pid)).file .userData = d'.file .userData :=
        Disk.put_of_ne _ (by decide) _
      have hmeta : (d'.put .vfkitPid (pidText c.pid)).file .metaData = d'.file .metaData :=
        Disk.put_of_ne _ (by decide) _
      rw [← huser, ← hmeta] at h
      exact h
    · exact hstray args c d' d'' hlaunch hat hleft
    · exact hexit args c d' hlaunch hat hwhole stderr
  · exact hstop _ (by rw [AtLaunch, hd]; exact Only.refl _)
  · exact hstop _ (by rw [AtLaunch, hd]; exact Only.refl _)

/-- What preparing leaves on the disk stands when the command ends, unless it is about
the PID file and the logs. -/
theorem ends_cmdStart_disk {J : StateDisk → Prop}
    (hstable : ∀ d d', Only (· ∈ .vfkitPid :: logFiles) d d' → J d → J d')
    (hprepare : Ends (prepare host env) w.disk (fun _ => J) J) :
    Ends (cmdStart host env) w (fun _ w' => J w'.disk) (fun w' => J w'.disk) := by
  have hat : ∀ d, AtLaunch host env w d → J d := fun d hd =>
    hstable _ d (hd.mono fun f hf => List.mem_cons_of_mem _ hf) hprepare.final
  have hpid : ∀ d b, J d → J (d.put .vfkitPid b) := fun d b => hstable d _ (only_put d (by decide) b)
  have herr : ∀ d b, J d → J (d.put .vfkitErr b) := fun d b => hstable d _ (only_put d (by decide) b)
  refine ends_cmdStart hat (fun args c d _ hd _ => hpid d _ (hat d hd)) (fun args c d d' _ hd hleft => ?_)
    fun args c d _ hd _ stderr => herr _ _ (hpid d _ (hat d hd))
  cases hleft with
  | untouched => exact hat d hd
  | part n => exact hpid d _ (hat d hd)
  | whole => exact hpid d _ (hat d hd)

end Rules

end Malleus
