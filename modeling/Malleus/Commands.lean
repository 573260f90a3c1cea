import Malleus.Discovery
import Malleus.Start

/-! The other commands of `main.rs`: `stop`, `status`, `delete`, `mount`, `unmount` and
`autoconfigure`. -/
namespace Malleus
open Effect Strings Numbers Storage

/-! ### Stop -/

/-- How running `kill` ends: it cannot be run, it exits with an error, or it sends
its signal. -/
inductive Kill where
  | cannotRun
  | refused
  | delivers
  deriving DecidableEq, Repr

/-- What `stop` meets: the faults of its files, and the fate of `kill`. -/
structure StopEnv where
  readPid : Fault
  kill : Kill
  removePid : Fault
  removeSock : Fault

/-- A process that is alive ends at the signal, and a zombie stays what it is. -/
def World.signal (pid : Pid) (p : Process) (w : World) : World :=
  let w := w.note (.signalled (.process pid) (isVmRunning true w))
  if p.alive then w.setProc pid none else w

section Signal
variable (w : World) (pid : Pid) (p : Process)

theorem signal_disk : (w.signal pid p).disk = w.disk := by
  unfold World.signal
  dsimp only
  split
  · rfl
  · rfl

theorem signal_incus : (w.signal pid p).incus = w.incus := by
  unfold World.signal
  dsimp only
  split
  · rfl
  · rfl

theorem signal_log :
    (w.signal pid p).log = .signalled (.process pid) (isVmRunning true w) :: w.log := by
  unfold World.signal
  dsimp only
  split
  · rfl
  · rfl

end Signal

/-- Run `kill`; says whether it could be run. PID 0 is malleus and its whole group. -/
def runKill (kill : Kill) (pid : Pid) : Do Bool := do
  match kill with
  | .cannotRun => pure false
  | .refused => pure true
  | .delivers =>
    if pid = 0 then
      record (.signalled .callerGroup (← Cmd.gets (isVmRunning true)))
      Cmd.die
    else
      match ← Cmd.gets fun w => w.procs pid with
      | none => pure true
      | some p =>
        Cmd.modify (World.signal pid p)
        pure true

/-- What a run leaves behind. -/
def runFiles : List File := [.vfkitPid, .readySock]

/-- What a run leaves behind goes, as far as it can be removed. -/
def removeRunFiles (env : StopEnv) : Do Unit := do
  let _ ← (io (removeFile env.removePid .vfkitPid)).attempt
  let _ ← (io (removeFile env.removeSock .readySock)).attempt

/-- Send the signal to the PID of the file, whatever runs under it, and take the files of the
run away once `kill` has run. -/
def cmdStop (env : StopEnv) : Do Unit := do
  if ← io (present .vfkitPid) then
    let pidStr ← io (readToString env.readPid .vfkitPid)
    match parsePid pidStr with
    | none => Cmd.fail (.io (.invalidData "invalid PID file content"))
    | some pid => if ← runKill env.kill pid then removeRunFiles env else pure ()
  else pure ()

/-! ### Status -/

/-- What `status` meets. -/
structure StatusEnv where
  readConfig : Fault
  readPid : Fault
  ps : Bool

/-- The line on the VM. -/
def vmStatus (pidStr : Option Text) (running : Bool) : Text :=
  match pidStr with
  | none => "stopped".toList
  | some pidStr =>
    match parsePid pidStr with
    | none => "stopped (invalid PID file)".toList
    | some pid =>
      if running then "running (PID: ".toList ++ decimal pid.toNat ++ ")".toList
      else "stopped (stale PID file)".toList

/-- `cmd_status`: the lines it prints. -/
def cmdStatus (host : Host) (env : StatusEnv) : Do (List Text) := do
  let cfg ← onDisk (loadConfig host env.readConfig)
  let pkiReady ← Cmd.gets fun w => Pki.pkiPaths.all fun f => (w.disk.file f).isSome
  let pidStr ← (io (readToString env.readPid .vfkitPid)).attempt
  let status := vmStatus pidStr (← Cmd.gets (isVmRunning env.ps))
  pure ["state dir: ".toList ++ host.stateDir, "vm: ".toList ++ status,
    "cpus: ".toList ++ decimal cfg.cpus.toNat,
    "memory_mib: ".toList ++ decimal cfg.memoryMib.toNat,
    "pki: ".toList ++ if pkiReady then "present".toList else "missing".toList]

/-! ### Delete -/

/-- How far the removal gets, and in which order it takes the files. -/
structure DeleteEnv where
  fault : Fault
  order : List File

/-- Take the state directory away, if there is one. The VM and the remote stay. -/
def cmdDelete (env : DeleteEnv) : Do Unit := do
  if ← Cmd.gets fun w => w.disk.dir .stateDir then
    io (removeDirAll env.fault File.inStateDir Dir.inStateDir env.order)
  else pure ()

/-! ### Mounts -/

/-- `cmd_mount`: the line it prints. -/
def cmdMount (hostPath : Text) (name : Option Text) : Except CliError Text := do
  let mountName ← match name with
    | some name => pure name
    | none => deriveMountName hostPath
  if validMountName mountName then
    pure ("mount wiring complete: ".toList ++ hostPath ++ " -> ".toList ++ mountName)
  else throw (.invalidMountName mountName)

/-- `cmd_unmount`: the line it prints. -/
def cmdUnmount (name : Text) : Except CliError Text :=
  if validMountName name then pure ("unmount wiring complete: ".toList ++ name)
  else throw (.invalidMountName name)

/-! ### Autoconfigure -/

/-- The places where copying the credentials can stop. -/
inductive CopySite where
  | createConfDir
  | copyCert
  | copyKey
  deriving DecidableEq, Repr

/-- What `autoconfigure` is given and meets: its options, the faults of its files, a start, the
turns of the search and the fates of the three calls of incus. -/
structure AutoconfigureEnv where
  vmIp : Option Ipv4Addr
  remoteName : Text
  incusConf : Option Text
  fault : CopySite → Fault
  /-- Whether `ps` can be run when malleus asks whether the VM is running. -/
  ps : Bool
  start : StartEnv
  polls : List Poll
  list : Incus.Fate
  add : Incus.Fate
  switch : Incus.Fate

def AutoconfigureEnv.confDir (env : AutoconfigureEnv) (host : Host) : Text :=
  env.incusConf.getD host.defaultIncusConfDir

/-- The client's credentials, copied for incus to find. -/
def copyCredentials (host : Host) (env : AutoconfigureEnv) : Cmd StateDisk CliError Unit := do
  let conf := env.confDir host
  if ← Cmd.gets fun d : StateDisk => (d.file .clientCert).isSome && (d.file .clientKey).isSome then
    (createDirAll (env.fault .createConfDir) (.incusConfDir conf)).mapError .io
    (copy (env.fault .copyCert) .clientCert (.confClientCert conf)).mapError .io
    (copy (env.fault .copyKey) .clientKey (.confClientKey conf)).mapError .io
  else Cmd.fail (.missingPkiMaterial host.pkiDir)

def World.setIncus (conf : Text) (c : Incus.Client) (w : World) : World :=
  {w with incus := Function.update w.incus conf c}

/-- A command on the client of this configuration directory. -/
def onIncus {α : Type} (conf : Text) (m : Cmd Incus.Client CliError α) : Do α :=
  Cmd.zoom (fun w => w.incus conf) (World.setIncus conf) m

def remoteUrl (vmIp : Ipv4Addr) : Text :=
  "https://".toList ++ vmIp.toText ++ ':' :: decimal defaultIncusHttpsPort.toNat

/-- Add the remote unless it is there, and switch to it. -/
def wireRemote (env : AutoconfigureEnv) (vmIp : Ipv4Addr) : Cmd Incus.Client CliError Unit := do
  let remoteList ← Incus.run env.list .list
  if remoteExists remoteList env.remoteName then pure ()
  else
    let _ ← Incus.run env.add (.add env.remoteName (remoteUrl vmIp))
  let _ ← Incus.run env.switch (.switch env.remoteName)

section Autoconfigure
variable (host : Host)

/-- A start, unless the probe finds the VM running. -/
def startUnlessRunning (vmIsRunning : Bool → World → Bool) (env : AutoconfigureEnv) : Do Unit := do
  if ← Cmd.gets (vmIsRunning env.ps) then pure () else cmdStart host env.start

/-- The name is checked first and the client is wired last, once the guest's address is known.
-/
def cmdAutoconfigureWithRunner (leasePath : Text) (vmIsRunning : Bool → World → Bool)
    (env : AutoconfigureEnv) : Do Unit := do
  if validMountName env.remoteName then
    onDisk (copyCredentials host env)
    startUnlessRunning host vmIsRunning env
    let vmIp ← resolveVmIp host vmIsRunning leasePath env.vmIp env.polls
    onIncus (env.confDir host) (wireRemote env vmIp)
  else Cmd.fail (.invalidRemoteName env.remoteName)

def cmdAutoconfigure (env : AutoconfigureEnv) : Do Unit :=
  cmdAutoconfigureWithRunner host defaultDhcpLeasesPath isVmRunning env

end Autoconfigure

/-! ### What the commands do -/

section Rules
variable {host : Host} {w : World} {Q : World → Prop}

/-- What `kill` comes to: it cannot be run or refuses, or there is nobody to signal, or it
strikes a process, or with 0 the caller's own group. -/
theorem ends_runKill {kill : Kill} {pid : Pid} {P : Bool → World → Prop}
    (hcannot : kill = .cannotRun → P false w) (hrefused : kill = .refused → P true w)
    (hgroup : kill = .delivers → pid = 0 →
      Q (w.note (.signalled .callerGroup (isVmRunning true w))))
    (hgone : kill = .delivers → pid ≠ 0 → w.procs pid = none → P true w)
    (hsignal : ∀ p, kill = .delivers → pid ≠ 0 → w.procs pid = some p → P true (w.signal pid p)) :
    Ends (runKill kill pid) w P Q := by
  unfold runKill
  split
  · exact hcannot rfl
  · exact hrefused rfl
  · split
    · next hzero => exact hgroup rfl hzero
    · next hpid =>
      rw [ends_bind, ends_gets]
      split
      · next hnone => exact hgone rfl hpid hnone
      · next p hp => exact hsignal p rfl hpid hp

/-- Try to remove a file: it is gone, or it was not there, or a fault kept it. -/
theorem ends_tryRemove {fault : Fault} {f : File} {P : World → Prop}
    (herased : ¬ fault.Prevents → P (w.setDisk (w.disk.erase f)) ∧ Q (w.setDisk (w.disk.erase f)))
    (hkept : ((w.disk.file f).isSome → fault.Prevents) → P w ∧ Q w) :
    Ends ((io (removeFile fault f)).attempt : Do (Option Unit)) w (fun _ => P) Q := by
  let R : World → Prop := fun w' => P w' ∧ Q w'
  have h : Ends (io (removeFile fault f)) w (fun _ => R) R := by
    rw [ends_io]
    refine ends_removeFile (fun hnone => herased fun h => h.1 hnone) hkept fun hsome => herased fun h => ?_
    rw [h.2] at hsome
    exact absurd hsome (by decide)
  exact (ends_attempt (fun _ => R) h fun _ hR => hR).mono (fun _ _ hR => hR.1) fun _ hR => hR.2

/-- The PID file is gone, unless a fault kept it. -/
structure Removed (env : StopEnv) (d d' : StateDisk) : Prop where
  gone : ¬ env.removePid.Prevents → d'.file .vfkitPid = none
  kept : env.removePid.Prevents → d'.file .vfkitPid = d.file .vfkitPid

/-- Only the two files are touched, and each that can be removed is gone. -/
theorem ends_removeRunFiles {env : StopEnv} {R : World → Prop}
    (h : ∀ d, Only (· ∈ runFiles) w.disk d → Removed env w.disk d → R (w.setDisk d)) :
    Ends (removeRunFiles env) w (fun _ => R) R := by
  have hrest : ∀ d, Only (· ∈ runFiles) w.disk d → Removed env w.disk d →
      Ends (do let _ ← (io (removeFile env.removeSock .readySock)).attempt : Do Unit)
        (w.setDisk d) (fun _ => R) R := by
    intro d hd hpid
    have herased : R (w.setDisk (d.erase .readySock)) := by
      have hfile : (d.erase .readySock).file .vfkitPid = d.file .vfkitPid :=
        Disk.erase_of_ne _ (by decide)
      refine h _ (Only.trans _ _ _ hd (only_erase _ (by decide))) ⟨?_, ?_⟩
      · exact fun hgone => hfile.trans (hpid.gone hgone)
      · exact fun hkept => hfile.trans (hpid.kept hkept)
    rw [ends_bind]
    exact ends_tryRemove (fun _ => ⟨herased, herased⟩) fun _ => ⟨h d hd hpid, h d hd hpid⟩
  unfold removeRunFiles
  rw [ends_bind]
  refine ends_tryRemove (fun hgone => ?_) fun hkept => ?_
  · have hd : Only (· ∈ runFiles) w.disk (w.disk.erase .vfkitPid) := only_erase _ (by decide)
    have hpid : Removed env w.disk (w.disk.erase .vfkitPid) :=
      ⟨fun _ => Disk.erase_self .., fun h => absurd h hgone⟩
    exact ⟨hrest _ hd hpid, h _ hd hpid⟩
  · have hpid : Removed env w.disk w.disk := by
      refine ⟨fun hgone => ?_, fun _ => rfl⟩
      by_contra hfile
      exact hgone (hkept (Option.isSome_iff_ne_none.mpr hfile))
    exact ⟨hrest _ (Only.refl _) hpid, h _ (Only.refl _) hpid⟩

/-- A stop finds nothing to stop, or runs `kill` on the PID in the file and then
removes what the run left behind. -/
theorem ends_cmdStop {env : StopEnv} {R : World → Prop}
    (hkept : (env.readPid = .none → w.namedPid = none) → R w)
    (hstop : ∀ pid, env.readPid = .none → w.namedPid = some pid →
      Ends (runKill env.kill pid) w
        (fun ran w' => if ran then Ends (removeRunFiles env) w' (fun _ => R) R else R w') R) :
    Ends (cmdStop env) w (fun _ => R) R := by
  unfold cmdStop
  rw [ends_bind, ends_io, ends_present]
  split
  · rw [ends_bind, ends_io]
    refine ends_readToString (fun b t hread (hb : w.disk.file .vfkitPid = some b) ht => ?_) fun h => ?_
    · have hnamed : w.namedPid = parsePid t := by
        rw [World.namedPid, hb, Option.bind_some, readPid, ht]
        rfl
      split
      · next hnone => exact hkept fun _ => hnamed.trans hnone
      · next pid hpid =>
        rw [ends_bind]
        refine (hstop pid hread (hnamed.trans hpid)).mono (fun ran w' hran => ?_) fun _ h => h
        cases ran with
        | true => exact hran
        | false => exact hran
    · refine hkept fun hread => ?_
      have hnone : (w.disk.file .vfkitPid).bind decode = none := h hread
      unfold World.namedPid
      cases hb : w.disk.file .vfkitPid with
      | none => rfl
      | some b =>
        rw [hb, Option.bind_some] at hnone
        rw [Option.bind_some, readPid, hnone]
        rfl
  · next habsent =>
    refine hkept fun _ => ?_
    have hnone : w.disk.file .vfkitPid = none := by simpa using habsent
    rw [World.namedPid, hnone]
    rfl

/-- What the notes, the signal and the removals keep, a stop keeps. -/
theorem cmdStop_keeps {env : StopEnv} {R : World → Prop} (hkept : R w)
    (hgroup : R (w.note (.signalled .callerGroup (isVmRunning true w))))
    (hsignal : ∀ pid p, w.procs pid = some p → R (w.signal pid p))
    (hremove : ∀ w' d, R w' → Only (· ∈ runFiles) w'.disk d → R (w'.setDisk d)) :
    R (cmdStop env w).2 := by
  have hfiles : ∀ w', R w' → Ends (removeRunFiles env) w' (fun _ => R) R :=
    fun w' hw' => ends_removeRunFiles fun d hd _ => hremove w' d hw' hd
  have hstop : Ends (cmdStop env) w (fun _ => R) R := by
    apply ends_cmdStop (fun _ => hkept)
    intro pid _ _
    exact ends_runKill (fun _ => hkept) (fun _ => hfiles w hkept) (fun _ _ => hgroup)
      (fun _ _ _ => hfiles w hkept) fun p _ _ hp => hfiles _ (hsignal pid p hp)
  exact hstop.final

/-- A stop touches no file but what the run left behind. -/
theorem cmdStop_only (env : StopEnv) (w : World) : Only (· ∈ runFiles) w.disk (cmdStop env w).2.disk := by
  refine cmdStop_keeps (R := fun w' => Only (· ∈ runFiles) w.disk w'.disk) (Only.refl _) (Only.refl _)
    (fun pid p _ => ?_) fun w' d hw' hd => Only.trans _ _ _ hw' hd
  rw [signal_disk]
  exact Only.refl _

/-- Nothing is removed, or the whole tree, or a part of it where a fault stops the removal. -/
theorem ends_cmdDelete {env : DeleteEnv} {R : World → Prop} (hkept : R w)
    (hall : w.disk.dir .stateDir = true → env.fault = .none →
      R (w.setDisk (w.disk.eraseTree File.inStateDir Dir.inStateDir)))
    (hpart : ∀ n, w.disk.dir .stateDir = true → env.fault.progress = some n →
      R (w.setDisk (w.disk.eraseTree
        (fun f => f.inStateDir && (env.order.take n).contains f) fun _ => false))) :
    Ends (cmdDelete env) w (fun _ => R) R := by
  unfold cmdDelete
  rw [ends_bind, ends_gets]
  split
  · next hdir =>
    rw [ends_io]
    exact ends_removeDirAll (hall hdir) hkept fun n => hpart n hdir
  · exact hkept

/-- `status` only looks. -/
theorem cmdStatus_world (host : Host) (env : StatusEnv) (w : World) : (cmdStatus host env w).2 = w := by
  have hr : ∀ d : StateDisk, d = d := fun _ => rfl
  have hw : ∀ w : World, w = w := fun _ => rfl
  have ht : ∀ {α : Type} (a b c : α), a = b → b = c → a = c := fun _ _ _ => Eq.trans
  have hzoom : ∀ (w : World) (d : StateDisk), w.disk = d → w = w.setDisk d := by
    intro w d hd
    rw [← hd]
    rfl
  have h : Within Eq (cmdStatus host env) := by
    refine within_bind ht (within_zoom (within_loadConfig host hr ht _) hzoom) fun cfg => ?_
    refine within_bind ht (within_gets hw _) fun pkiReady => ?_
    refine within_bind ht (within_attempt (within_mapError ?_ _)) fun pidStr => ?_
    · exact within_zoom (within_readToString _ hr _) hzoom
    · exact within_bind ht (within_gets hw _) fun running => within_pure hw _
  exact (h w).symm

/-! ### Autoconfigure -/

def confFiles (conf : Text) : List File := [.confClientCert conf, .confClientKey conf]

theorem within_copyCredentials (host : Host) (env : AutoconfigureEnv) :
    Within (Only (· ∈ confFiles (env.confDir host))) (copyCredentials host env) := by
  refine within_bind Only.trans (within_gets Only.refl _) fun there => ?_
  split
  · refine within_bind Only.trans (within_mapError (within_createDirAll _ _) _) fun _ => ?_
    refine within_bind Only.trans (within_mapError (within_copy _ _ (by simp [confFiles])) _) fun _ => ?_
    exact within_mapError (within_copy _ _ (by simp [confFiles])) _
  · exact within_fail Only.refl _

/-- The probe decides whether there is a start at all. -/
theorem ends_startUnlessRunning {vmIsRunning : Bool → World → Bool} {env : AutoconfigureEnv}
    {P : Unit → World → Prop} (hrunning : vmIsRunning env.ps w = true → P () w)
    (hstart : vmIsRunning env.ps w = false → Ends (cmdStart host env.start) w P Q) :
    Ends (startUnlessRunning host vmIsRunning env) w P Q := by
  unfold startUnlessRunning
  rw [ends_bind, ends_gets]
  split
  · next h => exact hrunning h
  · next h => exact hstart (by simpa using h)

/-- The credentials are copied, the VM is started unless it runs, its address is
looked for, and the client is told. -/
theorem ends_cmdAutoconfigure_wiring {leasePath : Text} {vmIsRunning : Bool → World → Bool}
    {env : AutoconfigureEnv} {I : World → Prop} {P : Unit → World → Prop} (hinvalid : Q w)
    (hcopy : ∀ d, Only (· ∈ confFiles (env.confDir host)) w.disk d → Q (w.setDisk d))
    (hstart : ∀ d, validMountName env.remoteName = true →
      copyCredentials host env w.disk = (.ok (), d) →
      Ends (startUnlessRunning host vmIsRunning env) (w.setDisk d) (fun _ => I) Q)
    (hevent : ∀ w, ∀ poll ∈ env.polls, ∀ e ∈ poll.before, I w → I (happen w e))
    (hanswer : ∀ w ip source, I w → Answers vmIsRunning leasePath env.vmIp env.polls w ip source →
      I (w.note (.answered ip source w.namedRun (w.lastWritten .guestIp))))
    (hwire : ∀ w ip, validMountName env.remoteName = true → I w →
      Ends (onIncus (env.confDir host) (wireRemote env ip)) w P Q) (hstop : ∀ w, I w → Q w) :
    Ends (cmdAutoconfigureWithRunner host leasePath vmIsRunning env) w P Q := by
  unfold cmdAutoconfigureWithRunner
  split
  · next hname =>
    rw [ends_bind, ends_onDisk]
    refine ends_iff.mpr ⟨fun _ d hd => ?_, fun e d hd => ?_, fun d hd => ?_⟩
    · rw [ends_bind]
      refine (hstart d hname hd).mono (fun _ w2 hw2 => ?_) fun _ h => h
      rw [ends_bind]
      exact (ends_resolveVmIp hw2 hevent hanswer).mono (fun ip w3 => hwire w3 ip hname) hstop
    · exact hcopy d (by have := within_copyCredentials host env w.disk; rwa [hd] at this)
    · exact hcopy d (by have := within_copyCredentials host env w.disk; rwa [hd] at this)
  · exact hinvalid

/-- The same where it does not matter what becomes of the client. -/
theorem ends_cmdAutoconfigureWithRunner {leasePath : Text} {vmIsRunning : Bool → World → Bool}
    {env : AutoconfigureEnv} {I : World → Prop} (hinvalid : Q w)
    (hcopy : ∀ d, Only (· ∈ confFiles (env.confDir host)) w.disk d → Q (w.setDisk d))
    (hstart : ∀ d, validMountName env.remoteName = true →
      copyCredentials host env w.disk = (.ok (), d) →
      Ends (startUnlessRunning host vmIsRunning env) (w.setDisk d) (fun _ => I) Q)
    (hevent : ∀ w, ∀ poll ∈ env.polls, ∀ e ∈ poll.before, I w → I (happen w e))
    (hanswer : ∀ w ip source, I w → Answers vmIsRunning leasePath env.vmIp env.polls w ip source →
      I (w.note (.answered ip source w.namedRun (w.lastWritten .guestIp))))
    (hincus : ∀ w c, I w → I (w.setIncus (env.confDir host) c)) (hstop : ∀ w, I w → Q w) :
    Ends (cmdAutoconfigureWithRunner host leasePath vmIsRunning env) w (fun _ => I) Q := by
  refine ends_cmdAutoconfigure_wiring hinvalid hcopy hstart hevent hanswer (fun w3 ip _ hw3 => ?_) hstop
  rw [onIncus, ends_zoom]
  refine ends_iff.mpr ⟨fun _ c _ => hincus w3 c hw3, fun _ c _ => ?_, fun c _ => ?_⟩
  · exact hstop _ (hincus w3 c hw3)
  · exact hstop _ (hincus w3 c hw3)

end Rules

end Malleus
