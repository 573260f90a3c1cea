import Malleus.Incus
import Malleus.Process

/-! What malleus acts on: the disk, the process table and the incus clients.

The log is the history, newest first: what was spawned, signalled, answered and
started, and what the guests wrote. Nothing in the program reads it. Between
commands, and while one is waiting, `happen` is what the rest of the machine does. -/
namespace Malleus
open Effect Strings Numbers Storage

/-- Where an address came from. -/
inductive Source where
  | explicit
  | restApi
  | vsock
  | guestIp
  | serialLog
  | leases
  | arp
  deriving DecidableEq, Repr

/-- What a signal goes to: `kill 0` means the process group of whoever calls it. -/
inductive Target where
  | process (pid : Pid)
  | callerGroup
  deriving DecidableEq, Repr

/-- What is noted of a run, for results that speak about its history. -/
inductive Note where
  | spawned (pid : Pid) (args : List Text)
  /-- A start that succeeded, with the documents the guest is given. -/
  | started (userData metaData : Option Bytes)
  /-- A signal, and what the liveness probe says as it is sent. -/
  | signalled (target : Target) (running : Bool)
  /-- An address, the VM run that `vfkit.pid` names as it is given, and the run that
  last wrote `guest-ip` with what it wrote. -/
  | answered (ip : Ipv4Addr) (source : Source) (vm : Option Nat) (reported : Option (Nat × Bytes))
  | wrote (vm : Nat) (f : File) (bytes : Bytes)
  deriving DecidableEq, Repr

/-- The machine as far as malleus has to do with it. No command reads the last two fields. -/
structure World where
  disk : StateDisk
  procs : Pid → Option Process
  /-- The incus client of each config directory. -/
  incus : Text → Incus.Client
  /-- How many VM runs there have been. -/
  boots : Nat
  log : List Note

/-- A command of malleus. -/
abbrev Do (α : Type) := Cmd World CliError α

/-- Bytes that a VM run wrote to a file. -/
def Note.written (f : File) : Note → Option (Nat × Bytes)
  | .wrote vm g bytes => if g = f then some (vm, bytes) else none
  | _ => none

namespace World

def setDisk (d : StateDisk) (w : World) : World := {w with disk := d}

def setProc (pid : Pid) (p : Option Process) (w : World) : World :=
  {w with procs := Function.update w.procs pid p}

def note (n : Note) (w : World) : World := {w with log := n :: w.log}

@[simp] theorem setDisk_self (w : World) : w.setDisk w.disk = w := rfl
@[simp] theorem setDisk_disk (d : StateDisk) (w : World) : (w.setDisk d).disk = d := rfl
@[simp] theorem setDisk_procs (d : StateDisk) (w : World) : (w.setDisk d).procs = w.procs := rfl
@[simp] theorem setDisk_boots (d : StateDisk) (w : World) : (w.setDisk d).boots = w.boots := rfl
@[simp] theorem setDisk_log (d : StateDisk) (w : World) : (w.setDisk d).log = w.log := rfl
@[simp] theorem setProc_disk (pid : Pid) (p : Option Process) (w : World) :
    (w.setProc pid p).disk = w.disk := rfl
@[simp] theorem setProc_boots (pid : Pid) (p : Option Process) (w : World) :
    (w.setProc pid p).boots = w.boots := rfl
@[simp] theorem setProc_log (pid : Pid) (p : Option Process) (w : World) :
    (w.setProc pid p).log = w.log := rfl
@[simp] theorem note_disk (n : Note) (w : World) : (w.note n).disk = w.disk := rfl
@[simp] theorem note_procs (n : Note) (w : World) : (w.note n).procs = w.procs := rfl
@[simp] theorem note_boots (n : Note) (w : World) : (w.note n).boots = w.boots := rfl
@[simp] theorem note_log (n : Note) (w : World) : (w.note n).log = n :: w.log := rfl

@[simp] theorem setProc_self (pid : Pid) (p : Option Process) (w : World) :
    (w.setProc pid p).procs pid = p := by
  simp [setProc]

@[simp] theorem setProc_of_ne {pid pid' : Pid} (h : pid' ≠ pid) (p : Option Process) (w : World) :
    (w.setProc pid p).procs pid' = w.procs pid' := by
  simp [setProc, h]

/-- The VM run of a process that is alive. -/
def runOf (w : World) (pid : Pid) : Option Nat :=
  match w.procs pid with
  | some p => if p.alive then p.vm else none
  | none => none

/-- The PID in `vfkit.pid`. -/
def namedPid (w : World) : Option Pid := (w.disk.file .vfkitPid).bind readPid

/-- The VM run that `vfkit.pid` names. -/
def namedRun (w : World) : Option Nat := w.namedPid.bind w.runOf

/-- The VM run that last wrote a file, and what it wrote. -/
def lastWritten (f : File) (w : World) : Option (Nat × Bytes) := w.log.findSome? (Note.written f)

/-- No VM is alive. -/
def Idle (w : World) : Prop := ∀ pid, w.runOf pid = none

@[simp] theorem runOf_setDisk (d : StateDisk) (w : World) (pid : Pid) :
    (w.setDisk d).runOf pid = w.runOf pid := rfl

@[simp] theorem runOf_note (n : Note) (w : World) (pid : Pid) : (w.note n).runOf pid = w.runOf pid := rfl

theorem runOf_setProc_none (w : World) (pid : Pid) : (w.setProc pid none).runOf pid = none := by
  simp [runOf]

theorem runOf_setProc_of_ne (w : World) {pid pid' : Pid} (h : pid' ≠ pid) (p : Option Process) :
    (w.setProc pid p).runOf pid' = w.runOf pid' := by
  simp [runOf, h]

end World

/-- `is_vm_running`; `ps` says whether `ps` can be run. -/
def isVmRunning (ps : Bool) (w : World) : Bool :=
  match w.namedPid with
  | none => false
  | some pid =>
    match w.procs pid with
    | none => false
    | some p => ps && describesLiveVfkit (trim p.psLine)

/-- What the probe takes for the VM is alive. -/
theorem alive_of_isVmRunning {ps : Bool} {w : World} (h : isVmRunning ps w = true) :
    ∃ pid p, w.namedPid = some pid ∧ w.procs pid = some p ∧ p.alive = true := by
  unfold isVmRunning at h
  split at h
  · simp at h
  · next pid hpid =>
    split at h
    · simp at h
    · next p hp => exact ⟨pid, p, hpid, hp, Process.alive_of_described (Bool.and_eq_true_iff.mp h).2⟩

/-! ### Commands on the world -/

def onDisk {ε α : Type} (m : Cmd StateDisk ε α) : Cmd World ε α := Cmd.zoom World.disk World.setDisk m

def io {α : Type} (m : Cmd StateDisk IoError α) : Do α := (onDisk m).mapError .io

def record (n : Note) : Do Unit := Cmd.modify (World.note n)

theorem ends_onDisk {ε α : Type} {m : Cmd StateDisk ε α} {w : World} {P : α → World → Prop}
    {Q : World → Prop} : Ends (onDisk m) w P Q ↔
      Ends m w.disk (fun a d => P a (w.setDisk d)) (fun d => Q (w.setDisk d)) := ends_zoom

theorem ends_io {α : Type} {m : Cmd StateDisk IoError α} {w : World} {P : α → World → Prop}
    {Q : World → Prop} : Ends (io m) w P Q ↔
      Ends m w.disk (fun a d => P a (w.setDisk d)) (fun d => Q (w.setDisk d)) :=
  ends_mapError.trans ends_onDisk

theorem onDisk_of_ok {ε α : Type} {m : Cmd StateDisk ε α} {w : World} {a : α} {d : StateDisk}
    (h : m w.disk = (.ok a, d)) : onDisk m w = (.ok a, w.setDisk d) := by
  rw [onDisk, Cmd.zoom, h]

theorem io_of_ok {α : Type} {m : Cmd StateDisk IoError α} {w : World} {a : α} {d : StateDisk}
    (h : m w.disk = (.ok a, d)) : io m w = (.ok a, w.setDisk d) :=
  Cmd.mapError_of_ok (onDisk_of_ok h) _

/-- What is read of a file, where it is there and is text. -/
theorem attempt_readToString (f : File) (w : World) :
    ((io (readToString .none f)).attempt : Do (Option Text)) w = (.ok ((w.disk.file f).bind decode), w) := by
  obtain ⟨e, hread⟩ : ∃ e, readToString .none f w.disk =
      (((w.disk.file f).bind decode).elim (.error e) .ok, w.disk) := by
    cases hf : w.disk.file f with
    | none =>
      have hmissing : readFile .none f w.disk = (.error .notFound, w.disk) := by
        unfold readFile
        rw [Cmd.bind_of_ok (stage_none ..), Cmd.bind_of_ok (Cmd.gets_apply ..), hf]
        rfl
      refine ⟨.notFound, ?_⟩
      unfold readToString
      rw [Cmd.bind_apply, hmissing]
      rfl
    | some b =>
      refine ⟨.invalidData "stream did not contain valid UTF-8", ?_⟩
      unfold readToString
      rw [Cmd.bind_of_ok (readFile_none hf), Option.bind_some]
      cases decode b with
      | none => rfl
      | some t => rfl
  unfold Cmd.attempt io Cmd.mapError onDisk Cmd.zoom
  rw [hread]
  cases (w.disk.file f).bind decode with
  | none => rfl
  | some t => rfl

/-! ### What else happens -/

/-- What a VM writes while it runs: its disks, the readiness socket, the state
share's `guest-ip`, and the logs. -/
def vmFiles : List File :=
  [.rootRaw, .poolRaw, .readySock, .guestIp, .guestLog, .vfkitLog, .vfkitErr]

/-- What happens without malleus: in the process table, to the files the guest writes, and to
the configuration. -/
inductive Event where
  /-- A process exits; one that its parent has not waited for stays as a zombie. -/
  | exits (pid : Pid) (reaped : Bool)
  | reschedules (pid : Pid) (state : Text)
  /-- Another program starts. -/
  | appears (pid : Pid) (state comm : Text)
  | vmWrites (pid : Pid) (f : File) (bytes : Bytes)
  /-- The user edits or removes `config.toml`. -/
  | editsConfig (contents : Option Bytes)
  deriving DecidableEq, Repr

def happen (w : World) : Event → World
  | .exits pid reaped =>
    match w.procs pid with
    | none => w
    | some p => w.setProc pid (if reaped then none else some {p with state := ['Z']})
  | .reschedules pid state =>
    match w.procs pid with
    | none => w
    | some p => if p.alive && !isZombie state then w.setProc pid (some {p with state := state}) else w
  | .appears pid state comm =>
    if pid ≠ 0 ∧ w.procs pid = none then w.setProc pid (some ⟨state, comm, none⟩) else w
  | .vmWrites pid f bytes =>
    match w.runOf pid with
    | none => w
    | some vm =>
      if f ∈ vmFiles ∧ w.disk.dir f.parent then
        (w.setDisk (w.disk.put f bytes)).note (.wrote vm f bytes)
      else w
  | .editsConfig contents =>
    match contents with
    | none => w.setDisk (w.disk.erase .configToml)
    | some bytes =>
      if w.disk.dir .stateDir then w.setDisk (w.disk.put .configToml bytes) else w

/-- What an event comes to. -/
inductive Happened (w : World) : Event → World → Prop
  | nothing (e : Event) : Happened w e w
  | gone (pid : Pid) (reaped : Bool) : Happened w (.exits pid reaped) (w.setProc pid none)
  | zombie (pid : Pid) (reaped : Bool) (p : Process) (hp : w.procs pid = some p) :
      Happened w (.exits pid reaped) (w.setProc pid (some {p with state := ['Z']}))
  | rescheduled (pid : Pid) (state : Text) (p : Process) (hp : w.procs pid = some p)
      (halive : p.alive = true) (hstate : isZombie state = false) :
      Happened w (.reschedules pid state) (w.setProc pid (some {p with state := state}))
  | appeared (pid : Pid) (state comm : Text) (hfree : w.procs pid = none) :
      Happened w (.appears pid state comm) (w.setProc pid (some ⟨state, comm, none⟩))
  | wrote (pid : Pid) (f : File) (bytes : Bytes) (vm : Nat) (hvm : w.runOf pid = some vm)
      (hf : f ∈ vmFiles) :
      Happened w (.vmWrites pid f bytes) ((w.setDisk (w.disk.put f bytes)).note (.wrote vm f bytes))
  | edited (contents : Option Bytes) (d : StateDisk) (hd : Only (· ∈ [File.configToml]) w.disk d) :
      Happened w (.editsConfig contents) (w.setDisk d)

theorem happened (w : World) (e : Event) : Happened w e (happen w e) := by
  cases e with
  | exits pid reaped =>
    dsimp only [happen]
    split
    · exact .nothing _
    · next p hp =>
      cases reaped with
      | true => exact .gone pid _
      | false => exact .zombie pid _ p hp
  | reschedules pid state =>
    dsimp only [happen]
    split
    · exact .nothing _
    · next p hp =>
      split
      · next h =>
        obtain ⟨halive, hstate⟩ := Bool.and_eq_true_iff.mp h
        exact .rescheduled pid state p hp halive (by simpa using hstate)
      · exact .nothing _
  | appears pid state comm =>
    dsimp only [happen]
    split
    · next h => exact .appeared pid state comm h.2
    · exact .nothing _
  | vmWrites pid f bytes =>
    dsimp only [happen]
    split
    · exact .nothing _
    · next vm hvm =>
      split
      · next h => exact .wrote pid f bytes vm hvm h.1
      · exact .nothing _
  | editsConfig contents =>
    dsimp only [happen]
    split
    · exact .edited _ _ (only_erase _ (by decide))
    · split
      · exact .edited _ _ (only_put _ (by decide) _)
      · exact .nothing _

theorem happen_vmWrites {w : World} {pid : Pid} {f : File} {b : Bytes} {vm : Nat}
    (hvm : w.runOf pid = some vm) (hf : f ∈ vmFiles) (hdir : w.disk.dir f.parent = true) :
    happen w (.vmWrites pid f b) = (w.setDisk (w.disk.put f b)).note (.wrote vm f b) := by
  unfold happen
  dsimp only
  rw [hvm]
  exact if_pos ⟨hf, hdir⟩

theorem happen_incus (w : World) (e : Event) : (happen w e).incus = w.incus := by
  have h := happened w e
  generalize happen w e = w' at h
  cases h <;> rfl

end Malleus
