import Malleus.Commands
import Malleus.Library.Runs

/-! Malleus and the machine around it, one command or event after the other.

A command runs to its end, however it ends, before the next input; what happens
while `autoconfigure` waits for the guest's address is part of that input. -/
namespace Malleus
open Effect Strings Storage

/-- What happens next: a command of malleus, with all that it meets, or an event from outside.
-/
inductive Input where
  | event (e : Event)
  | start (env : StartEnv)
  | stop (env : StopEnv)
  | status (env : StatusEnv)
  | delete (env : DeleteEnv)
  | mount (hostPath : Text) (name : Option Text)
  | unmount (name : Text)
  | autoconfigure (env : AutoconfigureEnv)

/-- The world after an input. The mount commands only check their arguments. -/
def step (host : Host) (w : World) : Input → World
  | .event e => happen w e
  | .start env => (cmdStart host env w).2
  | .stop env => (cmdStop env w).2
  | .status env => (cmdStatus host env w).2
  | .delete env => (cmdDelete env w).2
  | .mount .. => w
  | .unmount _ => w
  | .autoconfigure env => (cmdAutoconfigure host env w).2

theorem step_start (host : Host) (w : World) (env : StartEnv) :
    step host w (.start env) = (cmdStart host env w).2 := rfl

/-- What else happens in the course of an input. -/
def Input.events : Input → List Event
  | .event e => [e]
  | .autoconfigure env => env.polls.flatMap Poll.before
  | _ => []

abbrev run (host : Host) : World → List Input → World := Runs.run (step host)

/-- A state that the inputs reach. -/
abbrev Along (host : Host) (ok : World → Input → Prop) : World → List Input → Prop :=
  Runs.Along (step host) ok

/-! ### What happens to the VMs -/

/-- No VM has come up, and the PID file is as it was. -/
structure Calm (w w' : World) : Prop where
  runs : ∀ pid vm, w'.runOf pid = some vm → w.runOf pid = some vm
  pidFile : w'.disk.file .vfkitPid = w.disk.file .vfkitPid

theorem Calm.refl (w : World) : Calm w w := ⟨fun _ _ h => h, rfl⟩

theorem Calm.trans {w w' w'' : World} (h : Calm w w') (h' : Calm w' w'') : Calm w w'' :=
  ⟨fun pid vm hvm => h.runs pid vm (h'.runs pid vm hvm), h'.pidFile.trans h.pidFile⟩

/-- Writing to other files. -/
theorem calm_setDisk {w : World} {d : StateDisk} {S : File → Prop} (h : Only S w.disk d)
    (hs : ¬ S .vfkitPid) : Calm w (w.setDisk d) := ⟨fun _ _ h => h, h _ hs⟩

/-- A process that turns out to be no VM, or the same one. -/
theorem runs_setProc {w : World} {pid : Pid} {p : Option Process}
    (h : ∀ vm, (w.setProc pid p).runOf pid = some vm → w.runOf pid = some vm) :
    ∀ pid' vm, (w.setProc pid p).runOf pid' = some vm → w.runOf pid' = some vm := by
  intro pid' vm hvm
  by_cases hpid : pid' = pid
  · subst hpid
    exact h vm hvm
  · rwa [World.runOf_setProc_of_ne w hpid p] at hvm

theorem calm_setProc {w : World} {pid : Pid} {p : Option Process}
    (h : ∀ vm, (w.setProc pid p).runOf pid = some vm → w.runOf pid = some vm) :
    Calm w (w.setProc pid p) := ⟨runs_setProc h, rfl⟩

/-- A process that ends is no VM that comes up. -/
theorem calm_gone (w : World) (pid : Pid) : Calm w (w.setProc pid none) :=
  calm_setProc fun vm hvm => by simp [World.runOf] at hvm

/-- Nothing that happens between commands brings up a VM or touches the PID file. -/
theorem calm_happen (w : World) (e : Event) : Calm w (happen w e) := by
  have h := happened w e
  generalize happen w e = w' at h
  cases h with
  | nothing => exact Calm.refl w
  | gone pid => exact calm_gone w pid
  | zombie pid _ p =>
    exact calm_setProc fun vm hvm => by simp [World.runOf, Process.alive, isZombie] at hvm
  | rescheduled pid state p hp halive hstate =>
    refine calm_setProc fun vm hvm => ?_
    have hafter : vm ∈ p.vm := by simpa [World.runOf, Process.alive, hstate] using hvm
    simpa [World.runOf, hp, halive] using hafter
  | appeared pid => exact calm_setProc fun vm hvm => by simp [World.runOf] at hvm
  | wrote pid f bytes vm hvm hf =>
    have hne : File.vfkitPid ≠ f := by
      intro heq
      subst heq
      exact absurd hf (by decide)
    exact ⟨fun _ _ h => h, Disk.put_of_ne _ hne _⟩
  | edited _ d hd => exact calm_setDisk hd (by decide)

/-- A signal ends a VM or does nothing to it. -/
theorem calm_signal (w : World) (pid : Pid) (p : Process) : Calm w (w.signal pid p) := by
  unfold World.signal
  dsimp only
  split
  · have h := calm_gone (w.note (.signalled (.process pid) (isVmRunning true w))) pid
    exact ⟨h.runs, h.pidFile⟩
  · exact ⟨fun _ _ h => h, rfl⟩

section Spawn
variable {w : World} {c : Child} {args : List Text} {pid : Pid}

theorem procs_spawn_self : (w.spawn c args).procs c.pid = some ⟨c.state, c.comm, some w.boots⟩ :=
  World.setProc_self c.pid _ w

theorem procs_spawn_of_ne (h : pid ≠ c.pid) : (w.spawn c args).procs pid = w.procs pid :=
  World.setProc_of_ne h _ w

/-- What is spawned is the next run. -/
theorem runOf_spawn_self (h : isZombie c.state = false) :
    (w.spawn c args).runOf c.pid = some w.boots := by
  simp [World.runOf, procs_spawn_self, Process.alive, h]

theorem runOf_spawn_of_ne (h : pid ≠ c.pid) : (w.spawn c args).runOf pid = w.runOf pid := by
  simp [World.runOf, procs_spawn_of_ne h]

/-- A spawned child is a new VM run, and the others are as they were. -/
theorem runOf_spawn {vm : Nat} (h : (w.spawn c args).runOf pid = some vm) :
    (pid = c.pid ∧ vm = w.boots) ∨ w.runOf pid = some vm := by
  by_cases hpid : pid = c.pid
  · subst hpid
    refine Or.inl ⟨rfl, ?_⟩
    cases hzombie : isZombie c.state with
    | true => simp [World.runOf, procs_spawn_self, Process.alive, hzombie] at h
    | false => exact (Option.some.inj ((runOf_spawn_self hzombie).symm.trans h)).symm
  · exact Or.inr ((runOf_spawn_of_ne hpid).symm.trans h)

end Spawn

end Malleus
