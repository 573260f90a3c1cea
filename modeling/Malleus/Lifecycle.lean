import Malleus.PidFile
import Malleus.ProbeRuns

/-! The life of a VM, as `status` tells it.

`Phase` is what `vfkit.pid` and the process table come to: no VM on record, a record that
cannot be read, one of a VM that is gone, or one of a VM that runs. Four actions move it.
The commands and events refine this machine (`phases_refine`): each of them moves the
phase by actions of its own kind alone, so that only a start can bring a VM up, and only
its exit, a stop or a removal can take it away. Where the processes can be told apart,
`status` prints the phase (`status_tells_phase`). -/
namespace Malleus.Lifecycle
open Effect Strings Numbers Storage ProbeRuns Runs

/-- What the PID file and the process table come to. -/
inductive Phase where
  | stopped
  | invalid
  | stale (pid : Pid)
  | running (pid : Pid)
  deriving DecidableEq, Repr

/-- What may happen to the one VM that is on record. -/
inductive Action where
  /-- A VM comes up, and its PID is put on record. -/
  | launches (pid : Pid)
  /-- A VM comes up under this PID, and the record is left as it is. -/
  | appears (pid : Pid)
  /-- The process with this PID ends. -/
  | ends (pid : Pid)
  /-- The record is removed. -/
  | forgets
  /-- A part of a PID is put on record. -/
  | garbles (left : Phase)
  deriving DecidableEq, Repr

/-- The phase after an action. An end of another process and a VM that nobody has noted leave it
as it was. -/
def Phase.next : Phase → Action → Phase
  | _, .launches pid => .running pid
  | _, .forgets => .stopped
  | _, .garbles left => left
  | .stale pid, .appears pid' => if pid = pid' then .running pid else .stale pid
  | .running pid, .ends pid' => if pid = pid' then .stale pid else .running pid
  | phase, _ => phase

/-! ### The phase of a world -/

/-- What is on record, given which PIDs are those of a VM that is alive. -/
def phaseOf (contents : Option Bytes) (alive : Pid → Bool) : Phase :=
  match contents.bind decode with
  | none => .stopped
  | some pidStr =>
    match parsePid pidStr with
    | none => .invalid
    | some pid => if alive pid then .running pid else .stale pid

def phase (w : World) : Phase := phaseOf (w.disk.file .vfkitPid) fun pid => (w.runOf pid).isSome

section Phase
variable {w w' : World} {pid : Pid}

/-- The phase is made by the PID file and the live VMs. -/
theorem phase_same (hfile : w'.disk.file .vfkitPid = w.disk.file .vfkitPid)
    (hruns : ∀ pid, (w'.runOf pid).isSome = (w.runOf pid).isSome) : phase w' = phase w := by
  rw [phase, phase, hfile, funext hruns]

/-- The process with this PID, if it was a VM, is one no longer. -/
theorem phase_ends (hfile : w'.disk.file .vfkitPid = w.disk.file .vfkitPid)
    (hself : w'.runOf pid = none) (hothers : ∀ pid', pid' ≠ pid → w'.runOf pid' = w.runOf pid') :
    phase w' = (phase w).next (.ends pid) := by
  rw [phase, phase, hfile, phaseOf, phaseOf]
  cases (w.disk.file .vfkitPid).bind decode with
  | none => rfl
  | some pidStr =>
    dsimp only
    cases parsePid pidStr with
    | none => rfl
    | some named =>
      dsimp only
      by_cases hnamed : named = pid
      · subst hnamed
        rw [hself]
        cases (w.runOf named).isSome with
        | true => exact (if_pos rfl).symm
        | false => rfl
      · rw [hothers named hnamed]
        cases (w.runOf named).isSome with
        | true => exact (if_neg hnamed).symm
        | false => rfl

/-- A VM comes up under a PID that was none's. -/
theorem phase_appears (hfile : w'.disk.file .vfkitPid = w.disk.file .vfkitPid)
    (hself : (w'.runOf pid).isSome = true) (hfree : w.runOf pid = none)
    (hothers : ∀ pid', pid' ≠ pid → w'.runOf pid' = w.runOf pid') :
    phase w' = (phase w).next (.appears pid) := by
  rw [phase, phase, hfile, phaseOf, phaseOf]
  cases (w.disk.file .vfkitPid).bind decode with
  | none => rfl
  | some pidStr =>
    dsimp only
    cases parsePid pidStr with
    | none => rfl
    | some named =>
      dsimp only
      by_cases hnamed : named = pid
      · subst hnamed
        rw [hself, hfree]
        exact (if_pos rfl).symm
      · rw [hothers named hnamed]
        cases (w.runOf named).isSome with
        | true => rfl
        | false => exact (if_neg hnamed).symm

/-- A whole PID is on record. -/
theorem phase_recorded (hfile : w.disk.file .vfkitPid = some (pidText pid)) :
    phase w = if (w.runOf pid).isSome then .running pid else .stale pid := by
  have hread : (decode (pidText pid)).bind parsePid = some pid := readPid_pidText pid
  obtain ⟨pidStr, hdecode, hparse⟩ := Option.bind_eq_some_iff.mp hread
  rw [phase, phaseOf, hfile, Option.bind_some, hdecode]
  dsimp only
  rw [hparse]

theorem phase_stopped (hfile : w.disk.file .vfkitPid = none) : phase w = .stopped := by
  rw [phase, hfile]
  rfl

theorem namedPid_of_stopped (h : phase w = .stopped) : w.namedPid = none := by
  unfold phase phaseOf at h
  unfold World.namedPid
  cases hfile : w.disk.file .vfkitPid with
  | none => rfl
  | some b =>
    rw [hfile, Option.bind_some] at h
    rw [Option.bind_some, readPid]
    cases hdecode : decode b with
    | none => rfl
    | some pidStr =>
      rw [hdecode] at h
      dsimp only at h
      split at h
      · cases h
      · split at h
        · cases h
        · cases h

/-- The record names the VM that runs. -/
theorem phase_eq_running : phase w = .running pid ↔ w.namedPid = some pid ∧ (w.runOf pid).isSome := by
  unfold phase phaseOf World.namedPid
  cases w.disk.file .vfkitPid with
  | none => simp
  | some b =>
    rw [Option.bind_some, Option.bind_some, readPid]
    cases decode b with
    | none => simp
    | some pidStr =>
      dsimp only [Option.bind_some]
      cases parsePid pidStr with
      | none => simp
      | some named =>
        dsimp only
        by_cases halive : (w.runOf named).isSome = true
        · rw [if_pos halive]
          constructor
          · rintro h
            obtain rfl := Phase.running.inj h
            exact ⟨rfl, halive⟩
          · rintro ⟨h, -⟩
            rw [Option.some.inj h]
        · rw [if_neg halive]
          constructor
          · intro h
            cases h
          · rintro ⟨h, hpid⟩
            rw [← Option.some.inj h] at hpid
            exact absurd hpid halive

end Phase

/-! ### What each input may do -/

/-- The launches of an input may come to a child with this PID. -/
def Offers (i : Input) (pid : Pid) : Prop :=
  ∃ launch ∈ launchesOf i, ∃ c, launch.spawn = .child c ∧ c.pid = pid

/-- The write of a child's PID may stop part way and leave this. -/
def Tears (i : Input) (left : Phase) : Prop :=
  ∃ launch ∈ launchesOf i, ∃ c n alive, launch.spawn = .child c ∧ c.writePid.progress = some n ∧
    left = phaseOf (some ((pidText c.pid).take n)) alive

/-- A VM comes up by a start; it ends by itself, by the start that sees it exit, or by a
stop; it is forgotten by a stop or a removal. -/
def Allowed (i : Input) : Action → Prop
  | .launches pid => Offers i pid
  | .appears pid => Offers i pid
  | .ends pid => (∃ reaped, .exits pid reaped ∈ i.events) ∨ Offers i pid ∨ ∃ env, i = .stop env
  | .forgets => (∃ env, i = .stop env) ∨ ∃ env, i = .delete env
  | .garbles left => Tears i left

/-- The actions of this input lead from one phase to the other. -/
abbrev Moves (i : Input) : Phase → Phase → Prop := Leads Phase.next (Allowed i)

section Moves
variable {i : Input} {w w' : World} {a : Action} {pid : Pid}

theorem moves_same (h : phase w' = phase w) : Moves i (phase w) (phase w') := by
  rw [h]
  exact Leads.refl _

theorem moves_single (ha : Allowed i a) (s : Phase) : Moves i s (s.next a) := Leads.single ha s

theorem moves_by (ha : Allowed i a) (h : phase w' = (phase w).next a) : Moves i (phase w) (phase w') := by
  rw [h]
  exact moves_single ha _

/-- Other files do not matter. -/
theorem moves_setDisk {d : StateDisk} {S : File → Prop} (h : Only S w.disk d) (hs : ¬ S .vfkitPid) :
    Moves i (phase w) (phase (w.setDisk d)) := moves_same (phase_same (h _ hs) fun _ => rfl)

/-- A child is on record, dead or alive. -/
theorem moves_recorded (hoffers : Offers i pid) (hfile : w.disk.file .vfkitPid = some (pidText pid))
    (s : Phase) : Moves i s (phase w) := by
  have hlaunched : Moves i s (.running pid) := moves_single (a := .launches pid) hoffers s
  have hended : Moves i (.running pid) ((Phase.running pid).next (.ends pid)) :=
    moves_single (a := .ends pid) (Or.inr (Or.inl hoffers)) _
  have hstale : (Phase.running pid).next (.ends pid) = .stale pid := if_pos rfl
  rw [phase_recorded hfile]
  split
  · exact hlaunched
  · exact hlaunched.trans (hstale ▸ hended)

/-- An event moves the phase as its own kind allows. -/
theorem moves_happen (w : World) {e : Event} (he : e ∈ i.events) :
    Moves i (phase w) (phase (happen w e)) := by
  have h := happened w e
  generalize happen w e = w' at h
  have hends : ∀ pid reaped, e = .exits pid reaped → Allowed i (.ends pid) := fun pid reaped heq =>
    Or.inl ⟨reaped, heq ▸ he⟩
  cases h with
  | nothing => exact Leads.refl _
  | gone pid reaped =>
    exact moves_by (hends pid reaped rfl) (phase_ends rfl (World.runOf_setProc_none w pid)
      fun pid' hne => World.runOf_setProc_of_ne w hne _)
  | zombie pid reaped p hp =>
    have hgone : (w.setProc pid (some {p with state := ['Z']})).runOf pid = none := by
      simp [World.runOf, Process.alive, isZombie]
    exact moves_by (hends pid reaped rfl)
      (phase_ends rfl hgone fun pid' hne => World.runOf_setProc_of_ne w hne _)
  | rescheduled pid state p hp halive hstate =>
    refine moves_same (phase_same rfl fun pid' => ?_)
    by_cases hpid : pid' = pid
    · subst hpid
      have halive' : Process.alive {p with state := state} = true := by simp [Process.alive, hstate]
      simp [World.runOf, hp, halive, halive']
    · rw [World.runOf_setProc_of_ne w hpid]
  | appeared pid state comm hfree =>
    refine moves_same (phase_same rfl fun pid' => ?_)
    by_cases hpid : pid' = pid
    · subst hpid
      simp [World.runOf, hfree]
    · rw [World.runOf_setProc_of_ne w hpid]
  | wrote pid f bytes vm hvm hf =>
    have hne : File.vfkitPid ≠ f := by
      intro heq
      subst heq
      exact absurd hf (by decide)
    exact moves_same (phase_same (Disk.put_of_ne _ hne _) fun _ => rfl)
  | edited contents d hd => exact moves_setDisk hd (by decide)

theorem moves_signal {p : Process} (hp : w.procs pid = some p) (hends : Allowed i (.ends pid)) :
    Moves i (phase w) (phase (w.signal pid p)) := by
  refine moves_by hends (phase_ends (by rw [signal_disk]) (PidFile.signal_runOf w hp) fun pid' hne => ?_)
  unfold World.signal
  dsimp only
  split
  · exact World.runOf_setProc_of_ne _ hne _
  · rfl

/-- A record that is removed, or kept by a fault. -/
theorem moves_removed {env : StopEnv} {d : StateDisk} (hforgets : Allowed i .forgets)
    (h : Removed env w.disk d) : Moves i (phase w) (phase (w.setDisk d)) := by
  by_cases hfault : env.removePid.Prevents
  · exact moves_same (phase_same (h.kept hfault) fun _ => rfl)
  · exact moves_by hforgets (phase_stopped (h.gone hfault))

end Moves

/-! ### The commands -/

section Commands
variable {host : Host} {w : World} {i : Input}

/-- The child that is spawned had a PID of its own. -/
theorem spawned_free {procs : Pid → Option Process} {launches : List Launch} {c : Child}
    (h : spawned procs launches = some c) : Free procs c.pid := by
  induction launches with
  | nil => cases h
  | cons launch launches ih =>
    rw [spawned] at h
    split at h
    · split at h
      · next c' hspawn =>
        split at h
        · next hfree =>
          obtain rfl := Option.some.inj h
          exact hfree
        · cases h
      · cases h
      · cases h
      · split at h
        · cases h
        · split at h
          · exact ih h
          · cases h
    · cases h

/-- A start launches, or leaves the record as it was or garbled. -/
theorem moves_cmdStart {env : StartEnv} (hlaunches : launchesOf i = env.launches) :
    Ends (cmdStart host env) w (fun _ w' => Moves i (phase w) (phase w'))
      (fun w' => Moves i (phase w) (phase w')) := by
  have hoffers : ∀ args c, Launches host env w args c → Offers i c.pid := by
    intro args c hlaunch
    obtain ⟨launch, hmem, hspawn⟩ := spawned_mem hlaunch.spawned
    exact ⟨launch, hlaunches ▸ hmem, c, hspawn, rfl⟩
  refine ends_cmdStart (fun d hd => moves_setDisk hd.only (by decide)) (fun args c d hlaunch _ _ => ?_)
    (fun args c d d' hlaunch hd hleft => ?_) fun args c d hlaunch _ _ stderr => ?_
  · exact moves_recorded (hoffers args c hlaunch) (Disk.put_self ..) _
  · cases hleft with
    | untouched =>
      have hfree : w.runOf c.pid = none := by
        rw [World.runOf, (spawned_free hlaunch.spawned).2]
      have hothers : ∀ pid, pid ≠ c.pid → ((w.setDisk d).spawn c args).runOf pid = w.runOf pid :=
        fun pid hne => runOf_spawn_of_ne hne
      have hfile : d.file .vfkitPid = w.disk.file .vfkitPid := hd.only _ (by decide)
      cases hzombie : isZombie c.state with
      | true =>
        refine moves_same (phase_same hfile fun pid => ?_)
        by_cases hpid : pid = c.pid
        · subst hpid
          have hgone : ((w.setDisk d).spawn c args).runOf c.pid = none := by
            simp [World.runOf, procs_spawn_self, Process.alive, hzombie]
          rw [hgone, hfree]
        · rw [hothers pid hpid]
      | false =>
        have hself : (((w.setDisk d).spawn c args).runOf c.pid).isSome = true := by
          rw [runOf_spawn_self hzombie]
          rfl
        exact moves_by (a := .appears c.pid) (hoffers args c hlaunch)
          (phase_appears hfile hself hfree hothers)
    | part n hn =>
      obtain ⟨launch, hmem, hspawn⟩ := spawned_mem hlaunch.spawned
      let w' := (w.setDisk (d.put .vfkitPid ((pidText c.pid).take n))).spawn c args
      have hleft : phase w' = phaseOf (some ((pidText c.pid).take n)) fun pid => (w'.runOf pid).isSome := by
        show phaseOf ((d.put .vfkitPid ((pidText c.pid).take n)).file .vfkitPid) _ = _
        rw [Disk.put_self]
      exact moves_by (a := .garbles (phase w')) ⟨launch, hlaunches ▸ hmem, c, n, _, hspawn, hn, hleft⟩ rfl
    | whole => exact moves_recorded (hoffers args c hlaunch) (Disk.put_self ..) _
  · refine moves_recorded (hoffers args c hlaunch) ?_ _
    exact (Disk.put_of_ne _ (by decide) _).trans (Disk.put_self ..)

/-- The process ends first, and the record is forgotten after that. -/
theorem moves_cmdStop {env : StopEnv} (hi : i = .stop env) :
    Moves i (phase w) (phase (cmdStop env w).2) := by
  have hforgets : Allowed i .forgets := Or.inl ⟨env, hi⟩
  have hfiles : ∀ w', Moves i (phase w) (phase w') → Ends (removeRunFiles env) w'
      (fun _ w'' => Moves i (phase w) (phase w'')) fun w'' => Moves i (phase w) (phase w'') :=
    fun w' hw' => ends_removeRunFiles fun d _ hremoved => hw'.trans (moves_removed hforgets hremoved)
  have hstop : Ends (cmdStop env) w (fun _ w' => Moves i (phase w) (phase w'))
      fun w' => Moves i (phase w) (phase w') := by
    refine ends_cmdStop (R := fun w' => Moves i (phase w) (phase w')) (fun _ => Leads.refl _)
      fun pid _ _ => ?_
    exact ends_runKill (fun _ => Leads.refl _) (fun _ => hfiles w (Leads.refl _)) (fun _ _ => Leads.refl _)
      (fun _ _ _ => hfiles w (Leads.refl _)) fun p _ _ hp => hfiles _ (moves_signal hp (Or.inr (Or.inr ⟨env, hi⟩)))
  exact hstop.final

theorem moves_cmdDelete {env : DeleteEnv} (hi : i = .delete env) :
    Moves i (phase w) (phase (cmdDelete env w).2) := by
  have hforgets : Allowed i .forgets := Or.inr ⟨env, hi⟩
  have hdelete : Ends (cmdDelete env) w (fun _ w' => Moves i (phase w) (phase w'))
      fun w' => Moves i (phase w) (phase w') := by
    refine ends_cmdDelete (Leads.refl _) (fun _ _ => moves_by hforgets (phase_stopped rfl)) fun n _ _ => ?_
    cases hgone : File.inStateDir .vfkitPid && (env.order.take n).contains .vfkitPid with
    | true => exact moves_by hforgets (phase_stopped (if_pos hgone))
    | false => exact moves_same (phase_same (if_neg (Bool.eq_false_iff.mp hgone)) fun _ => rfl)
  exact hdelete.final

theorem moves_cmdAutoconfigure {env : AutoconfigureEnv} (hi : i = .autoconfigure env) :
    Moves i (phase w) (phase (cmdAutoconfigure host env w).2) := by
  have hautoconfigure : Ends (cmdAutoconfigure host env) w (fun _ w' => Moves i (phase w) (phase w'))
      fun w' => Moves i (phase w) (phase w') := by
    refine ends_cmdAutoconfigureWithRunner (I := fun w' => Moves i (phase w) (phase w')) (Leads.refl _)
      (fun d hd => moves_setDisk hd (by simp [confFiles])) (fun d _ hd => ?_)
      (fun w' poll hpoll e he hw' => hw'.trans (moves_happen w' ?_)) (fun _ _ _ hw' _ => hw')
      (fun _ _ hw' => hw') fun _ hw' => hw'
    · have hcopied : Moves i (phase w) (phase (w.setDisk d)) := by
        have hwithin := within_copyCredentials host env w.disk
        rw [hd] at hwithin
        exact moves_setDisk hwithin (by simp [confFiles])
      refine ends_startUnlessRunning (fun _ => hcopied) fun _ => ?_
      have hlaunches : launchesOf i = env.start.launches := by rw [hi]; rfl
      exact (moves_cmdStart hlaunches).mono (fun _ w' hw' => hcopied.trans hw') fun w' hw' => hcopied.trans hw'
    · rw [hi]
      exact List.mem_flatMap.mpr ⟨poll, hpoll, he⟩
  exact hautoconfigure.final

/-- Every input moves the phase as it is allowed to. -/
theorem moves_step (host : Host) (w : World) (i : Input) : Moves i (phase w) (phase (step host w i)) := by
  cases i with
  | event e => exact moves_happen w (List.mem_singleton_self e)
  | start env => exact (moves_cmdStart rfl).final
  | stop env => exact moves_cmdStop rfl
  | status env =>
    rw [step, cmdStatus_world]
    exact Leads.refl _
  | delete env => exact moves_cmdDelete rfl
  | mount hostPath name => exact Leads.refl _
  | unmount name => exact Leads.refl _
  | autoconfigure env => exact moves_cmdAutoconfigure rfl

/-- **Every run is a run of the lifecycle**: each command and event moves the phase by
actions of its own kind, one input after the other. -/
theorem phases_refine (host : Host) (w : World) (inputs : List Input) :
    ∃ actions : List (List Action),
      List.Forall₂ (fun i as => ∀ a ∈ as, Allowed i a) inputs actions ∧
      phase (run host w inputs) = Runs.run Phase.next (phase w) actions.flatten := by
  have halong : Along host (fun _ _ => True) w inputs := along_of_forall fun _ _ _ => trivial
  exact run_refines (fun s i _ => moves_step host s i) halong

end Commands

/-! ### A stop -/

/-- What it takes for a stop to do what it is for. -/
structure StopsFor (env : StopEnv) (pid : Pid) : Prop where
  read : env.readPid = .none
  kill : env.kill = .delivers
  named : pid ≠ 0
  remove : ¬ env.removePid.Prevents

theorem signal_procs_of_ne {w : World} {pid pid' : Pid} (p : Process) (h : pid' ≠ pid) :
    (w.signal pid p).procs pid' = w.procs pid' := by
  unfold World.signal
  dsimp only
  split
  · exact World.setProc_of_ne h _ _
  · rfl

/-- **When a stop works**: a VM that runs is gone and forgotten exactly if its PID file can be
read, `kill` sends its signal, the PID is not 0 and the file can be removed. Where
one of them is missing the VM is still alive, or still on record; and whatever comes of
it, no other process is touched. -/
theorem stop_works_iff {w : World} {pid : Pid} (hphase : phase w = .running pid) (env : StopEnv) :
    (phase (cmdStop env w).2 = .stopped ∧ (cmdStop env w).2.runOf pid = none ↔ StopsFor env pid) ∧
      ∀ pid', pid' ≠ pid → (cmdStop env w).2.procs pid' = w.procs pid' := by
  obtain ⟨hnamed, halive⟩ := phase_eq_running.mp hphase
  let R : World → Prop := fun w' => (phase w' = .stopped ∧ w'.runOf pid = none ↔ StopsFor env pid) ∧
    ∀ pid', pid' ≠ pid → w'.procs pid' = w.procs pid'
  -- what leaves the VM on record, or alive, has not worked
  have hrecorded : ∀ w', phase w' = .running pid → w'.procs = w.procs → ¬ StopsFor env pid → R w' := by
    intro w' hrunning hprocs hfails
    refine ⟨iff_of_false (fun h => ?_) hfails, fun pid' _ => congrFun hprocs pid'⟩
    cases hrunning.symm.trans h.1
  have hfiles : ∀ w' : World, w'.procs = w.procs → ¬ StopsFor env pid →
      Ends (removeRunFiles env) w' (fun _ => R) R := by
    intro w' hprocs hfails
    refine ends_removeRunFiles fun d _ _ => ⟨iff_of_false (fun h => ?_) hfails, fun pid' _ => congrFun hprocs pid'⟩
    have hgone : w.runOf pid = none := by
      rw [World.runOf, ← hprocs]
      exact h.2
    rw [hgone] at halive
    cases halive
  have hstop : Ends (cmdStop env) w (fun _ => R) R := by
    refine ends_cmdStop (fun hnone => hrecorded w hphase rfl fun h => ?_) fun pid' hread hpid' => ?_
    · rw [hnone h.read] at hnamed
      cases hnamed
    · obtain rfl := Option.some.inj (hnamed.symm.trans hpid')
      refine ends_runKill (fun hkill => ?_) (fun hkill => ?_) (fun hkill hzero => ?_)
        (fun _ _ hgone => ?_) fun p hkill hzero hp => ?_
      · exact hrecorded w hphase rfl fun h => by cases hkill.symm.trans h.kill
      · exact hfiles w rfl fun h => by cases hkill.symm.trans h.kill
      · exact hrecorded _ hphase rfl fun h => h.named hzero
      · rw [World.runOf, hgone] at halive
        cases halive
      · refine ends_removeRunFiles fun d _ hremoved => ⟨?_, fun pid' hne => signal_procs_of_ne p hne⟩
        have hgone : (w.signal pid p).runOf pid = none := PidFile.signal_runOf w hp
        by_cases hfault : env.removePid.Prevents
        · refine iff_of_false (fun h => ?_) fun h => h.remove hfault
          have hkept : ((w.signal pid p).setDisk d).namedPid = some pid := by
            rw [World.namedPid, World.setDisk_disk, hremoved.kept hfault, signal_disk]
            exact hnamed
          cases hkept.symm.trans (namedPid_of_stopped h.1)
        · exact iff_of_true ⟨phase_stopped (hremoved.gone hfault), hgone⟩ ⟨hread, hkill, hzero, hfault⟩
  exact hstop.final

theorem booted_running : phase (run laptop nothing [.start (booting 100)]) = .running 100 := by
  have hfree : Free nothing.procs 100 := ⟨by decide, rfl⟩
  obtain ⟨args, d, hboots, -, hpid, -⟩ := booting_boots hfree startable_noFiles
  have hrun : run laptop nothing [.start (booting 100)] = ((nothing.setDisk d).spawn (vfkit 100) args).note
      (.started (d.file .userData) (d.file .metaData)) := by
    rw [run, Runs.run_cons, Runs.run_nil, step_start, hboots]
  have hruns : ((nothing.setDisk d).spawn (vfkit 100) args).runOf (vfkit 100).pid = some 0 :=
    runOf_spawn_self (vfkit_live 100)
  have halive : ((run laptop nothing [.start (booting 100)]).runOf 100).isSome = true := by
    rw [hrun]
    exact Option.isSome_of_eq_some hruns
  have hfile : (run laptop nothing [.start (booting 100)]).disk.file .vfkitPid = some (pidText 100) := by
    rw [hrun]
    exact hpid
  rw [phase_recorded hfile, if_pos halive]

theorem stop_works_booted :
    phase (cmdStop ⟨.none, .delivers, .none, .none⟩ (run laptop nothing [.start (booting 100)])).2 = .stopped := by
  have hstops : StopsFor ⟨.none, .delivers, .none, .none⟩ 100 :=
    ⟨rfl, rfl, by decide, fun h => absurd rfl h.1⟩
  exact ((stop_works_iff booted_running _).1.mpr hstops).1

/-! ### Status -/

/-- What `status` says of a VM. -/
def Phase.text : Phase → Text
  | .stopped => "stopped".toList
  | .invalid => "stopped (invalid PID file)".toList
  | .stale _ => "stopped (stale PID file)".toList
  | .running pid => "running (PID: ".toList ++ decimal pid.toNat ++ ")".toList

section Status
variable {host : Host} {w : World}

/-- What is on record, and whether it is of a VM that is alive, is all there is to say. -/
theorem vmStatus_text (contents : Option Bytes) (alive : Pid → Bool) :
    vmStatus (contents.bind decode) ((contents.bind readPid).elim false alive) =
      (phaseOf contents alive).text := by
  have hread : contents.bind readPid = (contents.bind decode).bind parsePid := by
    cases contents with
    | none => rfl
    | some b => rfl
  rw [hread, phaseOf]
  cases contents.bind decode with
  | none => rfl
  | some pidStr =>
    rw [Option.bind_some]
    dsimp only [vmStatus]
    cases parsePid pidStr with
    | none => rfl
    | some pid =>
      exact (apply_ite Phase.text (alive pid = true) (.running pid) (.stale pid)).symm

/-- What `status` prints is the text of the phase. -/
theorem vmStatus_eq (w : World) :
    vmStatus ((w.disk.file .vfkitPid).bind decode) w.namedRun.isSome = (phase w).text := by
  have halive : w.namedRun.isSome =
      ((w.disk.file .vfkitPid).bind readPid).elim false fun pid => (w.runOf pid).isSome := by
    rw [World.namedRun, World.namedPid]
    cases (w.disk.file .vfkitPid).bind readPid with
    | none => rfl
    | some pid => rfl
  rw [halive, vmStatus_text]
  rfl

/-- What `status` prints, where it can read what there is. -/
theorem cmdStatus_prints {env : StatusEnv} {cfg : Config}
    (hconfig : loadConfig host env.readConfig w.disk = (.ok cfg, w.disk)) (hread : env.readPid = .none) :
    ∃ pki, cmdStatus host env w = (.ok ["state dir: ".toList ++ host.stateDir,
      "vm: ".toList ++ vmStatus ((w.disk.file .vfkitPid).bind decode) (isVmRunning env.ps w),
      "cpus: ".toList ++ decimal cfg.cpus.toNat, "memory_mib: ".toList ++ decimal cfg.memoryMib.toNat,
      "pki: ".toList ++ pki], w) := by
  unfold cmdStatus
  rw [Cmd.bind_of_ok (onDisk_of_ok hconfig), World.setDisk_self, Cmd.bind_of_ok (Cmd.gets_apply ..), hread,
    Cmd.bind_of_ok (attempt_readToString ..), Cmd.bind_of_ok (Cmd.gets_apply ..)]
  exact ⟨_, rfl⟩

/-- **`status` tells the phase**, wherever a run gets to in which the probe can tell the
processes: the line on the VM is that of the lifecycle. -/
theorem status_tells_phase (hw : Known w) {inputs : List Input} (h : ∀ i ∈ inputs, Admissible i)
    {env : StatusEnv} (hread : env.readPid = .none) (hps : env.ps = true) {lines : List Text}
    (hlines : (cmdStatus host env (run host w inputs)).1 = .ok lines) :
    lines[1]? = some ("vm: ".toList ++ (phase (run host w inputs)).text) := by
  have hknown : Known (run host w inputs) :=
    Runs.run_invariant (I := Known) (fun _ _ hs hi => known_step hs hi) hw
      (along_of_forall fun i hi _ => h i hi)
  generalize run host w inputs = w' at hknown hlines ⊢
  obtain ⟨cfg, d, hconfig, -⟩ := Cmd.bind_ok.mp (Prod.ext hlines (cmdStatus_world host env w'))
  have hdisk : Within Eq (loadConfig host env.readConfig) :=
    within_loadConfig host (fun _ => rfl) (fun _ _ _ => Eq.trans) _
  have hcfg : (loadConfig host env.readConfig w'.disk).1 = .ok cfg :=
    show (onDisk (loadConfig host env.readConfig) w').1 = _ from congrArg Prod.fst hconfig
  have hconfig : loadConfig host env.readConfig w'.disk = (.ok cfg, w'.disk) :=
    Prod.ext hcfg (hdisk w'.disk).symm
  obtain ⟨pki, hprints⟩ := cmdStatus_prints hconfig hread
  rw [hprints, hps, isVmRunning_eq hknown, Bool.true_and, vmStatus_eq] at hlines
  rw [← Outcome.ok.inj hlines]
  rfl

def looking : StatusEnv := ⟨.none, .none, true⟩

theorem status_tells_phase_booted : ∃ lines : List Text,
    (cmdStatus laptop looking (run laptop nothing [.start (booting 100)])).1 = .ok lines ∧
      lines[1]? = some ("vm: running (PID: 100)".toList) := by
  have hfree : Free nothing.procs 100 := ⟨by decide, rfl⟩
  obtain ⟨args, d, hboots, hready, -⟩ := booting_boots hfree startable_noFiles
  have hconfig : loadConfig laptop looking.readConfig (run laptop nothing [.start (booting 100)]).disk =
      (.ok Config.default, (run laptop nothing [.start (booting 100)]).disk) := by
    rw [run, Runs.run_cons, Runs.run_nil, step_start, hboots]
    exact loadConfig_default _ hready.config
  obtain ⟨pki, hprints⟩ := cmdStatus_prints hconfig rfl
  have hlines := congrArg Prod.fst hprints
  have hadmissible : ∀ i ∈ [Input.start (booting 100)], Admissible i := fun i hi => by
    obtain rfl := List.mem_singleton.mp hi
    exact booting_admissible 100
  have htold := status_tells_phase nothing_known hadmissible rfl rfl hlines
  rw [booted_running] at htold
  exact ⟨_, hlines, htold.trans (by decide)⟩

end Status

end Malleus.Lifecycle
