import Malleus.Boot
import Malleus.Probe

/-! The probe over whole runs.

The probe reads a PID from a file and a line from `ps`; neither says whether the process
is malleus's own. In a run in which the vfkit that is spawned has a path the probe can
see, and no other program has one that it takes for vfkit, the probe is nevertheless
exact (`probe_is_exact`): PIDs that are used again, torn PID files, zombies and
processes that come and go do not mislead it. -/
namespace Malleus.ProbeRuns
open Effect Strings Numbers Storage

/-- The probe would see this path. -/
def Visible (comm : Text) : Prop := contains vfkitName (firstWord comm) = true

/-- Every process has a state code, and the probe sees the paths of the VM runs alone. -/
structure Told (p : Process) : Prop where
  state : StateCode p.state
  comm : Visible p.comm ↔ p.vm.isSome

/-- What the probe can rely on: it can tell each process, and what was found while a VM was
looked for was found while one was alive. -/
structure Known (w : World) : Prop where
  procs : ∀ pid p, w.procs pid = some p → Told p
  answers : ∀ ip source vm reported, .answered ip source vm reported ∈ w.log → source ≠ .explicit →
    vm.isSome

/-- An event in a world without a second vfkit. -/
def Ordinary : Event → Prop
  | .reschedules _ state => StateCode state
  | .appears _ state comm => StateCode state ∧ ¬ Visible comm
  | _ => True

/-- The vfkit that a turn of the launch may come to is one that the probe sees. -/
def Genuine (launch : Launch) : Prop :=
  ∀ c, launch.spawn = .child c → StateCode c.state ∧ Visible c.comm

/-- The launches that an input may make. -/
def launchesOf : Input → List Launch
  | .start env => env.launches
  | .autoconfigure env => env.start.launches
  | _ => []

/-- No foreign process has a name that the probe takes for vfkit's, and every vfkit that is
launched has one. -/
structure Admissible (i : Input) : Prop where
  events : ∀ e ∈ i.events, Ordinary e
  launches : ∀ launch ∈ launchesOf i, Genuine launch

section Known
variable {w : World}

/-- Where the processes can be told, the probe says whether the PID file names a VM. -/
theorem isVmRunning_eq (hw : Known w) (ps : Bool) : isVmRunning ps w = (ps && w.namedRun.isSome) := by
  unfold isVmRunning World.namedRun
  cases w.namedPid with
  | none => rw [Option.bind_none, Option.isSome_none, Bool.and_false]
  | some pid =>
    rw [Option.bind_some, World.runOf]
    cases hp : w.procs pid with
    | none =>
      dsimp only
      rw [hp, Option.isSome_none, Bool.and_false]
    | some p =>
      have htold := hw.procs pid p hp
      have hcomm : contains vfkitName (firstWord p.comm) = p.vm.isSome := by
        rw [Bool.eq_iff_iff]
        exact htold.comm
      have hdescribed : describesLiveVfkit (trim p.psLine) = (p.alive && p.vm.isSome) := by
        rw [describes_trimmed htold.state, hcomm]
        rfl
      dsimp only
      rw [hp]
      dsimp only
      rw [hdescribed]
      cases p.alive with
      | true => simp
      | false => simp

/-- A process table that is changed at one PID. -/
theorem Known.setProc (hw : Known w) {pid : Pid} {p : Option Process} (hp : ∀ p' ∈ p, Told p') :
    Known (w.setProc pid p) where
  procs pid' p' hp' := by
    by_cases hpid : pid' = pid
    · subst hpid
      rw [World.setProc_self] at hp'
      exact hp p' hp'
    · rw [World.setProc_of_ne hpid] at hp'
      exact hw.procs pid' p' hp'
  answers := hw.answers

theorem Known.setDisk (hw : Known w) (d : StateDisk) : Known (w.setDisk d) := ⟨hw.procs, hw.answers⟩

theorem Known.note (hw : Known w) {n : Note}
    (hn : ∀ ip source vm reported, n = .answered ip source vm reported → source ≠ .explicit →
      vm.isSome) : Known (w.note n) where
  procs := hw.procs
  answers ip source vm reported hmem hsource := by
    rcases List.mem_cons.mp hmem with heq | hmem
    · exact hn ip source vm reported heq.symm hsource
    · exact hw.answers ip source vm reported hmem hsource

/-- Events that are ordinary bring no process whose name deceives the probe. -/
theorem Known.happen (hw : Known w) {e : Event} (he : Ordinary e) : Known (happen w e) := by
  have h := happened w e
  generalize Malleus.happen w e = w' at h
  cases h with
  | nothing => exact hw
  | gone pid => exact hw.setProc fun p' hp' => by cases hp'
  | zombie pid reaped p hp =>
    refine hw.setProc fun p' hp' => ?_
    obtain rfl := Option.some.inj hp'
    exact ⟨show StateCode ['Z'] by decide, (hw.procs pid p hp).comm⟩
  | rescheduled pid state p hp halive hstate =>
    refine hw.setProc fun p' hp' => ?_
    obtain rfl := Option.some.inj hp'
    exact ⟨he, (hw.procs pid p hp).comm⟩
  | appeared pid state comm hfree =>
    refine hw.setProc fun p' hp' => ?_
    obtain rfl := Option.some.inj hp'
    exact ⟨he.1, iff_of_false he.2 (by simp)⟩
  | wrote pid f bytes vm hvm hf =>
    exact (hw.setDisk _).note fun ip source vm reported h => by cases h
  | edited contents d hd => exact hw.setDisk d

theorem Known.spawn (hw : Known w) {c : Child} (hc : StateCode c.state ∧ Visible c.comm)
    (args : List Text) : Known (w.spawn c args) := by
  have htold : Told ⟨c.state, c.comm, some w.boots⟩ := ⟨hc.1, iff_of_true hc.2 rfl⟩
  have hset : Known (w.setProc c.pid (some ⟨c.state, c.comm, some w.boots⟩)) :=
    hw.setProc fun p' hp' => by
      obtain rfl := Option.some.inj hp'
      exact htold
  have hnoted := hset.note (n := .spawned c.pid args) fun ip source vm reported h => by cases h
  exact ⟨hnoted.procs, hnoted.answers⟩

theorem Known.signal (hw : Known w) (pid : Pid) (p : Process) : Known (w.signal pid p) := by
  have hnoted := hw.note (n := .signalled (.process pid) (isVmRunning true w))
    fun ip source vm reported h => by cases h
  unfold World.signal
  dsimp only
  split
  · exact hnoted.setProc fun p' hp' => by cases hp'
  · exact hnoted

end Known

/-! ### The commands -/

/-- The child that is spawned is one of those that the launches offer. -/
theorem spawned_mem {procs : Pid → Option Process} {launches : List Launch} {c : Child}
    (h : spawned procs launches = some c) : ∃ launch ∈ launches, launch.spawn = .child c := by
  induction launches with
  | nil => cases h
  | cons launch launches ih =>
    rw [spawned] at h
    split at h
    · split at h
      · next c' hspawn =>
        split at h
        · obtain rfl := Option.some.inj h
          exact ⟨launch, List.mem_cons_self .., hspawn⟩
        · cases h
      · cases h
      · cases h
      · split at h
        · cases h
        · split at h
          · obtain ⟨launch', hmem, hspawn⟩ := ih h
            exact ⟨launch', List.mem_cons_of_mem launch hmem, hspawn⟩
          · cases h
    · cases h

section Commands
variable {host : Host} {w : World}

/-- What a start spawns is known. -/
theorem known_cmdStart {env : StartEnv} (hw : Known w) (h : ∀ launch ∈ env.launches, Genuine launch) :
    Ends (cmdStart host env) w (fun _ => Known) Known := by
  have hchild : ∀ args c d, Launches host env w args c → Known ((w.setDisk d).spawn c args) := by
    intro args c d hlaunch
    obtain ⟨launch, hmem, hspawn⟩ := spawned_mem hlaunch.spawned
    exact (hw.setDisk d).spawn (h launch hmem c hspawn) args
  refine ends_cmdStart (fun d _ => hw.setDisk d) (fun args c d hlaunch _ _ => ?_)
    (fun args c d d' hlaunch _ _ => hchild args c d' hlaunch) fun args c d hlaunch _ _ stderr => ?_
  · exact (hchild args c _ hlaunch).note fun ip source vm reported h => by cases h
  · exact (hchild args c _ hlaunch).setProc fun p' hp' => by cases hp'

theorem known_cmdAutoconfigure {env : AutoconfigureEnv} (hw : Known w)
    (hevents : ∀ poll ∈ env.polls, ∀ e ∈ poll.before, Ordinary e)
    (h : ∀ launch ∈ env.start.launches, Genuine launch) :
    Ends (cmdAutoconfigure host env) w (fun _ => Known) Known := by
  refine ends_cmdAutoconfigureWithRunner hw (fun d _ => hw.setDisk d) (fun d _ _ => ?_)
    (fun w poll hpoll e he hw => hw.happen (hevents poll hpoll e he)) (fun w ip source hw hanswer => ?_)
    (fun w c hw => ⟨hw.procs, hw.answers⟩) fun _ h => h
  · exact ends_startUnlessRunning (fun _ => hw.setDisk d) fun _ => known_cmdStart (hw.setDisk d) h
  · refine hw.note fun ip' source' vm' reported' heq hsource => ?_
    obtain ⟨-, rfl, rfl, -⟩ := Note.answered.inj heq
    rcases hanswer with ⟨-, hexplicit⟩ | ⟨-, poll, -, searched, hrunning, -⟩
    · exact absurd hexplicit hsource
    · rw [isVmRunning_eq hw, Bool.and_eq_true] at hrunning
      exact hrunning.2

/-- Every input leaves a table that the probe reads right. -/
theorem known_step (hw : Known w) {i : Input} (hi : Admissible i) : Known (step host w i) := by
  cases i with
  | event e => exact hw.happen (hi.events e (List.mem_singleton_self e))
  | start env => exact (known_cmdStart hw hi.launches).final
  | stop env =>
    exact cmdStop_keeps hw (hw.note fun ip source vm reported h => by cases h)
      (fun pid p _ => hw.signal pid p) fun w' d hw' _ => hw'.setDisk d
  | status env =>
    show Known (cmdStatus host env w).2
    rw [cmdStatus_world]
    exact hw
  | delete env =>
    have hends : Ends (cmdDelete env) w (fun _ => Known) Known :=
      ends_cmdDelete hw (fun _ _ => hw.setDisk _) fun _ _ _ => hw.setDisk _
    exact hends.final
  | mount hostPath name => exact hw
  | unmount name => exact hw
  | autoconfigure env =>
    have hevents : ∀ poll ∈ env.polls, ∀ e ∈ poll.before, Ordinary e := fun poll hpoll e he =>
      hi.events e (List.mem_flatMap.mpr ⟨poll, hpoll, he⟩)
    exact (known_cmdAutoconfigure hw hevents hi.launches).final

/-- **The probe is exact wherever such a run gets to**: it says yes if and only if `ps` can be
run and the PID file names a VM run that malleus spawned and that is alive; and every
address that a search has answered was answered while the file named one. -/
theorem probe_is_exact (hw : Known w) {inputs : List Input} (h : ∀ i ∈ inputs, Admissible i) :
    (∀ ps, isVmRunning ps (run host w inputs) = (ps && (run host w inputs).namedRun.isSome)) ∧
      ∀ ip source vm reported, .answered ip source vm reported ∈ (run host w inputs).log →
        source ≠ .explicit → vm.isSome := by
  have hrun : Along host (fun _ i => Admissible i) w inputs := Runs.along_of_forall fun i hi _ => h i hi
  have hknown : Known (run host w inputs) :=
    Runs.run_invariant (I := Known) (fun _ _ hs hi => known_step hs hi) hw hrun
  exact ⟨isVmRunning_eq hknown, hknown.answers⟩

end Commands

theorem nothing_known : Known nothing where
  procs pid p hp := by cases hp
  answers ip source vm reported hmem := by cases hmem

theorem vfkit_genuine (pid : Pid) : StateCode (vfkit pid).state ∧ Visible (vfkit pid).comm := by
  refine ⟨?_, ?_⟩
  · show StateCode "S+".toList
    decide
  · show contains vfkitName (firstWord "/opt/homebrew/bin/vfkit".toList) = true
    decide +kernel

theorem booting_admissible (pid : Pid) : Admissible (.start (booting pid)) where
  events e he := (List.not_mem_nil he).elim
  launches launch hlaunch c hc := by
    obtain rfl := List.mem_singleton.mp hlaunch
    obtain rfl : vfkit pid = c := Spawn.child.inj hc
    exact vfkit_genuine pid

theorem probe_is_exact_booted : isVmRunning true (run laptop nothing [.start (booting 100)]) =
    (true && (run laptop nothing [.start (booting 100)]).namedRun.isSome) :=
  (probe_is_exact nothing_known fun i hi => by
    obtain rfl := List.mem_singleton.mp hi
    exact booting_admissible 100).1 true

end Malleus.ProbeRuns
