import Malleus.Boot

/-! The VM that is alive, and the PID file.

`vfkit.pid` is the only link between malleus and the VM it spawned. Several
commands write or remove it without asking whether a VM is alive; `vm_is_named` says
that the link holds in every run in which they happen not to meet one, and
`second_start` is what one of them does otherwise. -/
namespace Malleus.PidFile
open Effect Strings Storage

/-- Every VM that is alive is the one in the PID file. -/
def Tracked (w : World) : Prop :=
  ∀ pid vm, w.runOf pid = some vm → w.disk.file .vfkitPid = some (pidText pid)

theorem Tracked.unique {w : World} (h : Tracked w) {pid pid' : Pid} {vm vm' : Nat}
    (hvm : w.runOf pid = some vm) (hvm' : w.runOf pid' = some vm') : pid = pid' :=
  pidText_injective (Option.some.inj ((h pid vm hvm).symm.trans (h pid' vm' hvm')))

/-- Where no VM runs there is nothing to track. -/
theorem tracked_of_idle {w : World} (h : w.Idle) : Tracked w :=
  fun pid vm hvm => by simp [h pid] at hvm

theorem Tracked.of_calm {w w' : World} (hw : Tracked w) (h : Calm w w') : Tracked w' :=
  fun pid vm hvm => h.pidFile.trans (hw pid vm (h.runs pid vm hvm))

/-! ### The commands -/

/-- However the write of the PID file ends, the whole PID stands in it. -/
def Lands (c : Child) (d : StateDisk) : Prop :=
  ∀ d', PidLeft c d d' → d'.file .vfkitPid = some (pidText c.pid)

theorem lands_of_whole {c : Child} {d : StateDisk} (h : c.writePid = .none) : Lands c d := by
  intro d' hleft
  cases hleft with
  | untouched hfault => exact absurd h hfault
  | part n hn => simp [h, Fault.progress] at hn
  | whole => exact Disk.put_self ..

/-- A PID that lands is in the file, however the write has gone. -/
theorem Lands.left {c : Child} {d e e' : StateDisk} (h : Lands c d)
    (hsame : e.file .vfkitPid = d.file .vfkitPid) (hleft : PidLeft c e e') :
    e'.file .vfkitPid = some (pidText c.pid) := by
  cases hleft with
  | untouched hfault hprogress => exact hsame.trans (h d (.untouched hfault hprogress))
  | part n hn =>
    have hpart := h _ (.part n hn)
    rwa [Disk.put_self] at hpart ⊢
  | whole => exact Disk.put_self ..

/-- A start that gets to spawning vfkit finds no VM alive, and leaves its PID. -/
def LaunchesAlone (host : Host) (env : StartEnv) (w : World) : Prop :=
  ∀ args c, Launches host env w args c → w.Idle ∧ Lands c w.disk

/-- A stop finds no VM alive, or ends it, or leaves the PID file. -/
def StopsCleanly (env : StopEnv) (w : World) : Prop :=
  w.Idle ∨ env.kill ≠ .refused ∨ env.readPid ≠ .none ∨ env.removePid.Prevents

/-- A removal finds no VM alive, or leaves the PID file. -/
def DeletesCleanly (env : DeleteEnv) (w : World) : Prop :=
  w.Idle ∨ w.disk.dir .stateDir = false ∨
    (env.fault ≠ .none ∧ ∀ n, env.fault.progress = some n → .vfkitPid ∉ env.order.take n)

/-- No command takes the PID file away from a VM that is alive. -/
def Careful (host : Host) (w : World) : Input → Prop
  | .start env => LaunchesAlone host env w
  | .stop env => StopsCleanly env w
  | .delete env => DeletesCleanly env w
  | .autoconfigure env => ∀ d, validMountName env.remoteName = true →
      copyCredentials host env w.disk = (.ok (), d) → isVmRunning env.ps (w.setDisk d) = false →
      LaunchesAlone host env.start (w.setDisk d)
  | _ => True

section Commands
variable {host : Host} {w : World}

/-- A start that launches alone leaves its VM in the file. -/
theorem tracked_cmdStart {env : StartEnv} (hw : Tracked w) (h : LaunchesAlone host env w) :
    Ends (cmdStart host env) w (fun _ => Tracked) Tracked := by
  have hsame : ∀ d, AtLaunch host env w d → d.file .vfkitPid = w.disk.file .vfkitPid :=
    fun d hd => hd.only _ (by decide)
  -- where no VM was alive, the child is the only one
  have hspawned : ∀ d args c, w.Idle → d.file .vfkitPid = some (pidText c.pid) →
      Tracked ((w.setDisk d).spawn c args) := by
    intro d args c hidle hd pid vm hvm
    rcases runOf_spawn hvm with ⟨rfl, -⟩ | hvm
    · exact hd
    · exact absurd ((hidle pid).symm.trans hvm) (by simp)
  refine ends_cmdStart (fun d hd => ?_) (fun args c d hlaunch hd hwhole => ?_)
    (fun args c d d' hlaunch hd hleft => ?_) fun args c d hlaunch hd hwhole stderr => ?_
  · exact hw.of_calm (calm_setDisk hd.only (by decide))
  · exact hspawned _ args c (h args c hlaunch).1 (Disk.put_self ..)
  · obtain ⟨hidle, hlands⟩ := h args c hlaunch
    exact hspawned d' args c hidle (hlands.left (hsame d hd) hleft)
  · refine tracked_of_idle fun pid => ?_
    by_cases hpid : pid = c.pid
    · subst hpid
      exact World.runOf_setProc_none _ _
    · rw [World.runOf_setProc_of_ne _ hpid]
      cases hvm : World.runOf _ pid with
      | none => rfl
      | some vm =>
        rcases runOf_spawn hvm with ⟨h, -⟩ | hvm
        · exact absurd h hpid
        · exact absurd (((h args c hlaunch).1 pid).symm.trans hvm) (by simp)

/-- Where the file names a process that is no VM, none is alive. -/
theorem Tracked.idle_of_named (hw : Tracked w) {pid : Pid} (hpid : w.namedPid = some pid)
    {w' : World} (hcalm : Calm w w') (hgone : w'.runOf pid = none) : w'.Idle := by
  intro pid'
  cases hvm : w'.runOf pid' with
  | none => rfl
  | some vm =>
    have hfile := hw pid' vm (hcalm.runs pid' vm hvm)
    rw [World.namedPid, hfile, Option.bind_some, readPid_pidText] at hpid
    obtain rfl := Option.some.inj hpid
    exact absurd (hgone.symm.trans hvm) (by simp)

theorem signal_runOf (w : World) {pid : Pid} {p : Process} (hp : w.procs pid = some p) :
    (w.signal pid p).runOf pid = none := by
  unfold World.signal
  dsimp only
  split
  · exact World.runOf_setProc_none _ _
  · next hzombie => simp [World.runOf, hp, hzombie]

/-- A clean stop takes the file away from no VM that lives on. -/
theorem tracked_cmdStop {env : StopEnv} (hw : Tracked w) (h : StopsCleanly env w) :
    Ends (cmdStop env) w (fun _ => Tracked) Tracked := by
  -- once no VM is alive, it does not matter what is removed
  have hidle : ∀ w' : World, w'.Idle → Ends (removeRunFiles env) w' (fun _ => Tracked) Tracked :=
    fun w' hw' => ends_removeRunFiles fun d _ _ => tracked_of_idle hw'
  refine ends_cmdStop (fun _ => hw) fun pid hread hpid => ?_
  refine ends_runKill (fun _ => hw) (fun hkill => ?_) (fun _ _ => hw)
    (fun _ _ hgone => ?_) fun p _ _ hp => ?_
  · rcases h with hidle' | h | h | h
    · exact hidle w hidle'
    · exact absurd hkill h
    · exact absurd hread h
    · exact ends_removeRunFiles fun d hd hremoved => hw.of_calm ⟨fun _ _ h => h, hremoved.kept h⟩
  · exact hidle w (hw.idle_of_named hpid (Calm.refl w) (by simp [World.runOf, hgone]))
  · exact hidle _ (hw.idle_of_named hpid (calm_signal w pid p) (signal_runOf w hp))

/-- Nor does a clean removal. -/
theorem tracked_cmdDelete {env : DeleteEnv} (hw : Tracked w) (h : DeletesCleanly env w) :
    Ends (cmdDelete env) w (fun _ => Tracked) Tracked := by
  refine ends_cmdDelete hw (fun hdir hfault => ?_) fun n hdir hn => ?_
  · rcases h with hidle | h | h
    · exact tracked_of_idle hidle
    · simp [hdir] at h
    · exact absurd hfault h.1
  · rcases h with hidle | h | h
    · exact tracked_of_idle hidle
    · simp [hdir] at h
    · refine hw.of_calm ⟨fun _ _ h => h, ?_⟩
      simp [Disk.eraseTree, h.2 n hn]

theorem tracked_cmdAutoconfigure {env : AutoconfigureEnv} (hw : Tracked w)
    (h : Careful host w (.autoconfigure env)) :
    Ends (cmdAutoconfigure host env) w (fun _ => Tracked) Tracked := by
  have hcopy : ∀ d, Only (· ∈ confFiles (env.confDir host)) w.disk d → Tracked (w.setDisk d) :=
    fun d hd => hw.of_calm (calm_setDisk hd (by simp [confFiles]))
  refine ends_cmdAutoconfigureWithRunner hw hcopy (fun d hname hd => ?_)
    (fun w' _ _ e _ hw' => hw'.of_calm (calm_happen w' e)) (fun _ _ _ hw' _ => hw')
    (fun _ _ hw' => hw') fun _ hw' => hw'
  have hcopied : Tracked (w.setDisk d) := by
    refine hcopy d ?_
    have hwithin := within_copyCredentials host env w.disk
    rwa [hd] at hwithin
  exact ends_startUnlessRunning (fun _ => hcopied) fun hprobe =>
    tracked_cmdStart hcopied (h d hname hd hprobe)

/-- A careful input keeps every VM that is alive in the PID file. -/
theorem tracked_step (i : Input) (hw : Tracked w) (h : Careful host w i) : Tracked (step host w i) := by
  cases i with
  | event e => exact hw.of_calm (calm_happen w e)
  | start env => exact (tracked_cmdStart hw h).final
  | stop env => exact (tracked_cmdStop hw h).final
  | status env =>
    rw [step, cmdStatus_world]
    exact hw
  | delete env => exact (tracked_cmdDelete hw h).final
  | mount => exact hw
  | unmount => exact hw
  | autoconfigure env => exact (tracked_cmdAutoconfigure hw h).final

end Commands

/-! ### Any number of commands -/

/-- The PID file of a VM that is alive before and after is the same file. -/
def KeepsPidFile (w w' : World) : Prop :=
  ∀ pid vm vm', w.runOf pid = some vm → w'.runOf pid = some vm' →
    w'.disk.file .vfkitPid = w.disk.file .vfkitPid

/-- **Every VM that is alive is the one in the PID file**, so that there is one at most
and its PID file stays as it is, in every run in which no start spawns a second VM,
no PID is written in part, no VM survives the stop that takes its file, and no
removal meets one. -/
theorem vm_is_named (host : Host) (w : World) (hidle : w.Idle) (inputs : List Input)
    (h : Along host (Careful host) w inputs) :
    Tracked (run host w inputs) ∧
      (∀ pid pid' vm vm', (run host w inputs).runOf pid = some vm →
        (run host w inputs).runOf pid' = some vm' → pid = pid') ∧
      ∀ before last, inputs = before ++ [last] →
        KeepsPidFile (run host w before) (run host w inputs) := by
  have hrun : ∀ inputs, Along host (Careful host) w inputs → Tracked (run host w inputs) :=
    fun inputs h => Runs.run_invariant (fun w i hw hi => tracked_step i hw hi) (tracked_of_idle hidle) h
  refine ⟨hrun inputs h, fun pid pid' vm vm' => (hrun inputs h).unique, ?_⟩
  rintro before last rfl pid vm vm' hbefore hafter
  rw [hrun _ h pid vm' hafter, hrun before h.concat.1 pid vm hbefore]

/-! ### A second start -/

/-- Two starts boot two VMs, and the PID file names the second. -/
theorem second_start :
    (run laptop nothing [.start (booting 100), .start (booting 101)]).runOf 100 = some 0 ∧
      (run laptop nothing [.start (booting 100), .start (booting 101)]).runOf 101 = some 1 ∧
      ¬ Tracked (run laptop nothing [.start (booting 100), .start (booting 101)]) := by
  have hstartable : Startable nothing.disk := startable_noFiles
  obtain ⟨args, d, hfirst, hready, -⟩ :=
    booting_boots (show Free nothing.procs 100 from ⟨by decide, rfl⟩) hstartable
  let w1 := ((nothing.setDisk d).spawn (vfkit 100) args).note (.started (d.file .userData) (d.file .metaData))
  have hfree : Free w1.procs 101 := by
    have hsame : ((nothing.setDisk d).spawn (vfkit 100) args).procs 101 = none :=
      procs_spawn_of_ne (by decide)
    exact ⟨by decide, hsame⟩
  have hstartable : Startable w1.disk := hready.startable
  obtain ⟨args', d', hsecond, -, hpid, -⟩ := booting_boots hfree hstartable
  let w2 := ((w1.setDisk d').spawn (vfkit 101) args').note
    (.started (d'.file .userData) (d'.file .metaData))
  have hrun : run laptop nothing [.start (booting 100), .start (booting 101)] = w2 := by
    rw [run, Runs.run_cons, Runs.run_cons, Runs.run_nil, step_start, step_start, hfirst, hsecond]
  have h100 : w2.runOf 100 = some 0 := by
    have hsame : ((w1.setDisk d').spawn (vfkit 101) args').runOf 100 = w1.runOf 100 :=
      runOf_spawn_of_ne (by decide)
    have hself : ((nothing.setDisk d).spawn (vfkit 100) args).runOf (vfkit 100).pid = some 0 :=
      runOf_spawn_self (vfkit_live 100)
    exact hsame.trans hself
  have h101 : w2.runOf 101 = some 1 := by
    have hself : ((w1.setDisk d').spawn (vfkit 101) args').runOf (vfkit 101).pid = some 1 :=
      runOf_spawn_self (vfkit_live 101)
    exact hself
  rw [hrun]
  refine ⟨h100, h101, fun h => ?_⟩
  have hfile := h 100 0 h100
  have hfile' : w2.disk.file .vfkitPid = some (pidText 101) := hpid
  exact absurd (pidText_injective (Option.some.inj (hfile.symm.trans hfile'))) (by decide)

/-- A start on a fresh state directory, and a stop. -/
def oneRun : List Input := [.start (booting 100), .stop ⟨.none, .delivers, .none, .none⟩]

theorem oneRun_named : Tracked (run laptop nothing oneRun) ∧
    (∀ pid pid' vm vm', (run laptop nothing oneRun).runOf pid = some vm →
      (run laptop nothing oneRun).runOf pid' = some vm' → pid = pid') ∧
    ∀ before last, oneRun = before ++ [last] →
      KeepsPidFile (run laptop nothing before) (run laptop nothing oneRun) := by
  refine vm_is_named laptop nothing (fun _ => rfl) oneRun
    ⟨fun args c hlaunch => ⟨fun _ => rfl, ?_⟩, Or.inr (Or.inl (by decide)), trivial⟩
  have hchild : some (vfkit 100) = some c := hlaunch.spawned
  obtain rfl := Option.some.inj hchild
  exact lands_of_whole rfl

end Malleus.PidFile
