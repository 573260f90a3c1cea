import Malleus.Boot

/-! The address in the state share, and the VM run it belongs to.

The guest reports its address to `guest-ip` once a boot, and nothing but `delete`
takes the file away again: a run that ends leaves its address to the next one.
`answers_are_current` says that every address taken from the file is the running
VM's own in every run in which vfkit is only spawned where the file holds no address
and no other VM is alive; `stale_address` is a run in which it is spawned elsewhere. -/
namespace Malleus.GuestAddress
open Effect Strings Numbers Storage

/-- The address that the bytes of `guest-ip` hold. -/
def guestAddress (b : Bytes) : Option Ipv4Addr := (decode b).bind guestIpOf

/-- The VM run that `vfkit.pid` names is the one that last wrote the file, and what it
wrote is this address. -/
def Current (ip : Ipv4Addr) (vm : Option Nat) (reported : Option (Nat × Bytes)) : Prop :=
  ∃ run b, vm = some run ∧ reported = some (run, b) ∧ guestAddress b = some ip

/-- Every address given back from `guest-ip` was current. -/
def AnswersCurrent (log : List Note) : Prop :=
  ∀ ip vm reported, .answered ip .guestIp vm reported ∈ log → Current ip vm reported

/-- One VM is alive at most, and an address in the file is its own. -/
structure Fresh (w : World) : Prop where
  owned : ∀ pid p, w.procs pid = some p → p.vm.isSome
  unique : ∀ pid pid' vm vm', w.runOf pid = some vm → w.runOf pid' = some vm' → pid = pid'
  reported : ∀ pid vm b, w.runOf pid = some vm → w.disk.file .guestIp = some b →
    (guestAddress b).isSome → w.lastWritten .guestIp = some (vm, b)
  answers : AnswersCurrent w.log

/-! ### What leaves the address alone -/

/-- No VM has come up, the file is as it was or gone, and nothing was written to it or
answered. -/
structure Quiet (w w' : World) : Prop where
  owned : ∀ pid p', w'.procs pid = some p' → ∃ p, w.procs pid = some p ∧ p'.vm = p.vm
  runs : ∀ pid vm, w'.runOf pid = some vm → w.runOf pid = some vm
  boots : w'.boots = w.boots
  file : ∀ b, w'.disk.file .guestIp = some b → w.disk.file .guestIp = some b
  written : w'.lastWritten .guestIp = w.lastWritten .guestIp
  answers : ∀ ip vm reported, .answered ip .guestIp vm reported ∈ w'.log →
    .answered ip .guestIp vm reported ∈ w.log

theorem Fresh.of_quiet {w w' : World} (hw : Fresh w) (h : Quiet w w') : Fresh w' where
  owned pid p' hp' := by
    obtain ⟨p, hp, hvm⟩ := h.owned pid p' hp'
    rw [hvm]
    exact hw.owned pid p hp
  unique pid pid' vm vm' hvm hvm' := hw.unique pid pid' vm vm' (h.runs pid vm hvm) (h.runs pid' vm' hvm')
  reported pid vm b hvm hb hip := h.written.trans (hw.reported pid vm b (h.runs pid vm hvm) (h.file b hb) hip)
  answers ip vm reported hmem := hw.answers ip vm reported (h.answers ip vm reported hmem)

theorem Quiet.trans {w w' w'' : World} (h : Quiet w w') (h' : Quiet w' w'') : Quiet w w'' where
  owned pid p'' hp'' := by
    obtain ⟨p', hp', hvm'⟩ := h'.owned pid p'' hp''
    obtain ⟨p, hp, hvm⟩ := h.owned pid p' hp'
    exact ⟨p, hp, hvm'.trans hvm⟩
  runs pid vm hvm := h.runs pid vm (h'.runs pid vm hvm)
  boots := h'.boots.trans h.boots
  file b hb := h.file b (h'.file b hb)
  written := h'.written.trans h.written
  answers ip vm reported hmem := h.answers ip vm reported (h'.answers ip vm reported hmem)

section Quiet
variable {w : World}

theorem quiet_disk {d : StateDisk} (h : ∀ b, d.file .guestIp = some b → w.disk.file .guestIp = some b) :
    Quiet w (w.setDisk d) :=
  ⟨fun _ p' hp' => ⟨p', hp', rfl⟩, fun _ _ hvm => hvm, rfl, h, rfl, fun _ _ _ hmem => hmem⟩

/-- Files other than the report do not matter. -/
theorem quiet_setDisk {d : StateDisk} {S : File → Prop} (h : Only S w.disk d) (hs : ¬ S .guestIp) :
    Quiet w (w.setDisk d) := quiet_disk fun _ hb => (h _ hs).symm.trans hb

theorem quiet_note {n : Note} (hwritten : n.written .guestIp = none)
    (hanswer : ∀ ip vm reported, n ≠ .answered ip .guestIp vm reported) : Quiet w (w.note n) where
  owned _ p' hp' := ⟨p', hp', rfl⟩
  runs _ _ hvm := hvm
  boots := rfl
  file _ hb := hb
  written := by simp [World.lastWritten, hwritten]
  answers ip vm reported hmem := by
    rcases List.mem_cons.mp hmem with h | h
    · exact absurd h.symm (hanswer ip vm reported)
    · exact h

/-- A process that goes, or stays the VM run it was. -/
theorem quiet_setProc {pid : Pid} {p : Option Process}
    (hvm : ∀ p', p = some p' → ∃ q, w.procs pid = some q ∧ p'.vm = q.vm ∧ (p'.alive = true → q.alive = true)) :
    Quiet w (w.setProc pid p) where
  owned pid' p' hp' := by
    by_cases hpid : pid' = pid
    · subst hpid
      rw [World.setProc_self] at hp'
      obtain ⟨q, hq, hsame, -⟩ := hvm p' hp'
      exact ⟨q, hq, hsame⟩
    · rw [World.setProc_of_ne hpid] at hp'
      exact ⟨p', hp', rfl⟩
  runs := by
    refine runs_setProc fun vm hrun => ?_
    cases p with
    | none => simp [World.runOf] at hrun
    | some p' =>
      obtain ⟨q, hq, hsame, halive⟩ := hvm p' rfl
      unfold World.runOf at hrun ⊢
      rw [World.setProc_self] at hrun
      rw [hq]
      dsimp only at hrun ⊢
      split at hrun
      · next h => rw [if_pos (halive h), ← hsame, hrun]
      · simp at hrun
  boots := rfl
  file _ hb := hb
  written := rfl
  answers _ _ _ hmem := hmem

theorem quiet_gone (pid : Pid) : Quiet w (w.setProc pid none) := quiet_setProc fun p' h => by simp at h

theorem quiet_signal (pid : Pid) (p : Process) : Quiet w (w.signal pid p) := by
  have hnote : Quiet w (w.note (.signalled (.process pid) (isVmRunning true w))) :=
    quiet_note rfl fun _ _ _ => by simp
  unfold World.signal
  dsimp only
  split
  · exact hnote.trans (quiet_gone pid)
  · exact hnote

/-- Stopping a VM makes no address and gives none. -/
theorem quiet_cmdStop (env : StopEnv) (w : World) : Quiet w (cmdStop env w).2 := by
  apply cmdStop_keeps
  · exact quiet_disk fun _ hb => hb
  · exact quiet_note rfl fun _ _ _ => by simp
  · exact fun pid p _ => quiet_signal pid p
  · exact fun w' d hw' hd => hw'.trans (quiet_setDisk hd (by decide))

end Quiet

/-! ### Events and commands -/

/-- Every process in the table is malleus's own: no other program starts. -/
def OwnProcess : Event → Prop
  | .appears .. => False
  | _ => True

/-- A start that gets to spawning vfkit finds no VM alive and no address in `guest-ip`. -/
def LaunchesFresh (host : Host) (env : StartEnv) (w : World) : Prop :=
  ∀ args c, Launches host env w args c →
    w.Idle ∧ ∀ b, w.disk.file .guestIp = some b → guestAddress b = none

/-- vfkit is spawned on a fresh share only. -/
def Careful (host : Host) (w : World) : Input → Prop
  | .start env => LaunchesFresh host env w
  | .autoconfigure env => ∀ d, validMountName env.remoteName = true →
      copyCredentials host env w.disk = (.ok (), d) → isVmRunning env.ps (w.setDisk d) = false →
      LaunchesFresh host env.start (w.setDisk d)
  | _ => True

section Commands
variable {host : Host} {w : World}

/-- Only the guest of a VM writes the report, and it writes for the run it belongs to. -/
theorem fresh_happen (hw : Fresh w) {e : Event} (he : OwnProcess e) : Fresh (happen w e) := by
  have h := happened w e
  generalize happen w e = w' at h
  cases h with
  | nothing => exact hw
  | gone pid => exact hw.of_quiet (quiet_gone pid)
  | zombie pid _ p hp =>
    refine hw.of_quiet (quiet_setProc ?_)
    rintro _ ⟨⟩
    exact ⟨p, hp, rfl, by simp [Process.alive, isZombie]⟩
  | rescheduled pid state p hp halive =>
    refine hw.of_quiet (quiet_setProc ?_)
    rintro _ ⟨⟩
    exact ⟨p, hp, rfl, fun _ => halive⟩
  | appeared => exact he.elim
  | wrote pid f bytes vm hvm hf =>
    by_cases hguest : f = .guestIp
    · -- the guest that reports is the one that is alive
      subst hguest
      refine ⟨hw.owned, hw.unique, fun pid' vm' b hvm' hb _ => ?_, fun ip vm reported hmem => ?_⟩
      · obtain rfl := hw.unique pid pid' vm vm' hvm hvm'
        obtain rfl : vm = vm' := Option.some.inj (hvm.symm.trans hvm')
        obtain rfl : bytes = b := by simpa using hb
        rfl
      · exact hw.answers ip vm reported (by simpa using hmem)
    · have hput : Quiet w (w.setDisk (w.disk.put f bytes)) :=
        quiet_setDisk (only_put _ (show f ∈ [f] by simp) _) (by simpa using Ne.symm hguest)
      exact hw.of_quiet (hput.trans (quiet_note (by simp [Note.written, hguest]) fun _ _ _ => by simp))
  | edited _ d hd => exact hw.of_quiet (quiet_setDisk hd (by decide))

/-- On a share without an address, a VM that comes up alone is fresh. -/
theorem fresh_spawn {c : Child} {args : List Text} (hw : Fresh w) (hidle : w.Idle)
    (hfile : ∀ b, w.disk.file .guestIp = some b → guestAddress b = none) :
    Fresh (w.spawn c args) where
  owned pid p hp := by
    by_cases hpid : pid = c.pid
    · subst hpid
      rw [procs_spawn_self] at hp
      obtain rfl := Option.some.inj hp
      rfl
    · rw [procs_spawn_of_ne hpid] at hp
      exact hw.owned pid p hp
  unique pid pid' vm vm' hvm hvm' := by
    have honly : ∀ pid vm, (w.spawn c args).runOf pid = some vm → pid = c.pid := by
      intro pid vm hvm
      rcases runOf_spawn hvm with ⟨hpid, -⟩ | hvm
      · exact hpid
      · exact absurd ((hidle pid).symm.trans hvm) (by simp)
    rw [honly pid vm hvm, honly pid' vm' hvm']
  reported pid vm b _ hb hip := by
    rw [hfile b hb] at hip
    simp at hip
  answers ip vm reported hmem := by
    rcases List.mem_cons.mp hmem with h | h
    · simp at h
    · exact hw.answers ip vm reported h

/-- A start where no report is left over: the next one is of the VM that comes up. -/
theorem fresh_cmdStart {env : StartEnv} (hw : Fresh w) (h : LaunchesFresh host env w) :
    Ends (cmdStart host env) w (fun _ => Fresh) Fresh := by
  have hat : ∀ d, AtLaunch host env w d → d.file .guestIp = w.disk.file .guestIp :=
    fun d hd => hd.only _ (by decide)
  have hspawned : ∀ args c d, Launches host env w args c → d.file .guestIp = w.disk.file .guestIp →
      Fresh ((w.setDisk d).spawn c args) := by
    intro args c d hlaunch hsame
    obtain ⟨hidle, hfile⟩ := h args c hlaunch
    have hquiet : Quiet w (w.setDisk d) := quiet_disk fun b hb => hsame.symm.trans hb
    exact fresh_spawn (hw.of_quiet hquiet) hidle fun b hb => hfile b (hsame.symm.trans hb)
  have hpid : ∀ (d : StateDisk) b, (d.put .vfkitPid b).file .guestIp = d.file .guestIp :=
    fun d b => Disk.put_of_ne d (by decide) b
  refine ends_cmdStart (fun d hd => ?_) (fun args c d hlaunch hd hwhole => ?_)
    (fun args c d d' hlaunch hd hleft => ?_) fun args c d hlaunch hd hwhole stderr => ?_
  · exact hw.of_quiet (quiet_disk fun b hb => (hat d hd).symm.trans hb)
  · refine Fresh.of_quiet ?_ (quiet_note rfl fun _ _ _ => by simp)
    exact hspawned args c _ hlaunch ((hpid ..).trans (hat d hd))
  · refine hspawned args c d' hlaunch (Eq.trans ?_ (hat d hd))
    cases hleft with
    | untouched => rfl
    | part n => exact hpid ..
    | whole => exact hpid ..
  · refine (hspawned args c _ hlaunch ?_).of_quiet (quiet_gone _)
    exact (Disk.put_of_ne _ (by decide) _).trans ((hpid ..).trans (hat d hd))

theorem fresh_cmdDelete {env : DeleteEnv} (hw : Fresh w) :
    Ends (cmdDelete env) w (fun _ => Fresh) Fresh := by
  have herased : ∀ files dirs, Fresh (w.setDisk (w.disk.eraseTree files dirs)) := by
    refine fun files dirs => hw.of_quiet (quiet_disk fun b hb => ?_)
    unfold Disk.eraseTree at hb
    dsimp only at hb
    split at hb
    · simp at hb
    · exact hb
  exact ends_cmdDelete hw (fun _ _ => herased _ _) fun _ _ _ => herased _ _

/-- An address that the probe lets through is the running VM's own. -/
theorem Fresh.current (hw : Fresh w) {ps : Bool} {leasePath : Text} {poll : Poll} {searched : List Text}
    {ip : Ipv4Addr} (hprobe : isVmRunning ps w = true)
    (hlook : look leasePath poll w.disk searched = .found ip .guestIp) :
    Current ip w.namedRun (w.lastWritten .guestIp) := by
  obtain ⟨pid, p, hpid, hp, halive⟩ := alive_of_isVmRunning hprobe
  obtain ⟨run, hrun⟩ := Option.isSome_iff_exists.mp (hw.owned pid p hp)
  obtain ⟨b, hb, hip⟩ := look_guestIp hlook
  have hvm : w.runOf pid = some run := by
    unfold World.runOf
    rw [hp]
    exact (if_pos halive).trans hrun
  have hnamed : w.namedRun = some run := by
    rw [World.namedRun, hpid]
    exact hvm
  exact ⟨run, b, hnamed, hw.reported pid run b hvm hb (by rw [guestAddress, hip]; rfl), hip⟩

/-- The search gives the report of the VM that is on record. -/
theorem fresh_cmdAutoconfigure {env : AutoconfigureEnv} (hw : Fresh w)
    (hevents : ∀ e ∈ (Input.autoconfigure env).events, OwnProcess e)
    (h : Careful host w (.autoconfigure env)) :
    Ends (cmdAutoconfigure host env) w (fun _ => Fresh) Fresh := by
  have hcopy : ∀ d, Only (· ∈ confFiles (env.confDir host)) w.disk d → Fresh (w.setDisk d) :=
    fun d hd => hw.of_quiet (quiet_setDisk hd (by simp [confFiles]))
  refine ends_cmdAutoconfigureWithRunner hw hcopy (fun d hname hd => ?_)
    (fun w' poll hpoll e he hw' => fresh_happen hw' (hevents e (List.mem_flatMap.mpr ⟨poll, hpoll, he⟩)))
    (fun w' ip source hw' hanswer => ?_) (fun w' c hw' => ?_) fun _ hw' => hw'
  · have hcopied : Fresh (w.setDisk d) := by
      refine hcopy d ?_
      have hwithin := within_copyCredentials host env w.disk
      rwa [hd] at hwithin
    exact ends_startUnlessRunning (fun _ => hcopied) fun hprobe =>
      fresh_cmdStart hcopied (h d hname hd hprobe)
  · refine ⟨hw'.owned, hw'.unique, hw'.reported, fun ip' vm reported hmem => ?_⟩
    rcases List.mem_cons.mp hmem with heq | hmem
    · obtain ⟨rfl, rfl, rfl, rfl⟩ := Note.answered.inj heq
      rcases hanswer with ⟨-, hsource⟩ | ⟨-, poll, -, searched, hprobe, hlook⟩
      · simp at hsource
      · exact hw'.current hprobe hlook
    · exact hw'.answers ip' vm reported hmem
  · exact ⟨hw'.owned, hw'.unique, hw'.reported, hw'.answers⟩

/-- A careful input of malleus's own processes keeps the share fresh. -/
theorem fresh_step (i : Input) (hw : Fresh w) (hevents : ∀ e ∈ i.events, OwnProcess e)
    (h : Careful host w i) : Fresh (step host w i) := by
  cases i with
  | event e => exact fresh_happen hw (hevents e (List.mem_singleton.mpr rfl))
  | start env => exact (fresh_cmdStart hw h).final
  | stop env => exact hw.of_quiet (quiet_cmdStop env w)
  | status env =>
    rw [step, cmdStatus_world]
    exact hw
  | delete env => exact (fresh_cmdDelete hw).final
  | mount => exact hw
  | unmount => exact hw
  | autoconfigure env => exact (fresh_cmdAutoconfigure hw hevents h).final

end Commands

/-! ### Any number of commands -/

/-- **Every address taken from `guest-ip` was written by the VM run that is running**,
in every run in which no start spawns vfkit while the file holds an address or while
another VM is alive. -/
theorem answers_are_current (host : Host) (w : World) (hprocs : ∀ pid, w.procs pid = none) (hlog : w.log = [])
    (inputs : List Input) (hevents : ∀ i ∈ inputs, ∀ e ∈ i.events, OwnProcess e)
    (h : Along host (Careful host) w inputs) : AnswersCurrent (run host w inputs).log := by
  have hw : Fresh w := by
    refine ⟨fun pid p hp => ?_, fun pid _ vm _ hvm => ?_, fun pid vm _ hvm => ?_, fun _ _ _ hmem => ?_⟩
    · simp [hprocs] at hp
    · simp [World.runOf, hprocs] at hvm
    · simp [World.runOf, hprocs] at hvm
    · simp [hlog] at hmem
  refine (Runs.run_invariant ?_ hw (h.and_forall hevents)).answers
  exact fun w i hw hi => fresh_step i hw hi.2 hi.1

/-! ### An address from an earlier run -/

/-- What a guest with this address writes to the share. -/
def report : Bytes := encode "192.168.64.4\n".toList

/-- A look for the address while the new guest has not reported yet. -/
def early : Poll where
  before := []
  ps := true
  restApi := none
  vsock := none
  readable _ := true
  leases _ := none
  arp := none
  expired := false

/-- A VM starts, and its guest reports. -/
def reporting : List Input := [.start (booting 100), .event (.vmWrites 100 .guestIp report)]

/-- A VM starts, and is asked for its address before its guest has reported. -/
def asking : List Input := [.start (booting 101), .autoconfigure (configuring none [early])]

def stopping : List Input := [.stop ⟨.none, .delivers, .none, .none⟩]

theorem early_finds {d : StateDisk} (h : d.file .guestIp = some report) (searched : List Text) :
    look defaultDhcpLeasesPath early d searched = .found ⟨192, 168, 64, 4⟩ .guestIp := by
  have htext : early.text d .guestIp = some "192.168.64.4\n".toList := by
    show (d.file .guestIp).bind decode = _
    rw [h, Option.bind_some, report, decode_encode]
  have hip : guestIpOf "192.168.64.4\n".toList = some ⟨192, 168, 64, 4⟩ := by decide +kernel
  unfold look
  rw [htext, Option.bind_some, hip]
  rfl

/-- An address that is in the share as a VM starts is given for that VM. -/
theorem asking_answers {w : World} (hfree : Free w.procs 101) (hstartable : Startable w.disk)
    (hguest : w.disk.file .guestIp = some report) :
    .answered ⟨192, 168, 64, 4⟩ .guestIp (some w.boots) (w.lastWritten .guestIp) ∈
      (run laptop w asking).log := by
  obtain ⟨args, d, hstart, hready, hpid, honly⟩ := booting_boots hfree hstartable
  let w1 := ((w.setDisk d).spawn (vfkit 101) args).note (.started (d.file .userData) (d.file .metaData))
  let env := configuring none [early]
  have hfault : ∀ s, env.fault s = .none := fun _ => rfl
  obtain ⟨d', hcopy⟩ : ∃ d', copyCredentials laptop env d = (.ok (), d') :=
    ⟨_, copyCredentials_whole laptop hfault hready.holds.clientCert hready.holds.clientKey⟩
  have hcopied : Only (· ∈ confFiles (env.confDir laptop)) d d' := by
    have hwithin := within_copyCredentials laptop env d
    rwa [hcopy] at hwithin
  let w2 := w1.setDisk d'
  have hproc : w2.procs 101 = some ⟨(vfkit 101).state, (vfkit 101).comm, some w.boots⟩ := by
    have hself : ((w.setDisk d).spawn (vfkit 101) args).procs (vfkit 101).pid =
        some ⟨(vfkit 101).state, (vfkit 101).comm, some (w.setDisk d).boots⟩ := procs_spawn_self
    exact hself
  have hpid2 : w2.disk.file .vfkitPid = some (pidText 101) := (hcopied _ (by simp [confFiles])).trans hpid
  have hguest2 : w2.disk.file .guestIp = some report :=
    (hcopied _ (by simp [confFiles])).trans ((honly _ (by decide)).trans hguest)
  have hnamed : w2.namedRun = some w.boots := by
    rw [World.namedRun, World.namedPid, hpid2, Option.bind_some, readPid_pidText, Option.bind_some,
      World.runOf, hproc]
    exact if_pos (by simp [Process.alive, vfkit_live])
  have hwritten : w2.lastWritten .guestIp = w.lastWritten .guestIp := by
    have hlog : w2.log = .started (d.file .userData) (d.file .metaData) :: .spawned 101 args :: w.log := rfl
    rw [World.lastWritten, hlog]
    rfl
  have hresolve : resolveVmIp laptop isVmRunning defaultDhcpLeasesPath none [early] w2 =
      (.ok ⟨192, 168, 64, 4⟩,
        w2.note (.answered ⟨192, 168, 64, 4⟩ .guestIp (some w.boots) (w.lastWritten .guestIp))) := by
    have hnow : early.before.foldl happen w2 = w2 := rfl
    rw [← hnamed, ← hwritten]
    exact resolveLoop_found hnow (vfkit_running hpid2 hproc) (early_finds hguest2 _)
  rw [asking, run, Runs.run_cons, Runs.run_cons, Runs.run_nil, step_start, hstart, step,
    cmdAutoconfigure_running (by decide) hcopy (vfkit_running hpid2 hproc) hresolve]
  exact List.mem_cons_self ..

/-- The first VM is alive, and its guest has reported. -/
structure Reported (w : World) : Prop where
  ready : Ready w.disk material
  pidFile : w.disk.file .vfkitPid = some (pidText 100)
  process : w.procs 100 = some ⟨(vfkit 100).state, (vfkit 100).comm, some 0⟩
  free : w.procs 101 = none
  boots : w.boots = 1
  guestIp : w.disk.file .guestIp = some report
  written : w.lastWritten .guestIp = some (0, report)

theorem reporting_reports : Reported (run laptop nothing reporting) := by
  obtain ⟨args, d, hstart, hready, hpid, -⟩ :=
    booting_boots (show Free nothing.procs 100 from ⟨by decide, rfl⟩) startable_noFiles
  let w1 := ((nothing.setDisk d).spawn (vfkit 100) args).note (.started (d.file .userData) (d.file .metaData))
  have hproc : w1.procs 100 = some ⟨(vfkit 100).state, (vfkit 100).comm, some 0⟩ := by
    have hself : ((nothing.setDisk d).spawn (vfkit 100) args).procs (vfkit 100).pid =
        some ⟨(vfkit 100).state, (vfkit 100).comm, some 0⟩ := procs_spawn_self
    exact hself
  have hfree : w1.procs 101 = none := by
    have hother : ((nothing.setDisk d).spawn (vfkit 100) args).procs 101 = none :=
      procs_spawn_of_ne (by decide)
    exact hother
  have hvm : w1.runOf 100 = some 0 := by
    rw [World.runOf, hproc]
    exact if_pos (by simp [Process.alive, vfkit_live])
  have hreport : happen w1 (.vmWrites 100 .guestIp report) =
      (w1.setDisk (d.put .guestIp report)).note (.wrote 0 .guestIp report) :=
    happen_vmWrites hvm (by decide) hready.dir
  have hput : Only (· ∈ [File.guestIp]) d (d.put .guestIp report) := only_put d (by decide) _
  rw [reporting, run, Runs.run_cons, Runs.run_cons, Runs.run_nil, step_start, hstart, step, hreport]
  exact ⟨hready.of_only hput (by decide) hready.dir, (hput _ (by decide)).trans hpid, hproc, hfree, rfl,
    Disk.put_self .., rfl⟩

/-- The address is the one that the first VM run, number 0, has left behind, and it is
given for the second, number 1. -/
theorem stale_address : (∀ i ∈ reporting ++ stopping ++ asking, ∀ e ∈ i.events, OwnProcess e) ∧
    .answered ⟨192, 168, 64, 4⟩ .guestIp (some 1) (some (0, report)) ∈
      (run laptop nothing (reporting ++ stopping ++ asking)).log ∧
    ¬ AnswersCurrent (run laptop nothing (reporting ++ stopping ++ asking)).log := by
  obtain ⟨w, hw⟩ : ∃ w, run laptop nothing reporting = w := ⟨_, rfl⟩
  have hreported : Reported w := hw ▸ reporting_reports
  -- the stop leaves the report behind, and all that the next start needs
  obtain ⟨w', hw'⟩ : ∃ w', run laptop nothing (reporting ++ stopping) = w' := ⟨_, rfl⟩
  have hstep : w' = (cmdStop ⟨.none, .delivers, .none, .none⟩ w).2 := by
    rw [← hw', ← hw, run, stopping, Runs.run_concat, step]
  have hstop : Only (· ∈ runFiles) w.disk w'.disk := hstep ▸ cmdStop_only _ w
  have hquiet : Quiet w w' := hstep ▸ quiet_cmdStop _ w
  have hfree : Free w'.procs 101 := by
    refine ⟨by decide, Option.eq_none_iff_forall_not_mem.mpr fun p hp => ?_⟩
    obtain ⟨q, hq, -⟩ := hquiet.owned 101 p hp
    exact absurd (hreported.free.symm.trans hq) (by simp)
  have hstartable : Startable w'.disk :=
    ⟨(hstop _ (by decide)).trans hreported.ready.config,
      Or.inl (hreported.ready.imaged.of_only hstop (by decide)),
      Or.inl (hreported.ready.holds.of_only hstop (by decide))⟩
  have hanswered : .answered ⟨192, 168, 64, 4⟩ .guestIp (some 1) (some (0, report)) ∈
      (run laptop nothing (reporting ++ stopping ++ asking)).log := by
    have hasking := asking_answers hfree hstartable ((hstop _ (by decide)).trans hreported.guestIp)
    rw [hquiet.boots, hreported.boots, hquiet.written, hreported.written, ← hw'] at hasking
    rw [run, Runs.run_append]
    exact hasking
  refine ⟨?_, hanswered, fun h => ?_⟩
  · simp [reporting, stopping, asking, Input.events, OwnProcess, configuring, early]
  · obtain ⟨vm, b, hvm, hb, -⟩ := h _ _ _ hanswered
    simp only [Option.some.injEq, Prod.mk.injEq] at hvm hb
    omega

/-- A VM that is running is not started again. -/
theorem Reported.careful {w : World} (h : Reported w) :
    Careful laptop w (.autoconfigure (configuring none [early])) := by
  intro d _ hcopy hprobe
  have hwithin := within_copyCredentials laptop (configuring none [early]) w.disk
  rw [hcopy] at hwithin
  have hpid : d.file .vfkitPid = some (pidText 100) := (hwithin _ (by simp [confFiles])).trans h.pidFile
  have hproc : (w.setDisk d).procs 100 = some ⟨(vfkit 100).state, (vfkit 100).comm, some 0⟩ := h.process
  exact absurd ((vfkit_running hpid hproc).symm.trans hprobe) (by simp)

/-- The address of the guest that has just reported is its own. -/
def answering : List Input := reporting ++ [.autoconfigure (configuring none [early])]

theorem answering_current : AnswersCurrent (run laptop nothing answering).log := by
  refine answers_are_current laptop nothing (fun _ => rfl) rfl answering ?_ (Runs.Along.append.mpr ⟨?_, ?_⟩)
  · simp [answering, reporting, Input.events, OwnProcess, configuring, early]
  · exact ⟨fun args c _ => ⟨fun _ => rfl, fun b hb => by simp [nothing, noFiles] at hb⟩, trivial, trivial⟩
  · exact ⟨reporting_reports.careful, trivial⟩

end Malleus.GuestAddress
