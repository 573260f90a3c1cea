import Malleus.System

/-! Whom `malleus stop` signals.

`stop` takes the PID from `vfkit.pid` and runs `kill`, without asking the liveness
probe that `status` and `autoconfigure` ask. `cmdStop_signals` says exactly when
that makes no difference. -/
namespace Malleus.StopSignals
open Effect Strings Storage

/-- A signal goes to a process, and the probe holds as it is sent. -/
def Probed : Note → Prop
  | .signalled target running => (∃ pid, target = .process pid) ∧ running = true
  | _ => True

/-- Every signal of this stop goes to what the probe takes for the VM. -/
def SignalsProbed (env : StopEnv) (w : World) : Prop :=
  ∃ new, (cmdStop env w).2.log = new ++ w.log ∧ ∀ n ∈ new, Probed n

/-- If the file can be read and `kill` run on the PID in it, that PID is not 0, and
whatever process has it passes the probe. -/
def Confirmed (env : StopEnv) (w : World) : Prop :=
  env.readPid = .none → env.kill = .delivers → ∀ pid, w.namedPid = some pid →
    pid ≠ 0 ∧ ∀ p, w.procs pid = some p → isVmRunning true w = true

/-- What a stop adds to the history. -/
def signals (env : StopEnv) (w : World) : List Note :=
  match w.namedPid with
  | none => []
  | some pid =>
    if env.readPid = .none ∧ env.kill = .delivers then
      if pid = 0 then [.signalled .callerGroup (isVmRunning true w)]
      else
        match w.procs pid with
        | none => []
        | some _ => [.signalled (.process pid) (isVmRunning true w)]
    else []

/-- A stop adds these notes to the history and no others, however it ends. -/
theorem cmdStop_log (env : StopEnv) (w : World) : (cmdStop env w).2.log = signals env w ++ w.log := by
  let R : World → Prop := fun w' => w'.log = signals env w ++ w.log
  have hremove : ∀ w', R w' → Ends (removeRunFiles env) w' (fun _ => R) R :=
    fun w' h => ends_removeRunFiles fun _ _ _ => h
  have h : Ends (cmdStop env) w (fun _ => R) R := by
    refine ends_cmdStop (fun hnone => ?_) fun pid hread hpid => ?_
    · show w.log = signals env w ++ w.log
      unfold signals
      split
      · rfl
      · next pid hpid =>
        have hread : env.readPid ≠ .none := fun hread => by simp [hnone hread] at hpid
        rw [if_neg fun hboth => hread hboth.1]
        rfl
    · have hsignals : signals env w =
          if env.kill = .delivers then
            if pid = 0 then [.signalled .callerGroup (isVmRunning true w)]
            else
              match w.procs pid with
              | none => []
              | some _ => [.signalled (.process pid) (isVmRunning true w)]
          else [] := by
        simp only [signals, hpid, hread, true_and]
      have hnotSent : env.kill ≠ .delivers → R w := fun hkill => by
        show w.log = signals env w ++ w.log
        rw [hsignals, if_neg hkill]
        rfl
      refine ends_runKill (fun hkill => ?_) (fun hkill => ?_) (fun hkill hzero => ?_)
        (fun hkill hpid hgone => ?_) fun p hkill hpid hp => ?_
      · exact hnotSent (by rw [hkill]; decide)
      · exact hremove w (hnotSent (by rw [hkill]; decide))
      · show _ = signals env w ++ w.log
        rw [hsignals, if_pos hkill, if_pos hzero]
        rfl
      · refine hremove w ?_
        show w.log = signals env w ++ w.log
        rw [hsignals, if_pos hkill, if_neg hpid, hgone]
        rfl
      · refine hremove _ ?_
        show (w.signal pid p).log = signals env w ++ w.log
        rw [hsignals, if_pos hkill, if_neg hpid, hp, signal_log]
        rfl
  exact h.final

/-- **A stop signals only what the probe takes for the VM exactly when the PID in the
file is confirmed.** It never asks: a PID that another program has been given is
signalled all the same, and so is PID 0, which is malleus and its own group. -/
theorem signalsProbed_iff (env : StopEnv) (w : World) : SignalsProbed env w ↔ Confirmed env w := by
  have hnotes : SignalsProbed env w ↔ ∀ n ∈ signals env w, Probed n := by
    constructor
    · intro hprobed
      obtain ⟨new, hlog, hnew⟩ := hprobed
      rw [cmdStop_log] at hlog
      rwa [List.append_cancel_right hlog]
    · exact fun h => ⟨_, cmdStop_log env w, h⟩
  rw [hnotes]
  unfold signals
  constructor
  · intro h hread hkill pid hpid
    simp only [hpid, hread, hkill, and_self, if_true] at h
    by_cases hzero : pid = 0
    · rw [if_pos hzero] at h
      obtain ⟨⟨pid, htarget⟩, -⟩ := h _ (List.mem_singleton_self _)
      exact absurd htarget (by simp)
    · refine ⟨hzero, fun p hp => ?_⟩
      rw [if_neg hzero, hp] at h
      exact (h _ (List.mem_singleton_self _)).2
  · intro h n hn
    split at hn
    · simp at hn
    · next pid hpid =>
      split at hn
      · next hboth =>
        obtain ⟨hzero, hprobe⟩ := h hboth.1 hboth.2 pid hpid
        rw [if_neg hzero] at hn
        split at hn
        · simp at hn
        · next p hp =>
          rw [List.mem_singleton.mp hn]
          exact ⟨⟨pid, rfl⟩, hprobe p hp⟩
      · simp at hn

/-! ### A PID that went to another program -/

/-- The PID file of a VM that is gone, and an `ssh` that was given its PID. -/
def recycled : World where
  disk := noFiles.put .vfkitPid (pidText 100)
  procs pid := if pid = 100 then some ⟨"S+".toList, "/usr/bin/ssh".toList, none⟩ else none
  incus _ := ⟨[], []⟩
  boots := 1
  log := []

def noFault : StopEnv := ⟨.none, .delivers, .none, .none⟩

/-- The stop signals the `ssh`. -/
theorem recycled_signalled : ¬ SignalsProbed noFault recycled := by
  intro hprobed
  obtain ⟨new, hlog, hnew⟩ := hprobed
  rw [cmdStop_log] at hlog
  obtain rfl := List.append_cancel_right hlog
  have hprobed := hnew (.signalled (.process 100) false) (by decide +kernel)
  exact absurd hprobed.2 (by decide)

end Malleus.StopSignals
