import Malleus.Start
import Malleus.Library.Polling

/-! `wait_for_early_exit`: vfkit is watched for two seconds after it is spawned.

Every turn asks whether the child has exited and then reads the clock. An exit is
reported exactly if it is caught, that is, if the loop asks after it (`exit_reported`).
The loop is over within 41 turns (`over_in_time`), and it ends well with an exit that it
has not caught by then (`outlived_of_late`). -/
namespace Malleus
open Effect Strings Storage Polling

namespace GracePeriod

/-- `VFKIT_STARTUP_GRACE` and the pause between two turns, in milliseconds. -/
def startupGrace : Nat := 2000
def pause : Nat := 50

/-- What `try_wait` says; an exit by a signal has no status. -/
inductive TryWait where
  | fails
  | running
  | exited (status : Option Int)
  deriving DecidableEq, Repr

/-- One turn: when `try_wait` is asked, what it says, and what the clock says then. -/
structure Tick where
  asked : Nat
  answer : TryWait
  now : Nat
  deriving DecidableEq, Repr

/-- How the wait ends: with an error, with nothing to report, or with an exit. -/
inductive Waited where
  | fails
  | outlived
  | exited (status : Option Int)
  deriving DecidableEq, Repr

/-- `try_wait` is asked first and the clock is read only of a child that runs. -/
def check (_ : Unit) (tick : Tick) : Turn Unit Waited :=
  match tick.answer with
  | .fails => .done .fails
  | .exited status => .done (.exited status)
  | .running => if startupGrace ≤ tick.now then .done .outlived else .again ()

/-- `wait_for_early_exit`; none where the turns run out before it comes to an end. -/
def waitForEarlyExit (ticks : List Tick) : Option Waited := poll check () ticks

/-- What the wait means for the start. -/
def early (ticks : List Tick) (stderr : Bytes) (readErr : Fault) : Early :=
  match waitForEarlyExit ticks with
  | none => .killed
  | some .fails => .waitFails
  | some .outlived => .outlives
  | some (.exited status) => .exits status stderr readErr

/-! ### One turn -/

section Check
variable {tick : Tick} {u u' : Unit} {status : Option Int}

/-- The loop goes on exactly while the child runs and there is time. -/
theorem check_again : check u tick = .again u' ↔ tick.answer = .running ∧ tick.now < startupGrace := by
  unfold check
  cases tick.answer with
  | fails => simp
  | exited status => simp
  | running =>
    dsimp only
    split
    · next h => simp [Nat.not_lt.mpr h]
    · next h => simp [Nat.lt_of_not_le h]

theorem check_fails : check u tick = .done .fails ↔ tick.answer = .fails := by
  unfold check
  cases tick.answer with
  | fails => simp
  | exited status => simp
  | running =>
    dsimp only
    split
    · simp
    · simp

theorem check_exited : check u tick = .done (.exited status) ↔ tick.answer = .exited status := by
  unfold check
  cases tick.answer with
  | fails => simp
  | exited status' => simp
  | running =>
    dsimp only
    split
    · simp
    · simp

end Check

/-- The loop waits while the child runs and there is time. -/
theorem waits_iff {ticks : List Tick} : Waits check () ticks () ↔
    ∀ tick ∈ ticks, tick.answer = .running ∧ tick.now < startupGrace := by
  induction ticks with
  | nil => simp [Waits.nil]
  | cons tick ticks ih =>
    rw [List.forall_mem_cons, ← ih]
    constructor
    · intro h
      cases h with
      | cons hcheck hrest => exact ⟨check_again.mp hcheck, hrest⟩
    · rintro ⟨hfirst, hrest⟩
      exact .cons (check_again.mpr hfirst) hrest

/-! ### A child that exits -/

/-- What the turn is told of a child that exits at this time, or does not exit. -/
def Sees (exit : Option (Nat × Option Int)) (tick : Tick) : Prop :=
  tick.answer = exit.elim .running fun e => if e.1 ≤ tick.asked then .exited e.2 else .running

/-- The loop asks after the exit, before the turn that finds the grace period over or in
that turn. -/
def Caught (time : Nat) (ticks : List Tick) : Prop :=
  ∃ before tick after, ticks = before ++ tick :: after ∧
    (∀ t ∈ before, t.now < startupGrace) ∧ time ≤ tick.asked

section Child
variable {ticks : List Tick} {time : Nat} {status status' : Option Int}

/-- **An exit is reported exactly if it is caught.** -/
theorem exit_reported (hsees : ∀ tick ∈ ticks, Sees (some (time, status)) tick) :
    waitForEarlyExit ticks = some (.exited status') ↔ status' = status ∧ Caught time ticks := by
  constructor
  · intro h
    obtain ⟨before, tick, after, _, rfl, hwaits, hcheck⟩ := poll_eq_some_iff.mp h
    have hanswer : tick.answer = .exited status' := check_exited.mp hcheck
    have hsaw := hsees tick (by simp)
    rw [Sees, Option.elim_some, hanswer] at hsaw
    split at hsaw
    · next htime =>
      refine ⟨TryWait.exited.inj hsaw, before, tick, after, rfl, fun t ht => ?_, htime⟩
      exact (waits_iff.mp hwaits t ht).2
    · cases hsaw
  · rintro ⟨rfl, before, tick, after, rfl, hbefore, htime⟩
    unfold waitForEarlyExit
    induction before with
    | nil =>
      have hsaw := hsees tick (by simp)
      rw [Sees, Option.elim_some, if_pos htime] at hsaw
      exact poll_cons_done (check_exited.mpr hsaw)
    | cons t before ih =>
      have hsaw := hsees t (by simp)
      rw [Sees, Option.elim_some] at hsaw
      rw [List.cons_append]
      split at hsaw
      · exact poll_cons_done (check_exited.mpr hsaw)
      · have hagain : check () t = .again () :=
          check_again.mpr ⟨hsaw, hbefore t (List.mem_cons_self ..)⟩
        rw [poll_cons_again hagain]
        refine ih (fun t' ht' => hsees t' ?_) fun t' ht' => hbefore t' (List.mem_cons_of_mem t ht')
        exact List.mem_cons_of_mem t ht'

/-- The wait is over within 41 turns: with 50 milliseconds from one to the next, the two
seconds are up by then. -/
theorem over_in_time (hpaced : Paced pause Tick.now ticks) (hlong : 40 < ticks.length) :
    ∃ waited, waitForEarlyExit (ticks.take 41) = some waited := by
  have hwait : ∀ t ∈ ticks, ∀ u u', check u t = .again u' → t.now < startupGrace :=
    fun t _ u u' h => (check_again.mp h).2
  exact poll_answers (n := 40) hwait hpaced (by decide) hlong

/-- **The wait ends well** if the exit is not caught while it lasts. -/
theorem outlived_of_late (hsees : ∀ tick ∈ ticks, Sees (some (time, status)) tick)
    (hpaced : Paced pause Tick.now ticks) (hlong : 40 < ticks.length) (hlate : ¬ Caught time ticks) :
    waitForEarlyExit ticks = some .outlived := by
  obtain ⟨waited, htaken⟩ := over_in_time hpaced hlong
  have hwaited : waitForEarlyExit ticks = some waited := by
    rw [← List.take_append_drop 41 ticks]
    exact poll_append_of_some htaken _
  rw [hwaited]
  cases waited with
  | outlived => rfl
  | exited status' => exact absurd ((exit_reported hsees).mp hwaited).2 hlate
  | fails =>
    -- A child that is seen to run or to have exited is no failure of the question.
    obtain ⟨before, tick, after, _, rfl, _, hcheck⟩ := poll_eq_some_iff.mp hwaited
    have hsaw := hsees tick (by simp)
    rw [Sees, Option.elim_some, check_fails.mp hcheck] at hsaw
    split at hsaw
    · cases hsaw
    · cases hsaw

end Child

end GracePeriod

end Malleus
