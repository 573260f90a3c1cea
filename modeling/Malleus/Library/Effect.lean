import Mathlib.Logic.Function.Basic

/-! Commands on a state that can be cut short.

A command returns, fails with an error, or is killed where it stands; in every
case it leaves the state it got to. `Ends m s P Q` says that `m`, started in
`s`, returns only in `P` and stops short only in `Q`, and `ends_bind` takes a
sequence of commands apart. `Within R m` is the special case of a frame: wherever
`m` ends, the state is `R`-related to the one it started from.

Where an operation may stop after part of its effect, a `Fault` says how far it
got, and `stage` is the operation behind that fault. -/
namespace Effect

/-- How a command ends. -/
inductive Outcome (ε α : Type) where
  | ok (value : α)
  | error (cause : ε)
  | killed
  deriving DecidableEq, Repr

/-- A command on states `σ` that can fail with `ε` and returns an `α`. -/
def Cmd (σ ε α : Type) : Type := σ → Outcome ε α × σ

variable {σ τ ε ε' α β : Type}

namespace Cmd

instance : Monad (Cmd σ ε) where
  pure a := fun s => (.ok a, s)
  bind m f := fun s =>
    match m s with
    | (.ok a, s') => f a s'
    | (.error e, s') => (.error e, s')
    | (.killed, s') => (.killed, s')

/-- End with an error, and leave the state as it is. -/
def fail (e : ε) : Cmd σ ε α := fun s => (.error e, s)

/-- The process ends here. -/
def die : Cmd σ ε α := fun s => (.killed, s)

def gets (f : σ → α) : Cmd σ ε α := fun s => (.ok (f s), s)

def modify (f : σ → σ) : Cmd σ ε Unit := fun s => (.ok (), f s)

/-- An error becomes `none`; a killed command stays killed. -/
def attempt (m : Cmd σ ε α) : Cmd σ ε' (Option α) := fun s =>
  match m s with
  | (.ok a, s') => (.ok (some a), s')
  | (.error _, s') => (.ok none, s')
  | (.killed, s') => (.killed, s')

/-- The same command, whose errors are told in other words. -/
def mapError (f : ε → ε') (m : Cmd σ ε α) : Cmd σ ε' α := fun s =>
  match m s with
  | (.ok a, s') => (.ok a, s')
  | (.error e, s') => (.error (f e), s')
  | (.killed, s') => (.killed, s')

/-- A command on a part of the state. -/
def zoom (get : σ → τ) (set : τ → σ → σ) (m : Cmd τ ε α) : Cmd σ ε α := fun s =>
  ((m (get s)).1, set (m (get s)).2 s)

theorem bind_apply (m : Cmd σ ε α) (f : α → Cmd σ ε β) (s : σ) :
    (m >>= f) s = match m s with
      | (.ok a, s') => f a s'
      | (.error e, s') => (.error e, s')
      | (.killed, s') => (.killed, s') := rfl

theorem bind_ok {m : Cmd σ ε α} {f : α → Cmd σ ε β} {s s'' : σ} {b : β} :
    (m >>= f) s = (.ok b, s'') ↔ ∃ a s', m s = (.ok a, s') ∧ f a s' = (.ok b, s'') := by
  rw [bind_apply]
  constructor
  · intro h
    rcases hm : m s with ⟨a | _ | _, s'⟩ <;> rw [hm] at h
    · exact ⟨a, s', rfl, h⟩
    · simp at h
    · simp at h
  · intro hmid
    obtain ⟨a, s', hm, hf⟩ := hmid
    rw [hm]
    exact hf

/-- A result that one branch does not give comes from the other. -/
theorem ite_error {c : Prop} [Decidable c] {e : ε} {a : α} {s s' : σ} {r : Outcome ε α × σ} :
    (if c then (.error e, s) else r) = (.ok a, s') ↔ ¬ c ∧ r = (.ok a, s') := by
  split
  · next hc => simp [hc]
  · next hc => simp [hc]

theorem ite_else_error {c : Prop} [Decidable c] {e : ε} {a : α} {s s' : σ} {r : Outcome ε α × σ} :
    (if c then r else (.error e, s)) = (.ok a, s') ↔ c ∧ r = (.ok a, s') := by
  split
  · next hc => simp [hc]
  · next hc => simp [hc]

/-- A first command that returns hands over to the second. -/
theorem bind_of_ok {m : Cmd σ ε α} {s s' : σ} {a : α} (h : m s = (.ok a, s')) (f : α → Cmd σ ε β) :
    (m >>= f) s = f a s' := by
  rw [bind_apply, h]

theorem gets_apply (f : σ → α) (s : σ) : (gets f : Cmd σ ε α) s = (.ok (f s), s) := rfl

theorem modify_apply (f : σ → σ) (s : σ) : (modify f : Cmd σ ε Unit) s = (.ok (), f s) := rfl

theorem mapError_of_ok {m : Cmd σ ε α} {s s' : σ} {a : α} (h : m s = (.ok a, s')) (f : ε → ε') :
    m.mapError f s = (.ok a, s') := by
  rw [mapError, h]

/-- An error that is renamed is still an error. -/
theorem mapError_ok {m : Cmd σ ε α} {s s' : σ} {a : α} {f : ε → ε'} :
    m.mapError f s = (.ok a, s') ↔ m s = (.ok a, s') := by
  constructor
  · intro h
    unfold mapError at h
    rcases hm : m s with ⟨b | e | _, s1⟩ <;> rw [hm] at h
    · cases h
      rfl
    · cases h
    · cases h
  · exact fun h => mapError_of_ok h f

end Cmd

/-! ### Where a command ends -/

/-- Started in `s`, the command returns only in `P` and stops short only in `Q`. -/
def Ends (m : Cmd σ ε α) (s : σ) (P : α → σ → Prop) (Q : σ → Prop) : Prop :=
  match m s with
  | (.ok a, s') => P a s'
  | (_, s') => Q s'

variable {m : Cmd σ ε α} {s : σ} {P P' : α → σ → Prop} {Q Q' : σ → Prop}

theorem ends_iff : Ends m s P Q ↔
    (∀ a s', m s = (.ok a, s') → P a s') ∧ (∀ e s', m s = (.error e, s') → Q s') ∧
      (∀ s', m s = (.killed, s') → Q s') := by
  unfold Ends
  rcases m s with ⟨_ | _ | _, s'⟩ <;> simp

/-- A command that is known to return. -/
theorem ends_of_eq {a : α} {s' : σ} (h : m s = (.ok a, s')) : Ends m s P Q ↔ P a s' := by
  unfold Ends
  rw [h]

theorem Ends.of_ok (h : Ends m s P Q) {a : α} {s' : σ} (hm : m s = (.ok a, s')) : P a s' :=
  (ends_iff.mp h).1 a s' hm

/-- A command that can stop nowhere returns. -/
theorem Ends.returns (h : Ends m s P Q) (hq : ∀ s', ¬ Q s') : ∃ a s', m s = (.ok a, s') ∧ P a s' := by
  obtain ⟨hok, herror, hkilled⟩ := ends_iff.mp h
  rcases hm : m s with ⟨a | e | _, s'⟩
  · exact ⟨a, s', rfl, hok a s' hm⟩
  · exact absurd (herror e s' hm) (hq s')
  · exact absurd (hkilled s' hm) (hq s')

/-- What holds wherever the command ends. -/
theorem Ends.final {R : σ → Prop} (h : Ends m s (fun _ => R) R) : R (m s).2 := by
  unfold Ends at h
  rcases hm : m s with ⟨_ | _ | _, s'⟩ <;> rw [hm] at h <;> exact h

theorem Ends.mono (h : Ends m s P Q) (hp : ∀ a s', P a s' → P' a s') (hq : ∀ s', Q s' → Q' s') :
    Ends m s P' Q' := by
  obtain ⟨hok, herror, hkilled⟩ := ends_iff.mp h
  exact ends_iff.mpr ⟨fun a s' hm => hp a s' (hok a s' hm), fun e s' hm => hq s' (herror e s' hm),
    fun s' hm => hq s' (hkilled s' hm)⟩

theorem Ends.and (h : Ends m s P Q) (h' : Ends m s P' Q') :
    Ends m s (fun a s' => P a s' ∧ P' a s') (fun s' => Q s' ∧ Q' s') := by
  unfold Ends at *
  rcases hm : m s with ⟨_ | _ | _, s'⟩ <;> rw [hm] at h h' <;> exact ⟨h, h'⟩

@[simp] theorem ends_pure (a : α) : Ends (pure a : Cmd σ ε α) s P Q ↔ P a s := Iff.rfl

@[simp] theorem ends_fail (e : ε) : Ends (Cmd.fail e : Cmd σ ε α) s P Q ↔ Q s := Iff.rfl

@[simp] theorem ends_die : Ends (Cmd.die : Cmd σ ε α) s P Q ↔ Q s := Iff.rfl

@[simp] theorem ends_gets (f : σ → α) : Ends (Cmd.gets f : Cmd σ ε α) s P Q ↔ P (f s) s := Iff.rfl

@[simp] theorem ends_modify {P : Unit → σ → Prop} (f : σ → σ) :
    Ends (Cmd.modify f : Cmd σ ε Unit) s P Q ↔ P () (f s) := Iff.rfl

theorem ends_bind {f : α → Cmd σ ε β} {P : β → σ → Prop} :
    Ends (m >>= f) s P Q ↔ Ends m s (fun a s' => Ends (f a) s' P Q) Q := by
  unfold Ends
  rw [Cmd.bind_apply]
  rcases m s with ⟨_ | _ | _, s'⟩ <;> rfl

theorem ends_mapError {f : ε → ε'} : Ends (m.mapError f) s P Q ↔ Ends m s P Q := by
  unfold Ends Cmd.mapError
  rcases m s with ⟨_ | _ | _, s'⟩ <;> rfl

theorem ends_attempt (P : Option α → σ → Prop) (h : Ends m s (fun a => P (some a)) (P none))
    (hq : ∀ s', P none s' → Q s') : Ends (m.attempt : Cmd σ ε' (Option α)) s P Q := by
  unfold Ends Cmd.attempt at *
  rcases hm : m s with ⟨_ | _ | _, s'⟩ <;> rw [hm] at h
  · exact h
  · exact h
  · exact hq s' h

theorem ends_zoom {get : σ → τ} {set : τ → σ → σ} {m : Cmd τ ε α} :
    Ends (Cmd.zoom get set m) s P Q ↔
      Ends m (get s) (fun a t => P a (set t s)) (fun t => Q (set t s)) := by
  unfold Ends Cmd.zoom
  rcases m (get s) with ⟨_ | _ | _, t⟩ <;> rfl

/-! ### Frames -/

/-- Wherever the command ends, the state is related to the one it started from. -/
def Within (R : σ → σ → Prop) (m : Cmd σ ε α) : Prop := ∀ s, R s (m s).2

section Frames
variable {R : σ → σ → Prop}

theorem Within.ends (h : Within R m) (s : σ) : Ends m s (fun _ => R s) (R s) := by
  have hs := h s
  unfold Ends
  rcases hm : m s with ⟨_ | _ | _, s'⟩ <;> rw [hm] at hs <;> exact hs

theorem within_of_ends (h : ∀ s, Ends m s (fun _ => R s) (R s)) : Within R m :=
  fun s => (h s).final

theorem within_pure (hr : ∀ s, R s s) (a : α) : Within R (pure a : Cmd σ ε α) := hr

theorem within_fail (hr : ∀ s, R s s) (e : ε) : Within R (Cmd.fail e : Cmd σ ε α) := hr

theorem within_gets (hr : ∀ s, R s s) (f : σ → α) : Within R (Cmd.gets f : Cmd σ ε α) := hr

theorem within_bind (ht : ∀ s s' s'', R s s' → R s' s'' → R s s'') {f : α → Cmd σ ε β}
    (hm : Within R m) (hf : ∀ a, Within R (f a)) : Within R (m >>= f) := by
  intro s
  have h := hm s
  rw [Cmd.bind_apply]
  rcases hs : m s with ⟨a | _ | _, s'⟩ <;> rw [hs] at h
  · exact ht _ _ _ h (hf a s')
  · exact h
  · exact h

theorem within_mapError (hm : Within R m) (f : ε → ε') : Within R (m.mapError f) :=
  within_of_ends fun s => ends_mapError.mpr (hm.ends s)

theorem within_attempt (hm : Within R m) : Within R (m.attempt : Cmd σ ε' (Option α)) :=
  within_of_ends fun s => ends_attempt _ (hm.ends s) fun _ h => h

theorem within_zoom {S : τ → τ → Prop} {get : σ → τ} {set : τ → σ → σ} {m : Cmd τ ε α}
    (hm : Within S m) (hs : ∀ s t, S (get s) t → R s (set t s)) : Within R (Cmd.zoom get set m) :=
  fun s => hs s _ (hm (get s))

end Frames

/-! ### Operations that stop part way -/

/-- What goes wrong at one operation: nothing, an error handed back to the
program, or the end of the program there. `done` is how much of the effect had
happened, `none` when there was none at all. -/
inductive Fault where
  | none
  | fails (done : Option Nat)
  | kills (done : Option Nat)
  deriving DecidableEq, Repr

/-- How much of the effect has happened where the operation stopped short. -/
def Fault.progress : Fault → Option Nat
  | .none => Option.none
  | .fails done => done
  | .kills done => done

/-- The operation stops before it has any effect. -/
def Fault.Prevents (fault : Fault) : Prop := fault ≠ .none ∧ fault.progress = Option.none

/-- How a command ends that the fault stops. -/
def Fault.stop (e : ε) : Fault → Outcome ε α
  | .none => .error e
  | .fails _ => .error e
  | .kills _ => .killed

/-- An operation with effect `whole`, which a fault can stop with effect `part n`. -/
def stage (fault : Fault) (e : ε) (part : Nat → σ → σ) (whole : σ → σ) : Cmd σ ε Unit := fun s =>
  match fault with
  | .none => (.ok (), whole s)
  | .fails Option.none => (.error e, s)
  | .fails (some n) => (.error e, part n s)
  | .kills Option.none => (.killed, s)
  | .kills (some n) => (.killed, part n s)

theorem ends_stage {fault : Fault} {e : ε} {part : Nat → σ → σ} {whole : σ → σ}
    {P : Unit → σ → Prop} (hw : fault = .none → P () (whole s))
    (hs : fault ≠ .none → fault.progress = none → Q s)
    (hp : ∀ n, fault.progress = some n → Q (part n s)) : Ends (stage fault e part whole) s P Q := by
  match fault with
  | .none => exact hw rfl
  | .fails Option.none => exact hs (by simp) rfl
  | .fails (some n) => exact hp n rfl
  | .kills Option.none => exact hs (by simp) rfl
  | .kills (some n) => exact hp n rfl

@[simp] theorem stage_none (e : ε) (part : Nat → σ → σ) (whole : σ → σ) (s : σ) :
    stage .none e part whole s = (.ok (), whole s) := rfl

/-- An operation that is stopped has the part of its effect that the fault says. -/
theorem stage_of_ne {fault : Fault} (h : fault ≠ .none) (e : ε) (part : Nat → σ → σ) (whole : σ → σ)
    (s : σ) : stage fault e part whole s =
      (fault.stop e, fault.progress.elim s fun n => part n s) := by
  cases fault with
  | none => exact absurd rfl h
  | fails done => cases done <;> rfl
  | kills done => cases done <;> rfl

/-- What follows a command that is stopped does not happen. -/
theorem Cmd.bind_of_stop {m : Cmd σ ε α} {fault : Fault} {e : ε} {s s' : σ}
    (h : m s = (fault.stop e, s')) (f : α → Cmd σ ε β) : (m >>= f) s = (fault.stop e, s') := by
  rw [bind_apply, h]
  cases fault <;> rfl

theorem Cmd.mapError_of_stop {m : Cmd σ ε α} {fault : Fault} {e : ε} {s s' : σ}
    (h : m s = (fault.stop e, s')) (f : ε → ε') : m.mapError f s = (fault.stop (f e), s') := by
  rw [mapError, h]
  cases fault <;> rfl

end Effect
