import Mathlib.Data.List.Forall2
import Malleus.Observation

/-! What a deleted state directory leaves behind: nothing that a command could tell.

The commands read no file but those of the state directory, and neither the history nor
what an incus directory holds shows in what they do (`state_observer`). A removal makes any
two worlds look the same, so they go on alike (`delete_forgets`). -/
namespace Malleus.Reset
open Effect Strings Storage Observation

/-! ### The state directory -/

/-- The same directories, and the same in the state directory. -/
abbrev SameState : StateDisk → StateDisk → Prop := Agree fun f => f.inStateDir = true

theorem respects_generateIdentity (env : PkiEnv) (commonName : Text) (serial : Nat) :
    Respects SameState (Pki.generateIdentity env commonName serial) := by
  unfold Pki.generateIdentity
  cases env.generate commonName serial with
  | ok identity => exact respects_pure identity
  | error e => exact respects_fail e

theorem state_observer : Observer SameState Eq where
  toView := agree_view.mono fun _ hf => hf.1
  keyThere h := congrArg Option.isSome (h.file .clientKey rfl)
  reads _ := (respects_readToString agree_view (by rfl)).mono fun _ _ _ => trivial
  copies _ conf := respects_copy agree_view (by rfl) _
  faults h := congrArg PkiEnv.fault h
  client {env env'} h := by
    subst h
    refine (respects_generateIdentity env _ _).mono fun a b hab => ?_
    subst hab
    exact ⟨rfl, fun fault => respects_write agree_view _ _⟩
  server {env env'} h := by
    subst h
    exact respects_generateIdentity env _ _

/-! ### A removal -/

section Removal
variable {host : Host} {w w' : World}

/-- There is nothing of a state directory. -/
structure Bare (d : StateDisk) : Prop where
  file : ∀ f, f.inStateDir = true → d.file f = none
  dir : ∀ x, x.inStateDir = true → d.dir x = false

/-- The worlds look the same outside the state directory. -/
structure Beside (w w' : World) : Prop where
  dir : ∀ x, x.inStateDir = false → w.disk.dir x = w'.disk.dir x
  procs : w.procs = w'.procs
  incus : w.incus = w'.incus
  boots : w.boots = w'.boots

/-- A removal that meets no fault leaves nothing, and the rest as it was. -/
theorem delete_bares (host : Host) {env : DeleteEnv} (henv : env.fault = .none)
    (hthere : w.disk.dir .stateDir = true ∨ Bare w.disk) :
    Bare (step host w (.delete env)).disk ∧ Beside (step host w (.delete env)) w := by
  have hends : Ends (cmdDelete env) w (fun _ w' => Bare w'.disk ∧ Beside w' w)
      fun w' => Bare w'.disk ∧ Beside w' w := by
    unfold cmdDelete
    rw [ends_bind, ends_gets]
    split
    · rw [ends_io, henv, removeDirAll, ends_of_eq (stage_none ..)]
      refine ⟨⟨fun f hf => if_pos hf, fun x hx => ?_⟩, fun x hx => ?_, rfl, rfl, rfl⟩
      · show (w.disk.dir x && !x.inStateDir) = false
        rw [hx, Bool.not_true, Bool.and_false]
      · show (w.disk.dir x && !x.inStateDir) = w.disk.dir x
        rw [hx, Bool.not_false, Bool.and_true]
    · next habsent =>
      exact ⟨hthere.resolve_left habsent, fun _ _ => rfl, rfl, rfl, rfl⟩
  exact hends.final

/-- Without its directory a machine keeps nothing that malleus could read. -/
theorem alike_of_bare (hw : Bare w.disk) (hw' : Bare w'.disk) (h : Beside w w') :
    Alike SameState False w w' where
  disk :=
    { file := fun f hf => (hw.file f hf).trans (hw'.file f hf).symm
      dir := by
        funext x
        cases hx : x.inStateDir with
        | true => exact (hw.dir x hx).trans (hw'.dir x hx).symm
        | false => exact h.dir x hx }
  procs := h.procs
  incus := h.incus
  boots := h.boots
  log := False.elim

/-- **A removal is a complete reset**: whatever two state directories held, once each has been
removed every later run comes to the same replies and the same state, whether it reads,
starts, stops or configures. What incus directories hold does not tell the two apart, and
neither does the history. -/
theorem delete_forgets {env env' : DeleteEnv} (henv : env.fault = .none) (henv' : env'.fault = .none)
    (hthere : w.disk.dir .stateDir = true ∨ Bare w.disk)
    (hthere' : w'.disk.dir .stateDir = true ∨ Bare w'.disk) (h : Beside w w') (inputs : List Input) :
    replies host (step host w (.delete env)) inputs = replies host (step host w' (.delete env')) inputs ∧
      Alike SameState False (run host w (.delete env :: inputs))
        (run host w' (.delete env' :: inputs)) := by
  obtain ⟨hbare, hbeside⟩ := delete_bares host henv hthere
  obtain ⟨hbare', hbeside'⟩ := delete_bares host henv' hthere'
  have hsame : List.Forall₂ (Counterpart Eq) inputs inputs := List.forall₂_same.mpr fun i _ => .refl i
  refine alike_run state_observer hsame (alike_of_bare hbare hbare' ⟨fun x hx => ?_, ?_, ?_, ?_⟩)
  · exact (hbeside.dir x hx).trans ((h.dir x hx).trans (hbeside'.dir x hx).symm)
  · exact hbeside.procs.trans (h.procs.trans hbeside'.procs.symm)
  · exact hbeside.incus.trans (h.incus.trans hbeside'.incus.symm)
  · exact hbeside.boots.trans (h.boots.trans hbeside'.boots.symm)

end Removal

/-- A state directory with the record of a VM long gone, and one of the four PKI files. -/
def littered : World where
  disk :=
    { file := fun f =>
        if f = .vfkitPid then some (pidText 7) else if f = .clientKey then some [] else none
      dir := Dir.inStateDir }
  procs _ := none
  incus _ := ⟨[], []⟩
  boots := 0
  log := []

def deletion : DeleteEnv := ⟨.none, []⟩

/-- A start after the removal does what it does on a machine without the directory. -/
theorem delete_forgets_littered :
    replies laptop (step laptop littered (.delete deletion)) [.start (booting 100)] =
      replies laptop (step laptop nothing (.delete deletion)) [.start (booting 100)] := by
  have hdeletion : deletion.fault = .none := rfl
  have hthere : littered.disk.dir .stateDir = true := rfl
  have hbare : Bare nothing.disk := ⟨fun _ _ => rfl, fun _ _ => rfl⟩
  have hbeside : Beside littered nothing := ⟨fun _ hx => hx, rfl, rfl, rfl⟩
  exact (delete_forgets hdeletion hdeletion (Or.inl hthere) (Or.inr hbare) hbeside _).1

end Malleus.Reset
