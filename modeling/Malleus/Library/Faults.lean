import Malleus.Library.Storage

/-! Commands that return in spite of faults.

`Unfailing m m'` says that `m'` does all that `m` does where `m` returns. A single
operation stands in that relation to itself without its fault (`unfailing_stage`), and
a sequence to the sequence of its parts (`unfailing_bind`): a command that hands every
error on is thus related to itself without any fault at all, and a return of it tells
that nothing was left half done. A command that goes on after an error
(`Cmd.attempt`) has no such rule. -/
namespace Effect

variable {σ τ ε ε' α β : Type}

/-- Wherever the first command returns, the second returns the same, in the same state. -/
def Unfailing (m m' : Cmd σ ε α) : Prop := ∀ s a s', m s = (.ok a, s') → m' s = (.ok a, s')

theorem unfailing_refl (m : Cmd σ ε α) : Unfailing m m := fun _ _ _ h => h

theorem Unfailing.trans {m m' m'' : Cmd σ ε α} (h : Unfailing m m') (h' : Unfailing m' m'') :
    Unfailing m m'' := fun s a s' hm => h' s a s' (h s a s' hm)

theorem unfailing_bind {m m' : Cmd σ ε α} {f f' : α → Cmd σ ε β} (hm : Unfailing m m')
    (hf : ∀ a, Unfailing (f a) (f' a)) : Unfailing (m >>= f) (m' >>= f') := by
  intro s b s'' h
  obtain ⟨a, s', hfirst, hsecond⟩ := Cmd.bind_ok.mp h
  exact Cmd.bind_ok.mpr ⟨a, s', hm s a s' hfirst, hf a s' b s'' hsecond⟩

theorem unfailing_ite {c : Prop} [Decidable c] {m m' n n' : Cmd σ ε α} (hm : Unfailing m m')
    (hn : Unfailing n n') : Unfailing (if c then m else n) (if c then m' else n') := by
  split
  · exact hm
  · exact hn

theorem unfailing_mapError {m m' : Cmd σ ε α} (h : Unfailing m m') (f : ε → ε') :
    Unfailing (m.mapError f) (m'.mapError f) := fun s a s' hm =>
  Cmd.mapError_ok.mpr (h s a s' (Cmd.mapError_ok.mp hm))

/-- An operation that returns has had its whole effect. -/
theorem unfailing_stage (fault : Fault) (e : ε) (part : Nat → σ → σ) (whole : σ → σ) :
    Unfailing (stage fault e part whole) (stage .none e part whole) := by
  intro s a s' h
  cases fault with
  | none => exact h
  | fails done => cases done <;> cases h
  | kills done => cases done <;> cases h

end Effect

namespace Storage
open Effect Strings

variable {F D : Type} {fault : Fault}

theorem unfailing_createDirAll [DecidableEq D] [Tree F D] (x : D) :
    Unfailing (createDirAll fault x : Cmd (Disk F D) IoError Unit) (createDirAll .none x) :=
  unfailing_stage _ _ _ _

theorem unfailing_readFile (f : F) :
    Unfailing (readFile fault f : Cmd (Disk F D) IoError Bytes) (readFile .none f) :=
  unfailing_bind (unfailing_stage _ _ _ _) fun _ => unfailing_refl _

theorem unfailing_readToString (f : F) :
    Unfailing (readToString fault f : Cmd (Disk F D) IoError Text) (readToString .none f) :=
  unfailing_bind (unfailing_readFile f) fun _ => unfailing_refl _

theorem unfailing_openWrite (f : F) :
    Unfailing (openWrite fault f : Cmd (Disk F D) IoError Unit) (openWrite .none f) :=
  unfailing_bind (unfailing_readFile f) fun _ => unfailing_refl _

variable [DecidableEq F]

theorem unfailing_removeFile (f : F) :
    Unfailing (removeFile fault f : Cmd (Disk F D) IoError Unit) (removeFile .none f) :=
  unfailing_bind (unfailing_refl _) fun _ => unfailing_ite (unfailing_stage _ _ _ _) (unfailing_refl _)

theorem unfailing_setLen (f : F) (n : Nat) :
    Unfailing (setLen fault f n : Cmd (Disk F D) IoError Unit) (setLen .none f n) :=
  unfailing_bind (unfailing_refl _) fun _ => unfailing_ite (unfailing_stage _ _ _ _)
    (unfailing_bind (unfailing_stage _ _ _ _) fun _ => unfailing_refl _)

variable [Tree F D]

theorem unfailing_write (f : F) (b : Bytes) :
    Unfailing (write fault f b : Cmd (Disk F D) IoError Unit) (write .none f b) :=
  unfailing_bind (unfailing_refl _) fun _ => unfailing_ite (unfailing_stage _ _ _ _) (unfailing_refl _)

theorem unfailing_createFile (f : F) :
    Unfailing (createFile fault f : Cmd (Disk F D) IoError Unit) (createFile .none f) :=
  unfailing_write f []

theorem unfailing_copy (src dst : F) :
    Unfailing (copy fault src dst : Cmd (Disk F D) IoError Unit) (copy .none src dst) :=
  unfailing_bind (unfailing_refl _) fun _ => unfailing_write dst _

end Storage
