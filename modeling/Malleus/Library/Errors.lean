import Malleus.Library.Effect

/-! What a command fails with.

`Ends` says where a command that stops short leaves the state, and nothing of the error;
`Raises m s P E` says that `m`, started in `s`, returns only in `P` and fails only with an
error and in a state that `E` allows. Of a command that is killed it says nothing, as that
command reports nothing. -/
namespace Effect

variable {σ τ ε ε' α β : Type}

/-- What holds when the command returns, and what holds of each error where it fails. -/
def Raises (m : Cmd σ ε α) (s : σ) (P : α → σ → Prop) (E : ε → σ → Prop) : Prop :=
  match m s with
  | (.ok a, s') => P a s'
  | (.error e, s') => E e s'
  | (.killed, _) => True

variable {m : Cmd σ ε α} {s s' : σ} {P P' : α → σ → Prop} {Q : σ → Prop} {E E' : ε → σ → Prop}

theorem Raises.mono (h : Raises m s P E) (hp : ∀ a s', P a s' → P' a s') (he : ∀ e s', E e s' → E' e s') :
    Raises m s P' E' := by
  unfold Raises at h ⊢
  rcases hm : m s with ⟨_ | _ | _, s'⟩ <;> rw [hm] at h
  · exact hp _ s' h
  · exact he _ s' h
  · trivial

/-- What is known of a command that returns can be used instead. -/
theorem Raises.returns (h : Raises m s P E) (hm : ∀ a s', m s = (.ok a, s') → P' a s') :
    Raises m s P' E := by
  unfold Raises at h ⊢
  rcases hend : m s with ⟨_ | _ | _, s'⟩ <;> rw [hend] at h
  · exact hm _ s' hend
  · exact h
  · trivial

end Effect
