import Mathlib.Data.List.Basic

/-! Runs of a deterministic machine whose inputs say everything that may happen.

`run step s is` takes the inputs one after the other. `Along ok step s is` says
that every input of the run is admissible in the state it meets, and
`run_invariant` is the induction: what every admissible step preserves holds in
every state such a run reaches. -/
namespace Runs

variable {σ ι : Type} (step : σ → ι → σ)

def run (s : σ) (inputs : List ι) : σ := inputs.foldl step s

@[simp] theorem run_nil (s : σ) : run step s [] = s := rfl

@[simp] theorem run_cons (s : σ) (i : ι) (rest : List ι) :
    run step s (i :: rest) = run step (step s i) rest := rfl

theorem run_append (s : σ) (a b : List ι) : run step s (a ++ b) = run step (run step s a) b :=
  List.foldl_append ..

theorem run_concat (s : σ) (a : List ι) (i : ι) :
    run step s (a ++ [i]) = step (run step s a) i := by
  rw [run_append]
  rfl

/-- Every input of the run is admissible in the state it meets. -/
def Along (ok : σ → ι → Prop) : σ → List ι → Prop
  | _, [] => True
  | s, i :: rest => ok s i ∧ Along ok (step s i) rest

variable {step} {ok ok' : σ → ι → Prop} {I : σ → Prop}

theorem Along.append {s : σ} {a b : List ι} :
    Along step ok s (a ++ b) ↔ Along step ok s a ∧ Along step ok (run step s a) b := by
  induction a generalizing s with
  | nil => simp [Along]
  | cons i rest ih => simp [Along, ih, and_assoc]

/-- The last step of an admissible run is admissible where it is taken. -/
theorem Along.concat {s : σ} {a : List ι} {i : ι} (h : Along step ok s (a ++ [i])) :
    Along step ok s a ∧ ok (run step s a) i := by
  obtain ⟨ha, hi⟩ := Along.append.mp h
  exact ⟨ha, hi.1⟩

/-- Inputs that are admissible in every state. -/
theorem along_of_forall {s : σ} {inputs : List ι} (h : ∀ i ∈ inputs, ∀ s, ok s i) :
    Along step ok s inputs := by
  induction inputs generalizing s with
  | nil => trivial
  | cons i rest ih =>
    exact ⟨h i (List.mem_cons_self ..) s, ih fun j hj => h j (List.mem_cons_of_mem i hj)⟩

/-- What holds of every input may be asked of each step. -/
theorem Along.and_forall {p : ι → Prop} {s : σ} {inputs : List ι} (h : Along step ok s inputs)
    (hp : ∀ i ∈ inputs, p i) : Along step (fun s i => ok s i ∧ p i) s inputs := by
  induction inputs generalizing s with
  | nil => trivial
  | cons i rest ih =>
    exact ⟨⟨h.1, hp i (List.mem_cons_self ..)⟩, ih h.2 fun j hj => hp j (List.mem_cons_of_mem i hj)⟩

/-- What every admissible step preserves holds wherever an admissible run gets to. -/
theorem run_invariant (hstep : ∀ s i, I s → ok s i → I (step s i)) {s : σ} (hs : I s)
    {inputs : List ι} (h : Along step ok s inputs) : I (run step s inputs) := by
  induction inputs generalizing s with
  | nil => exact hs
  | cons i rest ih => exact ih (hstep s i hs h.1) h.2

/-- A machine whose steps go wrong only at the cost of a measure, and right only where
none of it is left: it goes wrong no more often than the measure allows, and after that
it goes right for ever. -/
theorem run_settles {wrong right : σ → ι → Prop} {measure : σ → Nat}
    (hstep : ∀ s i, ok s i → (wrong s i ∧ measure (step s i) < measure s) ∨
      (right s i ∧ measure (step s i) = 0)) {s : σ} {inputs : List ι}
    (h : Along step ok s inputs) :
    ∃ early late, inputs = early ++ late ∧ early.length ≤ measure s ∧
      Along step wrong s early ∧ Along step right (run step s early) late := by
  induction inputs generalizing s with
  | nil => exact ⟨[], [], rfl, Nat.zero_le _, trivial, trivial⟩
  | cons i rest ih =>
    obtain ⟨hi, hrest⟩ := h
    obtain ⟨early, late, hsplit, hlength, hwrong, hright⟩ := ih hrest
    cases hstep s i hi with
    | inl hbad =>
      refine ⟨i :: early, late, by rw [hsplit, List.cons_append], ?_, ⟨hbad.1, hwrong⟩, hright⟩
      exact Nat.succ_le_of_lt (Nat.lt_of_le_of_lt hlength hbad.2)
    | inr hgood =>
      -- nothing is left to go wrong, so the rest has no early part
      rw [hgood.2, Nat.le_zero, List.length_eq_zero_iff] at hlength
      rw [hlength, List.nil_append] at hsplit
      rw [hlength] at hright
      exact ⟨[], i :: rest, rfl, Nat.zero_le _, trivial, hgood.1, by rw [hsplit]; exact hright⟩

/-- A machine whose inputs reach a goal or bring a measure down reaches it, and goes wrong
before that no more often than the measure allows. -/
theorem run_reaches {wrong goal : σ → ι → Prop} {measure : σ → Nat} {inputs : List ι}
    (hstep : ∀ s, ∀ i ∈ inputs, I s →
      goal s i ∨ (wrong s i ∧ measure (step s i) < measure s ∧ I (step s i)))
    {s : σ} (hs : I s) (hlong : measure s < inputs.length) :
    ∃ early i late, inputs = early ++ i :: late ∧ early.length ≤ measure s ∧
      Along step wrong s early ∧ goal (run step s early) i := by
  induction inputs generalizing s with
  | nil => exact absurd hlong (Nat.not_lt_zero _)
  | cons i rest ih =>
    cases hstep s i (List.mem_cons_self ..) hs with
    | inl hgoal => exact ⟨[], i, rest, rfl, Nat.zero_le _, trivial, hgoal⟩
    | inr hbad =>
      obtain ⟨hwrong, hless, hnext⟩ := hbad
      have hlater : measure (step s i) < rest.length :=
        Nat.lt_of_lt_of_le hless (Nat.le_of_lt_succ hlong)
      obtain ⟨early, j, late, hsplit, hlength, halong, hgoal⟩ :=
        ih (fun s j hj => hstep s j (List.mem_cons_of_mem i hj)) hnext hlater
      exact ⟨i :: early, j, late, by rw [hsplit, List.cons_append],
        Nat.succ_le_of_lt (Nat.lt_of_le_of_lt hlength hless), ⟨hwrong, halong⟩, hgoal⟩

/-! ### Refinement -/

section Refinement
variable {τ α : Type} {next : τ → α → τ} {allowed allowed' : α → Prop} {t t' t'' : τ}

/-- Actions that are all allowed lead from here to there. -/
def Leads (next : τ → α → τ) (allowed : α → Prop) (t t' : τ) : Prop :=
  ∃ actions : List α, (∀ a ∈ actions, allowed a) ∧ t' = run next t actions

theorem Leads.refl (t : τ) : Leads next allowed t t := ⟨[], fun a ha => by simp at ha, rfl⟩

theorem Leads.single {a : α} (ha : allowed a) (t : τ) : Leads next allowed t (next t a) :=
  ⟨[a], fun b hb => by rwa [List.mem_singleton.mp hb], rfl⟩

theorem Leads.trans (h : Leads next allowed t t') (h' : Leads next allowed t' t'') :
    Leads next allowed t t'' := by
  obtain ⟨actions, hallowed, rfl⟩ := h
  obtain ⟨actions', hallowed', rfl⟩ := h'
  refine ⟨actions ++ actions', fun a ha => ?_, (run_append next t actions actions').symm⟩
  rcases List.mem_append.mp ha with ha | ha
  · exact hallowed a ha
  · exact hallowed' a ha

/-- A machine whose every step is a path of another machine, by actions of that step's own,
refines it: a whole run is the run of those actions, in the same order. -/
theorem run_refines {abs : σ → τ} {owns : ι → α → Prop}
    (hstep : ∀ s i, ok s i → Leads next (owns i) (abs s) (abs (step s i))) {s : σ} {inputs : List ι}
    (h : Along step ok s inputs) :
    ∃ actions : List (List α), List.Forall₂ (fun i as => ∀ a ∈ as, owns i a) inputs actions ∧
      abs (run step s inputs) = run next (abs s) actions.flatten := by
  induction inputs generalizing s with
  | nil => exact ⟨[], .nil, rfl⟩
  | cons i rest ih =>
    obtain ⟨first, hfirst, habs⟩ := hstep s i h.1
    obtain ⟨later, hlater, hrest⟩ := ih h.2
    refine ⟨first :: later, .cons hfirst hlater, ?_⟩
    rw [run_cons, hrest, habs, List.flatten_cons, run_append]

end Refinement

end Runs
