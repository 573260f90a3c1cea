import Mathlib.Data.List.Chain

/-! Loops that look again and again until they have an answer.

A turn of the loop gives an answer or leaves a state for the next one. The loop's answer
is that of the first turn that has one (`poll_eq_some_iff`), and where every turn after
a deadline has one and the turns are spaced out, there are only so many of them
(`poll_answers`). -/
namespace Polling

/-- What a turn comes to. -/
inductive Turn (σ α : Type) where
  | done (answer : α)
  | again (s : σ)
  deriving DecidableEq, Repr

variable {σ τ α : Type} (turn : σ → τ → Turn σ α)

/-- The loop; no answer if the turns run out while it waits. -/
def poll : σ → List τ → Option α
  | _, [] => none
  | s, t :: ts =>
    match turn s t with
    | .done a => some a
    | .again s' => poll s' ts

/-- The loop waits through all of these turns. -/
inductive Waits : σ → List τ → σ → Prop
  | nil (s : σ) : Waits s [] s
  | cons {s s' s'' : σ} {t : τ} {ts : List τ} (h : turn s t = .again s') (hrest : Waits s' ts s'') :
      Waits s (t :: ts) s''

/-- Every turn comes at least `pause` after the one before it. -/
def Paced (pause : Nat) (clock : τ → Nat) (ts : List τ) : Prop :=
  ts.IsChain fun t t' => clock t + pause ≤ clock t'

variable {turn} {s s' : σ} {t : τ} {ts early late : List τ} {a : α}

/-! ### The first answer -/

theorem poll_cons_done (h : turn s t = .done a) : poll turn s (t :: ts) = some a := by
  rw [poll, h]

theorem poll_cons_again (h : turn s t = .again s') : poll turn s (t :: ts) = poll turn s' ts := by
  rw [poll, h]

/-- What the loop has waited through does not count. -/
theorem Waits.poll_append (h : Waits turn s early s') (late : List τ) :
    poll turn s (early ++ late) = poll turn s' late := by
  induction h with
  | nil s => rfl
  | cons h _ ih =>
    rw [List.cons_append, poll_cons_again h]
    exact ih

/-- The loop waits through all its turns or through those before the first answer. -/
theorem waits_or_answers (turn : σ → τ → Turn σ α) (s : σ) (ts : List τ) :
    (∃ s', Waits turn s ts s') ∨
      ∃ early t late s' a, ts = early ++ t :: late ∧ Waits turn s early s' ∧ turn s' t = .done a := by
  induction ts generalizing s with
  | nil => exact Or.inl ⟨s, .nil s⟩
  | cons t ts ih =>
    cases hturn : turn s t with
    | done a => exact Or.inr ⟨[], t, ts, s, a, rfl, .nil s, hturn⟩
    | again s1 =>
      cases ih s1 with
      | inl hwaits =>
        obtain ⟨s', h⟩ := hwaits
        exact Or.inl ⟨s', .cons hturn h⟩
      | inr hanswers =>
        obtain ⟨early, t', late, s', a, hts, hwaits, hdone⟩ := hanswers
        exact Or.inr ⟨t :: early, t', late, s', a, by rw [hts, List.cons_append],
          .cons hturn hwaits, hdone⟩

/-- **The loop answers with its first answer.** -/
theorem poll_eq_some_iff : poll turn s ts = some a ↔
    ∃ early t late s', ts = early ++ t :: late ∧ Waits turn s early s' ∧ turn s' t = .done a := by
  constructor
  · intro h
    cases waits_or_answers turn s ts with
    | inl hwaits =>
      obtain ⟨s', hwaits⟩ := hwaits
      have hnone := hwaits.poll_append []
      rw [List.append_nil, h] at hnone
      cases hnone
    | inr hanswers =>
      obtain ⟨early, t, late, s', b, hts, hwaits, hdone⟩ := hanswers
      rw [hts, hwaits.poll_append, poll_cons_done hdone] at h
      exact ⟨early, t, late, s', hts, hwaits, hdone.trans (congrArg Turn.done (Option.some.inj h))⟩
  · rintro ⟨early, t, late, s', rfl, hwaits, hdone⟩
    rw [hwaits.poll_append, poll_cons_done hdone]

theorem poll_eq_none_iff : poll turn s ts = none ↔ ∃ s', Waits turn s ts s' := by
  constructor
  · intro h
    cases waits_or_answers turn s ts with
    | inl hwaits => exact hwaits
    | inr hanswers =>
      obtain ⟨early, t, late, s', a, hts, hwaits, hdone⟩ := hanswers
      rw [hts, hwaits.poll_append, poll_cons_done hdone] at h
      cases h
  · rintro ⟨s', hwaits⟩
    have hnone := hwaits.poll_append []
    rwa [List.append_nil] at hnone

/-- Turns that come after the answer are not taken. -/
theorem poll_append_of_some (h : poll turn s ts = some a) (late : List τ) :
    poll turn s (ts ++ late) = some a := by
  obtain ⟨early, t, rest, s', rfl, hwaits, hdone⟩ := poll_eq_some_iff.mp h
  exact poll_eq_some_iff.mpr ⟨early, t, rest ++ late, s', by simp, hwaits, hdone⟩

/-- The last of the turns that the loop waits through. -/
theorem Waits.last (h : Waits turn s (ts ++ [t]) s') : ∃ s1, turn s1 t = .again s' := by
  induction ts generalizing s with
  | nil =>
    cases h with
    | cons h hrest =>
      cases hrest
      exact ⟨s, h⟩
  | cons t' ts ih =>
    cases h with
    | cons _ hrest => exact ih hrest

/-- A loop that does not look at a part of each turn. -/
theorem poll_map {υ : Type} (f : υ → τ) (s : σ) (us : List υ) :
    poll (fun s u => turn s (f u)) s us = poll turn s (us.map f) := by
  induction us generalizing s with
  | nil => rfl
  | cons u us ih =>
    rw [List.map_cons, poll, poll]
    cases turn s (f u) with
    | done a => rfl
    | again s1 => exact ih s1

/-! ### Deadlines -/

section Deadline
variable {pause deadline : Nat} {clock : τ → Nat}

theorem Paced.append_left (h : Paced pause clock (early ++ late)) : Paced pause clock early :=
  List.IsChain.left_of_append h

/-- By the time of the last turn, there have been as many pauses as turns before it. -/
theorem Paced.le_clock (h : Paced pause clock (ts ++ [t])) : ts.length * pause ≤ clock t := by
  induction ts using List.reverseRecOn generalizing t with
  | nil => simp
  | append_singleton ts t' ih =>
    have hlast : clock t' + pause ≤ clock t := by
      have hchain := h
      rw [Paced, List.append_assoc, List.singleton_append] at hchain
      exact (List.isChain_append_cons_cons.mp hchain).2.1
    have hrest := ih h.append_left
    rw [List.length_append, List.length_singleton, Nat.succ_mul]
    omega

/-- A loop that only waits before the deadline does not wait through many turns. -/
theorem Waits.length_le (hwait : ∀ t ∈ ts, ∀ s s', turn s t = .again s' → clock t < deadline)
    (hpaced : Paced pause clock ts) (h : Waits turn s ts s') (hts : ts ≠ []) :
    (ts.length - 1) * pause < deadline := by
  obtain ⟨init, last, rfl⟩ := (List.eq_nil_or_concat' ts).resolve_left hts
  have hlast : clock last < deadline := by
    obtain ⟨s1, h1⟩ : ∃ s1, turn s1 last = .again s' := h.last
    exact hwait last (by simp) _ _ h1
  have hclock := hpaced.le_clock
  rw [List.length_append, List.length_singleton, Nat.add_sub_cancel]
  omega

/-- **A paced loop with a deadline answers**: in the turns that come before the deadline
or in the one after them. -/
theorem poll_answers (hwait : ∀ t ∈ ts, ∀ s s', turn s t = .again s' → clock t < deadline)
    (hpaced : Paced pause clock ts) {n : Nat} (hn : deadline ≤ n * pause) (hlong : n < ts.length) :
    ∃ a, poll turn s (ts.take (n + 1)) = some a := by
  by_contra hno
  obtain ⟨s', hwaits⟩ := poll_eq_none_iff.mp (by
    simpa [Option.eq_none_iff_forall_ne_some] using hno)
  have hlength : (ts.take (n + 1)).length = n + 1 := by
    rw [List.length_take]
    omega
  have hne : ts.take (n + 1) ≠ [] := List.ne_nil_of_length_eq_add_one hlength
  have hpaced' : Paced pause clock (ts.take (n + 1)) := by
    rw [← List.take_append_drop (n + 1) ts] at hpaced
    exact hpaced.append_left
  have h := hwaits.length_le (fun t ht => hwait t (List.mem_of_mem_take ht)) hpaced' hne
  rw [hlength, Nat.add_sub_cancel] at h
  omega

end Deadline

end Polling
