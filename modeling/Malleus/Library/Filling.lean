import Mathlib.Data.List.TakeDrop

/-! Filling a buffer from a source that gives as much at a time as it likes.

A read returns something while the source has something, and no more than there is space
for; how much is the source's choice. `Reads s sizes t` is a run of such reads, and
`reads_fills` says that every run that stops has the same in the buffer, and that none is
longer than the space it began with. -/
namespace Filling

variable {α : Type}

/-- The buffer, how much of it is filled, and what the source still has. -/
structure Loop (α : Type) where
  buf : List α
  filled : Nat
  rest : List α

namespace Loop

def space (s : Loop α) : Nat := s.buf.length - s.filled

/-- A read of `n` items into the space that is left. -/
def read (s : Loop α) (n : Nat) : Loop α where
  buf := s.buf.take s.filled ++ s.rest.take n ++ s.buf.drop (s.filled + n)
  filled := s.filled + n
  rest := s.rest.drop n

/-- What a read may return: nothing only if the source has nothing more. -/
structure MayReturn (s : Loop α) (n : Nat) : Prop where
  space : n ≤ s.space
  data : n ≤ s.rest.length
  progress : n = 0 → s.rest = []

/-- There is no space left, or a read returns nothing. -/
inductive Stops (s : Loop α) : Prop
  | full (h : s.buf.length ≤ s.filled)
  | empty (hspace : s.filled < s.buf.length) (h : s.MayReturn 0)

end Loop

/-- A run of reads that return something, with how much each of them returns. -/
inductive Reads : Loop α → List Nat → Loop α → Prop
  | done (s : Loop α) : Reads s [] s
  | read {s t : Loop α} {n : Nat} {sizes : List Nat} (hspace : s.filled < s.buf.length)
      (hn : 0 < n) (h : s.MayReturn n) (hrest : Reads (s.read n) sizes t) : Reads s (n :: sizes) t

/-! ### One read -/

/-- A run can go on wherever it does not stop. -/
theorem stops_or_reads (s : Loop α) :
    s.Stops ∨ s.filled < s.buf.length ∧ ∃ n, 0 < n ∧ s.MayReturn n := by
  by_cases hspace : s.filled < s.buf.length
  · by_cases hrest : s.rest = []
    · exact Or.inl (.empty hspace ⟨Nat.zero_le _, Nat.zero_le _, fun _ => hrest⟩)
    · have hdata := List.length_pos_iff.mpr hrest
      refine Or.inr ⟨hspace, 1, Nat.one_pos, ?_, hdata, by omega⟩
      rw [Loop.space]
      omega
  · exact Or.inl (.full (Nat.le_of_not_lt hspace))

/-- A read overwrites: the buffer keeps its length. -/
theorem length_read {s : Loop α} {n : Nat} (hn : s.MayReturn n) :
    (s.read n).buf.length = s.buf.length := by
  have hspace := hn.space
  have hdata := hn.data
  rw [Loop.space] at hspace
  show (s.buf.take s.filled ++ s.rest.take n ++ s.buf.drop (s.filled + n)).length = s.buf.length
  simp only [List.length_append, List.length_take, List.length_drop]
  omega

theorem space_read {s : Loop α} {n : Nat} (hn : s.MayReturn n) : (s.read n).space + n = s.space := by
  have hspace := hn.space
  rw [Loop.space] at hspace
  rw [Loop.space, length_read hn, Loop.space]
  show s.buf.length - (s.filled + n) + n = s.buf.length - s.filled
  omega

/-- The buffer has what was read of the source, and is as it was after that. -/
structure Filled (source target : List α) (s : Loop α) : Prop where
  source_le : s.filled ≤ source.length
  target_le : s.filled ≤ target.length
  rest : s.rest = source.drop s.filled
  buf : s.buf = source.take s.filled ++ target.drop s.filled

variable {source target : List α} {s t : Loop α} {n : Nat} {sizes : List Nat}

theorem filled_start (source target : List α) : Filled source target ⟨target, 0, source⟩ :=
  ⟨Nat.zero_le _, Nat.zero_le _, rfl, rfl⟩

theorem Filled.length (h : Filled source target s) : s.buf.length = target.length := by
  have hsource := h.source_le
  have htarget := h.target_le
  rw [h.buf, List.length_append, List.length_take, List.length_drop]
  omega

theorem Filled.read (h : Filled source target s) (hn : s.MayReturn n) :
    Filled source target (s.read n) := by
  have hspace := hn.space
  have hdata := hn.data
  have hlength := h.length
  have hsource := h.source_le
  have htarget := h.target_le
  rw [Loop.space] at hspace
  rw [h.rest, List.length_drop] at hdata
  have htaken : (source.take s.filled).length = s.filled := by
    rw [List.length_take]
    omega
  refine ⟨?_, ?_, ?_, ?_⟩
  · show s.filled + n ≤ source.length
    omega
  · show s.filled + n ≤ target.length
    omega
  · show s.rest.drop n = source.drop (s.filled + n)
    rw [h.rest, List.drop_drop]
  · show s.buf.take s.filled ++ s.rest.take n ++ s.buf.drop (s.filled + n) =
      source.take (s.filled + n) ++ target.drop (s.filled + n)
    have hkept : s.buf.take s.filled = source.take s.filled := by
      rw [h.buf, List.take_left' htaken]
    have hafter : s.buf.drop (s.filled + n) = target.drop (s.filled + n) := by
      rw [h.buf, ← List.drop_drop, List.drop_left' htaken, List.drop_drop]
    rw [hkept, hafter, h.rest, List.take_add]

/-- Where a run stops, the buffer has the source as far as both reach. -/
theorem Filled.stopped (h : Filled source target s) (hstop : s.Stops) :
    s.filled = min source.length target.length ∧
      s.buf = source.take target.length ++ target.drop source.length := by
  have hsource := h.source_le
  have htarget := h.target_le
  have hfilled : s.filled = min source.length target.length := by
    cases hstop with
    | full hfull =>
      rw [h.length] at hfull
      omega
    | empty hspace hzero =>
      have hnone := congrArg List.length (hzero.progress rfl)
      rw [h.rest, List.length_drop, List.length_nil] at hnone
      omega
  refine ⟨hfilled, ?_⟩
  rw [h.buf, hfilled]
  cases Nat.le_total source.length target.length with
  | inl hle => rw [Nat.min_eq_left hle, List.take_of_length_le (Nat.le_refl _), List.take_of_length_le hle]
  | inr hle =>
    rw [Nat.min_eq_right hle, List.drop_of_length_le (Nat.le_refl _), List.drop_of_length_le hle]

/-! ### Runs -/

theorem Reads.filled (hrun : Reads s sizes t) (h : Filled source target s) : Filled source target t := by
  induction hrun with
  | done => exact h
  | read _ _ hn _ ih => exact ih (h.read hn)

/-- Every read takes space. -/
theorem Reads.length_le (hrun : Reads s sizes t) : sizes.length + t.space ≤ s.space := by
  induction hrun with
  | done s => simp
  | @read s t n sizes _ hn hmay _ ih =>
    have hless := space_read hmay
    rw [List.length_cons]
    omega

/-- **Every way of reading fills the buffer alike**: no run is longer than the buffer, and
where one stops it has the source as far as both reach. -/
theorem reads_fills (hrun : Reads ⟨target, 0, source⟩ sizes t) :
    sizes.length ≤ target.length ∧ (t.Stops → t.filled = min source.length target.length ∧
      t.buf = source.take target.length ++ target.drop source.length) := by
  have hlength : sizes.length + t.space ≤ target.length := hrun.length_le
  exact ⟨by omega, (hrun.filled (filled_start source target)).stopped⟩

end Filling
