import Malleus.Library.Strings

/-! Paths with their `.` and `..` resolved. -/
namespace Paths
open Strings

/-- One component onto the directories entered so far. -/
def enter (dirs : List Text) (component : Text) : List Text :=
  if component = [] ∨ component = ['.'] then dirs
  else if component = ['.', '.'] then dirs.dropLast
  else dirs ++ [component]

/-- The components of an absolute path from the root on. -/
def resolve (path : Text) : List Text := (path.splitOn '/').foldl enter []

/-- The path leads to an entry of the directory, and to nothing below it. -/
def DirectChild (dir path : Text) : Prop := ∃ name, resolve path = resolve dir ++ [name]

/-- A last component is entered from the directory before it. -/
theorem resolve_join (dir : Text) {name : Text} (h : '/' ∉ name) :
    resolve (dir ++ '/' :: name) = enter (resolve dir) name := by
  rw [resolve, List.splitOn_append_cons_self, List.splitOn_eq_singleton h, List.foldl_append]
  rfl

/-- **A name leads to an entry of its directory unless it is empty, `.` or `..`.** -/
theorem directChild_iff {dir name : Text} (h : '/' ∉ name) :
    DirectChild dir (dir ++ '/' :: name) ↔ name ≠ [] ∧ name ≠ ['.'] ∧ name ≠ ['.', '.'] := by
  rw [DirectChild, resolve_join dir h, enter]
  by_cases hstay : name = [] ∨ name = ['.']
  · rw [if_pos hstay]
    constructor
    · intro ⟨child, heq⟩
      have hlen := congrArg List.length heq
      simp at hlen
    · intro ⟨hne, hdot, _⟩
      cases hstay with
      | inl he => exact absurd he hne
      | inr hd => exact absurd hd hdot
  · rw [if_neg hstay]
    obtain ⟨hne, hdot⟩ := not_or.mp hstay
    by_cases hup : name = ['.', '.']
    · rw [if_pos hup]
      constructor
      · intro ⟨child, heq⟩
        have hlen := congrArg List.length heq
        rw [List.length_dropLast, List.length_append, List.length_singleton] at hlen
        omega
      · intro ⟨_, _, hneq⟩
        exact absurd hup hneq
    · rw [if_neg hup]
      exact ⟨fun _ => ⟨hne, hdot, hup⟩, fun _ => ⟨name, rfl⟩⟩

end Paths
