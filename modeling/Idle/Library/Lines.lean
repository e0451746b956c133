import Mathlib.Tactic

/-!
# Lines

A sequence is cut into lines at a delimiter. Lines of a sequence that ends with the delimiter are
not changed by what comes after it.
-/

namespace Lines

variable {α : Type*} [DecidableEq α] {d : α} {l r : List α}

/-- The lines of a sequence that are not empty; the last one need not be terminated. -/
def nonEmpty (d : α) (l : List α) : List (List α) := (l.splitOn d).filter (· ≠ [])

/-- Nothing, or a sequence that ends with the delimiter. -/
def Terminated (d : α) (l : List α) : Prop := l = [] ∨ ∃ m, l = m ++ [d]

@[simp]
lemma nonEmpty_nil : nonEmpty d [] = [] := by
  rw [nonEmpty, List.splitOn_nil]
  rfl

lemma nonEmpty_append_cons (l r : List α) :
    nonEmpty d (l ++ d :: r) = nonEmpty d l ++ nonEmpty d r := by
  rw [nonEmpty, List.splitOn_append_cons_self, List.filter_append, nonEmpty, nonEmpty]

/-- What comes after a delimiter is cut on its own. -/
lemma Terminated.nonEmpty_append (h : Terminated d l) (r : List α) :
    nonEmpty d (l ++ r) = nonEmpty d l ++ nonEmpty d r := by
  rcases h with rfl | ⟨m, rfl⟩
  · simp
  · rw [List.append_assoc, List.singleton_append, nonEmpty_append_cons, nonEmpty_append_cons]
    simp

/-- A sequence without the delimiter is a line, if it is not empty. -/
lemma nonEmpty_of_not_mem (h : d ∉ l) : nonEmpty d l = if l = [] then [] else [l] := by
  rw [nonEmpty, List.splitOn_eq_singleton h]
  by_cases hl : l = []
  · simp [hl]
  · simp [hl]

omit [DecidableEq α] in
lemma Terminated.append_line (l m : List α) : Terminated d (l ++ (m ++ [d])) :=
  .inr ⟨l ++ m, by rw [List.append_assoc]⟩

/-- There are no lines but empty ones in delimiters alone. -/
lemma nonEmpty_eq_nil_iff : nonEmpty d l = [] ↔ ∀ c ∈ l, c = d := by
  induction hn : l.length using Nat.strong_induction_on generalizing l with
  | _ n ih =>
    by_cases hd : d ∈ l
    · obtain ⟨x, y, rfl, hx⟩ := List.eq_append_cons_of_mem hd
      have hy : y.length < n := by
        simp only [List.length_append, List.length_cons] at hn
        omega
      rw [nonEmpty_append_cons, List.append_eq_nil_iff, ih y.length hy rfl, nonEmpty_of_not_mem hx]
      cases x with
      | nil => simp
      | cons c x => simpa using fun h => absurd h (by rintro rfl; simp at hx)
    · rw [nonEmpty_of_not_mem hd]
      cases l with
      | nil => simp
      | cons c l => simpa using fun h => absurd h (by rintro rfl; simp at hd)

end Lines
