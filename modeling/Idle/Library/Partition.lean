import Mathlib.Tactic

/-!
# Lists split by a key

Collecting, for every key of a list without duplicates, the elements with that key gives the
elements whose key is in the list, in another order.
-/

namespace List

variable {α κ : Type*}

lemma filter_append_filter_perm {p q : α → Bool} (l : List α) (h : ∀ x ∈ l, ¬ (p x ∧ q x)) :
    (l.filter p ++ l.filter q).Perm (l.filter fun x => p x || q x) := by
  induction l with
  | nil => simp
  | cons a l ih =>
    have ih := ih fun x hx => h x (List.mem_cons_of_mem _ hx)
    have ha := h a List.mem_cons_self
    cases hp : p a <;> cases hq : q a
    · simpa [hp, hq] using ih
    · simpa [hp, hq] using List.perm_middle.trans (ih.cons a)
    · simpa [hp, hq] using ih
    · simp [hp, hq] at ha

/-- The parts of a list that belong to the keys of a list without duplicates. -/
theorem flatMap_filter_perm [DecidableEq κ] (f : α → κ) {ks : List κ} (hks : ks.Nodup)
    (l : List α) :
    (ks.flatMap fun k => l.filter fun x => f x = k).Perm (l.filter fun x => f x ∈ ks) := by
  induction ks with
  | nil => simp
  | cons k ks ih =>
    obtain ⟨hk, hks⟩ := List.nodup_cons.1 hks
    rw [List.flatMap_cons]
    refine ((ih hks).append_left _).trans ((filter_append_filter_perm l ?_).trans ?_)
    · rintro x -
      simp only [decide_eq_true_eq, not_and]
      rintro rfl
      exact hk
    · exact List.Perm.of_eq (List.filter_congr fun x _ => by simp)

end List
