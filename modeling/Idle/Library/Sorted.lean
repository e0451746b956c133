import Mathlib.Data.List.Basic
import Mathlib.Order.RelClasses

/-!
# Lists in strict order

A comparison that is a strict weak order makes elements equivalent that are not in either order. A
list in strict order has at most one element that is equivalent to a given one, and the elements
before it and behind it are those that are in order with it.
-/

namespace Comparison

/-- Neither of the elements comes before the other. -/
def equivalent {α : Type*} (pred : α → α → Bool) (a b : α) : Bool := !pred a b && !pred b a

variable {α : Type*} {pred : α → α → Bool} {a b v : α} {l : List α}

lemma equivalent_iff : equivalent pred a b = true ↔ ¬ pred a b = true ∧ ¬ pred b a = true := by
  simp [equivalent]

variable [IsStrictWeakOrder α (pred · · = true)]

lemma equivalent_self (a : α) : equivalent pred a a = true :=
  equivalent_iff.2 ⟨irrefl_of (pred · · = true) a, irrefl_of (pred · · = true) a⟩

lemma equivalent_trans (hab : equivalent pred a b = true) (hbv : equivalent pred b v = true) :
    equivalent pred a v = true := by
  have htrans : ∀ a b c : α, (¬ pred a b = true ∧ ¬ pred b a = true) →
      (¬ pred b c = true ∧ ¬ pred c b = true) → ¬ pred a c = true ∧ ¬ pred c a = true :=
    IsStrictWeakOrder.incomp_trans
  exact equivalent_iff.2 (htrans a b v (equivalent_iff.1 hab) (equivalent_iff.1 hbv))

/-- Equivalent elements come before the same ones. -/
lemma pred_of_equivalent (h : equivalent pred a v = true) (hab : pred a b = true) :
    pred v b = true := by
  obtain ⟨hav, hva⟩ := equivalent_iff.1 h
  by_contra hvb
  have hbv : ¬ pred b v = true := fun hbv => hav (trans_of (pred · · = true) hab hbv)
  have heq := equivalent_trans h (equivalent_iff.2 ⟨hvb, hbv⟩)
  exact (equivalent_iff.1 heq).1 hab

/-- A list in strict order is split by a value. -/
lemma exists_split (h : l.Pairwise (pred · · = true)) (v : α) :
    ∃ l₁ l₂ : List α, ∃ m : Option α, l = l₁ ++ m.toList ++ l₂ ∧ (∀ a ∈ l₁, pred a v = true) ∧
      (∀ a ∈ m, equivalent pred a v = true) ∧ ∀ a ∈ l₂, pred v a = true := by
  induction l with
  | nil => exact ⟨[], [], none, rfl, by simp, by simp, by simp⟩
  | cons a l ih =>
    obtain ⟨ha, hl⟩ := List.pairwise_cons.1 h
    by_cases hav : pred a v = true
    · obtain ⟨l₁, l₂, m, rfl, h₁, hm, h₂⟩ := ih hl
      exact ⟨a :: l₁, l₂, m, by simp, List.forall_mem_cons.2 ⟨hav, h₁⟩, hm, h₂⟩
    by_cases hva : pred v a = true
    · refine ⟨[], a :: l, none, rfl, by simp, by simp, List.forall_mem_cons.2 ⟨hva, ?_⟩⟩
      exact fun b hb => trans_of (pred · · = true) hva (ha b hb)
    · have heq : equivalent pred a v = true := equivalent_iff.2 ⟨hav, hva⟩
      refine ⟨[], l, some a, rfl, by simp, ?_, fun b hb => pred_of_equivalent heq (ha b hb)⟩
      rintro b ⟨rfl⟩
      exact heq

omit [IsStrictWeakOrder α (pred · · = true)] in
/-- What is split by a value stays in order if the value takes the place in the middle. -/
lemma pairwise_insert {l₁ l₂ : List α} (h : (l₁ ++ l₂).Pairwise (pred · · = true))
    (h₁ : ∀ a ∈ l₁, pred a v = true) (h₂ : ∀ a ∈ l₂, pred v a = true) :
    (l₁ ++ v :: l₂).Pairwise (pred · · = true) := by
  obtain ⟨hl₁, hl₂, hbetween⟩ := List.pairwise_append.1 h
  refine List.pairwise_append.2 ⟨hl₁, List.pairwise_cons.2 ⟨h₂, hl₂⟩, fun a ha => ?_⟩
  exact List.forall_mem_cons.2 ⟨h₁ a ha, hbetween a ha⟩

end Comparison
