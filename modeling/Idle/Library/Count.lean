import Mathlib.Tactic

/-!
# Counting in lists

How a count changes when the predicate changes at one element of a list without duplicates.
-/

namespace List

variable {α : Type*} {p q : α → Bool} {l : List α} {a : α}

/-- Two kinds of elements that have nothing in common are counted separately. -/
lemma countP_eq_add_of_disjoint {r : α → Bool} (h : ∀ x ∈ l, r x = (p x || q x))
    (hd : ∀ x ∈ l, ¬ (p x = true ∧ q x = true)) : l.countP r = l.countP p + l.countP q := by
  induction l with
  | nil => rfl
  | cons a l ih =>
    have ih := ih (fun x hx => h x (List.mem_cons_of_mem _ hx))
      fun x hx => hd x (List.mem_cons_of_mem _ hx)
    have ha := h a List.mem_cons_self
    have hda := hd a List.mem_cons_self
    simp only [List.countP_cons, ha, ih]
    cases hp : p a <;> cases hq : q a
    · simp
    · simp [Nat.add_assoc]
    · simp [Nat.add_right_comm]
    · exact absurd ⟨hp, hq⟩ hda

/-- The count drops by one when the predicate is switched off at one element. -/
lemma countP_eq_succ_of_nodup (hl : l.Nodup) (ha : a ∈ l) (hp : p a = true) (hq : q a = false)
    (h : ∀ x ∈ l, x ≠ a → p x = q x) : l.countP p = l.countP q + 1 := by
  induction l with
  | nil => simp at ha
  | cons b l ih =>
    obtain ⟨hb, hl⟩ := List.nodup_cons.1 hl
    rcases List.mem_cons.1 ha with rfl | ha
    · have : l.countP p = l.countP q :=
        List.countP_congr fun x hx => by
          rw [h x (List.mem_cons_of_mem _ hx) fun hxa => hb (hxa ▸ hx)]
      simp [hp, hq, this]
    · have hba : b ≠ a := fun hba => hb (hba ▸ ha)
      have := ih hl ha fun x hx => h x (List.mem_cons_of_mem _ hx)
      simp only [List.countP_cons, h b List.mem_cons_self hba, this]
      omega

/-- Counting one by one. -/
lemma sum_map_ite_eq_countP (p : α → Prop) [DecidablePred p] (l : List α) :
    (l.map fun x => if p x then 1 else 0).sum = l.countP fun x => p x := by
  induction l with
  | nil => rfl
  | cons a l ih =>
    rw [List.map_cons, List.sum_cons, ih, List.countP_cons, Nat.add_comm]
    congr 1
    exact if_congr decide_eq_true_iff.symm rfl rfl

/-- Selecting by what an element comes from is selecting where it comes from. -/
lemma filter_flatMap_of_forall {β : Type*} {f : α → List β} {r : β → Bool}
    (h : ∀ x ∈ l, ∀ y ∈ f x, r y = p x) : (l.flatMap f).filter r = (l.filter p).flatMap f := by
  induction l with
  | nil => rfl
  | cons a l ih =>
    have ih := ih fun x hx => h x (List.mem_cons_of_mem _ hx)
    have ha := h a List.mem_cons_self
    rw [List.flatMap_cons, List.filter_append, ih]
    cases hp : p a
    · have hnil : (f a).filter r = [] := List.filter_eq_nil_iff.2 fun y hy => by simp [ha y hy, hp]
      simp [hnil, hp]
    · have hall : (f a).filter r = f a := List.filter_eq_self.2 fun y hy => by rw [ha y hy, hp]
      simp [hall, hp]

end List
