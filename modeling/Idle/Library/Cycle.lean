import Mathlib.Tactic

/-!
# Paths and cycles

Reference counting keeps exactly what can reach a source of references, but for cycles: what is
kept alive without such a source lies in front of a cycle.
-/

namespace Relation

variable {α : Type*} {r r' : α → α → Prop} {a b : α}

/-- Walking on in a finite set leads into a cycle. -/
theorem exists_cycle_of_finite {s : Set α} (hs : s.Finite) (ha : a ∈ s)
    (hnext : ∀ x ∈ s, ∃ y ∈ s, r x y) : ∃ x ∈ s, TransGen r x x := by
  by_contra hno
  push Not at hno
  have := hs.to_subtype
  -- without a cycle the paths are a well founded order
  let lt : s → s → Prop := fun x y => TransGen r y.1 x.1
  have htrans : IsTrans s lt := ⟨fun x y z hxy hyz => hyz.trans hxy⟩
  have hirrefl : Std.Irrefl lt := ⟨fun x => hno x.1 x.2⟩
  have hwf : WellFounded lt := Finite.wellFounded_of_trans_of_irrefl lt
  obtain ⟨x, -, hmin⟩ := hwf.has_min Set.univ ⟨⟨a, ha⟩, trivial⟩
  obtain ⟨y, hy, hxy⟩ := hnext x.1 x.2
  exact hmin ⟨y, hy⟩ trivial (.single hxy)

/-- A path that avoids an edge, or up to its first use. -/
lemma ReflTransGen.avoid {c d : α} (hr : ∀ x y, r x y → r' x y ∨ x = c ∧ y = d)
    (h : ReflTransGen r a b) :
    ReflTransGen r' a b ∨ ReflTransGen r' a c ∧ ReflTransGen r d b := by
  induction h using ReflTransGen.head_induction_on with
  | refl => exact .inl .refl
  | head hxy hyb ih =>
    rcases hr _ _ hxy with hxy' | ⟨rfl, rfl⟩
    · rcases ih with ih | ⟨ih, hd⟩
      · exact .inl (.head hxy' ih)
      · exact .inr ⟨.head hxy' ih, hd⟩
    · exact .inr ⟨.refl, hyb⟩

/-- An edge closes no cycle if its end does not lead back to where it starts. -/
lemma TransGen.not_cycle_of_edge {c d : α} (hr : ∀ x y, r' x y → r x y ∨ x = c ∧ y = d)
    (hno : ∀ x, ¬ TransGen r x x) (hd : ¬ ReflTransGen r d c) (x : α) : ¬ TransGen r' x x := by
  intro h
  obtain ⟨y, hxy, hyx⟩ := TransGen.head'_iff.1 h
  -- whatever the new edge leads to is reached without it
  have hfrom : ∀ {z}, ReflTransGen r' d z → ReflTransGen r d z := fun hz =>
    (ReflTransGen.avoid hr hz).elim id fun h => absurd h.1 hd
  rcases hr _ _ hxy with hxy | ⟨rfl, rfl⟩
  · rcases ReflTransGen.avoid hr hyx with hyx | ⟨hyc, hdx⟩
    · exact hno x (.head' hxy hyx)
    · exact hd ((hfrom hdx).trans (.head hxy hyc))
  · exact hd (hfrom hyx)

/-- A path that does not end where nothing goes on does not pass there. -/
lemma ReflTransGen.avoid_sink {c : α} (hc : ∀ y, ¬ r c y) (hr : ∀ x y, r x y → y ≠ c → r' x y)
    (h : ReflTransGen r a b) (hb : b ≠ c) : ReflTransGen r' a b := by
  induction h using ReflTransGen.head_induction_on with
  | refl => exact .refl
  | head hxy hyb ih =>
    refine .head (hr _ _ hxy ?_) ih
    rintro rfl
    rcases hyb.cases_head with h | ⟨z, hz, -⟩
    · exact hb h.symm
    · exact hc z hz

end Relation
