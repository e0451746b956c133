import Idle.Library.Machine
import Mathlib.Data.List.GetD

/-!
# Infinite runs

A path is a run that does not end. Safety is a matter of the states a path goes through and comes
from `Reachable.invariant`; that something happens on every path is shown with a measure that the
steps decrease until it happens.
-/

namespace Machine

variable {σ α : Type*} {M : Machine σ α} {cond : σ → α → Prop}

/-- An infinite run all of whose steps meet `cond`. -/
structure Path (M : Machine σ α) (cond : σ → α → Prop) where
  state : Nat → σ
  op : Nat → α
  start : M.init (state 0)
  pre : ∀ n, M.pre (state n) (op n)
  meets : ∀ n, cond (state n) (op n)
  next : ∀ n, state (n + 1) = M.step (state n) (op n)

namespace Path

variable (r : M.Path cond)

lemma reachable (n : Nat) : M.Reachable cond (r.state n) := by
  induction n with
  | zero => exact .init r.start
  | succ n ih =>
    rw [r.next]
    exact ih.step (r.pre n) (r.meets n)

/-- What every step from some point on keeps holds from then on. -/
lemma kept {P : σ → Prop} {N : Nat} (hstep : ∀ n, N ≤ n → P (r.state n) → P (r.state (n + 1)))
    {n m : Nat} (hN : N ≤ n) (hnm : n ≤ m) (h : P (r.state n)) : P (r.state m) := by
  induction m, hnm using Nat.le_induction with
  | base => exact h
  | succ m hnm ih => exact hstep m (hN.trans hnm) ih

/-- What every step from some point on decreases or keeps never rises again. -/
lemma antitone {β : Type*} [Preorder β] {μ : σ → β} {N : Nat}
    (hstep : ∀ n, N ≤ n → μ (r.state (n + 1)) ≤ μ (r.state n)) {n m : Nat} (hN : N ≤ n)
    (hnm : n ≤ m) : μ (r.state m) ≤ μ (r.state n) :=
  r.kept (P := fun x => μ x ≤ μ (r.state n)) (fun k hk h => (hstep k hk).trans h) hN hnm le_rfl

/-- The progress rule: if the steps decrease a measure as long as the run is not done, it is done
some time. By induction on the measure. -/
theorem exists_done {β : Type*} [Preorder β] [WellFoundedLT β] (μ : σ → β) (done : σ → Prop)
    {N : Nat} (hstep : ∀ n, N ≤ n → ¬ done (r.state n) → μ (r.state (n + 1)) < μ (r.state n)) :
    ∃ n, N ≤ n ∧ done (r.state n) := by
  have hrest : ∀ b : β, ∀ n, N ≤ n → μ (r.state n) = b → ∃ m, N ≤ m ∧ done (r.state m) := by
    intro b
    induction b using WellFoundedLT.induction with
    | ind b ih =>
      intro n hn hb
      by_cases hd : done (r.state n)
      · exact ⟨n, hn, hd⟩
      · exact ih _ (hb ▸ hstep n hn hd) (n + 1) (Nat.le_succ_of_le hn) rfl
  exact hrest _ N le_rfl rfl

end Path

/-! ### Runs that go on with one operation -/

/-- The states of a run that calls the operations of a list, and `a` after that. -/
def trail (M : Machine σ α) (a : α) (as : List α) (st : σ) : Nat → σ
  | 0 => st
  | n + 1 => M.step (M.trail a as st n) (as.getD n a)

lemma trail_cons (a b : α) (as : List α) (st : σ) (n : Nat) :
    M.trail a (b :: as) st (n + 1) = M.trail a as (M.step st b) n := by
  induction n with
  | zero => rfl
  | succ n ih =>
    rw [trail, ih]
    rfl

lemma Admissible.trail {a : α} {as : List α} {st : σ} (has : M.Admissible cond st as)
    (ha : ∀ st, M.pre st a ∧ cond st a) (n : Nat) :
    M.pre (M.trail a as st n) (as.getD n a) ∧ cond (M.trail a as st n) (as.getD n a) := by
  induction as generalizing st n with
  | nil => exact ha _
  | cons b as ih =>
    cases n with
    | zero => exact ⟨has.1, has.2.1⟩
    | succ n =>
      rw [trail_cons, List.getD_cons_succ]
      exact ih has.2.2 n

/-- A run, continued with an operation that can always be called. -/
def Path.continued (st : σ) (h : M.init st) (as : List α) (has : M.Admissible cond st as)
    (a : α) (ha : ∀ st, M.pre st a ∧ cond st a) : M.Path cond where
  state := M.trail a as st
  op n := as.getD n a
  start := h
  pre n := (has.trail ha n).1
  meets n := (has.trail ha n).2
  next _ := rfl

lemma Path.continued_op {st : σ} (h : M.init st) {as : List α} (has : M.Admissible cond st as)
    (a : α) (ha : ∀ st, M.pre st a ∧ cond st a) {n : Nat} (hn : as.length ≤ n) :
    (Path.continued st h as has a ha).op n = a :=
  List.getD_eq_default _ _ hn

end Machine
