import Mathlib.Tactic

/-!
# Guarded state machines

A machine is given by its initial states and by operations with a precondition. Runs may be
restricted further by a condition on the state in which an operation is called; the invariant rule
is stated for such restricted runs.
-/

/-- A state machine with deterministic, guarded operations. -/
structure Machine (σ α : Type*) where
  init : σ → Prop
  pre : σ → α → Prop
  step : σ → α → σ

namespace Machine

variable {σ α : Type*} (M : Machine σ α)

/-- The states reached by runs all of whose steps meet `cond`. -/
inductive Reachable (cond : σ → α → Prop) : σ → Prop where
  | init {st : σ} : M.init st → Reachable cond st
  | step {st : σ} {a : α} : Reachable cond st → M.pre st a → cond st a →
      Reachable cond (M.step st a)

variable {M} {cond cond' : σ → α → Prop} {P : σ → Prop} {st : σ}

/-- A weaker condition reaches more. -/
lemma Reachable.mono (h : M.Reachable cond st) (hc : ∀ st a, cond st a → cond' st a) :
    M.Reachable cond' st := by
  induction h with
  | init h => exact .init h
  | step _ hp ha ih => exact ih.step hp (hc _ _ ha)

/-- The invariant rule. What is known of reachable states may be used in the step. -/
theorem Reachable.invariant (h : M.Reachable cond st) (hinit : ∀ st, M.init st → P st)
    (hstep : ∀ st a, M.Reachable cond st → P st → M.pre st a → cond st a → P (M.step st a)) :
    P st := by
  induction h with
  | init h => exact hinit _ h
  | step hr hp ha ih => exact hstep _ _ hr ih hp ha

/-! ### Histories -/

/-- The machine beside which a history is recorded. No step looks at it. -/
def watched {η : Type*} (M : Machine σ α) (h₀ : η) (record : σ → α → η → η) :
    Machine (σ × η) α where
  init s := M.init s.1 ∧ s.2 = h₀
  pre s a := M.pre s.1 a
  step s a := (M.step s.1 a, record s.1 a s.2)

section Watched

variable {η : Type*} {h₀ : η} {record : σ → α → η → η} {condW : σ × η → α → Prop}

/-- A watched run is a run of the machine. -/
lemma Reachable.fst {s : σ × η} (h : (M.watched h₀ record).Reachable condW s)
    (hc : ∀ s a, condW s a → cond s.1 a) : M.Reachable cond s.1 := by
  induction h with
  | init h => exact .init h.1
  | step _ hp ha ih => exact ih.step hp (hc _ _ ha)

end Watched

/-! ### Runs given by their operations -/

/-- Every operation of the list may be called in the state that those before it lead to. -/
def Admissible (M : Machine σ α) (cond : σ → α → Prop) (st : σ) : List α → Prop
  | [] => True
  | a :: as => M.pre st a ∧ cond st a ∧ M.Admissible cond (M.step st a) as

instance Admissible.decidable (M : Machine σ α) (cond : σ → α → Prop)
    [∀ st a, Decidable (M.pre st a)] [∀ st a, Decidable (cond st a)] (st : σ) :
    (as : List α) → Decidable (M.Admissible cond st as)
  | [] => .isTrue trivial
  | a :: as =>
    have := Admissible.decidable M cond (M.step st a) as
    inferInstanceAs (Decidable (_ ∧ _ ∧ _))

lemma Reachable.run {as : List α} (h : M.Reachable cond st) (has : M.Admissible cond st as) :
    M.Reachable cond (as.foldl M.step st) := by
  induction as generalizing st with
  | nil => exact h
  | cons a as ih => exact ih (h.step has.1 has.2.1) has.2.2

/-- What the steps of a run keep holds at its end. -/
lemma Admissible.invariant {as : List α} (has : M.Admissible cond st as) (h : P st)
    (hstep : ∀ st a, P st → M.pre st a → cond st a → P (M.step st a)) :
    P (as.foldl M.step st) := by
  induction as generalizing st with
  | nil => exact h
  | cons a as ih => exact ih has.2.2 (hstep st a h has.1 has.2.1)

/-- A run can be continued by a run. -/
lemma Admissible.append {as bs : List α} (has : M.Admissible cond st as)
    (hbs : M.Admissible cond (as.foldl M.step st) bs) : M.Admissible cond st (as ++ bs) := by
  induction as generalizing st with
  | nil => exact hbs
  | cons a as ih => exact ⟨has.1, has.2.1, ih has.2.2 hbs⟩

/-! ### What holds along a run -/

/-- `P` holds in every state of a run, and `Q` of every step. -/
def Always (M : Machine σ α) (P : σ → Prop) (Q : σ → α → Prop) (st : σ) : List α → Prop
  | [] => P st
  | a :: as => P st ∧ Q st a ∧ M.Always P Q (M.step st a) as

variable {Q : σ → α → Prop}

lemma Always.head {as : List α} (h : M.Always P Q st as) : P st := by
  cases as with
  | nil => exact h
  | cons a as => exact h.1

lemma Always.foldl {as : List α} (h : M.Always P Q st as) : P (as.foldl M.step st) := by
  induction as generalizing st with
  | nil => exact h
  | cons a as ih => exact ih h.2.2

/-- If the condition is what keeps the invariant, it holds along just those runs on which what the
invariant is for holds. All of them are runs whose steps are as `given`. -/
theorem always_iff_given {Inv : σ → Prop} {given : σ → α → Prop} {as : List α} (h : Inv st)
    (has : M.Admissible given st as) (hP : ∀ st, Inv st → P st)
    (hQ : ∀ st a, Inv st → M.pre st a → given st a → cond st a → Q st a)
    (hstep : ∀ st a, Inv st → M.pre st a → given st a → cond st a → Inv (M.step st a))
    (hcond : ∀ st a, Inv st → M.pre st a → given st a → Q st a → P (M.step st a) → cond st a) :
    M.Always P Q st as ↔ M.Admissible cond st as := by
  induction as generalizing st with
  | nil => exact ⟨fun _ => trivial, fun _ => hP st h⟩
  | cons a as ih =>
    obtain ⟨hpre, hgiven, has⟩ := has
    constructor
    · rintro ⟨-, hq, hrest⟩
      have hc := hcond st a h hpre hgiven hq hrest.head
      exact ⟨hpre, hc, (ih (hstep st a h hpre hgiven hc) has).1 hrest⟩
    · rintro ⟨-, hc, hrest⟩
      exact ⟨hP st h, hQ st a h hpre hgiven hc, (ih (hstep st a h hpre hgiven hc) has).2 hrest⟩

theorem always_iff {Inv : σ → Prop} {as : List α} (h : Inv st)
    (has : M.Admissible (fun _ _ => True) st as) (hP : ∀ st, Inv st → P st)
    (hQ : ∀ st a, Inv st → M.pre st a → cond st a → Q st a)
    (hstep : ∀ st a, Inv st → M.pre st a → cond st a → Inv (M.step st a))
    (hcond : ∀ st a, Inv st → M.pre st a → Q st a → P (M.step st a) → cond st a) :
    M.Always P Q st as ↔ M.Admissible cond st as :=
  always_iff_given h has hP (fun st a hi hp _ => hQ st a hi hp)
    (fun st a hi hp _ => hstep st a hi hp) fun st a hi hp _ => hcond st a hi hp

end Machine
