import Idle.Library.Countdown
import Idle.Library.Machine

/-!
# Waiting for continuables

`when_completed` attaches a callback to every continuable of a range and resolves its promise when
all of them have been called, with whatever result, from whatever thread. The callbacks and the
initiator share a counter; the initiator counts as one of them until its loop has ended. A step is
one access to the counter, one call of `next`, or one call of `set_value`.
-/

namespace Idle

/-- Where a callback, or the initiator, stands. -/
inductive Turn where
  | idle
  /-- `attach_one` was called. -/
  | attached
  /-- It will call `complete`. -/
  | awaited
  /-- `complete` has read 1. -/
  | resolving
  | done
  deriving DecidableEq, Repr

/-- It was counted and has not taken itself off. -/
def Turn.isInside : Turn → Bool
  | attached | awaited => true
  | idle | resolving | done => false

/-- `when_completed_frame`, with the initiator under `none` and the callbacks by their position. -/
structure WhenCompleted where
  /-- `remaining_` -/
  remaining : BitVec 64
  turn : Option Nat → Turn
  /-- The position of the loop. -/
  position : Nat
  /-- The calls of `promise_.set_value`. -/
  resolved : Nat
  /-- An assertion has failed. -/
  failed : Bool

namespace WhenCompleted

def initial : WhenCompleted where
  remaining := 1
  turn := fun who => if who = none then .awaited else .idle
  position := 0
  resolved := 0
  failed := false

/-- `attach_one` -/
def attachOne (s : WhenCompleted) : WhenCompleted :=
  { s with
    remaining := s.remaining + 1
    turn := Function.update s.turn (some s.position) .attached }

/-- The callback is passed to the continuable. -/
def next (s : WhenCompleted) : WhenCompleted :=
  { s with
    turn := Function.update s.turn (some s.position) .awaited
    position := s.position + 1 }

/-- `complete`, up to the call of `set_value`. -/
def complete (s : WhenCompleted) (who : Option Nat) : WhenCompleted :=
  let previous := s.remaining
  { s with
    remaining := s.remaining - 1
    turn := Function.update s.turn who (if previous = 1 then .resolving else .done)
    failed := s.failed || previous = 0 }

def setValue (s : WhenCompleted) (who : Option Nat) : WhenCompleted :=
  { s with
    turn := Function.update s.turn who .done
    resolved := s.resolved + 1 }

end WhenCompleted

inductive CompletionOp where
  | attachOne
  | next
  | complete (who : Option Nat)
  | setValue (who : Option Nat)
  deriving DecidableEq, Repr

namespace CompletionOp

/-- The loop runs over `n` continuables, and the initiator completes after it. -/
def Pre (n : Nat) (s : WhenCompleted) : CompletionOp → Prop
  | attachOne => s.turn none = .awaited ∧ s.position < n ∧ s.turn (some s.position) = .idle
  | next => s.turn (some s.position) = .attached
  | complete none => s.turn none = .awaited ∧ s.position = n
  | complete (some i) => s.turn (some i) = .awaited
  | setValue who => s.turn who = .resolving

instance decidablePre (n : Nat) (s : WhenCompleted) : (op : CompletionOp) → Decidable (op.Pre n s)
  | attachOne => inferInstanceAs (Decidable (_ ∧ _ ∧ _))
  | next => inferInstanceAs (Decidable (_ = _))
  | complete none => inferInstanceAs (Decidable (_ ∧ _))
  | complete (some _) => inferInstanceAs (Decidable (_ = _))
  | setValue _ => inferInstanceAs (Decidable (_ = _))

def exec (s : WhenCompleted) : CompletionOp → WhenCompleted
  | attachOne => s.attachOne
  | next => s.next
  | complete who => s.complete who
  | setValue who => s.setValue who

end CompletionOp

/-- `when_completed` for `n` continuables, whose callbacks are called in any order. -/
def whenCompleted (n : Nat) : Machine WhenCompleted CompletionOp where
  init s := s = .initial
  pre := CompletionOp.Pre n
  step := CompletionOp.exec

instance whenCompleted.decidablePre (n : Nat) (s : WhenCompleted) (op : CompletionOp) :
    Decidable ((whenCompleted n).pre s op) :=
  CompletionOp.decidablePre n s op

namespace WhenCompleted

variable {n : Nat} {s : WhenCompleted} {who other : Option Nat} {turn : Turn}

/-- The initiator and the callbacks. -/
def parties (n : Nat) : List (Option Nat) := none :: (List.range n).map some

lemma mem_parties : who ∈ parties n ↔ ∀ i, who = some i → i < n := by
  cases who with
  | none => simp [parties]
  | some i => simp [parties]

lemma nodup_parties (n : Nat) : (parties n).Nodup := by
  refine List.nodup_cons.2 ⟨by simp, ?_⟩
  exact List.nodup_range.map (Option.some_injective _)

lemma length_parties (n : Nat) : (parties n).length = n + 1 := by simp [parties]

/-- The loop has reached the callbacks up to its position, in this order. -/
structure Looped (n : Nat) (s : WhenCompleted) : Prop where
  bound : s.position ≤ n
  behind : ∀ i, i < s.position → s.turn (some i) ≠ .idle ∧ s.turn (some i) ≠ .attached
  here : s.turn (some s.position) = .idle ∨
    s.turn (some s.position) = .attached ∧ s.position < n
  ahead : ∀ i, s.position < i → s.turn (some i) = .idle
  initiator : s.turn none = .awaited ∨
    s.position = n ∧ (s.turn none = .resolving ∨ s.turn none = .done)

/-- The counter has the number of those inside, and the last one resolves the promise. -/
structure Counted (n : Nat) (s : WhenCompleted) : Prop where
  exact : Countdown.Exact (parties n) (fun who => (s.turn who).isInside) s.remaining
  inside : ∀ who ∈ parties n, (s.turn who).isInside = true →
    s.resolved = 0 ∧ ∀ other, s.turn other ≠ .resolving
  last : ∀ who, s.turn who = .resolving → s.resolved = 0 ∧
    ∀ other ∈ parties n, other ≠ who → s.turn other = .done
  finished : (∀ who ∈ parties n, s.turn who = .done) → s.resolved = 1
  succeeded : s.failed = false

/-! ### The loop -/

lemma Looped.mem_parties (h : s.Looped n) (hwho : s.turn who ≠ .idle) : who ∈ parties n := by
  refine WhenCompleted.mem_parties.2 fun i hi => ?_
  subst hi
  rcases Nat.lt_trichotomy i s.position with hlt | rfl | hlt
  · exact hlt.trans_le h.bound
  · exact (h.here.resolve_left hwho).2
  · exact absurd (h.ahead i hlt) hwho

/-- Once the initiator has left, the loop has reached everyone. -/
lemma Looped.not_idle (h : s.Looped n) (hposition : s.position = n) (hwho : who ∈ parties n) :
    s.turn who ≠ .idle := by
  cases who with
  | none =>
    rcases h.initiator with hi | ⟨-, hi | hi⟩ <;> simp [hi]
  | some i => exact (h.behind i (hposition ▸ WhenCompleted.mem_parties.1 hwho i rfl)).1

/-- Whoever waits for its first step waits for the initiator. -/
lemma Looped.initiator_of_idle (h : s.Looped n) (hwho : who ∈ parties n)
    (hidle : s.turn who = .idle) : s.turn none = .awaited := by
  rcases h.initiator with hi | ⟨hposition, -⟩
  · exact hi
  · exact absurd hidle (h.not_idle hposition hwho)

lemma Looped.update_turn (h : s.Looped n) {s' : WhenCompleted}
    (hposition : s'.position = s.position)
    (hturn : s'.turn = Function.update s.turn who turn)
    (hwho : s.turn who = .awaited ∨ s.turn who = .resolving)
    (hnone : who = none → s.position = n) (ht : turn = .resolving ∨ turn = .done) :
    s'.Looped n := by
  have hne : ∀ i, s.turn (some i) = .idle ∨ s.turn (some i) = .attached → some i ≠ who := by
    rintro i hi rfl
    rcases hi with hi | hi <;> rcases hwho with hw | hw <;>
      exact absurd (hi.symm.trans hw) (by simp)
  refine ⟨hposition ▸ h.bound, fun i hi => ?_, ?_, fun i hi => ?_, ?_⟩
  · rw [hturn]
    by_cases hiw : some i = who
    · rw [hiw, Function.update_self]
      rcases ht with rfl | rfl <;> simp
    · rw [Function.update_of_ne hiw]
      exact h.behind i (hposition ▸ hi)
  · rw [hturn, hposition, Function.update_of_ne (hne _ ?_)]
    · exact h.here
    · exact h.here.imp id And.left
  · rw [hturn, Function.update_of_ne (hne _ (.inl (h.ahead i (hposition ▸ hi))))]
    exact h.ahead i (hposition ▸ hi)
  · rw [hturn, hposition]
    by_cases hw : none = who
    · rw [← hw, Function.update_self]
      exact .inr ⟨hnone hw.symm, ht⟩
    · rw [Function.update_of_ne hw]
      exact h.initiator

lemma Looped.attachOne (h : s.Looped n) (hlt : s.position < n) : s.attachOne.Looped n := by
  refine ⟨h.bound, fun i hi => ?_, .inr ⟨Function.update_self _ _ _, hlt⟩, fun i hi => ?_, ?_⟩
  · have hlt' : i < s.position := hi
    have hne : some i ≠ some s.position := by simp [Nat.ne_of_lt hlt']
    simp only [WhenCompleted.attachOne, Function.update_of_ne hne]
    exact h.behind i hi
  · have hgt : s.position < i := hi
    have hne : some i ≠ some s.position := by simp [Nat.ne_of_gt hgt]
    simp only [WhenCompleted.attachOne, Function.update_of_ne hne]
    exact h.ahead i hi
  · exact h.initiator

lemma Looped.next (h : s.Looped n) (hpre : s.turn (some s.position) = .attached) :
    s.next.Looped n := by
  have hlt : s.position < n := (h.here.resolve_left (by simp [hpre])).2
  refine ⟨hlt, fun i hi => ?_, .inl ?_, fun i hi => ?_, ?_⟩
  · simp only [WhenCompleted.next]
    by_cases hip : i = s.position
    · rw [hip, Function.update_self]
      simp
    · have hne : some i ≠ some s.position := by simp [hip]
      rw [Function.update_of_ne hne]
      exact h.behind i (Nat.lt_of_le_of_ne (Nat.le_of_lt_succ hi) hip)
  · have hne : some (s.position + 1) ≠ some s.position := by simp
    simp only [WhenCompleted.next, Function.update_of_ne hne]
    exact h.ahead _ (Nat.lt_succ_self _)
  · have hgt : s.position < i := Nat.lt_of_succ_lt hi
    have hne : some i ≠ some s.position := by simp [Nat.ne_of_gt hgt]
    simp only [WhenCompleted.next, Function.update_of_ne hne]
    exact h.ahead i hgt
  · rcases h.initiator with hi | ⟨hposition, -⟩
    · exact .inl hi
    · exact absurd hposition (Nat.ne_of_lt hlt)

/-! ### The counter -/

lemma isInside_update_of_ne (hne : other ≠ who) :
    (Function.update s.turn who turn other).isInside = (s.turn other).isInside := by
  rw [Function.update_of_ne hne]

lemma Counted.attachOne (h : s.Counted n) (hn : n + 1 < 2 ^ 64)
    (hpre : CompletionOp.attachOne.Pre n s) : s.attachOne.Counted n := by
  obtain ⟨hnone, hlt, hidle⟩ := hpre
  obtain ⟨hzero, hnot⟩ := h.inside none (mem_parties.2 (by simp)) (by rw [hnone]; rfl)
  have hmem : some s.position ∈ parties n := mem_parties.2 fun i hi => by
    rw [← Option.some.inj hi]
    exact hlt
  have hexact : Countdown.Exact (parties n) (fun who => (s.attachOne.turn who).isInside)
      (s.remaining + 1) := h.exact.enter (nodup_parties n) (by rw [length_parties]; exact hn) hmem
    (by rw [hidle]; rfl) (by simp [WhenCompleted.attachOne, Turn.isInside])
    fun other _ hne => isInside_update_of_ne hne
  have hresolving : ∀ other, s.attachOne.turn other ≠ .resolving := by
    intro other
    simp only [WhenCompleted.attachOne]
    by_cases hother : other = some s.position
    · rw [hother, Function.update_self]
      simp
    · rw [Function.update_of_ne hother]
      exact hnot other
  refine ⟨hexact, fun _ _ _ => ⟨hzero, hresolving⟩, fun who hwho => absurd hwho (hresolving who),
    fun hall => ?_, h.succeeded⟩
  have hdone : s.turn none = .done := hall none (mem_parties.2 (by simp))
  rw [hnone] at hdone
  cases hdone

lemma Counted.next (h : s.Counted n) (hl : s.Looped n)
    (hpre : s.turn (some s.position) = .attached) : s.next.Counted n := by
  have hmem : some s.position ∈ parties n := hl.mem_parties (by simp [hpre])
  obtain ⟨hzero, hnot⟩ := h.inside _ hmem (by rw [hpre]; rfl)
  have hsame : ∀ other, (s.next.turn other).isInside = (s.turn other).isInside := by
    intro other
    by_cases hother : other = some s.position
    · rw [hother, hpre]
      simp [WhenCompleted.next, Turn.isInside]
    · exact isInside_update_of_ne hother
  have hresolving : ∀ other, s.next.turn other ≠ .resolving := by
    intro other
    simp only [WhenCompleted.next]
    by_cases hother : other = some s.position
    · rw [hother, Function.update_self]
      simp
    · rw [Function.update_of_ne hother]
      exact hnot other
  refine ⟨h.exact.congr fun other _ => hsame other, fun _ _ _ => ⟨hzero, hresolving⟩,
    fun who hwho => absurd hwho (hresolving who), fun hall => ?_, h.succeeded⟩
  have hdone := hall _ hmem
  simp [WhenCompleted.next] at hdone

/-- The one that reads 1 finds everyone else done. -/
lemma Counted.complete (h : s.Counted n) (hl : s.Looped n) (hwho : s.turn who = .awaited)
    (hnone : who = none → s.position = n) : (s.complete who).Counted n := by
  have hmem : who ∈ parties n := hl.mem_parties (by simp [hwho])
  have hin : (s.turn who).isInside = true := by rw [hwho]; rfl
  obtain ⟨hzero, hnot⟩ := h.inside _ hmem hin
  have hself : (s.complete who).turn who = if s.remaining = 1 then .resolving else .done :=
    Function.update_self _ _ _
  have hother : ∀ other, other ≠ who → (s.complete who).turn other = s.turn other :=
    fun other hne => Function.update_of_ne hne _ _
  have hexact : Countdown.Exact (parties n)
      (fun other => ((s.complete who).turn other).isInside) (s.remaining - 1) :=
    h.exact.leave (nodup_parties n) hmem hin (by rw [hself]; split <;> rfl)
    fun other _ hne => isInside_update_of_ne hne
  have hiff := h.exact.eq_one_iff (nodup_parties n) hmem hin
  have hfailed : (s.complete who).failed = false := by
    have hpos : decide (s.remaining = 0) = false :=
      decide_eq_false (h.exact.ne_zero hmem hin)
    show (s.failed || decide (s.remaining = 0)) = false
    rw [h.succeeded, hpos]
    rfl
  by_cases hone : s.remaining = 1
  · -- the last one: whoever is done has left the count before
    have houtside := hiff.1 hone
    have hposition : s.position = n := by
      by_cases hw : who = none
      · exact hnone hw
      · have hnone' := houtside none (mem_parties.2 (by simp)) (Ne.symm hw)
        rcases hl.initiator with hi | ⟨hposition, -⟩
        · simp [hi, Turn.isInside] at hnone'
        · exact hposition
    have hdone : ∀ other ∈ parties n, other ≠ who → s.turn other = .done := by
      intro other hmem' hne
      have hout := houtside other hmem' hne
      cases hturn : s.turn other with
      | idle => exact absurd hturn (hl.not_idle hposition hmem')
      | attached => simp [hturn, Turn.isInside] at hout
      | awaited => simp [hturn, Turn.isInside] at hout
      | resolving => exact absurd hturn (hnot other)
      | done => rfl
    rw [if_pos hone] at hself
    refine ⟨hexact, fun other hmem' hin' => ?_, fun other hresolving => ⟨hzero, ?_⟩,
      fun hall => ?_, hfailed⟩
    · by_cases hne : other = who
      · rw [hne, hself] at hin'
        cases hin'
      · rw [hother other hne, hdone other hmem' hne] at hin'
        cases hin'
    · have heq : other = who := by
        by_contra hne
        exact hnot other ((hother other hne).symm.trans hresolving)
      rw [heq]
      exact fun b hb hne => (hother b hne).trans (hdone b hb hne)
    · exact absurd ((hall who hmem).symm.trans hself) (by simp)
  · obtain ⟨b, hb, hne, hbin⟩ : ∃ b ∈ parties n, b ≠ who ∧ (s.turn b).isInside = true := by
      by_contra hcon
      refine hone (hiff.2 fun b hb hne => ?_)
      by_contra hbin
      exact hcon ⟨b, hb, hne, by simpa using hbin⟩
    -- somebody else is inside, so nobody resolves yet
    rw [if_neg hone] at hself
    have hresolving : ∀ other, (s.complete who).turn other ≠ .resolving := by
      intro other
      by_cases hne' : other = who
      · rw [hne', hself]
        simp
      · rw [hother other hne']
        exact hnot other
    refine ⟨hexact, fun _ _ _ => ⟨hzero, hresolving⟩, fun other hr => absurd hr (hresolving other),
      fun hall => ?_, hfailed⟩
    have hdone := (hother b hne).symm.trans (hall b hb)
    rw [hdone] at hbin
    cases hbin

lemma Counted.setValue (h : s.Counted n) (hl : s.Looped n) (hwho : s.turn who = .resolving) :
    (s.setValue who).Counted n := by
  obtain ⟨hzero, hdone⟩ := h.last who hwho
  have hall : ∀ other ∈ parties n, (s.setValue who).turn other = .done := by
    intro other hmem
    by_cases hne : other = who
    · rw [hne]
      exact Function.update_self _ _ _
    · exact (Function.update_of_ne hne _ _).trans (hdone other hmem hne)
  have hl' : (s.setValue who).Looped n :=
    hl.update_turn rfl rfl (.inr hwho) (fun hw => ?_) (.inr rfl)
  · refine ⟨h.exact.congr fun other hmem => ?_, fun other hmem hin => ?_, fun other hr => ?_,
      fun _ => ?_, h.succeeded⟩
    · rw [hall other hmem]
      by_cases hne : other = who
      · rw [hne, hwho]
        rfl
      · rw [hdone other hmem hne]
    · rw [hall other hmem] at hin
      cases hin
    · have hmem : other ∈ parties n := hl'.mem_parties (by simp [hr])
      rw [hall other hmem] at hr
      cases hr
    · show s.resolved + 1 = 1
      rw [hzero]
  · rcases hl.initiator with hi | ⟨hposition, -⟩
    · rw [hw, hi] at hwho
      cases hwho
    · exact hposition

/-! ### Every order of steps -/

lemma looped_initial (n : Nat) : initial.Looped n := by
  refine ⟨Nat.zero_le n, fun i hi => absurd hi (Nat.not_lt_zero i), .inl ?_, fun i _ => ?_,
    .inl ?_⟩ <;> simp [initial]

lemma counted_initial (n : Nat) : initial.Counted n := by
  refine ⟨?_, fun _ _ _ => ⟨rfl, fun other => ?_⟩, fun who hwho => ?_, fun hall => ?_, rfl⟩
  · have hzero : ((List.range n).map some).countP (fun who => (initial.turn who).isInside) = 0 := by
      refine List.countP_eq_zero.2 fun who hwho => ?_
      obtain ⟨i, -, rfl⟩ := List.mem_map.1 hwho
      simp [initial, Turn.isInside]
    rw [Countdown.Exact, parties, List.countP_cons, hzero]
    simp [initial, Turn.isInside]
  · simp only [initial]
    split <;> simp
  · simp only [initial] at hwho
    split at hwho <;> cases hwho
  · have hnone := hall none (mem_parties.2 (by simp))
    simp [initial] at hnone

/-- One step of the loop or of a callback. -/
theorem exec_kept {op : CompletionOp} (hn : n + 1 < 2 ^ 64) (hl : s.Looped n) (hc : s.Counted n)
    (hpre : op.Pre n s) : (op.exec s).Looped n ∧ (op.exec s).Counted n := by
  cases op with
  | attachOne => exact ⟨hl.attachOne hpre.2.1, hc.attachOne hn hpre⟩
  | next => exact ⟨hl.next hpre, hc.next hl hpre⟩
  | complete who =>
    have hwho : s.turn who = .awaited ∧ (who = none → s.position = n) := by
      cases who with
      | none => exact ⟨hpre.1, fun _ => hpre.2⟩
      | some i => exact ⟨hpre, fun h => by cases h⟩
    refine ⟨hl.update_turn rfl rfl (.inl hwho.1) hwho.2 ?_, hc.complete hl hwho.1 hwho.2⟩
    split
    · exact .inl rfl
    · exact .inr rfl
  | setValue who =>
    refine ⟨hl.update_turn rfl rfl (.inr hpre) (fun hw => ?_) (.inr rfl), hc.setValue hl hpre⟩
    rcases hl.initiator with hi | ⟨hposition, -⟩
    · have hr : s.turn who = .resolving := hpre
      rw [hw, hi] at hr
      cases hr
    · exact hposition

/-- Someone who is not done can go on, or lets someone else go on. -/
lemma Looped.exists_pre (hl : s.Looped n) (hmem : who ∈ parties n) (hwho : s.turn who ≠ .done) :
    ∃ op : CompletionOp, op.Pre n s := by
  have hloop : s.turn none = .awaited → ∃ op : CompletionOp, op.Pre n s := by
    intro hnone
    rcases hl.here with hidle | ⟨hattached, -⟩
    · by_cases hposition : s.position = n
      · exact ⟨.complete none, hnone, hposition⟩
      · exact ⟨.attachOne, hnone, Nat.lt_of_le_of_ne hl.bound hposition, hidle⟩
    · exact ⟨.next, hattached⟩
  cases hturn : s.turn who with
  | idle => exact hloop (hl.initiator_of_idle hmem hturn)
  | attached =>
    cases who with
    | none => rcases hl.initiator with hi | ⟨-, hi | hi⟩ <;> rw [hturn] at hi <;> cases hi
    | some i =>
      refine ⟨.next, ?_⟩
      rcases Nat.lt_trichotomy i s.position with hlt | rfl | hlt
      · exact absurd hturn (hl.behind i hlt).2
      · exact hturn
      · rw [hl.ahead i hlt] at hturn
        cases hturn
  | awaited =>
    cases who with
    | none => exact hloop hturn
    | some i => exact ⟨.complete (some i), hturn⟩
  | resolving => exact ⟨.setValue who, hturn⟩
  | done => exact absurd hturn hwho

/-- When everyone is done, nothing is left to happen. -/
lemma Looped.not_pre (hl : s.Looped n) (hall : ∀ who ∈ parties n, s.turn who = .done)
    (op : CompletionOp) : ¬ op.Pre n s := by
  have hne : ∀ who turn, s.turn who = turn → turn ≠ .idle → turn = .done :=
    fun who turn hturn hidle => hturn.symm.trans (hall who (hl.mem_parties (hturn ▸ hidle)))
  intro hpre
  cases op with
  | attachOne => cases hne _ _ hpre.1 (by simp)
  | next => cases hne _ _ hpre (by simp)
  | complete who =>
    cases who with
    | none => cases hne _ _ hpre.1 (by simp)
    | some i => cases hne _ _ hpre (by simp)
  | setValue who => cases hne _ _ hpre (by simp)

end WhenCompleted

open WhenCompleted

/-- The promise is resolved at most once, however the callbacks interleave with the loop, and it is
resolved exactly if the initiator and all callbacks are through, which is when nothing is left to
happen; the counter never falls below zero. -/
theorem whenCompleted_resolved {n : Nat} (hn : n + 1 < 2 ^ 64) {s : WhenCompleted}
    (h : (whenCompleted n).Reachable (fun _ _ => True) s) :
    s.failed = false ∧ s.resolved ≤ 1 ∧
      (s.resolved = 1 ↔ ∀ who ∈ parties n, s.turn who = .done) ∧
      (s.resolved = 1 ↔ ∀ op : CompletionOp, ¬ op.Pre n s) := by
  obtain ⟨hl, hc⟩ : s.Looped n ∧ s.Counted n := by
    refine h.invariant (P := fun s => s.Looped n ∧ s.Counted n) ?_
      fun s op _ hs hpre _ => exec_kept hn hs.1 hs.2 hpre
    rintro s rfl
    exact ⟨looped_initial n, counted_initial n⟩
  -- whoever is not through holds the promise back
  have hopen : ∀ who ∈ parties n, s.turn who ≠ .done → s.resolved = 0 := by
    intro who hmem hwho
    cases hturn : s.turn who with
    | idle =>
      have hnone := hl.initiator_of_idle hmem hturn
      exact (hc.inside none (mem_parties.2 (by simp)) (by rw [hnone]; rfl)).1
    | attached => exact (hc.inside who hmem (by rw [hturn]; rfl)).1
    | awaited => exact (hc.inside who hmem (by rw [hturn]; rfl)).1
    | resolving => exact (hc.last who hturn).1
    | done => exact absurd hturn hwho
  have hiff : s.resolved = 1 ↔ ∀ who ∈ parties n, s.turn who = .done := by
    refine ⟨fun hone who hmem => ?_, hc.finished⟩
    by_contra hwho
    exact absurd ((hopen who hmem hwho).symm.trans hone) (by simp)
  refine ⟨hc.succeeded, ?_, hiff, hiff.trans ⟨hl.not_pre, fun hnone who hmem => ?_⟩⟩
  · by_cases hall : ∀ who ∈ parties n, s.turn who = .done
    · exact (hiff.2 hall).le
    · obtain ⟨who, hmem, hwho⟩ : ∃ who ∈ parties n, s.turn who ≠ .done := by
        by_contra hcon
        exact hall fun who hmem => by_contra fun hwho => hcon ⟨who, hmem, hwho⟩
      exact (hopen who hmem hwho).le.trans (Nat.zero_le 1)
  · by_contra hwho
    obtain ⟨op, hop⟩ := hl.exists_pre hmem hwho
    exact hnone op hop

/-- Of two continuables one completes before the loop is through, and one after it. -/
def completionRun : List CompletionOp :=
  [.attachOne, .next, .complete (some 0), .attachOne, .next, .complete none, .complete (some 1),
    .setValue (some 1)]

theorem whenCompleted_resolved_completionRun :
    (completionRun.foldl CompletionOp.exec initial).resolved = 1 ∧
      ∀ who ∈ parties 2, (completionRun.foldl CompletionOp.exec initial).turn who = .done := by
  have hrun : (whenCompleted 2).Reachable (fun _ _ => True)
      (completionRun.foldl CompletionOp.exec initial) := by
    refine Machine.Reachable.run (.init rfl) ?_
    decide +kernel
  exact ⟨by decide, (whenCompleted_resolved (by decide) hrun).2.2.1.1 (by decide)⟩

end Idle
