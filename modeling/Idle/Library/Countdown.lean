import Mathlib.Tactic
import Idle.Library.Count

/-!
# Counting down

Parties share an atomic counter of 64 bits. Each adds itself before it may take itself off again,
so the counter has the number of those inside, and the one that reads 1 on its way out is the last.
-/

namespace Countdown

variable {ι : Type*} {parties : List ι} {inside inside' : ι → Bool}
  {counter : BitVec 64} {a : ι}

/-- The counter has the number of the parties inside. -/
def Exact (parties : List ι) (inside : ι → Bool) (counter : BitVec 64) : Prop :=
  counter.toNat = parties.countP inside

lemma Exact.congr (h : Exact parties inside counter)
    (heq : ∀ b ∈ parties, inside' b = inside b) : Exact parties inside' counter :=
  h.trans (List.countP_congr fun b hb => by rw [heq b hb])

/-- Someone enters; the others stay where they are. -/
lemma Exact.enter (h : Exact parties inside counter) (hn : parties.Nodup)
    (hbound : parties.length < 2 ^ 64) (ha : a ∈ parties) (hin : inside a = false)
    (hin' : inside' a = true) (heq : ∀ b ∈ parties, b ≠ a → inside' b = inside b) :
    Exact parties inside' (counter + 1) := by
  have hcount := List.countP_eq_succ_of_nodup hn ha hin' hin heq
  have hle : parties.countP inside' ≤ parties.length := List.countP_le_length
  have hsucc : counter.toNat + 1 < 2 ^ 64 := by
    rw [h, ← hcount]
    exact hle.trans_lt hbound
  rw [Exact, BitVec.toNat_add, hcount, ← h]
  exact Nat.mod_eq_of_lt hsucc

/-- Someone leaves; the others stay where they are. -/
lemma Exact.leave (h : Exact parties inside counter) (hn : parties.Nodup) (ha : a ∈ parties)
    (hin : inside a = true) (hin' : inside' a = false)
    (heq : ∀ b ∈ parties, b ≠ a → inside' b = inside b) :
    Exact parties inside' (counter - 1) := by
  have hcount := List.countP_eq_succ_of_nodup hn ha hin hin' fun b hb hne => (heq b hb hne).symm
  have hpos : (1 : BitVec 64) ≤ counter := by
    rw [BitVec.le_def, h, hcount]
    exact Nat.succ_le_succ (Nat.zero_le _)
  rw [Exact, BitVec.toNat_sub_of_le hpos, h, hcount]
  rfl

/-- Whoever leaves was counted. -/
lemma Exact.ne_zero (h : Exact parties inside counter) (ha : a ∈ parties)
    (hin : inside a = true) : counter ≠ 0 := by
  rintro rfl
  have hzero : parties.countP inside = 0 := h.symm
  exact List.countP_eq_zero.1 hzero a ha hin

/-- The one that reads 1 on its way out is the last one. -/
lemma Exact.eq_one_iff [DecidableEq ι] (h : Exact parties inside counter)
    (hn : parties.Nodup) (ha : a ∈ parties) (hin : inside a = true) :
    counter = 1 ↔ ∀ b ∈ parties, b ≠ a → inside b = false := by
  have hcount := List.countP_eq_succ_of_nodup (q := fun b => inside b && decide (b ≠ a)) hn ha hin
    (by simp) fun b _ hne => by simp [hne]
  have hone : counter = 1 ↔ parties.countP inside = 1 := by
    rw [← h, BitVec.toNat_eq]
    rfl
  rw [hone, hcount, Nat.succ_inj, List.countP_eq_zero]
  refine forall₂_congr fun b _ => ?_
  by_cases hb : b = a
  · simp [hb]
  · simp [hb]

end Countdown
