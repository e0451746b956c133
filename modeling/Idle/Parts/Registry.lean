import Mathlib.Data.List.Sort
import Mathlib.Tactic

/-!
# The registry of one interface id

`RegistryImpl` keeps the published interfaces of one id in an intrusive list, the one of the highest
priority first. The priority is `operator>` of the interface, an address decides between two
interfaces of equal priority.
-/

namespace Idle

variable {ι : Type*}

/-- What the interfaces of one id are compared by. -/
structure Ranking (ι : Type*) where
  /-- `operator>` -/
  greater : ι → ι → Bool
  /-- `std::addressof` -/
  address : ι → Nat

namespace Ranking

variable (R : Ranking ι)

/-- `UniqueGreaterPred::operator()` -/
def uniqueGreaterPred (left right : ι) : Bool :=
  let isGreater := R.greater left right
  if !isGreater && !R.greater right left then decide (R.address left > R.address right)
  else isGreater

variable [DecidableEq ι]

/-- `Interface::GreaterPred::operator()` -/
def greaterPred (left right : ι) : Bool :=
  if left = right then false else R.uniqueGreaterPred left right

/-- `insert_sorted`: `std::lower_bound` finds the first one that is not greater than `entity`. -/
def insertSorted (entity : ι) (list : List ι) : List ι :=
  list.orderedInsert (fun entity e => R.greaterPred e entity = false) entity

/-- `operator>` as a relation. -/
def Greater (i j : ι) : Prop := R.greater i j = true

variable {R} {i j k : ι} {l : List ι}

@[simp]
lemma mem_insertSorted : i ∈ R.insertSorted j l ↔ i = j ∨ i ∈ l := by
  simp [insertSorted, List.mem_orderedInsert]

lemma nodup_insertSorted (hl : l.Nodup) (hi : i ∉ l) : (R.insertSorted i l).Nodup :=
  (List.perm_orderedInsert _ i l).nodup_iff.2 (List.nodup_cons.2 ⟨hi, hl⟩)

lemma greaterPred_iff : R.greaterPred i j = true ↔ i ≠ j ∧
    (R.Greater i j ∨ ¬R.Greater j i ∧ R.address j < R.address i) := by
  by_cases h : i = j
  · simp [greaterPred, h]
  · by_cases hij : R.greater i j = true
    · simp [greaterPred, uniqueGreaterPred, Greater, h, hij]
    · by_cases hji : R.greater j i = true
      · simp [greaterPred, uniqueGreaterPred, Greater, h, hij, hji]
      · simp [greaterPred, uniqueGreaterPred, Greater, h, hij, hji]

lemma greaterPred_total (haddr : R.address i ≠ R.address j) (h : R.greaterPred j i = false) :
    R.greaterPred i j = true := by
  have hji : ¬R.greaterPred j i = true := by simp [h]
  have hne : i ≠ j := by
    rintro rfl
    exact haddr rfl
  rw [greaterPred_iff] at hji ⊢
  refine ⟨hne, ?_⟩
  by_contra hcon
  obtain ⟨h₁, h₂⟩ := not_or.1 hcon
  obtain hne' | h₃ := not_and_or.1 hji
  · exact hne' hne.symm
  · obtain ⟨h₄, h₅⟩ := not_or.1 h₃
    have h₆ : ¬R.address j < R.address i := fun h => h₂ ⟨h₄, h⟩
    have h₇ : ¬R.address i < R.address j := fun h => h₅ ⟨h₁, h⟩
    omega

/-! ### The order of the list

`operator>` only has to be a strict weak order. -/

section Order

variable [IsStrictWeakOrder ι R.Greater]

omit [DecidableEq ι] in
lemma Greater.irrefl (i : ι) : ¬R.Greater i i := Std.Irrefl.irrefl i

omit [DecidableEq ι] in
lemma Greater.trans (hij : R.Greater i j) (hjk : R.Greater j k) : R.Greater i k :=
  IsTrans.trans i j k hij hjk

omit [DecidableEq ι] in
lemma Greater.asymm (hij : R.Greater i j) : ¬R.Greater j i :=
  fun hji => Greater.irrefl i (hij.trans hji)

omit [DecidableEq ι] in
/-- What is below `j` or equal to it is below whatever is above `j`. -/
lemma Greater.of_not_greater_left (hij : R.Greater i j) (hkj : ¬R.Greater k j) : R.Greater i k := by
  by_contra hik
  by_cases hki : R.Greater k i
  · exact hkj (hki.trans hij)
  · by_cases hjk : R.Greater j k
    · exact hik (hij.trans hjk)
    · exact (‹IsStrictWeakOrder ι R.Greater›.incomp_trans i k j ⟨hik, hki⟩ ⟨hkj, hjk⟩).1 hij

omit [DecidableEq ι] in
lemma Greater.of_not_greater_right (hij : R.Greater i j) (hik : ¬R.Greater i k) :
    R.Greater k j := by
  by_contra hkj
  exact hik (hij.of_not_greater_left hkj)

lemma greaterPred_trans (hij : R.greaterPred i j = true) (hjk : R.greaterPred j k = true) :
    R.greaterPred i k = true := by
  rw [greaterPred_iff] at *
  obtain ⟨-, hij⟩ := hij
  obtain ⟨-, hjk⟩ := hjk
  have hne : i ≠ k := by
    rintro rfl
    rcases hij with hij | ⟨hji, haddr⟩
    · rcases hjk with hjk | ⟨hnij, -⟩
      · exact hij.asymm hjk
      · exact hnij hij
    · rcases hjk with hjk | ⟨-, haddr'⟩
      · exact hji hjk
      · omega
  refine ⟨hne, ?_⟩
  rcases hij with hij | ⟨hji, haddr⟩
  · rcases hjk with hjk | ⟨hkj, -⟩
    · exact .inl (hij.trans hjk)
    · exact .inl (hij.of_not_greater_left hkj)
  · rcases hjk with hjk | ⟨hkj, haddr'⟩
    · exact .inl (hjk.of_not_greater_right hji)
    · by_cases hik : R.Greater i k
      · exact .inl hik
      · refine .inr ⟨fun hki => ?_, by omega⟩
        exact hji (hki.of_not_greater_right hkj)

/-- The list as the registry keeps it. -/
def Sorted (R : Ranking ι) (l : List ι) : Prop := l.Pairwise fun i j => R.greaterPred i j = true

lemma Sorted.insertSorted (hl : R.Sorted l) (haddr : ∀ j ∈ l, R.address j ≠ R.address i) :
    R.Sorted (R.insertSorted i l) := by
  induction l with
  | nil => simp [Sorted, Ranking.insertSorted]
  | cons a l ih =>
    obtain ⟨ha, hl'⟩ := List.pairwise_cons.1 hl
    have hia := haddr a List.mem_cons_self
    by_cases h : R.greaterPred a i = false
    · have hia' : R.greaterPred i a = true := greaterPred_total hia.symm h
      simp only [Ranking.insertSorted, List.orderedInsert_cons, h, if_true]
      refine List.pairwise_cons.2 ⟨fun j hj => ?_, hl⟩
      rcases List.mem_cons.1 hj with rfl | hj
      · exact hia'
      · exact greaterPred_trans hia' (ha j hj)
    · have := ih hl' fun j hj => haddr j (List.mem_cons_of_mem _ hj)
      simp only [Ranking.insertSorted, List.orderedInsert_cons, h]
      refine List.pairwise_cons.2 ⟨fun j hj => ?_, this⟩
      rcases mem_insertSorted.1 hj with rfl | hj
      · simpa using h
      · exact ha j hj

omit [IsStrictWeakOrder ι R.Greater] in
lemma Sorted.erase (hl : R.Sorted l) (i : ι) : R.Sorted (l.erase i) :=
  List.Pairwise.sublist List.erase_sublist hl

omit [IsStrictWeakOrder ι R.Greater] in
lemma Sorted.nodup (hl : R.Sorted l) : l.Nodup :=
  hl.imp fun h => (greaterPred_iff.1 h).1

/-- No registered interface is of a higher priority than the first one. -/
lemma Sorted.not_greater_front (hl : R.Sorted l) (hfront : l.head? = some i) (hj : j ∈ l) :
    ¬R.Greater j i := by
  cases l with
  | nil => simp at hj
  | cons a l =>
    obtain rfl : a = i := by simpa using hfront
    rcases List.mem_cons.1 hj with rfl | hj
    · exact Greater.irrefl _
    · obtain ⟨-, h | ⟨h, -⟩⟩ := greaterPred_iff.1 ((List.pairwise_cons.1 hl).1 j hj)
      · exact h.asymm
      · exact h

end Order

/-- Interfaces whose number is their priority. -/
def byNumber : Ranking Nat where
  greater i j := decide (j < i)
  address := id

instance : IsStrictWeakOrder Nat byNumber.Greater where
  irrefl i := by simp [Greater, byNumber]
  trans i j k := by simp only [Greater, byNumber, decide_eq_true_eq]; omega
  incomp_trans i j k := by simp only [Greater, byNumber, decide_eq_true_eq]; omega

end Ranking

/-! ### Neighbours -/

/-- The previous node of an intrusive list; null for the first one and for one that is in no
list. -/
def previous [DecidableEq ι] (i : ι) : List ι → Option ι
  | a :: b :: l => if b = i then some a else previous i (b :: l)
  | _ => none

lemma previous_eq_none_iff [DecidableEq ι] {i : ι} {l : List ι} :
    previous i l = none ↔ i ∉ l.tail := by
  induction l with
  | nil => simp [previous]
  | cons a l ih =>
    cases l with
    | nil => simp [previous]
    | cons b l =>
      by_cases h : b = i
      · simp [previous, h]
      · have h' : i ≠ b := fun e => h e.symm
        simpa [previous, h, h'] using ih

end Idle
