import Idle.Library.Machine
import Idle.Library.Sorted
import Idle.Util.Algorithm

/-!
# Flat sets

`FlatSet` keeps its elements in a sorted vector. Every operation begins with a binary search, and
refines the same operation of a finite set in which no two elements are equivalent. An iterator is
the position of its element, and the number of elements is the end.
-/

namespace Idle

open Comparison

/-- `FlatSet` -/
structure FlatSet {α : Type*} (pred : α → α → Bool) where
  storage : List α

namespace FlatSet

variable {α : Type*} {pred : α → α → Bool}

def size (s : FlatSet pred) : Nat := s.storage.length

/-- `lower_bound`, called for the whole storage. -/
def lower (s : FlatSet pred) (value : α) : Nat :=
  lowerBound (fun i => s.storage[i]?.any (pred · value)) 0 s.size

/-- `is_equal_element` -/
def isEqualElement (s : FlatSet pred) (itr : Nat) (value : α) : Bool :=
  s.storage[itr]?.any fun a => !pred value a

/-- The iterator and whether the value was inserted, with the set after that. -/
def insert (s : FlatSet pred) (value : α) : (Nat × Bool) × FlatSet pred :=
  let lower := s.lower value
  if s.isEqualElement lower value then ((lower, false), s)
  else ((lower, true), ⟨s.storage.insertIdx lower value⟩)

/-- `insert`, for a range of values. -/
def insertRange (s : FlatSet pred) (values : List α) : FlatSet pred :=
  values.foldl (fun s value => (s.insert value).2) s

def find (s : FlatSet pred) (value : α) : Nat :=
  let lower := s.lower value
  if s.isEqualElement lower value then lower else s.size

/-- `erase`, for an iterator; it returns the one behind. -/
def eraseAt (s : FlatSet pred) (itr : Nat) : Nat × FlatSet pred :=
  (itr, ⟨s.storage.eraseIdx itr⟩)

/-- `erase`, for a key; it returns how many elements were erased. -/
def erase (s : FlatSet pred) (value : α) : Nat × FlatSet pred :=
  let lower := s.lower value
  if s.isEqualElement lower value then (1, ⟨s.storage.eraseIdx lower⟩) else (0, s)

def contains (s : FlatSet pred) (value : α) : Bool := s.find value != s.size

def empty : FlatSet pred := ⟨[]⟩

end FlatSet

/-- The operations that change a set. -/
inductive FlatSetOp (α : Type*) where
  | insert (value : α)
  | insertRange (values : List α)
  | eraseAt (itr : Nat)
  | erase (value : α)
  | clear

namespace FlatSetOp

variable {α : Type*} {pred : α → α → Bool}

def exec (s : FlatSet pred) : FlatSetOp α → FlatSet pred
  | insert value => (s.insert value).2
  | insertRange values => s.insertRange values
  | eraseAt itr => (s.eraseAt itr).2
  | erase value => (s.erase value).2
  | clear => .empty

/-- An iterator that is erased is not the end. -/
def Pre (s : FlatSet pred) : FlatSetOp α → Prop
  | eraseAt itr => itr < s.size
  | _ => True

end FlatSetOp

/-! ### Finite sets -/

namespace FlatSet

variable {α : Type*}

/-- Insertion into a finite set that has an equivalent element already or not. -/
noncomputable def setInsert (pred : α → α → Bool) (A : Finset α) (value : α) : Finset α :=
  open scoped Classical in
  if ∃ a ∈ A, equivalent pred a value = true then A else Insert.insert value A

/-- What an operation does to a finite set. An iterator is at the element that has so many elements
before it. -/
noncomputable def setExec (pred : α → α → Bool) (A : Finset α) : FlatSetOp α → Finset α
  | .insert value => setInsert pred A value
  | .insertRange values => values.foldl (setInsert pred) A
  | .eraseAt itr => A.filter fun a => (A.filter (pred · a)).card ≠ itr
  | .erase value => A.filter fun a => !equivalent pred a value
  | .clear => ∅

end FlatSet

/-- All uses of a flat set, next to the finite set that it is meant to be. -/
noncomputable def flatSets {α : Type*} (pred : α → α → Bool) :
    Machine (FlatSet pred × Finset α) (FlatSetOp α) where
  init c := c = (.empty, ∅)
  pre c := FlatSetOp.Pre c.1
  step c op := (op.exec c.1, FlatSet.setExec pred c.2 op)

namespace FlatSet

variable {α : Type*} {pred : α → α → Bool}

/-- The storage is in strict order, so it is sorted and no two elements are equivalent, and it has
the elements of a finite set. -/
structure Represents (s : FlatSet pred) (A : Finset α) : Prop where
  sorted : s.storage.Pairwise (pred · · = true)
  mem_iff : ∀ a, a ∈ s.storage ↔ a ∈ A

/-- What is read of a set is what a finite set has. -/
structure Reads (s : FlatSet pred) (A : Finset α) : Prop where
  size_eq : s.size = A.card
  contains_iff : ∀ value, s.contains value = true ↔ ∃ a ∈ A, equivalent pred a value = true
  find_spec : ∀ value, s.find value = s.size ∨
    ∃ a ∈ A, s.storage[s.find value]? = some a ∧ equivalent pred a value = true
  lower_isLeast : ∀ value,
    IsLeast {i | ∀ a, s.storage[i]? = some a → pred a value = false} (s.lower value)

/-- What an operation reports is what it does to a finite set. -/
def Reports (s : FlatSet pred) (A : Finset α) : FlatSetOp α → Prop
  | .insert value =>
    ((s.insert value).1.2 = true ↔ ∀ a ∈ A, ¬ equivalent pred a value = true) ∧
      ∃ a ∈ setInsert pred A value, equivalent pred a value = true ∧
        (s.insert value).2.storage[(s.insert value).1.1]? = some a
  | .erase value => (s.erase value).1 = (A.filter fun a => equivalent pred a value).card
  | .eraseAt itr => (s.eraseAt itr).2.storage[(s.eraseAt itr).1]? = s.storage[itr + 1]?
  | _ => True

/-! ### The search -/

variable {s : FlatSet pred} {A : Finset α} {value : α}

/-- What the search finds in a storage that is split by a value. -/
lemma lower_eq {l₁ l₂ : List α} {m : Option α} (h : s.storage = l₁ ++ m.toList ++ l₂)
    (h₁ : ∀ a ∈ l₁, pred a value = true) (hnot : ∀ a ∈ m.toList ++ l₂, pred a value = false) :
    s.lower value = l₁.length := by
  refine lowerBound_eq (Nat.zero_le _) ?_ fun i => ?_
  · simp only [size, h, List.length_append]
    omega
  rw [h, List.append_assoc]
  rcases Nat.lt_or_ge i l₁.length with hi | hi
  · rw [List.getElem?_append_left hi, List.getElem?_eq_getElem hi, decide_eq_true hi]
    exact h₁ _ (List.getElem_mem hi)
  · rw [List.getElem?_append_right hi, decide_eq_false (not_lt.2 hi), Option.any_eq_false]
    exact fun a ha => hnot a (List.mem_of_getElem? ha)

/-- A storage is split by a value where the search ends. -/
structure Split (s : FlatSet pred) (value : α) (l₁ : List α) (m : Option α) (l₂ : List α) :
    Prop where
  storage_eq : s.storage = l₁ ++ m.toList ++ l₂
  before : ∀ a ∈ l₁, pred a value = true
  middle : ∀ a ∈ m, equivalent pred a value = true
  after : ∀ a ∈ l₂, pred value a = true
  not_before : ∀ a ∈ m.toList ++ l₂, pred a value = false
  lower_eq : s.lower value = l₁.length
  isEqualElement_eq : s.isEqualElement l₁.length value = m.isSome

section Split

variable {l₁ l₂ : List α} {m : Option α} {a : α}

lemma insertIdx_length_append (l₁ l₂ : List α) (a : α) :
    (l₁ ++ l₂).insertIdx l₁.length a = l₁ ++ a :: l₂ := by
  induction l₁ with
  | nil => rfl
  | cons b l₁ ih => simp [ih]

/-- The element in the middle is the only one that is equivalent to the value. -/
lemma Split.equivalent_iff_mem (h : s.Split value l₁ m l₂) (ha : a ∈ s.storage) :
    equivalent pred a value = true ↔ a ∈ m := by
  refine ⟨fun heq => ?_, h.middle a⟩
  obtain ⟨hav, hva⟩ := equivalent_iff.1 heq
  rw [h.storage_eq, List.mem_append, List.mem_append] at ha
  rcases ha with (ha | ha) | ha
  · exact absurd (h.before a ha) hav
  · exact Option.mem_toList.1 ha
  · exact absurd (h.after a ha) hva

lemma Split.insert_none (h : s.Split value l₁ none l₂) :
    s.insert value = ((l₁.length, true), ⟨l₁ ++ value :: l₂⟩) := by
  have hstorage : s.storage = l₁ ++ l₂ := by simpa using h.storage_eq
  simp [insert, h.lower_eq, h.isEqualElement_eq, hstorage, insertIdx_length_append]

lemma Split.insert_some (h : s.Split value l₁ (some a) l₂) :
    s.insert value = ((l₁.length, false), s) := by
  simp [insert, h.lower_eq, h.isEqualElement_eq]

lemma Split.find_none (h : s.Split value l₁ none l₂) : s.find value = s.size := by
  simp [find, h.lower_eq, h.isEqualElement_eq]

lemma Split.find_some (h : s.Split value l₁ (some a) l₂) : s.find value = l₁.length := by
  simp [find, h.lower_eq, h.isEqualElement_eq]

lemma Split.erase_none (h : s.Split value l₁ none l₂) : s.erase value = (0, s) := by
  simp [erase, h.lower_eq, h.isEqualElement_eq]

lemma Split.erase_some (h : s.Split value l₁ (some a) l₂) :
    s.erase value = (1, ⟨l₁ ++ l₂⟩) := by
  have hstorage : s.storage = l₁ ++ a :: l₂ := by simpa using h.storage_eq
  simp [erase, h.lower_eq, h.isEqualElement_eq, hstorage, List.eraseIdx_append_of_length_le]

end Split

variable [IsStrictWeakOrder α (pred · · = true)]

lemma exists_splitAt (h : s.storage.Pairwise (pred · · = true)) (value : α) :
    ∃ l₁ l₂ m, s.Split value l₁ m l₂ := by
  obtain ⟨l₁, l₂, m, hstorage, h₁, hm, h₂⟩ := exists_split h value
  have hnot : ∀ a ∈ m.toList ++ l₂, pred a value = false := by
    intro a ha
    rcases List.mem_append.1 ha with ha | ha
    · exact Bool.eq_false_iff.2 (equivalent_iff.1 (hm a (Option.mem_toList.1 ha))).1
    · exact Bool.eq_false_iff.2 (asymm_of (pred · · = true) (h₂ a ha))
  refine ⟨l₁, l₂, m, hstorage, h₁, hm, h₂, hnot, lower_eq hstorage h₁ hnot, ?_⟩
  rw [isEqualElement, hstorage, List.append_assoc, List.getElem?_append_right le_rfl,
    Nat.sub_self]
  cases m with
  | none =>
    cases l₂ with
    | nil => rfl
    | cons a l₂ => simpa using h₂ a List.mem_cons_self
  | some a => simpa using (equivalent_iff.1 (hm a rfl)).2

/-! ### The operations -/

namespace Represents

variable (hs : s.Represents A)
include hs

lemma nodup : s.storage.Nodup := by
  refine List.nodup_iff_pairwise_ne.2 (hs.sorted.imp fun {a b} hab heq => ?_)
  rw [heq] at hab
  exact irrefl_of (pred · · = true) b hab

lemma val_eq : A.val = s.storage := by
  have hA : A = ⟨s.storage, hs.nodup⟩ := by
    ext a
    exact (hs.mem_iff a).symm
  rw [hA]

lemma card_filter (p : α → Bool) : (A.filter (p ·)).card = s.storage.countP p := by
  rw [Finset.card, Finset.filter_val, hs.val_eq, Multiset.filter_coe, Multiset.coe_card,
    List.countP_eq_length_filter]
  simp

lemma size_eq : s.size = A.card := by
  rw [Finset.card, hs.val_eq, Multiset.coe_card, size]

omit [IsStrictWeakOrder α (pred · · = true)] in
lemma exists_equivalent_iff {l₁ l₂ : List α} {m : Option α} (h : s.Split value l₁ m l₂) :
    (∃ a ∈ A, equivalent pred a value = true) ↔ m.isSome = true := by
  constructor
  · rintro ⟨a, ha, heq⟩
    exact Option.isSome_of_mem ((h.equivalent_iff_mem ((hs.mem_iff a).2 ha)).1 heq)
  · intro hm
    obtain ⟨a, rfl⟩ := Option.isSome_iff_exists.1 hm
    refine ⟨a, (hs.mem_iff a).1 ?_, h.middle a rfl⟩
    simp [h.storage_eq]

lemma insert (value : α) : (s.insert value).2.Represents (setInsert pred A value) := by
  obtain ⟨l₁, l₂, m, h⟩ := exists_splitAt hs.sorted value
  have hiff := hs.exists_equivalent_iff h
  cases m with
  | none =>
    have hstorage : s.storage = l₁ ++ l₂ := by simpa using h.storage_eq
    rw [h.insert_none, setInsert, if_neg fun hex => absurd (hiff.1 hex) (by simp)]
    refine ⟨pairwise_insert (hstorage ▸ hs.sorted) h.before h.after, fun a => ?_⟩
    simp only [Finset.mem_insert, ← hs.mem_iff, hstorage, List.mem_append, List.mem_cons]
    exact or_left_comm
  | some a =>
    rw [h.insert_some, setInsert, if_pos (hiff.2 rfl)]
    exact hs

lemma insertRange (values : List α) :
    (s.insertRange values).Represents (values.foldl (setInsert pred) A) := by
  induction values generalizing s A with
  | nil => exact hs
  | cons value values ih => exact ih (hs.insert value)

lemma erase (value : α) :
    (s.erase value).2.Represents (A.filter fun a => !equivalent pred a value) := by
  obtain ⟨l₁, l₂, m, h⟩ := exists_splitAt hs.sorted value
  have hmem : ∀ a, a ∈ A.filter (fun a => !equivalent pred a value) ↔ a ∈ s.storage ∧ a ∉ m := by
    intro a
    rw [Finset.mem_filter, ← hs.mem_iff, Bool.not_eq_true']
    refine and_congr_right fun ha => ?_
    rw [← h.equivalent_iff_mem ha, Bool.not_eq_true]
  cases m with
  | none =>
    rw [h.erase_none]
    exact ⟨hs.sorted, fun a => by rw [hmem]; simp⟩
  | some b =>
    have hstorage : s.storage = l₁ ++ b :: l₂ := by simpa using h.storage_eq
    rw [h.erase_some]
    refine ⟨?_, fun a => ?_⟩
    · have hsub : (l₁ ++ l₂).Sublist s.storage := by
        rw [hstorage]
        exact (List.sublist_cons_self b l₂).append_left l₁
      exact hs.sorted.sublist hsub
    · have hnodup := hs.nodup
      rw [hmem, hstorage]
      rw [hstorage, List.nodup_middle, List.nodup_cons] at hnodup
      rw [Option.mem_some_iff, List.mem_append, List.mem_append, List.mem_cons]
      constructor
      · intro ha
        refine ⟨ha.imp_right .inr, ?_⟩
        rintro rfl
        exact hnodup.1 (List.mem_append.2 ha)
      · rintro ⟨ha, hne⟩
        exact ha.imp_right fun ha => ha.resolve_left fun heq => hne heq.symm

/-- The position of an element is the number of elements before it. -/
lemma card_before {i : Nat} {a : α} (h : s.storage[i]? = some a) :
    (A.filter (pred · a)).card = i := by
  obtain ⟨hi, rfl⟩ := List.getElem?_eq_some_iff.1 h
  obtain ⟨l₁, l₂, hl₁, hstorage⟩ : ∃ l₁ l₂, l₁.length = i ∧ s.storage = l₁ ++ s.storage[i] :: l₂ :=
    ⟨s.storage.take i, s.storage.drop (i + 1), by simp [hi.le], by simp⟩
  have hsorted := hs.sorted
  rw [hs.card_filter]
  generalize s.storage[i] = a at hstorage
  rw [hstorage] at hsorted ⊢
  obtain ⟨-, hl₂, hbetween⟩ := List.pairwise_append.1 hsorted
  rw [List.countP_append, List.countP_cons, List.countP_eq_length.2 fun b hb =>
    hbetween b hb a List.mem_cons_self, List.countP_eq_zero.2 fun b hb =>
    asymm_of (pred · · = true) ((List.pairwise_cons.1 hl₂).1 b hb)]
  simp [hl₁, irrefl_of (pred · · = true) a]

lemma eraseAt (itr : Nat) :
    (s.eraseAt itr).2.Represents (A.filter fun a => (A.filter (pred · a)).card ≠ itr) := by
  refine ⟨hs.sorted.sublist (List.eraseIdx_sublist _ _), fun a => ?_⟩
  rw [FlatSet.eraseAt, List.mem_eraseIdx_iff_getElem?, Finset.mem_filter, ← hs.mem_iff]
  constructor
  · rintro ⟨i, hne, hi⟩
    exact ⟨List.mem_of_getElem? hi, (hs.card_before hi).trans_ne hne⟩
  · rintro ⟨ha, hne⟩
    obtain ⟨i, hi⟩ := List.mem_iff_getElem?.1 ha
    exact ⟨i, (hs.card_before hi).symm.trans_ne hne, hi⟩

/-- Every operation does the same to the finite set. -/
lemma exec (op : FlatSetOp α) : (op.exec s).Represents (setExec pred A op) := by
  cases op with
  | insert value => exact hs.insert value
  | insertRange values => exact hs.insertRange values
  | eraseAt itr => exact hs.eraseAt itr
  | erase value => exact hs.erase value
  | clear => exact ⟨.nil, by simp [setExec, FlatSetOp.exec, empty]⟩

/-! ### What is read and reported -/

lemma reads : s.Reads A where
  size_eq := hs.size_eq
  contains_iff value := by
    obtain ⟨l₁, l₂, m, h⟩ := exists_splitAt hs.sorted value
    rw [hs.exists_equivalent_iff h, contains, bne_iff_ne]
    cases m with
    | none => simp [h.find_none]
    | some a =>
      have hne : l₁.length ≠ s.size := by
        simp [size, h.storage_eq]
      simpa [h.find_some] using hne
  find_spec value := by
    obtain ⟨l₁, l₂, m, h⟩ := exists_splitAt hs.sorted value
    cases m with
    | none => exact .inl h.find_none
    | some a =>
      refine .inr ⟨a, (hs.mem_iff a).1 ?_, ?_, h.middle a rfl⟩
      · simp [h.storage_eq]
      · simp [h.find_some, h.storage_eq]
  lower_isLeast value := by
    obtain ⟨l₁, l₂, m, h⟩ := exists_splitAt hs.sorted value
    rw [h.lower_eq]
    refine ⟨fun a ha => ?_, fun j hj => not_lt.1 fun hlt => ?_⟩
    · rw [h.storage_eq, List.append_assoc, List.getElem?_append_right le_rfl] at ha
      exact h.not_before a (List.mem_of_getElem? ha)
    · have hmem := hj l₁[j] (by
        rw [h.storage_eq, List.append_assoc, List.getElem?_append_left hlt,
          List.getElem?_eq_getElem hlt])
      exact Bool.eq_false_iff.1 hmem (h.before _ (List.getElem_mem hlt))

lemma reports (op : FlatSetOp α) : s.Reports A op := by
  cases op with
  | insert value =>
    have hmem := (hs.insert value).mem_iff
    obtain ⟨l₁, l₂, m, h⟩ := exists_splitAt hs.sorted value
    have hiff : (∀ a ∈ A, ¬ equivalent pred a value = true) ↔ m.isSome = false := by
      rw [← Bool.not_eq_true, ← hs.exists_equivalent_iff h]
      simp
    rw [Reports, hiff]
    cases m with
    | none =>
      rw [h.insert_none] at hmem ⊢
      exact ⟨by simp, value, (hmem value).1 (by simp), equivalent_self value, by simp⟩
    | some a =>
      have ha : a ∈ s.storage := by simp [h.storage_eq]
      rw [h.insert_some] at hmem ⊢
      exact ⟨by simp, a, (hmem a).1 ha, h.middle a rfl, by simp [h.storage_eq]⟩
  | erase value =>
    obtain ⟨l₁, l₂, m, h⟩ := exists_splitAt hs.sorted value
    have hm : s.storage.countP (equivalent pred · value) = m.toList.length := by
      have h₁ : l₁.countP (equivalent pred · value) = 0 := List.countP_eq_zero.2 fun a ha heq =>
        (equivalent_iff.1 heq).1 (h.before a ha)
      have h₂ : l₂.countP (equivalent pred · value) = 0 := List.countP_eq_zero.2 fun a ha heq =>
        (equivalent_iff.1 heq).2 (h.after a ha)
      rw [h.storage_eq, List.countP_append, List.countP_append, h₁, h₂, Nat.zero_add,
        Nat.add_zero]
      exact List.countP_eq_length.2 fun a ha => h.middle a (Option.mem_toList.1 ha)
    rw [Reports, hs.card_filter (equivalent pred · value), hm]
    cases m with
    | none => rw [h.erase_none]; rfl
    | some a => rw [h.erase_some]; rfl
  | eraseAt itr =>
    rw [Reports, FlatSet.eraseAt, List.getElem?_eraseIdx, if_neg (lt_irrefl itr)]
  | _ => trivial

end Represents

/-! ### Sets in the order of `std::less` -/

section Less

variable {β : Type*} [LinearOrder β] {s : FlatSet fun a b : β => a < b} {value a : β}

lemma equivalent_less_iff {a b : β} : equivalent (fun a b : β => a < b) a b = true ↔ a = b := by
  rw [equivalent_iff, decide_eq_true_eq, decide_eq_true_eq, not_lt, not_lt]
  exact ⟨fun h => le_antisymm h.2 h.1, fun h => ⟨h.ge, h.le⟩⟩

lemma represents_toFinset (h : s.storage.Pairwise (· < ·)) :
    s.Represents s.storage.toFinset :=
  ⟨h.imp decide_eq_true, fun _ => List.mem_toFinset.symm⟩

lemma insert_sorted (h : s.storage.Pairwise (· < ·)) (value : β) :
    (s.insert value).2.storage.Pairwise (· < ·) :=
  ((represents_toFinset h).insert value).sorted.imp of_decide_eq_true

lemma mem_insert_storage (h : s.storage.Pairwise (· < ·)) :
    a ∈ (s.insert value).2.storage ↔ a = value ∨ a ∈ s.storage := by
  have hiff : (∃ b ∈ s.storage.toFinset, equivalent (fun a b : β => a < b) b value = true) ↔
      value ∈ s.storage := by
    simp [equivalent_less_iff]
  rw [((represents_toFinset h).insert value).mem_iff, setInsert]
  split
  · rename_i hex
    rw [List.mem_toFinset]
    exact ⟨.inr, fun ha => ha.elim (fun heq => heq ▸ hiff.1 hex) id⟩
  · simp

end Less

/-- A flat set is the finite set that the same operations make. -/
theorem flatSet_refines {c : FlatSet pred × Finset α}
    (h : (flatSets pred).Reachable (fun _ _ => True) c) :
    c.1.Represents c.2 ∧ c.1.Reads c.2 ∧ ∀ op : FlatSetOp α, op.Pre c.1 → c.1.Reports c.2 op := by
  have hc : c.1.Represents c.2 := by
    refine h.invariant (P := fun c => c.1.Represents c.2) (fun c h => ?_) fun c op _ hc _ _ =>
      hc.exec op
    rw [h]
    exact ⟨.nil, by simp [empty]⟩
  exact ⟨hc, hc.reads, fun op _ => hc.reports op⟩

def numbers : List (FlatSetOp Nat) :=
  [.insert 4, .insertRange [2, 28, 2], .erase 99, .eraseAt 1, .erase 2, .insert 100]

theorem flatSet_refines_numbers :
    ∃ c : FlatSet (fun a b : Nat => a < b) × Finset Nat, c.1.storage = [28, 100] ∧
      c.1.Represents c.2 ∧ c.1.Reads c.2 ∧
        ∀ op : FlatSetOp Nat, op.Pre c.1 → c.1.Reports c.2 op := by
  have hreach : (flatSets fun a b : Nat => a < b).Reachable (fun _ _ => True)
      (numbers.foldl (flatSets fun a b : Nat => a < b).step (.empty, ∅)) := by
    refine (Machine.Reachable.init rfl).run ?_
    refine ⟨trivial, trivial, trivial, trivial, trivial, trivial, ?_, trivial, trivial, trivial,
      trivial, trivial, trivial⟩
    change 1 < FlatSet.size _
    decide +kernel
  exact ⟨_, by decide +kernel, flatSet_refines hreach⟩

end FlatSet

end Idle
