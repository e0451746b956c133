import Mathlib.Data.List.Sort
import Mathlib.Data.List.Nodup

/-!
# Containers of different values

What a set of the standard library promises, be it ordered or hashed: an iteration meets every
element once, a new element is put anywhere between the others, which a hashed set may arrange anew
for it, and what is left after an element was erased keeps its order.
-/

namespace List

variable {α : Type*} [DecidableEq α] {a b : α} {l : List α}

/-- The element behind `a` -/
def behind? (a : α) : List α → Option α
  | [] => none
  | x :: l => if x = a then l.head? else behind? a l

/-- In an ascending list the next element is the least one that is greater. -/
lemma behind?_eq_some_iff [LinearOrder α] (hl : l.Pairwise (· < ·)) (ha : a ∈ l) :
    l.behind? a = some b ↔ b ∈ l ∧ a < b ∧ ∀ x ∈ l, a < x → b ≤ x := by
  induction l with
  | nil => cases ha
  | cons y l ih =>
    obtain ⟨hy, hl⟩ := pairwise_cons.1 hl
    rw [behind?]
    split
    · rename_i hya
      subst hya
      cases l with
      | nil => exact iff_of_false nofun fun h => h.2.1.ne' (mem_singleton.1 h.1)
      | cons z l =>
        have hz := (pairwise_cons.1 hl).1
        simp only [head?_cons, Option.some.injEq]
        constructor
        · rintro rfl
          refine ⟨by simp, hy _ mem_cons_self, fun x hx hyx => ?_⟩
          rcases mem_cons.1 hx with rfl | hx
          · exact absurd hyx (lt_irrefl _)
          · rcases mem_cons.1 hx with rfl | hx
            · exact le_rfl
            · exact (hz x hx).le
        · rintro ⟨hb, hyb, hleast⟩
          rcases mem_cons.1 hb with rfl | hb
          · exact absurd hyb (lt_irrefl _)
          · refine le_antisymm ?_ (hleast z (by simp) (hy _ mem_cons_self))
            rcases mem_cons.1 hb with rfl | hb
            · exact le_rfl
            · exact (hz b hb).le
    · rename_i hya
      have ha : a ∈ l := (mem_cons.1 ha).resolve_left (Ne.symm hya)
      rw [ih hl ha]
      have hlt : y < a := hy a ha
      simp only [mem_cons, forall_eq_or_imp]
      constructor
      · rintro ⟨hb, hab, hleast⟩
        exact ⟨.inr hb, hab, fun h => absurd h hlt.asymm, hleast⟩
      · rintro ⟨rfl | hb, hab, -, hleast⟩
        · exact absurd hab hlt.asymm
        · exact ⟨hb, hab, hleast⟩

lemma behind?_eq_none_iff [LinearOrder α] (hl : l.Pairwise (· < ·)) (ha : a ∈ l) :
    l.behind? a = none ↔ ∀ x ∈ l, x ≤ a := by
  induction l with
  | nil => cases ha
  | cons y l ih =>
    obtain ⟨hy, hl⟩ := pairwise_cons.1 hl
    rw [behind?]
    split
    · rename_i hya
      subst hya
      rw [head?_eq_none_iff]
      constructor
      · rintro rfl
        simp
      · intro h
        refine eq_nil_iff_forall_not_mem.2 fun x hx => ?_
        exact absurd (hy x hx) (h x (mem_cons_of_mem _ hx)).not_gt
    · rename_i hya
      have ha : a ∈ l := (mem_cons.1 ha).resolve_left (Ne.symm hya)
      rw [ih hl ha, forall_mem_cons]
      exact (and_iff_right (hy a ha).le).symm

end List

namespace Idle

/-- A container `C` with different elements from `α` -/
structure SetContainer (α C : Type*) [DecidableEq α] where
  /-- In the order of the iteration -/
  elements : C → List α
  clear : C → C
  insert : α → C → C
  erase : α → C → C
  nodup : ∀ s, (elements s).Nodup
  elements_clear : ∀ s, elements (clear s) = []
  elements_erase : ∀ a s, elements (erase a s) = (elements s).erase a
  insert_of_mem : ∀ a s, a ∈ elements s → insert a s = s
  insert_perm : ∀ a s, a ∉ elements s → (elements (insert a s)).Perm (a :: elements s)

namespace SetContainer

variable {α C : Type*} [DecidableEq α] (K : SetContainer α C) {a x : α} {s : C}

def size (s : C) : ℕ := (K.elements s).length

lemma mem_insert : x ∈ K.elements (K.insert a s) ↔ x = a ∨ x ∈ K.elements s := by
  by_cases ha : a ∈ K.elements s
  · rw [K.insert_of_mem a s ha]
    exact ⟨.inr, fun h => h.elim (fun h => h ▸ ha) id⟩
  · rw [(K.insert_perm a s ha).mem_iff, List.mem_cons]

lemma mem_erase : x ∈ K.elements (K.erase a s) ↔ x ≠ a ∧ x ∈ K.elements s := by
  rw [K.elements_erase, (K.nodup s).mem_erase_iff]

/-- Put `b` in the place of `a`, if it is another value. -/
def replace (a b : α) (s : C) : C := if b = a then s else K.insert b (K.erase a s)

lemma mem_replace (ha : a ∈ K.elements s) {b : α} :
    x ∈ K.elements (K.replace a b s) ↔ x = b ∨ x ≠ a ∧ x ∈ K.elements s := by
  rw [replace]
  split
  · rename_i hba
    subst hba
    by_cases hx : x = b
    · simp [hx, ha]
    · simp [hx]
  · rw [mem_insert, mem_erase]

end SetContainer

/-! ### Ordered sets -/

/-- The elements of an ordered set, from the least one on -/
abbrev OrderedSet (α : Type*) [LinearOrder α] := {l : List α // l.Pairwise (· < ·)}

namespace OrderedSet

variable {α : Type*} [DecidableEq α] [LinearOrder α]

def insert (a : α) (s : OrderedSet α) : OrderedSet α :=
  ⟨if a ∈ s.1 then s.1 else s.1.orderedInsert (· ≤ ·) a, by
    split
    · exact s.2
    · rename_i ha
      have hperm := List.perm_orderedInsert (· ≤ ·) a s.1
      have hnodup : (s.1.orderedInsert (· ≤ ·) a).Nodup :=
        hperm.nodup_iff.2 (List.nodup_cons.2 ⟨ha, s.2.imp fun h => h.ne⟩)
      have hle : (s.1.orderedInsert (· ≤ ·) a).Pairwise (· ≤ ·) :=
        List.Pairwise.orderedInsert a s.1 (s.2.imp fun h => h.le)
      exact (hle.and hnodup).imp fun h => lt_of_le_of_ne h.1 h.2⟩

/-- `std::set` -/
def container (α : Type*) [DecidableEq α] [LinearOrder α] : SetContainer α (OrderedSet α) where
  elements s := s.1
  clear _ := ⟨[], .nil⟩
  insert := insert
  erase a s := ⟨s.1.erase a, s.2.sublist List.erase_sublist⟩
  nodup s := s.2.imp fun h => h.ne
  elements_clear _ := rfl
  elements_erase _ _ := rfl
  insert_of_mem a s ha := Subtype.ext (if_pos ha)
  insert_perm a s ha := by
    simp only [insert, if_neg ha]
    exact List.perm_orderedInsert (· ≤ ·) a s.1

end OrderedSet

/-! ### Hashed sets -/

/-- The elements of a hashed set -/
abbrev HashedSet (α : Type*) := {l : List α // l.Nodup}

namespace HashedSet

variable {α : Type*} [DecidableEq α]

/-- `std::unordered_set`, where `place` is the number of elements in front of a new one. -/
def container (place : α → List α → ℕ) : SetContainer α (HashedSet α) where
  elements s := s.1
  clear _ := ⟨[], .nil⟩
  insert a s :=
    if h : a ∈ s.1 then s
    else ⟨s.1.take (place a s.1) ++ a :: s.1.drop (place a s.1), by
      rw [List.nodup_middle, List.take_append_drop]
      exact List.nodup_cons.2 ⟨h, s.2⟩⟩
  erase a s := ⟨s.1.erase a, s.2.erase a⟩
  nodup s := s.2
  elements_clear _ := rfl
  elements_erase _ _ := rfl
  insert_of_mem a s ha := dif_pos ha
  insert_perm a s ha := by
    rw [dif_neg ha]
    refine List.perm_middle.trans ?_
    rw [List.take_append_drop]

end HashedSet
end Idle
