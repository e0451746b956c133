import Mathlib.Tactic

/-!
# Scopes of nested maps

Lists of entries as maps, and values that may hold further values under keys. A path of keys leads
to a value; a walk that writes makes every value on its way one that can hold others.
-/

/-! ### Entries -/

namespace List

/-- Replace the first entry of a key, or add one. -/
def setEntry {K V : Type*} [DecidableEq K] (k : K) (v : V) : List (K × V) → List (K × V)
  | [] => [(k, v)]
  | e :: l => if e.1 = k then (k, v) :: l else e :: setEntry k v l

variable {K V : Type*} {k m : K} {v : V} {l : List (K × V)}

section

variable [DecidableEq K]

lemma mem_of_mem_setEntry {e : K × V} (h : e ∈ setEntry k v l) : e = (k, v) ∨ e ∈ l := by
  induction l with
  | nil => exact .inl (List.mem_singleton.1 h)
  | cons e' l ih =>
    unfold setEntry at h
    split at h
    · exact (List.mem_cons.1 h).imp_right (List.mem_cons_of_mem _)
    · rcases List.mem_cons.1 h with rfl | h
      · exact .inr List.mem_cons_self
      · exact (ih h).imp_right (List.mem_cons_of_mem _)

lemma nodup_setEntry (h : (l.map Prod.fst).Nodup) : ((setEntry k v l).map Prod.fst).Nodup := by
  induction l with
  | nil => simp [setEntry]
  | cons e l ih =>
    rw [List.map_cons, List.nodup_cons] at h
    unfold setEntry
    split
    · rename_i heq
      rw [List.map_cons, List.nodup_cons, ← heq]
      exact h
    · rename_i hne
      rw [List.map_cons, List.nodup_cons]
      refine ⟨fun hmem => ?_, ih h.2⟩
      obtain ⟨e', he', heq⟩ := List.mem_map.1 hmem
      rcases mem_of_mem_setEntry he' with rfl | he'
      · exact hne heq.symm
      · exact h.1 (heq ▸ List.mem_map_of_mem he')

end

variable [BEq K] [LawfulBEq K]

lemma mem_of_lookup_eq_some (h : l.lookup k = some v) : (k, v) ∈ l := by
  obtain ⟨l₁, l₂, rfl, -⟩ := List.lookup_eq_some_iff.1 h
  simp

lemma lookup_eq_some_of_mem (hl : (l.map Prod.fst).Nodup) (h : (k, v) ∈ l) :
    l.lookup k = some v := by
  induction l with
  | nil => simp at h
  | cons e l ih =>
    rw [List.map_cons, List.nodup_cons] at hl
    rw [List.lookup_cons]
    rcases List.mem_cons.1 h with rfl | h
    · rw [beq_self_eq_true]
    · have hne : k ≠ e.1 := by
        rintro rfl
        exact hl.1 (List.mem_map.2 ⟨_, h, rfl⟩)
      rw [beq_false_of_ne hne]
      exact ih hl.2 h

variable [DecidableEq K]

lemma lookup_setEntry_self (k : K) (v : V) (l : List (K × V)) :
    (setEntry k v l).lookup k = some v := by
  induction l with
  | nil => simp [setEntry]
  | cons e l ih =>
    unfold setEntry
    split
    · simp
    · rename_i hne
      rw [List.lookup_cons, beq_false_of_ne (Ne.symm hne)]
      exact ih

lemma lookup_setEntry_ne (h : m ≠ k) (v : V) (l : List (K × V)) :
    (setEntry k v l).lookup m = l.lookup m := by
  induction l with
  | nil => rw [setEntry, List.lookup_cons, beq_false_of_ne h]
  | cons e l ih =>
    unfold setEntry
    split
    · rename_i heq
      rw [List.lookup_cons, List.lookup_cons, heq, beq_false_of_ne h]
    · rw [List.lookup_cons, List.lookup_cons, ih]

end List

namespace Idle

/-! ### Paths -/

/-- Values that hold others: `enter` makes one of what is there, `fresh` is what is put where
nothing was. -/
structure Scopes (V K : Type*) where
  get? : V → K → Option V
  set : V → K → V → V
  enter : V → V
  fresh : V
  get?_set_self : ∀ t n u, get? (set t n u) n = some u
  get?_set_ne : ∀ t u n m, m ≠ n → get? (set t n u) m = get? t m
  get?_enter : ∀ t n, get? (enter t) n = get? t n
  get?_fresh : ∀ n, get? fresh n = none

namespace Scopes

variable {V K : Type*} (S : Scopes V K)

/-- The value at a path. -/
def at? : List K → V → Option V
  | [], t => some t
  | n :: ns, t => (S.get? t n).bind (at? ns)

/-- Change the value at a path, which is entered on the way. -/
def modifyAt (f : V → V) : List K → V → V
  | [], t => f t
  | n :: ns, t => S.set t n (modifyAt f ns (S.enter ((S.get? t n).getD S.fresh)))

variable {S} {ns ms : List K}

lemma at?_enter (h : ns ≠ []) (t : V) : S.at? ns (S.enter t) = S.at? ns t := by
  cases ns with
  | nil => exact absurd rfl h
  | cons n ns => simp only [at?, S.get?_enter]

lemma at?_fresh (h : ns ≠ []) : S.at? ns S.fresh = none := by
  cases ns with
  | nil => exact absurd rfl h
  | cons n ns => simp only [at?, S.get?_fresh, Option.bind_none]

lemma at?_append (ns ms : List K) (t : V) :
    S.at? (ns ++ ms) t = (S.at? ns t).bind (S.at? ms) := by
  induction ns generalizing t with
  | nil => rfl
  | cons n ns ih =>
    simp only [List.cons_append, at?, Option.bind_assoc]
    exact Option.bind_congr fun u _ => ih u

lemma modifyAt_append (f : V → V) (ns ms : List K) :
    S.modifyAt f (ns ++ ms) = S.modifyAt (S.modifyAt f ms) ns := by
  induction ns with
  | nil => rfl
  | cons n ns ih =>
    funext t
    simp only [List.cons_append, modifyAt, ih]

/-- What a write gets to see is what was at the path. -/
theorem at?_modifyAt_self (f : V → V) (h : ns ≠ []) (t : V) :
    S.at? ns (S.modifyAt f ns t) = some (f (S.enter ((S.at? ns t).getD S.fresh))) := by
  induction ns generalizing t with
  | nil => exact absurd rfl h
  | cons n ns ih =>
    simp only [modifyAt, at?, S.get?_set_self, Option.bind_some]
    rcases eq_or_ne ns [] with rfl | hns
    · cases S.get? t n with
      | none => rfl
      | some u => rfl
    · rw [ih hns, at?_enter hns]
      cases S.get? t n with
      | none => rw [Option.getD_none, at?_fresh hns, Option.bind_none]
      | some u => rfl

/-- A write does not change what is at a path that is neither inside nor around its own. -/
theorem at?_modifyAt_of_apart (hn : ¬ ns <+: ms) (hm : ¬ ms <+: ns) (f : V → V) (t : V) :
    S.at? ms (S.modifyAt f ns t) = S.at? ms t := by
  induction ns generalizing ms t with
  | nil => exact absurd List.nil_prefix hn
  | cons n ns ih =>
    cases ms with
    | nil => exact absurd List.nil_prefix hm
    | cons m ms =>
      unfold modifyAt at?
      by_cases hmn : m = n
      · subst hmn
        have hne : ms ≠ [] := by
          rintro rfl
          exact hm (List.cons_prefix_cons.2 ⟨rfl, List.nil_prefix⟩)
        rw [S.get?_set_self, Option.bind_some,
          ih (fun hp => hn (List.cons_prefix_cons.2 ⟨rfl, hp⟩))
            (fun hp => hm (List.cons_prefix_cons.2 ⟨rfl, hp⟩)), at?_enter hne]
        cases S.get? t m with
        | some u => rfl
        | none => exact at?_fresh hne
      · rw [S.get?_set_ne _ _ _ _ hmn]

/-- A property of all values is kept by a write that keeps it. -/
theorem modifyAt_preserves {P : V → Prop} {f : V → V} (hf : ∀ t, P t → P (f t))
    (hget : ∀ t n u, P t → S.get? t n = some u → P u) (hfresh : P S.fresh)
    (henter : ∀ t, P t → P (S.enter t)) (hset : ∀ t n u, P t → P u → P (S.set t n u))
    (ns : List K) {t : V} (ht : P t) : P (S.modifyAt f ns t) := by
  induction ns generalizing t with
  | nil => exact hf t ht
  | cons n ns ih =>
    refine hset t n _ ht (ih (henter _ ?_))
    cases hu : S.get? t n with
    | none => exact hfresh
    | some u => exact hget t n u ht hu

end Scopes
end Idle
