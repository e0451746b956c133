import Idle.Core.Iterators

/-!
# The iterator over clusters

`clusters` takes the service that follows the walk below its argument as the end of the range, and
`cluster_iterator` only stops at heads of clusters. If that service is a member of a cluster, the
iterator never meets the end. It runs through all heads that are left and past the last of them.
-/

namespace Idle

namespace ServiceTree

/-- The services below `s`, in the order of the walk. -/
def subtree (c : ServiceTree) (s : ServiceId) : List ServiceId :=
  c.preorder (fun _ => true) c.services.length s

/-- The end of the range `clusters`. -/
def clustersEnd (c : ServiceTree) (current : ServiceId) : Option (Option ServiceId) :=
  c.nextParentOrNeighbour .all current

/-- The loop over `clusters` ends, and it runs through the heads of the clusters below `s`, each
one once and `s` first. -/
def ClustersEnumerate (c : ServiceTree) (s : ServiceId) : Prop :=
  ∃ last l, c.clustersEnd s = some last ∧ Range.Loop c.clusterIncrement last (some s) l ∧
    l.Nodup ∧ l.head? = some s ∧
    ∀ t, t ∈ l ↔ c.layout.isClusterHead t = true ∧
      Relation.ReflTransGen (fun t u => c.IsChild (fun _ => true) u t) t s

variable {c : ServiceTree} {s t : ServiceId} {n : Nat}

namespace IsTree

variable (hc : c.IsTree)
include hc

lemma mem_subtree (hs : s ∈ c.services) : t ∈ c.subtree s ↔
    Relation.ReflTransGen (fun t u => c.IsChild (fun _ => true) u t) t s := by
  constructor
  · intro ht
    induction hi : c.services.idxOf t using Nat.strong_induction_on generalizing t with
    | _ i ih =>
      by_cases hts : t = s
      · rw [hts]
      · obtain ⟨hchild, ho⟩ := owner_mem_preorder ht hts
        exact .head hchild (ih _ (hi ▸ hc.idxOf_lt hchild) ho rfl)
  · intro ht
    have hlt := List.idxOf_lt_length_of_mem hs
    suffices h : t ∈ c.services ∧ t ∈ c.preorder (fun _ => true) (c.services.idxOf t + 1) s from
      mem_preorder_mono h.2 (List.idxOf_lt_length_of_mem h.1)
    induction ht using Relation.ReflTransGen.head_induction_on with
    | refl => exact ⟨hs, by simp [preorder]⟩
    | head hchild _ ih =>
      have hidx := hc.idxOf_lt hchild
      exact ⟨hchild.1, mem_preorder_mono (hchild.mem_preorder ih.2) (by omega)⟩

omit hc in
lemma subtree_eq_cons (hs : s ∈ c.services) : ∃ l, c.subtree s = s :: l := by
  obtain ⟨n, hn⟩ : ∃ k, c.services.length = k + 1 :=
    Nat.exists_eq_succ_of_ne_zero (List.length_pos_of_mem hs).ne'
  exact ⟨_, by rw [subtree, hn, preorder_succ]⟩

/-- The subtree of a service is a part of the walk through all services, and what follows it is
the end of the range. -/
lemma exists_split (hs : s ∈ c.services) : ∃ l₁ l₂,
    c.transitiveServices = l₁ ++ c.subtree s ++ l₂ ∧ c.clustersEnd s = some l₂.head? := by
  obtain ⟨o, ho⟩ : ∃ o, c.nextParentOrNeighbour .all s = some o :=
    hc.exists_nextParentOrNeighbour hs
  have hsuffix : ∀ t ∈ c.services, ∃ l₁ l, c.transitiveServices = l₁ ++ t :: l ∧
      Range.Loop c.transitiveIncrement none (some t) (t :: l) := by
    intro t ht
    obtain ⟨l₁, l, hl⟩ := List.append_of_mem (hc.mem_transitiveServices.2 ht)
    have hloop := hc.loop_transitiveServices
    rw [hl] at hloop
    exact ⟨l₁, l, hl, hloop.suffix⟩
  -- the walk goes on with the rest of the walk through all services
  obtain ⟨l₂, hrest⟩ : ∃ l₂, Range.Loop c.transitiveIncrement none o l₂ := by
    cases o with
    | none => exact ⟨[], .done⟩
    | some t =>
      obtain ⟨-, l, -, hl⟩ := hsuffix t (hc.of_nextParentOrNeighbour hs ho).1
      exact ⟨t :: l, hl⟩
  have hloop := hc.loop_preorder (n := c.services.length) hs (Nat.le_add_right _ _) ho (by simp)
    hrest
  rw [enters_all] at hloop
  obtain ⟨l₁, l, heq, hl⟩ := hsuffix s hs
  refine ⟨l₁, l₂, ?_, ?_⟩
  · rw [heq, hl.unique hloop, List.append_assoc]
    rfl
  · rw [clustersEnd, ho, hrest.front_eq, Option.or_none]

/-- `cluster_iterator` advances to the next head. -/
lemma clusterIncrement_eq {l₁ l₂ : List ServiceId} (h : c.transitiveServices = l₁ ++ s :: l₂) :
    c.clusterIncrement s = some (l₂.find? c.layout.isClusterHead) := by
  have hlen : l₂.length < c.services.length := by
    have := hc.transitiveServices_perm.length_eq
    rw [h, List.length_append, List.length_cons] at this
    omega
  have hloop : ∀ n, l₂.length < n →
      c.nextClusterHead n s = some (l₂.find? c.layout.isClusterHead) := by
    clear hlen
    intro n hn
    induction n generalizing s l₁ l₂ with
    | zero => omega
    | succ n ih =>
      have hnext : c.nextChildOrUp .all s = some l₂.head? := by
        have := (h ▸ hc.loop_transitiveServices).next_eq
        rwa [Option.or_none] at this
      rw [nextClusterHead, hnext]
      cases l₂ with
      | nil => rfl
      | cons t l₂ =>
        cases ht : c.layout.isClusterHead t
        · have hlt : l₂.length < n := by
            rw [List.length_cons] at hn
            omega
          have hsplit : c.transitiveServices = (l₁ ++ [s]) ++ t :: l₂ := by
            rw [h, List.append_assoc, List.singleton_append]
          simp [ht, ih hsplit hlt]
        · simp [ht]
  exact hloop _ hlen

omit hc in
lemma isClusterHead_of_nextClusterHead (h : c.nextClusterHead n s = some (some t)) :
    c.layout.isClusterHead t = true := by
  induction n generalizing s with
  | zero => cases h
  | succ n ih =>
    rw [nextClusterHead] at h
    split at h
    · cases h
    · simp at h
    · split at h
      · simp only [Option.some.injEq] at h
        subst h
        assumption
      · exact ih h

/-- The range enumerates what it is for if and only if the service after the subtree is the head of
a cluster, or there is none. -/
theorem clustersEnumerate_iff (hs : s ∈ c.services) (hhead : c.layout.isClusterHead s = true) :
    c.ClustersEnumerate s ↔
      ∀ l₁ t l₂, c.transitiveServices = l₁ ++ c.subtree s ++ t :: l₂ →
        c.layout.isClusterHead t = true := by
  obtain ⟨l₁, l₂, hsplit, hend⟩ := hc.exists_split hs
  obtain ⟨rest, hrest⟩ := subtree_eq_cons hs
  have hnodup : c.transitiveServices.Nodup := hc.nodup_preorder
  rw [hrest] at hsplit
  constructor
  · rintro ⟨last, l, hlast, hloop, -⟩ k₁ t k₂ hk
    have heq : rest ++ l₂ = rest ++ t :: k₂ := by
      rw [hrest] at hk
      rw [List.append_assoc, List.cons_append] at hk hsplit
      have h₁ := hsplit ▸ hnodup
      have h₂ := hk ▸ hnodup
      rw [← h₁.after_append_cons, ← hsplit, hk, h₂.after_append_cons]
    rw [hend, List.append_cancel_left heq, List.head?_cons, Option.some.injEq] at hlast
    subst hlast
    -- the iterator is always at a head or past the end
    refine hloop.front_of_invariant
      (P := fun o => ∀ u, o = some u → c.layout.isClusterHead u = true) ?_ ?_ t rfl
    · rintro a o - hnext u rfl
      exact isClusterHead_of_nextClusterHead hnext
    · rintro u ⟨rfl⟩
      exact hhead
  · intro hcond
    have hloop : Range.Loop c.clusterIncrement l₂.head?
        ((c.subtree s ++ l₂).find? c.layout.isClusterHead)
        ((c.subtree s).filter c.layout.isClusterHead) := Range.Loop.filter
      (by
        intro k₁ a k₂ hk _
        have h : c.transitiveServices = (l₁ ++ k₁) ++ a :: (k₂ ++ l₂) := by
          rw [hsplit, ← hrest, hk]
          simp
        exact hc.clusterIncrement_eq h)
      (by
        intro a ha heq
        rw [hsplit, ← hrest] at hnodup
        exact (List.nodup_append.1 hnodup).2.2 a (List.mem_append_right _ ha) a
          (List.mem_of_mem_head? heq.symm) rfl)
      (by
        intro t ht
        obtain ⟨k, rfl⟩ : ∃ k, l₂ = t :: k := by
          cases l₂ with
          | nil => simp at ht
          | cons a k => exact ⟨k, by simpa using ht⟩
        exact hcond l₁ t k (by rw [hrest, hsplit]))
    refine ⟨l₂.head?, (c.subtree s).filter c.layout.isClusterHead, hend, ?_, ?_, ?_, fun t => ?_⟩
    · rw [hrest, List.cons_append, List.find?_cons_of_pos hhead] at hloop
      rw [hrest]
      exact hloop
    · exact hc.nodup_preorder.filter _
    · rw [hrest, List.filter_cons_of_pos hhead, List.head?_cons]
    · rw [List.mem_filter, hc.mem_subtree hs, and_comm]

end IsTree

/-- The whole context: nothing comes after the root. -/
theorem clustersEnumerate_nested : nested.ClustersEnumerate 0 :=
  (nested_isTree.clustersEnumerate_iff (by decide) (by decide)).2 (by
    intro l₁ t l₂ h
    have hlen := congrArg List.length h
    have h₁ : nested.transitiveServices.length = 6 := by decide
    have h₂ : (nested.subtree 0).length = 6 := by decide
    rw [List.length_append, List.length_append, List.length_cons, h₁, h₂] at hlen
    omega)

/-- The member 4 comes after the service 3, and the iterator goes on to 5 and past the end. -/
theorem not_clustersEnumerate_nested : ¬ nested.ClustersEnumerate 3 := by
  rintro ⟨last, l, hlast, hloop, -⟩
  have hend : nested.clustersEnd 3 = some (some 4) := by decide
  rw [hend, Option.some.injEq] at hlast
  subst hlast
  have h₃ : nested.clusterIncrement 3 = some (some 5) := by decide
  have h₅ : nested.clusterIncrement 5 = some none := by decide
  cases hloop with
  | step _ hnext hloop =>
    rw [h₃, Option.some.injEq] at hnext
    subst hnext
    cases hloop with
    | step _ hnext hloop =>
      rw [h₅, Option.some.injEq] at hnext
      subst hnext
      cases hloop

end ServiceTree

end Idle
