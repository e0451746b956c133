import Idle.Core.Graph

/-!
# The tree of services

A service is initialised after the owner of its parent part and destroyed before it, so the list of
the services in the order of their initialisation is a tree in topological order. `cluster_` is
inherited from the owner of the parent import. From these two facts the walks of `iterators.cpp`
are shown to run through every service, respectively every member of a cluster, exactly once.
-/

namespace Idle

namespace ServiceTree

/-- The initialised services form a tree, and `cluster_` follows the parent imports. -/
structure IsTree (c : ServiceTree) : Prop where
  nodup : c.services.Nodup
  root_mem : c.layout.root ∈ c.services
  parent_mem : ∀ {s}, s ∈ c.services → (c.layout.parent s).owner ∈ c.services
  parent_parts : ∀ {s}, s ∈ c.services → s ≠ c.layout.root →
    c.layout.parent s ∈ c.layout.parts (c.layout.parent s).owner
  parent_ne : ∀ {s}, s ∈ c.services → s ≠ c.layout.root → (c.layout.parent s).owner ≠ s
  ordered : c.services.Pairwise fun s t => s ≠ c.layout.root → (c.layout.parent s).owner ≠ t
  cluster_eq : ∀ {s}, s ∈ c.services →
    c.cluster s = if c.layout.isMember s then c.cluster (c.layout.parent s).owner else s

/-- `t` is below `s`, through a part that the walk enters. -/
def IsChild (c : ServiceTree) (enter : Part → Bool) (s t : ServiceId) : Prop :=
  t ∈ c.services ∧ t ≠ c.layout.root ∧ (c.layout.parent t).owner = s ∧
    c.layout.parent t ∈ c.layout.parts s ∧ enter (c.layout.parent t) = true

variable {c : ServiceTree} {enter : Part → Bool} {n m : Nat} {s t r : ServiceId}

lemma mem_children {p : Part} :
    t ∈ c.children p ↔ t ∈ c.services ∧ t ≠ c.layout.root ∧ c.layout.parent t = p := by
  simp [children]

/-! ### Membership in a walk -/

lemma mem_preorder_succ :
    t ∈ c.preorder enter (n + 1) s ↔
      t = s ∨ ∃ u, c.IsChild enter s u ∧ t ∈ c.preorder enter n u := by
  simp only [preorder, List.mem_cons, List.mem_flatMap, List.mem_filter, mem_children]
  constructor
  · rintro (rfl | ⟨p, ⟨hp, he⟩, u, ⟨hu, hr, rfl⟩, ht⟩)
    · exact .inl rfl
    · exact .inr ⟨u, ⟨hu, hr, c.layout.parts_owner hp, hp, he⟩, ht⟩
  · rintro (rfl | ⟨u, ⟨hu, hr, ho, hp, he⟩, ht⟩)
    · exact .inl rfl
    · exact .inr ⟨_, ⟨hp, he⟩, u, ⟨hu, hr, rfl⟩, ht⟩

lemma mem_preorder_mono (h : t ∈ c.preorder enter n s) (hnm : n ≤ m) :
    t ∈ c.preorder enter m s := by
  induction n generalizing m s with
  | zero => simp [preorder] at h
  | succ n ih =>
    obtain ⟨m, rfl⟩ : ∃ k, m = k + 1 := ⟨m - 1, by omega⟩
    rw [mem_preorder_succ] at h ⊢
    obtain rfl | ⟨u, hu, ht⟩ := h
    · exact .inl rfl
    · exact .inr ⟨u, hu, ih ht (by omega)⟩

/-- A walk that reaches a service reaches its children one level further down. -/
lemma IsChild.mem_preorder (h : c.IsChild enter t r) (ht : t ∈ c.preorder enter n s) :
    r ∈ c.preorder enter (n + 1) s := by
  induction n generalizing s with
  | zero => simp [preorder] at ht
  | succ n ih =>
    rw [mem_preorder_succ] at ht ⊢
    obtain rfl | ⟨u, hu, ht⟩ := ht
    · exact .inr ⟨r, h, by simp [preorder]⟩
    · exact .inr ⟨u, hu, ih ht⟩

/-- What a walk reaches below its start was reached through the owner of its parent. -/
lemma owner_mem_preorder (h : t ∈ c.preorder enter n s) (hts : t ≠ s) :
    c.IsChild enter (c.layout.parent t).owner t ∧
      (c.layout.parent t).owner ∈ c.preorder enter n s := by
  induction n generalizing s with
  | zero => simp [preorder] at h
  | succ n ih =>
    obtain rfl | ⟨u, hu, ht⟩ := mem_preorder_succ.1 h
    · exact absurd rfl hts
    · by_cases htu : t = u
      · subst htu
        obtain ⟨hs, hr, rfl, hp, he⟩ := hu
        exact ⟨⟨hs, hr, rfl, hp, he⟩, by simp [preorder]⟩
      · obtain ⟨hc, ho⟩ := ih ht htu
        exact ⟨hc, mem_preorder_succ.2 (.inr ⟨u, hu, ho⟩)⟩

lemma mem_services_of_mem_preorder (hs : s ∈ c.services) (h : t ∈ c.preorder enter n s) :
    t ∈ c.services := by
  by_cases hts : t = s
  · exact hts ▸ hs
  · exact (owner_mem_preorder h hts).1.1

namespace IsTree

lemma initial (L : Layout) : (State.initial L).IsTree where
  nodup := by simp [State.initial]
  root_mem := by simp [State.initial]
  parent_mem := by simp [State.initial, L.root_owner]
  parent_parts := by simp [State.initial]
  parent_ne := by simp [State.initial]
  ordered := by simp [State.initial]
  cluster_eq := by simp [State.initial, L.root_owner]

variable (hc : c.IsTree)
include hc

/-- The owner of the parent was initialised first. -/
lemma parent_before (hs : s ∈ c.services) (hr : s ≠ c.layout.root) :
    c.services.idxOf (c.layout.parent s).owner < c.services.idxOf s := by
  have ho := List.idxOf_lt_length_of_mem (hc.parent_mem hs)
  have hs' := List.idxOf_lt_length_of_mem hs
  by_contra hlt
  rcases Nat.lt_or_eq_of_le (not_lt.1 hlt) with hlt | heq
  · have := List.pairwise_iff_getElem.1 hc.ordered _ _ hs' ho hlt
    simp only [List.getElem_idxOf] at this
    exact this hr rfl
  · exact hc.parent_ne hs hr ((List.idxOf_inj (hc.parent_mem hs)).1 heq.symm)

lemma idxOf_lt (h : c.IsChild enter s t) : c.services.idxOf s < c.services.idxOf t := by
  obtain ⟨ht, hr, rfl, -, -⟩ := h
  exact hc.parent_before ht hr

/-- A walk never goes up. -/
lemma idxOf_le (h : t ∈ c.preorder enter n s) : c.services.idxOf s ≤ c.services.idxOf t := by
  induction n generalizing s with
  | zero => simp [preorder] at h
  | succ n ih =>
    obtain rfl | ⟨u, hu, ht⟩ := mem_preorder_succ.1 h
    · exact le_rfl
    · exact (hc.idxOf_lt hu).le.trans (ih ht)

lemma isChild (ht : t ∈ c.services) (hr : t ≠ c.layout.root)
    (he : enter (c.layout.parent t) = true) : c.IsChild enter (c.layout.parent t).owner t :=
  ⟨ht, hr, rfl, hc.parent_parts ht hr, he⟩

/-- The subtrees below two different children of a service have nothing in common. -/
lemma disjoint_preorder {u v : ServiceId} (hu : c.IsChild enter s u) (hv : c.IsChild enter s v)
    (huv : u ≠ v) : ∀ t ∈ c.preorder enter n u, t ∉ c.preorder enter n v := by
  intro t
  -- by induction on the position of `t`, going up to the owners of the parents
  induction h : c.services.idxOf t using Nat.strong_induction_on generalizing t with
  | _ i ih =>
    intro htu htv
    by_cases h₁ : t = u
    · subst h₁
      have := (owner_mem_preorder htv huv).2
      rw [hu.2.2.1] at this
      exact absurd (hc.idxOf_le this) (not_le.2 (hc.idxOf_lt hv))
    · by_cases h₂ : t = v
      · subst h₂
        have := (owner_mem_preorder htu h₁).2
        rw [hv.2.2.1] at this
        exact absurd (hc.idxOf_le this) (not_le.2 (hc.idxOf_lt hu))
      · obtain ⟨ht, ho⟩ := owner_mem_preorder htu h₁
        exact ih _ (h ▸ hc.idxOf_lt ht) _ rfl ho (owner_mem_preorder htv h₂).2

lemma nodup_preorder : (c.preorder enter n s).Nodup := by
  induction n generalizing s with
  | zero => simp [preorder]
  | succ n ih =>
    have hchild : ∀ p ∈ (c.layout.parts s).filter enter, ∀ u ∈ c.children p,
        c.IsChild enter s u ∧ c.layout.parent u = p := by
      intro p hp u hu
      obtain ⟨hp, he⟩ := List.mem_filter.1 hp
      obtain ⟨hmem, hr, rfl⟩ := mem_children.1 hu
      exact ⟨⟨hmem, hr, c.layout.parts_owner hp, hp, he⟩, rfl⟩
    rw [preorder, List.nodup_cons]
    constructor
    · simp only [List.mem_flatMap, not_exists, not_and]
      intro p hp u hu hs
      exact absurd (hc.idxOf_le hs) (not_le.2 (hc.idxOf_lt (hchild p hp u hu).1))
    · rw [List.nodup_flatMap]
      constructor
      · intro p hp
        rw [List.nodup_flatMap]
        refine ⟨fun u _ => ih, ?_⟩
        refine List.Pairwise.imp_of_mem ?_ (hc.nodup.filter _)
        intro u v hu hv huv t htu
        exact hc.disjoint_preorder (hchild p hp u hu).1 (hchild p hp v hv).1 huv t htu
      · refine List.Pairwise.imp_of_mem ?_ ((c.layout.parts_nodup s).filter _)
        intro p q hp hq hpq t htp htq
        obtain ⟨u, hu, htu⟩ := List.mem_flatMap.1 htp
        obtain ⟨v, hv, htv⟩ := List.mem_flatMap.1 htq
        obtain ⟨hsu, rfl⟩ := hchild p hp u hu
        obtain ⟨hsv, rfl⟩ := hchild q hq v hv
        exact hc.disjoint_preorder hsu hsv (fun h => hpq (h ▸ rfl)) t htu htv

/-! ### Growing and shrinking -/

/-- A new service enters below an initialised one. -/
lemma insert (hs : s ∉ c.services) (ho : (c.layout.parent s).owner ∈ c.services)
    (hp : c.layout.parent s ∈ c.layout.parts (c.layout.parent s).owner) :
    IsTree { c with
      services := c.services ++ [s]
      cluster := Function.update c.cluster s
        (if c.layout.isMember s then c.cluster (c.layout.parent s).owner else s) } where
  nodup := by simpa using hc.nodup.append (List.nodup_singleton s) (by simpa using hs)
  root_mem := List.mem_append_left _ hc.root_mem
  parent_mem := by
    intro t ht
    rcases List.mem_append.1 ht with ht | ht
    · exact List.mem_append_left _ (hc.parent_mem ht)
    · rw [List.mem_singleton.1 ht]
      exact List.mem_append_left _ ho
  parent_parts := by
    intro t ht hr
    rcases List.mem_append.1 ht with ht | ht
    · exact hc.parent_parts ht hr
    · rwa [List.mem_singleton.1 ht]
  parent_ne := by
    intro t ht hr
    rcases List.mem_append.1 ht with ht | ht
    · exact hc.parent_ne ht hr
    · rw [List.mem_singleton.1 ht]
      exact fun h => hs (h ▸ ho)
  ordered := by
    refine List.pairwise_append.2 ⟨hc.ordered, List.pairwise_singleton _ _, ?_⟩
    intro t ht u hu _ h
    rw [List.mem_singleton.1 hu] at h
    exact hs (h ▸ hc.parent_mem ht)
  cluster_eq := by
    intro t ht
    rcases List.mem_append.1 ht with ht | ht
    · have hts : t ≠ s := fun h => hs (h ▸ ht)
      have hos : (c.layout.parent t).owner ≠ s := fun h => hs (h ▸ hc.parent_mem ht)
      simpa [Function.update_of_ne hts, Function.update_of_ne hos] using hc.cluster_eq ht
    · rw [List.mem_singleton.1 ht]
      have hos : (c.layout.parent s).owner ≠ s := fun h => hs (h ▸ ho)
      simp [Function.update_of_ne hos]

/-- A service without children leaves. -/
lemma erase (hr : s ≠ c.layout.root)
    (hchild : ∀ t ∈ c.services, t ≠ c.layout.root → (c.layout.parent t).owner ≠ s) :
    IsTree { c with services := c.services.erase s } where
  nodup := hc.nodup.erase s
  root_mem := (List.mem_erase_of_ne hr.symm).2 hc.root_mem
  parent_mem := by
    intro t ht
    have ht' := List.mem_of_mem_erase ht
    refine (List.mem_erase_of_ne ?_).2 (hc.parent_mem ht')
    by_cases htr : t = c.layout.root
    · rw [htr, c.layout.root_owner]
      exact hr.symm
    · exact hchild t ht' htr
  parent_parts := fun ht => hc.parent_parts (List.mem_of_mem_erase ht)
  parent_ne := fun ht => hc.parent_ne (List.mem_of_mem_erase ht)
  ordered := hc.ordered.sublist List.erase_sublist
  cluster_eq := fun ht => hc.cluster_eq (List.mem_of_mem_erase ht)

/-! ### The walk over all services -/

lemma mem_transitiveServices : t ∈ c.transitiveServices ↔ t ∈ c.services := by
  refine ⟨mem_services_of_mem_preorder hc.root_mem, fun ht => ?_⟩
  refine mem_preorder_mono (n := c.services.idxOf t + 1) ?_ (List.idxOf_lt_length_of_mem ht)
  induction h : c.services.idxOf t using Nat.strong_induction_on generalizing t with
  | _ i ih =>
    by_cases hr : t = c.layout.root
    · simp [hr, preorder]
    · have hlt := hc.parent_before ht hr
      have ho := ih _ (h ▸ hlt) (hc.parent_mem ht) rfl
      exact mem_preorder_mono ((hc.isChild ht hr rfl).mem_preorder ho) (by omega)

/-- `transitive_services` runs through every service once. -/
theorem transitiveServices_perm : c.transitiveServices.Perm c.services := by
  refine (List.perm_ext_iff_of_nodup hc.nodup_preorder hc.nodup).2 ?_
  exact fun t => hc.mem_transitiveServices

lemma transitiveServices_eq_cons :
    c.transitiveServices = c.layout.root :: c.transitiveServices.tail := by
  obtain ⟨n, hn⟩ : ∃ n, c.services.length = n + 1 :=
    ⟨c.services.length - 1, by have := List.length_pos_of_mem hc.root_mem; omega⟩
  simp [transitiveServices, hn, preorder]

/-- `transitive_services` starts at the root, which `call_on_required_*` skips. -/
theorem transitiveServices_tail_perm :
    c.transitiveServices.tail.Perm (c.services.erase c.layout.root) := by
  have h := hc.transitiveServices_perm
  rw [hc.transitiveServices_eq_cons] at h
  exact (List.cons_perm_iff_perm_erase.1 h).2

/-! ### Clusters -/

omit hc in
lemma root_isClusterHead : c.layout.isClusterHead c.layout.root = true := c.layout.root_isExport

lemma cluster_of_isClusterHead (hs : s ∈ c.services) (h : c.layout.isClusterHead s = true) :
    c.cluster s = s := by
  rw [hc.cluster_eq hs]
  simp_all [Layout.isClusterHead, Layout.isMember]

lemma cluster_of_isMember (hs : s ∈ c.services) (h : c.layout.isMember s = true) :
    c.cluster s = c.cluster (c.layout.parent s).owner := by
  rw [hc.cluster_eq hs, if_pos h]

lemma cluster_root : c.cluster c.layout.root = c.layout.root :=
  hc.cluster_of_isClusterHead hc.root_mem root_isClusterHead (c := c)

/-- The cluster of a service is named by an initialised head. -/
lemma cluster_mem (hs : s ∈ c.services) :
    c.cluster s ∈ c.services ∧ c.layout.isClusterHead (c.cluster s) = true := by
  induction h : c.services.idxOf s using Nat.strong_induction_on generalizing s with
  | _ i ih =>
    by_cases hm : c.layout.isMember s = true
    · have hr : s ≠ c.layout.root := by
        rintro rfl
        have := root_isClusterHead (c := c)
        simp_all [Layout.isClusterHead, Layout.isMember]
      rw [hc.cluster_of_isMember hs hm]
      exact ih _ (h ▸ hc.parent_before hs hr) (hc.parent_mem hs) rfl
    · have hh : c.layout.isClusterHead s = true := by
        simp_all [Layout.isClusterHead, Layout.isMember]
      rw [hc.cluster_of_isClusterHead hs hh]
      exact ⟨hs, hh⟩

lemma cluster_cluster (hs : s ∈ c.services) : c.cluster (c.cluster s) = c.cluster s :=
  hc.cluster_of_isClusterHead (hc.cluster_mem hs).1 (hc.cluster_mem hs).2

lemma isClusterHead_iff (hs : s ∈ c.services) :
    c.layout.isClusterHead s = true ↔ c.cluster s = s :=
  ⟨hc.cluster_of_isClusterHead hs, fun h => h ▸ (hc.cluster_mem hs).2⟩

lemma isMember_iff (hs : s ∈ c.services) : c.layout.isMember s = true ↔ c.cluster s ≠ s := by
  rw [Ne, ← hc.isClusterHead_iff hs]
  simp [Layout.isClusterHead, Layout.isMember]

/-- The root has no imports, so it is alone in its cluster. -/
lemma cluster_eq_root (hs : s ∈ c.services) : c.cluster s = c.layout.root ↔ s = c.layout.root := by
  refine ⟨fun h => ?_, fun h => h ▸ hc.cluster_root⟩
  induction hi : c.services.idxOf s using Nat.strong_induction_on generalizing s with
  | _ i ih =>
    by_contra hr
    by_cases hm : c.layout.isMember s = true
    · rw [hc.cluster_of_isMember hs hm] at h
      have ho := ih _ (hi ▸ hc.parent_before hs hr) (hc.parent_mem hs) h rfl
      have hp := hc.parent_parts hs hr
      rw [ho] at hp
      have := c.layout.root_parts hp
      simp_all [Layout.isMember]
    · have := (hc.isMember_iff hs).not.1 hm
      exact hr ((not_not.1 this).symm.trans h)

/-- A service without children is alone in its cluster. -/
lemma eq_of_childless (hchild : ∀ t ∈ c.services, t ≠ c.layout.root → (c.layout.parent t).owner ≠ s)
    (ht : t ∈ c.services) (h : c.cluster t = s) : t = s := by
  induction hi : c.services.idxOf t using Nat.strong_induction_on generalizing t with
  | _ i ih =>
    by_cases hm : c.layout.isMember t = true
    · have hr : t ≠ c.layout.root := fun hr => by
        have := (hc.isMember_iff ht).1 hm
        rw [hr] at this
        exact this hc.cluster_root
      rw [hc.cluster_of_isMember ht hm] at h
      have ho := ih _ (hi ▸ hc.parent_before ht hr) (hc.parent_mem ht) h rfl
      exact absurd ho (hchild t ht hr)
    · have := (hc.isMember_iff ht).not.1 hm
      exact (not_not.1 this).symm.trans h

lemma mem_preorder_cluster {h : ServiceId} (hh : h ∈ c.services) (hhead : c.cluster h = h) :
    t ∈ c.preorder Part.isImport c.services.length h ↔ t ∈ c.services ∧ c.cluster t = h := by
  constructor
  · intro ht
    have hts := mem_services_of_mem_preorder hh ht
    refine ⟨hts, ?_⟩
    induction hi : c.services.idxOf t using Nat.strong_induction_on generalizing t with
    | _ i ih =>
      by_cases hth : t = h
      · rwa [hth]
      · obtain ⟨hch, ho⟩ := owner_mem_preorder ht hth
        rw [hc.cluster_of_isMember hts hch.2.2.2.2]
        exact ih _ (hi ▸ hc.idxOf_lt hch) ho (hc.parent_mem hts) rfl
  · rintro ⟨hts, hct⟩
    refine mem_preorder_mono (n := c.services.idxOf t + 1) ?_ (List.idxOf_lt_length_of_mem hts)
    induction hi : c.services.idxOf t using Nat.strong_induction_on generalizing t with
    | _ i ih =>
      by_cases hm : c.layout.isMember t = true
      · have hr : t ≠ c.layout.root := by
          rintro rfl
          have := root_isClusterHead (c := c)
          simp_all [Layout.isClusterHead, Layout.isMember]
        have hlt := hc.parent_before hts hr
        rw [hc.cluster_of_isMember hts hm] at hct
        have ho := ih _ (hi ▸ hlt) (hc.parent_mem hts) hct rfl
        exact mem_preorder_mono ((hc.isChild hts hr hm).mem_preorder ho) (by omega)
      · have : c.cluster t = t := not_not.1 ((hc.isMember_iff hts).not.1 hm)
        rw [show t = h from this.symm.trans hct]
        simp [preorder]

omit hc in
lemma clusterMembers_eq {h : ServiceId} (hh : h ∈ c.services) (hhead : c.cluster h = h) :
    c.clusterMembers h = c.preorder Part.isImport c.services.length h := by
  obtain ⟨n, hn⟩ : ∃ n, c.services.length = n + 1 :=
    ⟨c.services.length - 1, by have := List.length_pos_of_mem hh; omega⟩
  simp [clusterMembers, hhead, hn, preorder]

lemma mem_clusterMembers {h : ServiceId} (hh : h ∈ c.services) (hhead : c.cluster h = h) :
    t ∈ c.clusterMembers h ↔ t ∈ c.services ∧ c.cluster t = h := by
  rw [clusterMembers_eq hh hhead, hc.mem_preorder_cluster hh hhead]

lemma nodup_clusterMembers (s : ServiceId) : (c.clusterMembers s).Nodup :=
  hc.nodup_preorder.sublist (List.dropWhile_sublist _)

/-- `cluster_members` of a head runs through every member of its cluster once. -/
theorem clusterMembers_perm {h : ServiceId} (hh : h ∈ c.services) (hhead : c.cluster h = h) :
    (c.clusterMembers h).Perm (c.services.filter fun t => c.cluster t = h) := by
  rw [List.perm_ext_iff_of_nodup (hc.nodup_clusterMembers h) (hc.nodup.filter _)]
  intro t
  simp [hc.mem_clusterMembers hh hhead]

end IsTree

end ServiceTree

end Idle
