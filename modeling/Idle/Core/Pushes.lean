import Idle.Core.DfsCount
import Idle.Core.Edges
import Idle.Core.Life

/-!
# Push counters

`pushes_` of a cluster counts what keeps it alive: its own override and its edges to clusters that
are kept alive themselves. Both push functions run a search over the reversed cluster graph; here
they are given as equations between the counters before and after.
-/

namespace Idle

namespace State

variable {st st' : State} {me s h : ServiceId} {t : Topology}

/-- The counters as numbers. -/
def pushCount (st : State) (h : ServiceId) : Nat := (st.pushes h).toNat

lemma pushCount_eq_zero : st.pushCount h = 0 ↔ st.pushes h = 0 := by
  rw [pushCount, ← UInt16.toNat_inj]
  rfl

lemma pushCount_eq_one : st.pushCount h = 1 ↔ st.pushes h = 1 := by
  rw [pushCount, ← UInt16.toNat_inj]
  rfl

lemma PushFrame.topology (h : PushFrame st st') : st'.toTopology = st.toTopology := by
  obtain ⟨p, d, rfl⟩ := h
  rfl

/-- The heads of a topology. -/
def IsHead (t : Topology) (h : ServiceId) : Prop := h ∈ t.services ∧ t.cluster h = h

lemma pushSearch_follows (ht : t.WellFormed) (visit : State → ServiceId → Bool × State) :
    (pushSearch visit).Follows (fun st => st.toTopology = t) (IsHead t) t.edges t.clusterSource
      t.clusterTarget where
  allPaths := rfl
  postCancel := rfl
  filter _ _ := rfl
  outEdges st v hst hv := by
    subst hst
    exact ht.clusterInEdges_perm hv.1 hv.2
  target st e hst := by
    subst hst
    rfl
  vertex_src e he := by
    have hs := ht.source_mem he
    exact ⟨(ht.cluster_mem hs).1, ht.cluster_cluster hs⟩

lemma toNat_add_one {n : UInt16} (h : n.toNat + 1 < 2 ^ 16) : (n + 1).toNat = n.toNat + 1 := by
  rw [UInt16.toNat_add]
  exact Nat.mod_eq_of_lt h

lemma toNat_sub_one {n : UInt16} (h : n.toNat ≠ 0) : (n - 1).toNat = n.toNat - 1 := by
  have hle : (1 : UInt16) ≤ n := by
    rw [UInt16.le_iff_toNat_le]
    exact Nat.one_le_iff_ne_zero.2 h
  rw [UInt16.toNat_sub_of_le _ _ hle]
  rfl

lemma pushesIncrementVisit_increments :
    (pushSearch pushesIncrementVisit).Increments (fun st => st.toTopology = t) (IsHead t) pushCount
      (2 ^ 16) := by
  intro st v hst hv hlt
  have hcl : st.cluster v = v := by rw [hst]; exact hv.2
  refine ⟨hst, ?_, ?_⟩
  · funext w
    by_cases hw : w = v
    · subst hw
      simp [pushSearch, pushesIncrementVisit, pushCount, hcl, toNat_add_one hlt]
    · simp [pushSearch, pushesIncrementVisit, pushCount, hcl, hw]
  · have : (st.pushes v + 1 == 1) = decide (st.pushCount v = 0) := by
      rw [Bool.eq_iff_iff, beq_iff_eq, decide_eq_true_eq, pushCount_eq_zero]
      constructor
      · intro h
        have := congrArg (· - 1) h
        simpa using this
      · intro h
        simp [h]
    simpa [pushSearch, pushesIncrementVisit, hcl] using this

lemma checkStoppable_pushes (st : State) (me : ServiceId) :
    (st.checkStoppable me).pushes = st.pushes := by
  unfold checkStoppable
  split <;> rfl

lemma pushesDecrementVisit_decrements :
    (pushSearch pushesDecrementVisit).Decrements (fun st => st.toTopology = t) (IsHead t)
      pushCount := by
  intro st v hst hv hne
  have hcl : st.cluster v = v := by rw [hst]; exact hv.2
  have hpushes : (st.pushesDecrementVisit v).2.pushes =
      Function.update st.pushes v (st.pushes v - 1) := by
    unfold pushesDecrementVisit
    simp only [hcl]
    split
    · rw [checkStoppable_pushes]
    · rfl
  refine ⟨(pushesDecrementVisit_frame st v).topology.trans hst, ?_, ?_⟩
  · funext w
    have : pushCount ((pushSearch pushesDecrementVisit).visit st v).2 w =
        (Function.update st.pushes v (st.pushes v - 1) w).toNat := by
      rw [← hpushes]
      rfl
    rw [this]
    by_cases hw : w = v
    · subst hw
      simp [pushCount, toNat_sub_one hne]
    · simp [pushCount, hw]
  · have hone : (st.pushes v - 1 == 0) = decide (st.pushCount v = 1) := by
      rw [Bool.eq_iff_iff, beq_iff_eq, decide_eq_true_eq, pushCount_eq_one]
      constructor
      · intro h
        have := congrArg (· + 1) h
        simpa using this
      · intro h
        simp [h]
    have : (st.pushesDecrementVisit v).1 = (st.pushes v - 1 == 0) := by
      unfold pushesDecrementVisit
      simp only [hcl, Function.update_self]
      split <;> simp_all
    exact this.trans hone

/-- The decrementing search, watched for decrements of counters that are zero. -/
def watchedPushSearch : Search (State × Bool) ServiceId Edge :=
  (pushSearch pushesDecrementVisit).watch fun st v => st.pushes (st.cluster v) == 0

/-- `call_on_cluster_pushes_decrement` decrements a counter that is zero. -/
def pushesRunOut (st : State) (me : ServiceId) (ancestor : Option ServiceId) : Bool :=
  if st.pushes (st.cluster me) == 1 then
    (watchedPushSearch.dfs st.dfsFuel me (st.ancestorData ancestor) (st, false)).2.2
  else st.pushes (st.cluster me) == 0

lemma watchedPushSearch_follows (ht : t.WellFormed) :
    watchedPushSearch.Follows (fun st => st.1.toTopology = t ∧ st.2 = false) (IsHead t) t.edges
      t.clusterSource t.clusterTarget where
  allPaths := rfl
  postCancel := rfl
  filter _ _ := rfl
  outEdges st v hst hv := (pushSearch_follows ht pushesDecrementVisit).outEdges st.1 v hst.1 hv
  target st e hst := (pushSearch_follows ht pushesDecrementVisit).target st.1 e hst.1
  vertex_src := (pushSearch_follows ht pushesDecrementVisit).vertex_src

lemma watchedPushSearch_decrements :
    watchedPushSearch.Decrements (fun st => st.1.toTopology = t ∧ st.2 = false) (IsHead t)
      fun st => st.1.pushCount := by
  rintro ⟨st, b⟩ v ⟨hst, rfl⟩ hv hne
  obtain ⟨htop, hcount, hdescend⟩ := pushesDecrementVisit_decrements st v hst hv hne
  refine ⟨⟨htop, ?_⟩, hcount, hdescend⟩
  have hcl : st.cluster v = v := by rw [hst]; exact hv.2
  have : st.pushes v ≠ 0 := fun h => hne (pushCount_eq_zero.2 h)
  simp [watchedPushSearch, Search.watch, hcl, this]

/-! ### Equations for the push functions -/

lemma edges_length_le (t : Topology) : t.edges.length ≤ t.services.length + t.usages.length := by
  have : t.childHeads.length ≤ t.services.length := List.length_filter_le _ _
  simp only [Topology.edges, List.length_append, List.length_map]
  omega

/-- The rounds of a search are enough for the edges of the graph. -/
lemma edges_length_le_dfsFuel (st : State) : 2 * st.edges.length + 2 ≤ st.dfsFuel := by
  have := edges_length_le st.toTopology
  unfold dfsFuel
  omega

/-- `ancestor` is an other cluster than the one the search starts at. -/
def AncestorOk (st : State) (me : ServiceId) (ancestor : Option ServiceId) : Prop :=
  ∀ a ∈ ancestor, st.cluster a ≠ st.cluster me ∧ st.pushCount (st.cluster a) ≠ 0

lemma ancestorData_eq (st : State) (ancestor : Option ServiceId) :
    st.ancestorData ancestor = ⟨true, ancestor.toList.map st.cluster,
      ancestor.toList.map st.cluster, []⟩ := by
  cases ancestor <;> rfl

/-- After an increment every cluster counts the start and its edges to newly pushed clusters. -/
theorem callOnClusterPushesIncrement_count (ht : st.WellFormed) (hme : me ∈ st.services)
    (hhead : st.cluster me = me ∨ st.pushCount (st.cluster me) ≠ 0) {ancestor : Option ServiceId}
    (hanc : st.AncestorOk me ancestor)
    (hbound : ∀ v, st.pushCount v + (if v = st.cluster me then 1 else 0) +
      st.edges.countP (fun e => st.clusterSource e = v ∧ st.pushCount (st.clusterTarget e) = 0) <
        2 ^ 16) (v : ServiceId) :
    (st.callOnClusterPushesIncrement me ancestor).pushCount v =
      st.pushCount v + (if v = st.cluster me then 1 else 0) +
        Search.flipped st.edges st.clusterSource st.clusterTarget st.pushCount
          (st.callOnClusterPushesIncrement me ancestor).pushCount v := by
  unfold callOnClusterPushesIncrement
  simp only [beq_iff_eq]
  by_cases hzero : st.pushes (st.cluster me) = 0
  · rw [if_pos hzero]
    have hcl : st.cluster me = me := hhead.resolve_right (not_not.2 (pushCount_eq_zero.2 hzero))
    rw [hcl] at hbound ⊢
    rw [ancestorData_eq]
    refine (Search.dfs_increments (pushSearch_follows ht pushesIncrementVisit)
      pushesIncrementVisit_increments hbound rfl ⟨hme, hcl⟩ ?_ ?_ ?_).2 v
    · intro hmem
      obtain ⟨a, ha, hac⟩ := List.mem_map.1 hmem
      exact (hanc a (Option.mem_toList.1 ha)).1 (hac.trans hcl.symm)
    · intro w hw
      obtain ⟨a, ha, rfl⟩ := List.mem_map.1 hw
      exact (hanc a (Option.mem_toList.1 ha)).2
    · exact st.edges_length_le_dfsFuel
  · rw [if_neg hzero]
    have hlt := hbound (st.cluster me)
    rw [if_pos rfl] at hlt
    have hcount : ∀ w, ({ st with
        pushes := Function.update st.pushes (st.cluster me) (st.pushes (st.cluster me) + 1) } :
        State).pushCount w = st.pushCount w + if w = st.cluster me then 1 else 0 := by
      intro w
      by_cases hw : w = st.cluster me
      · subst hw
        have : (st.pushes (st.cluster me)).toNat + 1 < 2 ^ 16 := by
          simp only [pushCount] at hlt
          omega
        simp [pushCount, toNat_add_one this]
      · simp [pushCount, hw]
    rw [hcount, eq_comm, Nat.add_eq_left]
    simp only [Search.flipped, List.countP_eq_zero, decide_eq_true_eq, not_and, not_not]
    intro e _ _ h0
    rw [hcount, h0, if_neg]
    intro heq
    exact hzero (pushCount_eq_zero.1 (heq ▸ h0))

/-- A cluster that stays pushed is decremented without a search. -/
theorem callOnClusterPushesDecrement_of_ne_one (hpos : st.pushCount (st.cluster me) ≠ 0)
    (hone : st.pushCount (st.cluster me) ≠ 1) (ancestor : Option ServiceId) :
    st.pushesRunOut me ancestor = false ∧
    (∀ v, (st.callOnClusterPushesDecrement me ancestor).pushCount v = 0 ↔ st.pushCount v = 0) ∧
    ∀ v, (st.callOnClusterPushesDecrement me ancestor).pushCount v +
      (if v = st.cluster me then 1 else 0) = st.pushCount v := by
  have hone' : ¬ st.pushes (st.cluster me) = 1 := mt pushCount_eq_one.2 hone
  have hne : (st.pushes (st.cluster me) == 0) = false := by
    rw [beq_eq_false_iff_ne]
    exact fun h => hpos (pushCount_eq_zero.2 h)
  unfold callOnClusterPushesDecrement pushesRunOut
  simp only [beq_iff_eq, if_neg hone']
  have hcount : ∀ w, ({ st with
      pushes := Function.update st.pushes (st.cluster me) (st.pushes (st.cluster me) - 1) } :
      State).pushCount w + (if w = st.cluster me then 1 else 0) = st.pushCount w := by
    intro w
    by_cases hw : w = st.cluster me
    · subst hw
      simp only [pushCount, Function.update_self, toNat_sub_one hpos, if_true]
      exact Nat.sub_add_cancel (Nat.one_le_iff_ne_zero.2 hpos)
    · simp [pushCount, hw]
  refine ⟨hne, fun w => ?_, hcount⟩
  have := hcount w
  by_cases hw : w = st.cluster me
  · subst hw
    rw [if_pos rfl] at this
    omega
  · rw [if_neg hw] at this
    omega

/-- After a search every cluster lost the start and its edges to clusters no longer pushed, and no
counter was zero before it was decremented. The counters of `keep` are too large to get zero. -/
theorem callOnClusterPushesDecrement_count (ht : st.WellFormed) (hme : me ∈ st.services)
    (hcl : st.cluster me = me) (hone : st.pushCount me = 1) {ancestor : Option ServiceId}
    {keep : List ServiceId}
    (hanc : ∀ a ∈ ancestor, st.cluster a ≠ me ∧ st.cluster a ∈ keep)
    (henough : Search.Enough st.edges st.clusterSource st.clusterTarget keep st.pushCount me) :
    st.pushesRunOut me ancestor = false ∧
    (∀ v ∈ keep, (st.callOnClusterPushesDecrement me ancestor).pushCount v ≠ 0) ∧
    ∀ v, (st.callOnClusterPushesDecrement me ancestor).pushCount v + (if v = me then 1 else 0) +
        Search.dropped st.edges st.clusterSource st.clusterTarget st.pushCount
          (st.callOnClusterPushesDecrement me ancestor).pushCount v = st.pushCount v := by
  have hone' := pushCount_eq_one.1 hone
  unfold callOnClusterPushesDecrement pushesRunOut
  simp only [beq_iff_eq, hcl, if_pos hone', ancestorData_eq]
  have hwatch : ∀ d, (watchedPushSearch.dfs st.dfsFuel me d (st, false)).2.1 =
      ((pushSearch pushesDecrementVisit).dfs st.dfsFuel me d st).2 :=
    fun d => Search.watch_dfs st.dfsFuel me d st false
  rw [← hwatch]
  have henough' : Search.Enough st.edges st.clusterSource st.clusterTarget keep
      (State.pushCount (st, false).1) me := henough
  refine (fun h => ⟨h.1.2, h.2⟩) (Search.dfs_decrements (watchedPushSearch_follows ht)
    watchedPushSearch_decrements henough' ⟨rfl, rfl⟩ ⟨hme, hcl⟩ ?_ ?_ ?_)
  · intro hmem
    obtain ⟨a, ha, hac⟩ := List.mem_map.1 hmem
    exact (hanc a (Option.mem_toList.1 ha)).1 hac
  · intro w hw
    obtain ⟨a, ha, rfl⟩ := List.mem_map.1 hw
    exact (hanc a (Option.mem_toList.1 ha)).2
  · exact st.edges_length_le_dfsFuel

/-- An increment only reaches the clusters from which there is a path to the start. -/
lemma callOnClusterPushesIncrement_pushes_eq (ht : st.WellFormed) {R : ServiceId → Prop}
    (hme : me ∈ st.services) (hhead : st.cluster me = me ∨ st.pushCount (st.cluster me) ≠ 0)
    (hR : R (st.cluster me))
    (hclosed : ∀ e ∈ st.edges, R (st.clusterTarget e) → R (st.clusterSource e))
    (ancestor : Option ServiceId) {v : ServiceId} (hv : ¬ R v) :
    (st.callOnClusterPushesIncrement me ancestor).pushes v = st.pushes v := by
  unfold callOnClusterPushesIncrement
  simp only [beq_iff_eq]
  by_cases hzero : st.pushes (st.cluster me) = 0
  · rw [if_pos hzero]
    have hcl : st.cluster me = me := hhead.resolve_right (not_not.2 (pushCount_eq_zero.2 hzero))
    have hfollows := pushSearch_follows ht pushesIncrementVisit
    rw [ancestorData_eq]
    refine (Search.dfs_keeps_on (P := fun x : State => x.toTopology = st.toTopology ∧
      x.pushes v = st.pushes v) (R := fun w => R w ∧ IsHead st.toTopology w) ?_ (fun _ _ h => h) ?_
      ⟨hcl ▸ hR, hme, hcl⟩ rfl ⟨rfl, rfl⟩).2
    · rintro x w ⟨hw, -, hwcl⟩ ⟨htop, hx⟩
      have hwv : v ≠ w := fun h => hv (h ▸ hw)
      refine ⟨htop, ?_⟩
      simp [pushSearch, pushesIncrementVisit, htop, hwcl, hwv, hx]
    · rintro x x' w e ⟨hx, -⟩ ⟨hx', -⟩ ⟨hw, hwhead⟩ he
      have he := ((hfollows.outEdges x w hx hwhead).mem_iff).1 he
      obtain ⟨he, htgt⟩ := List.mem_filter.1 he
      simp only [decide_eq_true_eq] at htgt
      rw [hfollows.target x' e hx']
      exact ⟨hclosed e he (htgt ▸ hw), hfollows.vertex_src e he⟩
  · rw [if_neg hzero]
    exact Function.update_of_ne (fun h : v = st.cluster me => hv (h ▸ hR)) _ _

end State

end Idle
