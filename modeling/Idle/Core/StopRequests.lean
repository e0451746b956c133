import Idle.Core.Wakes

/-!
# What a stop request keeps

A stop request removes overrides, marks clusters and releases usages, and some usages are
disconnected while the search still runs. Properties of the edges and of what is counted along
them are kept by it if they are kept by each of these steps.
-/

namespace Idle

/-- The edges between the clusters, and what is counted along them. -/
structure EdgeView extends Topology where
  isMarkedForStop : ServiceId → Bool
  override : ServiceId → Override
  pushes : ServiceId → UInt16
  pulls : ServiceId → UInt16

namespace State

def edgeView (st : State) : EdgeView where
  toTopology := st.toTopology
  isMarkedForStop := st.isMarkedForStop
  override := st.override
  pushes := st.pushes
  pulls := st.pulls

variable {st st' : State} {s h : ServiceId} {u : Usage}

/-- What a property has to survive. -/
structure StopKept (Q : State → Prop) : Prop where
  wf : ∀ {st : State}, Q st → st.WellFormed
  frame : ∀ {st st' : State}, Q st → st'.edgeView = st.edgeView → Q st'
  override : ∀ {st : State} {h}, Q st → h ∈ st.services → st.layout.isClusterHead h = true →
    Q (st.setOverride h .none)
  mark : ∀ {st : State} {h}, Q st → h ∈ st.services → st.cluster h = h →
    Q (st.doMarkClusterForStop onServiceStartable h true)
  disconnect : ∀ {st : State} {u}, Q st → u ∈ st.usages →
    Q (st.disconnect onServiceStartable u)

/-! ### The graph -/

lemma callOnClusterPushesDecrement_topology (st : State) (me : ServiceId)
    (ancestor : Option ServiceId) :
    (st.callOnClusterPushesDecrement me ancestor).toTopology = st.toTopology := by
  obtain ⟨p, d, h⟩ := callOnClusterPushesDecrement_frame st me ancestor
  rw [h]

lemma setOverride_topology (st : State) (me : ServiceId) (mode : Override) :
    (st.setOverride me mode).toTopology = st.toTopology := by
  obtain ⟨o, hchecks⟩ := setOverride_checks st me mode
  exact hchecks.topology

lemma onUsageDisconnect_topology (ht : st.IsTree) (u : Usage) :
    (st.onUsageDisconnect onServiceStartable u).toTopology = st.toTopology := by
  have hite : ∀ {c : Prop} [Decidable c] {x x' : State}, x'.toTopology = x.toTopology →
      x.toTopology = st.toTopology → (if c then x' else x).toTopology = st.toTopology := by
    intro c _ x x' hx' hx
    split
    · exact hx'.trans hx
    · exact hx
  have htree : ∀ {x : State}, x.toTopology = st.toTopology → x.IsTree := fun hx => hx ▸ ht
  unfold onUsageDisconnect
  simp only
  have h₁ := hite (c := st.isClusterMarkedForStop u.used.owner = true)
    (onClusterPullsDecrement_wakes onServiceStartable_wakes ht (st.cluster u.user.owner)).topology
    rfl
  generalize (if st.isClusterMarkedForStop u.used.owner = true then
    st.onClusterPullsDecrement onServiceStartable (st.cluster u.user.owner) else st) = st₁ at h₁
  have h₂ := hite (c := st₁.isClusterPushed u.user.owner = true)
    (callOnClusterPushesDecrement_topology st₁ u.used.owner (some u.user.owner)) h₁
  generalize (if st₁.isClusterPushed u.user.owner = true then
    st₁.callOnClusterPushesDecrement u.used.owner (some u.user.owner) else st₁) = st₂ at h₂
  have h₃ := hite (c := (!(st₂.phase u.used.owner).isRunning && !u.weak) = true)
    (onOuterRequiredDecrement_wakes onServiceStartable_wakes (htree h₂) u.user.owner).topology
    h₂
  generalize (if (!(st₂.phase u.used.owner).isRunning && !u.weak) = true then
    st₂.onOuterRequiredDecrement onServiceStartable u.user.owner else st₂) = st₃ at h₃
  exact hite (onOutgoingDecrement_drops st₃ u.used.owner).topology h₃

lemma disconnect_topology (ht : st.IsTree) (u : Usage) :
    (st.disconnect onServiceStartable u).toTopology = st.toTopology.disconnect u := by
  have h := onUsageDisconnect_topology ht u
  unfold disconnect Topology.disconnect
  simp only
  generalize st.onUsageDisconnect onServiceStartable u = st₁ at h
  rw [h]

namespace StopKept

variable {Q : State → Prop} (hQ : StopKept Q) {replies : UsageId → ReleaseReply}
include hQ

/-! ### Usages that are released -/

/-- `Usage::requestRelease` of a connected usage leaves the others alone. -/
lemma requestRelease (replies : UsageId → ReleaseReply) (hst : Q st) (hu : u ∈ st.usages) :
    Q (st.requestRelease replies u).2 ∧
      (st.requestRelease replies u).2.toServiceTree = st.toServiceTree ∧
      ∀ w ∈ st.usages, w ≠ u → w ∈ (st.requestRelease replies u).2.usages := by
  unfold State.requestRelease
  split
  · exact ⟨hst, rfl, fun w hw _ => hw⟩
  · split
    · exact ⟨hst, rfl, fun w hw _ => hw⟩
    · have htop := disconnect_topology (hQ.wf hst).toIsTree u
      refine ⟨hQ.disconnect hst hu, ?_, fun w hw hne => ?_⟩
      · rw [htop]
        rfl
      · rw [htop]
        exact (List.mem_erase_of_ne hne).2 hw
    · exact ⟨hQ.frame hst rfl, rfl, fun w hw _ => hw⟩

/-- By induction on the usages, each of which is released once. -/
lemma releaseWeakUsages (hst : Q st) (h : ServiceId) :
    Q (st.releaseWeakUsages replies h) ∧
      (st.releaseWeakUsages replies h).toServiceTree = st.toServiceTree := by
  have hperm := (hQ.wf hst).dependentUsers_perm h
  have hfold : ∀ (us : List Usage) (x : State), us.Nodup → (∀ u ∈ us, u ∈ x.usages) → Q x →
      Q (us.foldl (fun st use => if use.weak then (st.requestRelease replies use).2 else st) x) ∧
      (us.foldl (fun st use => if use.weak then (st.requestRelease replies use).2 else st)
        x).toServiceTree = x.toServiceTree := by
    intro us
    induction us with
    | nil => exact fun x _ _ hx => ⟨hx, rfl⟩
    | cons u us ih =>
      intro x hnodup hmem hx
      obtain ⟨hne, hnodup⟩ := List.nodup_cons.1 hnodup
      rw [List.foldl_cons]
      split
      · obtain ⟨hx', htree, husages⟩ := hQ.requestRelease replies hx
          (hmem u List.mem_cons_self)
        obtain ⟨hlast, htree'⟩ := ih _ hnodup (fun w hw =>
          husages w (hmem w (List.mem_cons_of_mem _ hw)) fun heq => hne (heq ▸ hw)) hx'
        exact ⟨hlast, htree'.trans htree⟩
      · exact ih x hnodup (fun w hw => hmem w (List.mem_cons_of_mem _ hw)) hx
  apply hfold _ st _ _ hst
  · exact hperm.nodup_iff.2 ((hQ.wf hst).usages_nodup'.filter _)
  · exact fun u hu => (List.mem_filter.1 (hperm.mem_iff.1 hu)).1

omit hQ in
/-- The edges that a search still has to follow are there. -/
structure Ahead (Q : State → Prop) (t : ServiceTree) (es : List Edge) (st : State) : Prop where
  kept : Q st
  tree : st.toServiceTree = t
  nodup : es.Nodup
  mem : ∀ e ∈ es, e ∈ st.edges

lemma stopFilter {t : ServiceTree} {e : Edge} {es : List Edge} (hst : Ahead Q t (e :: es) st) :
    Ahead Q t es (st.stopFilter replies e).2 := by
  obtain ⟨hkept, htree, hnodup, hmem⟩ := hst
  obtain ⟨hne, hes⟩ := List.nodup_cons.1 hnodup
  have hrest : Ahead Q t es st :=
    ⟨hkept, htree, hes, fun e he => hmem e (List.mem_cons_of_mem _ he)⟩
  unfold State.stopFilter
  cases e with
  | inner s => exact hrest
  | child s => exact hrest
  | usage u =>
    have hu : u ∈ st.usages := Topology.mem_edges_usage.1 (hmem _ List.mem_cons_self)
    obtain ⟨hrel, htree', husages⟩ := hQ.requestRelease replies hkept hu
    have hahead : Ahead Q t es (st.requestRelease replies u).2 := by
      refine ⟨hrel, htree'.trans htree, hes, fun e he => ?_⟩
      have heo := hmem e (List.mem_cons_of_mem _ he)
      cases e with
      | inner s => exact absurd heo Topology.not_mem_edges_inner
      | child s =>
        rw [Topology.mem_edges_child] at heo ⊢
        rwa [htree']
      | usage w =>
        rw [Topology.mem_edges_usage] at heo ⊢
        exact husages w heo fun heq => hne (heq ▸ he)
    simp only
    split
    · split
      all_goals
        rename_i heq
        rw [heq] at hahead
        exact hahead
    · exact hrest

/-! ### The search -/

lemma insertIntoQueueIfStoppable (hst : Q st) (h : ServiceId) :
    Q (st.insertIntoQueueIfStoppable h) := by
  unfold State.insertIntoQueueIfStoppable
  split
  · exact hQ.frame hst rfl
  · exact hst

omit hQ in
lemma insertIntoQueueIfStoppable_topology (st : State) (h : ServiceId) :
    (st.insertIntoQueueIfStoppable h).toTopology = st.toTopology := by
  unfold State.insertIntoQueueIfStoppable
  split <;> rfl

lemma stopSearch (hst : Q st) (hs : s ∈ st.services) (hh : st.cluster s = s) (fuel : Nat) :
    Q ((stopSearch replies).dfs fuel s {} st).2 := by
  suffices h : Ahead Q st.toServiceTree [] ((State.stopSearch replies).dfs fuel s {} st).2 from
    h.kept
  refine Search.dfs_keeps_pending (R := fun v => v ∈ st.services ∧ st.cluster v = v) rfl
    ?_ ?_ ?_ ?_ ⟨hs, hh⟩ rfl ⟨hst, rfl, List.nodup_nil, by simp⟩
  · intro e es x hx
    have hrest : Ahead Q st.toServiceTree es ((State.stopSearch replies).filter x e).2 :=
      hQ.stopFilter hx
    have hwf := hQ.wf hx.kept
    have htarget : e.target x.layout ∈ x.services := hwf.target_mem (hx.mem e (by simp))
    have hcluster : (State.stopSearch replies).target ((State.stopSearch replies).filter x e).2 e =
        x.cluster (e.target x.layout) := by
      simp only [State.stopSearch, Topology.clusterTarget]
      rw [show (x.stopFilter replies e).2.toServiceTree = x.toServiceTree from
        hrest.tree.trans hx.tree.symm]
    refine ⟨hrest, ?_⟩
    rw [hcluster, ← hx.tree]
    exact ⟨(hwf.cluster_mem htarget).1, hwf.cluster_cluster htarget⟩
  · exact fun es x hx => ⟨hx.kept, hx.tree, List.nodup_nil, by simp⟩
  · intro x v hv hx
    have hv' : v ∈ x.services ∧ x.cluster v = v := by rwa [hx.tree]
    have htop := (doMarkClusterForStop_wakes onServiceStartable_wakes
      (hQ.wf hx.kept).toIsTree v true).topology
    refine ⟨hQ.insertIntoQueueIfStoppable (hQ.mark hx.kept hv'.1 hv'.2) v, ?_, List.nodup_nil,
      by simp⟩
    simp only [State.stopSearch]
    rw [insertIntoQueueIfStoppable_topology, htop]
    exact hx.tree
  · intro x v hv hx
    rw [← hx.tree] at hv
    have hperm := (hQ.wf hx.kept).clusterOutEdges_perm hv.1 hv.2
    refine ⟨hx.kept, hx.tree, ?_, fun e he => ?_⟩
    · exact hperm.nodup_iff.2 ((hQ.wf hx.kept).nodup_edges.filter _)
    · exact (List.mem_filter.1 (hperm.mem_iff.1 he)).1

/-! ### Stopping the root -/

lemma transitionTargetSet (hst : Q st) (s : ServiceId) (target : Target) :
    Q (st.transitionTargetSet s target) := by
  obtain ⟨t, p, c, heq⟩ := transitionTargetSet_frame st s target
  rw [heq]
  exact hQ.frame hst rfl

lemma stopRootCluster (replies : UsageId → ReleaseReply) (hst : Q st) (hs : h ∈ st.services)
    (hh : st.layout.isClusterHead h = true) :
    Q (st.stopRootCluster replies h) ∧
      (st.stopRootCluster replies h).toServiceTree = st.toServiceTree := by
  have hrel : Q (if (st.phase h).isLocked then st.releaseWeakUsages replies h else st) ∧
      (if (st.phase h).isLocked then st.releaseWeakUsages replies h else st).toServiceTree =
        st.toServiceTree := by
    split
    · exact hQ.releaseWeakUsages hst h
    · exact ⟨hst, rfl⟩
  unfold State.stopRootCluster
  simp only
  generalize (if (st.phase h).isLocked then st.releaseWeakUsages replies h else st) = st₁ at hrel
  obtain ⟨hrel, htree₁⟩ := hrel
  have hset := hQ.override hrel (by rwa [htree₁]) (by rwa [htree₁])
  have htree₂ : (st₁.setOverride h .none).toServiceTree = st.toServiceTree := by
    rw [setOverride_topology, htree₁]
  generalize st₁.setOverride h .none = st₂ at hset htree₂
  have htarget := hQ.transitionTargetSet hset h .none
  have htree₃ : (st₂.transitionTargetSet h .none).toServiceTree = st.toServiceTree := by
    rw [(transitionTargetSet_wakes st₂ h .none).topology, htree₂]
  generalize st₂.transitionTargetSet h .none = st₃ at htarget htree₃
  have hstart : Q (st₃.doMarkClusterForStart h false) := hQ.frame htarget rfl
  have htree₄ : (st₃.doMarkClusterForStart h false).toServiceTree = st.toServiceTree := htree₃
  generalize st₃.doMarkClusterForStart h false = st₄ at hstart htree₄
  split
  · have hs₄ : h ∈ st₄.services := by rwa [htree₄]
    have hh₄ : st₄.layout.isClusterHead h = true := by rwa [htree₄]
    have hcl₄ := (hQ.wf hstart).cluster_of_isClusterHead hs₄ hh₄
    have hmark := hQ.mark hstart hs₄ hcl₄
    have htree₅ : (st₄.doMarkClusterForStop onServiceStartable h true).toServiceTree =
        st.toServiceTree := by
      rw [(doMarkClusterForStop_wakes onServiceStartable_wakes (hQ.wf hstart).toIsTree
        h true).topology, htree₄]
    generalize st₄.doMarkClusterForStop onServiceStartable h true = st₅ at hmark htree₅
    split
    · exact ⟨hQ.frame hmark rfl, htree₅⟩
    · exact ⟨hmark, htree₅⟩
  · exact ⟨hstart, htree₄⟩

lemma stopRoot (hst : Q st) : Q (st.stopRoot replies) := by
  unfold State.stopRoot
  split
  · exact hst
  · split
    · exact hst
    · have hempty : Q { st with down := [], up := [] } := hQ.frame hst rfl
      refine (List.foldlRecOn (motive := fun x : State => Q x ∧ x.toServiceTree = st.toServiceTree)
        _ _ ⟨hempty, rfl⟩ fun x hx h hh => ?_).1
      obtain ⟨hmem, hhead⟩ := List.mem_filter.1 hh
      have hmem := ((hQ.wf hst).mem_transitiveServices).1 hmem
      obtain ⟨hkept, htree⟩ := hQ.stopRootCluster replies hx.1
        (by rwa [hx.2]) (by rwa [hx.2])
      exact ⟨hkept, htree.trans hx.2⟩

/-! ### The handlers -/

/-- `Scheduler::on_service_stop_request` of the head of a cluster. -/
lemma onServiceStopRequest (replies : UsageId → ReleaseReply) (hst : Q st) (hs : s ∈ st.services)
    (hh : st.cluster s = s) :
    Q (st.onServiceStopRequest replies s) := by
  unfold State.onServiceStopRequest
  split
  · exact hQ.stopRoot hst
  · exact hQ.stopSearch hst hs hh _

lemma requestStop (hst : Q st) (hh : st.layout.isClusterHead s = true) (p : Promise) :
    Q (st.requestStop replies s p) := by
  have hreach : Q { st with reached := st.reached ++ [p] } := hQ.frame hst rfl
  unfold State.requestStop
  simp only
  split
  · exact hQ.frame hreach rfl
  · rename_i hs
    have hs : s ∈ st.services := not_not.1 hs
    have hset := hQ.override hreach hs hh
    have htop := setOverride_topology { st with reached := st.reached ++ [p] } s .none
    generalize ({ st with reached := st.reached ++ [p] } : State).setOverride s .none = st₁
      at hset htop
    have hs₁ : s ∈ st₁.services := by rwa [htop]
    split
    · exact hQ.frame hset rfl
    · have hcl := (hQ.wf hset).cluster_of_isClusterHead hs₁ (by rwa [htop])
      have hstop := hQ.onServiceStopRequest replies hset hs₁ hcl
      exact hQ.frame (hQ.transitionTargetSet hstop s .stop) rfl

lemma immediateStop (hst : Q st) (hs : s ∈ st.services) (hh : st.layout.isClusterHead s = true) :
    Q (st.immediateStop replies s) := by
  unfold State.immediateStop
  split
  · have hset := hQ.override hst hs hh
    have htop := setOverride_topology st s .none
    have hcl := (hQ.wf hst).cluster_of_isClusterHead hs hh
    apply hQ.onServiceStopRequest replies hset
    · rw [htop, hcl]
      exact hs
    · rw [htop, hcl, hcl]
  · exact hst

end StopKept

end State

end Idle
