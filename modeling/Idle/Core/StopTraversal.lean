import Idle.Core.DfsMark
import Idle.Core.Pushes
import Idle.Core.Handlers
import Idle.Core.Sample

/-!
# The stop traversal

`Scheduler::on_service_stop_request` marks a cluster and what depends on it for stop. The filter of
its edges asks usages to release, which may remove the edge that is looked at and change the
counters of both ends.
-/

namespace Idle

/-- What the traversal depends on. The root is never met, so `running_` of it does not matter. -/
structure StopView extends Topology where
  isMarkedForStop : ServiceId → Bool
  releaseRequested : UsageId → Bool
  running : ServiceId → BitVec 26

namespace State

def stopView (st : State) : StopView where
  toTopology := st.toTopology
  isMarkedForStop := st.isMarkedForStop
  releaseRequested := st.releaseRequested
  running := Function.update st.running st.layout.root 0

variable {st st' : State} {s me h : ServiceId}

/-! ### Functions that leave the view alone -/

lemma foldl_stopView {α : Type} {f : State → α → State}
    (hf : ∀ st x, (f st x).stopView = st.stopView) (l : List α) (st : State) :
    (l.foldl f st).stopView = st.stopView := by
  induction l generalizing st with
  | nil => rfl
  | cons x l ih => rw [List.foldl_cons, ih, hf]

@[simp] lemma pushUp_stopView (st : State) (s : ServiceId) :
    (st.pushUp s).stopView = st.stopView := rfl

@[simp] lemma pushDown_stopView (st : State) (s : ServiceId) :
    (st.pushDown s).stopView = st.stopView := rfl

@[simp] lemma checkStoppable_stopView (st : State) (s : ServiceId) :
    (st.checkStoppable s).stopView = st.stopView := by
  unfold checkStoppable
  split <;> simp

@[simp] lemma onOutgoingReachedNoExternalUse_stopView (st : State) (s : ServiceId) (n : UInt32) :
    (st.onOutgoingReachedNoExternalUse s n).stopView = st.stopView := by
  unfold onOutgoingReachedNoExternalUse
  split <;> simp

@[simp] lemma onOutgoingIncrement_stopView (st : State) (s : ServiceId) :
    (st.onOutgoingIncrement s).stopView = st.stopView := rfl

@[simp] lemma onOutgoingDecrement_stopView (st : State) (s : ServiceId) :
    (st.onOutgoingDecrement s).stopView = st.stopView := by
  unfold onOutgoingDecrement
  simp only
  split
  · rw [onOutgoingReachedNoExternalUse_stopView]
    rfl
  · rfl

lemma callOnOuterOutgoingIncrement_stopView (st : State) (s : ServiceId) :
    (st.callOnOuterOutgoingIncrement s).stopView = st.stopView := by
  unfold callOnOuterOutgoingIncrement
  simp only
  split
  · rw [onOutgoingIncrement_stopView]
    exact foldl_stopView (fun st e => by split <;> simp) _ _
  · exact foldl_stopView (fun st e => by split <;> simp) _ _

lemma callOnOuterDelayedOutgoingIncrement_stopView (st : State) (s : ServiceId) :
    (st.callOnOuterDelayedOutgoingIncrement s).stopView = st.stopView :=
  foldl_stopView (fun st e => by split <;> simp) _ _

lemma callOnInnerOutgoingIncrement_stopView (st : State) (s : ServiceId) :
    (st.callOnInnerOutgoingIncrement s).stopView = st.stopView :=
  foldl_stopView (fun st e => by simp) _ _

lemma PushFrame.stopView (h : PushFrame st st') : st'.stopView = st.stopView := by
  obtain ⟨p, d, rfl⟩ := h
  rfl

lemma setOverride_stopView (st : State) (s : ServiceId) (mode : Override) :
    (st.setOverride s mode).stopView = st.stopView := by
  unfold setOverride
  simp only
  split
  · split
    · exact (callOnClusterPushesIncrement_frame _ _ _).stopView
    · exact (callOnClusterPushesDecrement_frame _ _ _).stopView
  · rfl

lemma doFinalizeCluster_stopView (st : State) (s : ServiceId) :
    (st.doFinalizeCluster s).stopView = st.stopView := by
  unfold doFinalizeCluster transitionTargetCompleteIf
  split <;> rfl

lemma callOnClusterPullsIncrement_stopView (st : State) (s : ServiceId) :
    (st.callOnClusterPullsIncrement s).stopView = st.stopView :=
  foldl_stopView (fun _ _ => by rfl) _ _

lemma insertIntoQueueIfStoppable_stopView (st : State) (s : ServiceId) :
    (st.insertIntoQueueIfStoppable s).stopView = st.stopView := by
  unfold insertIntoQueueIfStoppable
  split <;> simp

/-! ### Starting the root -/

lemma lockMember_stopView (st : State) (s : ServiceId) :
    (st.lockMember s).stopView = st.stopView := by
  unfold lockMember
  rw [callOnOuterOutgoingIncrement_stopView]
  rfl

/-- Only `running_` of the cluster of the root changes. -/
lemma callOnClusterRunningIncrement_stopView (hs : st.cluster s = st.layout.root) :
    (st.callOnClusterRunningIncrement s).stopView = st.stopView := by
  simp [stopView, callOnClusterRunningIncrement, hs]

lemma doLockCluster_stopView (ht : st.IsTree) :
    (st.doLockCluster st.layout.root).stopView = st.stopView := by
  have hlock : ((st.clusterMembers st.layout.root).foldl lockMember st).stopView = st.stopView :=
    foldl_stopView lockMember_stopView _ _
  have hcluster : ∀ m ∈ st.clusterMembers st.layout.root, st.cluster m = st.layout.root :=
    fun m hm => ((ht.mem_clusterMembers ht.root_mem ht.cluster_root).1 hm).2
  have hrun : ∀ (ms : List ServiceId) (x : State), x.stopView = st.stopView →
      (∀ m ∈ ms, st.cluster m = st.layout.root) →
      (ms.foldl callOnClusterRunningIncrement x).stopView = st.stopView := by
    intro ms
    induction ms with
    | nil => exact fun x hx _ => hx
    | cons m ms ih =>
      intro x hx hms
      have htree : x.toServiceTree = st.toServiceTree :=
        congrArg (fun v => v.toTopology.toServiceTree) hx
      refine ih _ ?_ fun m' hm' => hms m' (List.mem_cons_of_mem _ hm')
      rw [callOnClusterRunningIncrement_stopView, hx]
      rw [htree]
      exact hms m List.mem_cons_self
  exact hrun _ _ hlock hcluster

lemma doStartEager_root_stopView (ht : st.IsTree) :
    (st.doStartEager st.layout.root).stopView = st.stopView := by
  have hif : (if (st.phase st.layout.root).isLocked then st
      else st.doLockCluster (st.cluster st.layout.root)).stopView = st.stopView := by
    split
    · rfl
    · rw [ht.cluster_root]
      exact doLockCluster_stopView ht
  unfold doStartEager
  simp only
  rw [callOnInnerOutgoingIncrement_stopView]
  generalize (if (st.phase st.layout.root).isLocked then st
    else st.doLockCluster (st.cluster st.layout.root)) = st₁ at hif
  exact hif

/-! ### Functions that report startable services -/

section Startable

variable {v : StopView} {k : State → ServiceId → State}

lemma foldl_keeps_stopView {α : Type} {f : State → α → State}
    (hf : ∀ st x, st.stopView = v → (f st x).stopView = v) (l : List α) (hv : st.stopView = v) :
    (l.foldl f st).stopView = v :=
  List.foldlRecOn (motive := fun st => st.stopView = v) l f hv fun st h x _ => hf st x h

lemma ite_keeps_stopView {c : Prop} [Decidable c] (hf : st.stopView = v → st'.stopView = v)
    (hv : st.stopView = v) : (if c then st' else st).stopView = v := by
  split
  · exact hf hv
  · exact hv

variable (hk : ∀ st s, st.stopView = v → (k st s).stopView = v)
include hk

lemma checkAnyInClusterStartable_stopView (hv : st.stopView = v) :
    (st.checkAnyInClusterStartable k h).stopView = v :=
  ite_keeps_stopView (foldl_keeps_stopView (fun _ _ => ite_keeps_stopView (hk _ _)) _) hv

lemma checkInnerStartable_stopView (hv : st.stopView = v) :
    (st.checkInnerStartable k s).stopView = v :=
  ite_keeps_stopView (hk _ _) hv

lemma onOuterRequiredDecrement_stopView (hv : st.stopView = v) :
    (st.onOuterRequiredDecrement k s).stopView = v :=
  ite_keeps_stopView (checkAnyInClusterStartable_stopView hk) hv

lemma onInnerRequiredDecrement_stopView (hv : st.stopView = v) :
    (st.onInnerRequiredDecrement k s).stopView = v :=
  ite_keeps_stopView (checkInnerStartable_stopView hk) hv

lemma callOnRequiredDecrement_stopView (hv : st.stopView = v) :
    (st.callOnRequiredDecrement k s).stopView = v := by
  unfold callOnRequiredDecrement
  split
  · refine foldl_keeps_stopView (fun _ _ => onOuterRequiredDecrement_stopView hk) _ ?_
    exact foldl_keeps_stopView (fun _ _ => onInnerRequiredDecrement_stopView hk) _ hv
  · exact foldl_keeps_stopView (fun _ _ => onOuterRequiredDecrement_stopView hk) _ hv

lemma onClusterPullsDecrement_stopView (hv : st.stopView = v) :
    (st.onClusterPullsDecrement k h).stopView = v :=
  ite_keeps_stopView (checkAnyInClusterStartable_stopView hk) hv

lemma onUsageDisconnect_stopView {use : Usage} (hv : st.stopView = v) :
    (st.onUsageDisconnect k use).stopView = v := by
  refine ite_keeps_stopView (fun h => by rwa [onOutgoingDecrement_stopView]) ?_
  refine ite_keeps_stopView (onOuterRequiredDecrement_stopView hk) ?_
  refine ite_keeps_stopView (fun h => ?_) ?_
  · exact ((callOnClusterPushesDecrement_frame _ _ _).stopView).trans h
  · exact ite_keeps_stopView (onClusterPullsDecrement_stopView hk) hv

lemma postStartActions_stopView (hv : st.stopView = v) :
    (st.postStartActions k me).stopView = v := by
  have hreq : ((({ st with toCore := st.toCore.transition me .starting .running } :
      State).callOnOuterDelayedOutgoingIncrement me).callOnRequiredDecrement k me).stopView =
        v := by
    refine callOnRequiredDecrement_stopView hk ?_
    rw [callOnOuterDelayedOutgoingIncrement_stopView]
    exact hv
  simp only [postStartActions]
  generalize (({ st with toCore := st.toCore.transition me .starting .running } :
    State).callOnOuterDelayedOutgoingIncrement me).callOnRequiredDecrement k me = st₁ at hreq
  split
  · exact ite_keeps_stopView (fun h => by rwa [doFinalizeCluster_stopView]) hreq
  · exact hreq

end Startable

/-- Reporting a service may start the root. -/
lemma onServiceStartable_stopView {v : StopView} (ht : v.IsTree) (st : State) (s : ServiceId)
    (hv : st.stopView = v) : (st.onServiceStartable s).stopView = v := by
  subst hv
  have hset := setOverride_stopView st st.layout.root .start
  unfold onServiceStartable startRoot
  simp only
  generalize st.setOverride st.layout.root .start = st₁ at hset
  have ht₁ : st₁.IsTree := by
    have : st₁.toServiceTree = st.toServiceTree :=
      congrArg (fun v => v.toTopology.toServiceTree) hset
    rw [this]
    exact ht
  have hstart := (doStartEager_root_stopView ht₁).trans hset
  generalize st₁.doStartEager st₁.layout.root = st₂ at hstart
  have hpost : (st₂.postStartActions pushUp st₂.layout.root).stopView = st.stopView :=
    postStartActions_stopView (fun _ _ h => h) hstart
  generalize st₂.postStartActions pushUp st₂.layout.root = st₃ at hpost
  by_cases hs : s ≠ st.layout.root ∧ (st.phase st.layout.root).isRunning = false
  · rw [if_pos hs]
    exact hpost
  · rw [if_neg hs]
    rfl

/-! ### Releasing usages -/

variable {replies : UsageId → ReleaseReply} {u : Usage}

/-- Whether a usage releases when it is asked. -/
def agrees (st : State) (replies : UsageId → ReleaseReply) (use : Usage) : Bool :=
  st.releaseRequested use.id || decide (replies use.id ≠ .never)

/-- The usages and their flags after `Usage::requestRelease`. -/
def afterRelease (st : State) (replies : UsageId → ReleaseReply) (use : Usage) :
    List Usage × (UsageId → Bool) :=
  if st.releaseRequested use.id then (st.usages, st.releaseRequested)
  else
    match replies use.id with
    | .never => (st.usages, st.releaseRequested)
    | .now => (st.usages.erase use, Function.update st.releaseRequested use.id false)
    | .later => (st.usages, Function.update st.releaseRequested use.id true)

lemma requestRelease_fst (st : State) (replies : UsageId → ReleaseReply) (use : Usage) :
    (st.requestRelease replies use).1 = st.agrees replies use := by
  unfold requestRelease agrees
  split
  · rename_i hflag
    simp [hflag]
  · rename_i hflag
    split <;> simp_all

lemma disconnect_stopView (ht : st.IsTree) (use : Usage) :
    (st.disconnect onServiceStartable use).stopView =
      { st.stopView with
        usages := st.usages.erase use
        releaseRequested := Function.update st.releaseRequested use.id false } := by
  have hview : (st.onUsageDisconnect onServiceStartable use).stopView = st.stopView :=
    onUsageDisconnect_stopView (onServiceStartable_stopView ht) rfl
  unfold disconnect
  generalize st.onUsageDisconnect onServiceStartable use = st₁ at hview
  have htop : st₁.toTopology = st.toTopology := congrArg StopView.toTopology hview
  have hflags : st₁.releaseRequested = st.releaseRequested :=
    congrArg StopView.releaseRequested hview
  have hmarks : st₁.isMarkedForStop = st.isMarkedForStop := congrArg StopView.isMarkedForStop hview
  have hrunning : st₁.stopView.running = st.stopView.running := congrArg StopView.running hview
  simp only [stopView] at hrunning ⊢
  rw [hmarks, hflags, hrunning, htop]

lemma requestRelease_stopView (ht : st.IsTree) (replies : UsageId → ReleaseReply) (use : Usage) :
    (st.requestRelease replies use).2.stopView =
      { st.stopView with
        usages := (st.afterRelease replies use).1
        releaseRequested := (st.afterRelease replies use).2 } := by
  unfold requestRelease afterRelease
  cases st.releaseRequested use.id with
  | true => rfl
  | false =>
    simp only [Bool.false_eq_true, if_false]
    cases replies use.id with
    | never => rfl
    | now => exact disconnect_stopView ht use
    | later => rfl

/-- A call of `requestRelease`, with its answer; `onReleaseRequest` is only asked if the usage was
not requested to release before. -/
structure ReleaseCall where
  usage : Usage
  asked : Bool
  released : Bool
  deriving DecidableEq

/-- The call that the filter makes at an edge. -/
def releaseCalls (replies : UsageId → ReleaseReply) (st : State) (e : Edge) : List ReleaseCall :=
  match e with
  | .usage use =>
    if st.stopTraversalProgressesFurther (st.clusterTarget e) || use.weak then
      [⟨use, !st.releaseRequested use.id, (st.requestRelease replies use).1⟩]
    else []
  | _ => []

/-- The stop traversal that writes its calls of `requestRelease` down. -/
def recordedStopSearch (replies : UsageId → ReleaseReply) :
    Search (State × List ReleaseCall) ServiceId Edge :=
  (stopSearch replies).record (releaseCalls replies)

/-- The calls of `requestRelease` that a stop request makes. -/
def stopCalls (st : State) (replies : UsageId → ReleaseReply) (c : ServiceId) : List ReleaseCall :=
  ((recordedStopSearch replies).dfs st.dfsFuel c {} (st, [])).2.2

/-! ### What the traversal reaches -/

/-- The edge is a usage that agreed to release. -/
def Released (calls : List ReleaseCall) (e : Edge) : Prop :=
  ∃ call ∈ calls, e = .usage call.usage ∧ call.released = true

/-- An edge that is not released to a cluster where the traversal progresses further. -/
def StopStep (st : State) (calls : List ReleaseCall) (v t : ServiceId) : Prop :=
  ∃ e ∈ st.clusterOutEdges v, ¬ Released calls e ∧ st.clusterTarget e = t ∧
    st.stopTraversalProgressesFurther t = true

/-- The clusters that a stop request reaches from its own. -/
def StopReached (st : State) (calls : List ReleaseCall) (c : ServiceId) : ServiceId → Prop :=
  Relation.ReflTransGen (st.StopStep calls) c

/-- Whether an edge can be followed. -/
def isFree (st : State) (replies : UsageId → ReleaseReply) : Edge → Bool
  | .usage use => !st.agrees replies use
  | _ => true

/-- The graph that the traversal marks. -/
def stopGraph (st : State) (replies : UsageId → ReleaseReply) : MarkGraph ServiceId Edge where
  edges := st.edges
  src := st.clusterSource
  tgt := st.clusterTarget
  free := st.isFree replies
  blocked h := st.running h == 0

section Graph

variable {c m : ServiceId} {e : Edge} (hc : st.WellFormed)
include hc

lemma clusterTarget_isHead (he : e ∈ st.edges) :
    st.clusterTarget e ∈ st.services ∧ st.cluster (st.clusterTarget e) = st.clusterTarget e :=
  ⟨(hc.cluster_mem (hc.target_mem he)).1, hc.cluster_cluster (hc.target_mem he)⟩

/-- The root is no child and has no imports. -/
lemma clusterTarget_ne_root (he : e ∈ st.edges) : st.clusterTarget e ≠ st.layout.root := by
  intro hroot
  have htarget := (hc.cluster_eq_root (hc.target_mem he)).1 hroot
  cases e with
  | inner s => exact Topology.not_mem_edges_inner he
  | child s => exact (Topology.mem_edges_child.1 he).2.2 htarget
  | usage u =>
    have himport := hc.user_imports u (Topology.mem_edges_usage.1 he)
    change u.user.owner = st.layout.root at htarget
    rw [htarget, Layout.imports, List.mem_filter] at himport
    have hexport := st.layout.root_parts himport.1
    rw [Part.isExport_eq_not, himport.2] at hexport
    exact absurd hexport (by simp)

lemma mem_clusterOutEdges (hs : h ∈ st.services) (hh : st.cluster h = h) :
    e ∈ st.clusterOutEdges h ↔ e ∈ st.edges ∧ st.clusterSource e = h := by
  rw [(hc.clusterOutEdges_perm hs hh).mem_iff, List.mem_filter, decide_eq_true_eq]

lemma stopReached_isHead (hs : c ∈ st.services) (hh : st.cluster c = c)
    (hm : (st.stopGraph replies).Reached st.isMarkedForStop c m) :
    m ∈ st.services ∧ st.cluster m = m := by
  induction hm with
  | refl => exact ⟨hs, hh⟩
  | tail _ hstep _ =>
    obtain ⟨e, he, -, -, rfl, -⟩ := hstep
    exact clusterTarget_isHead hc he

end Graph

lemma stopTraversalProgressesFurther_iff (hh : st.cluster h = h) :
    st.stopTraversalProgressesFurther h = true ↔
      (st.running h == 0) = false ∧ st.isMarkedForStop h = false := by
  simp only [stopTraversalProgressesFurther, Core.isClusterStopped, isClusterMarkedForStop, hh]
  cases st.running h == 0 <;> simp

/-! ### What the traversal keeps -/

/-- How often `onReleaseRequest` of a usage agreed. -/
def agreements (calls : List ReleaseCall) (use : Usage) : Nat :=
  calls.countP fun call => call.usage = use ∧ call.asked = true ∧ call.released = true

/-- The state and the calls at any time of the traversal from `st`. -/
structure Stopping (st : State) (replies : UsageId → ReleaseReply) (x : State × List ReleaseCall) :
    Prop where
  tree : x.1.toServiceTree = st.toServiceTree
  running : x.1.stopView.running = st.stopView.running
  usages : x.1.usages.Sublist st.usages
  kept : ∀ use ∈ st.usages, st.agrees replies use = false → use ∈ x.1.usages
  flags : ∀ use, x.1.agrees replies use = st.agrees replies use
  calls : ∀ call ∈ x.2, call.released = st.agrees replies call.usage
  gone : ∀ use ∈ st.usages, use ∉ x.1.usages → Released x.2 (.usage use)
  atMostOnce : ∀ use, agreements x.2 use ≤ 1
  notYet : ∀ use ∈ x.1.usages, x.1.releaseRequested use.id = false → agreements x.2 use = 0

namespace Stopping

variable {x : State × List ReleaseCall} {e : Edge}

/-- Only the marks, the counters and the queue may differ. -/
lemma of_view (hx : st.Stopping replies x)
    (hview : { st'.stopView with isMarkedForStop := x.1.isMarkedForStop } = x.1.stopView) :
    st.Stopping replies (st', x.2) := by
  have htop : st'.toTopology = x.1.toTopology := congrArg StopView.toTopology hview
  have hflags : st'.releaseRequested = x.1.releaseRequested :=
    congrArg StopView.releaseRequested hview
  have hrunning := congrArg StopView.running hview
  refine ⟨?_, hrunning.trans hx.running, ?_, ?_, ?_, hx.calls, ?_, hx.atMostOnce, ?_⟩
  · simp only [htop]
    exact hx.tree
  · simp only [htop]
    exact hx.usages
  · simp only [htop]
    exact hx.kept
  · intro use
    simp only [agrees, hflags]
    exact hx.flags use
  · simp only [htop]
    exact hx.gone
  · simp only [htop, hflags]
    exact hx.notYet

lemma wellFormed (hc : st.WellFormed) (hx : st.Stopping replies x) : x.1.WellFormed := by
  have htree := hx.tree
  have hsub := hx.usages
  have hmem : ∀ use ∈ x.1.usages, use ∈ st.usages := fun use => hsub.subset (a := use)
  refine ⟨?_, ?_, ?_, ?_, ?_, ?_, ?_⟩
  · rw [htree]
    exact hc.toIsTree
  · exact (hsub.map Usage.id).nodup hc.usages_nodup
  · exact fun use h => by rw [htree]; exact hc.used_mem use (hmem use h)
  · exact fun use h => by rw [htree]; exact hc.used_exports use (hmem use h)
  · exact fun use h => by rw [htree]; exact hc.user_mem use (hmem use h)
  · exact fun use h => by rw [htree]; exact hc.user_imports use (hmem use h)
  · exact fun use h => by rw [htree]; exact hc.different use (hmem use h)

lemma clusterSource (hx : st.Stopping replies x) : x.1.clusterSource e = st.clusterSource e := by
  simp only [Topology.clusterSource, hx.tree]

lemma clusterTarget (hx : st.Stopping replies x) : x.1.clusterTarget e = st.clusterTarget e := by
  simp only [Topology.clusterTarget, hx.tree]

lemma edges_sublist (hx : st.Stopping replies x) : x.1.edges.Sublist st.edges := by
  simp only [Topology.edges, Topology.childHeads, hx.tree]
  exact (List.Sublist.refl _).append (hx.usages.map Edge.usage)

/-- An edge that is gone was released. -/
lemma mem_edges_or (hx : st.Stopping replies x) (he : e ∈ st.edges) :
    e ∈ x.1.edges ∨ Released x.2 e ∧ st.isFree replies e = false := by
  cases e with
  | inner s => exact absurd he Topology.not_mem_edges_inner
  | child s =>
    refine .inl (Topology.mem_edges_child.2 ?_)
    rw [hx.tree]
    exact Topology.mem_edges_child.1 he
  | usage u =>
    have hu := Topology.mem_edges_usage.1 he
    by_cases hmem : u ∈ x.1.usages
    · exact .inl (Topology.mem_edges_usage.2 hmem)
    · refine .inr ⟨hx.gone u hu hmem, ?_⟩
      cases hagree : st.agrees replies u with
      | true => simp [isFree, hagree]
      | false => exact absurd (hx.kept u hu hagree) hmem

/-- Away from the root `running_` stays. -/
lemma running_eq (hx : st.Stopping replies x) (hh : h ≠ st.layout.root) :
    x.1.running h = st.running h := by
  have hrun := congrFun hx.running h
  have hroot : x.1.layout.root = st.layout.root := by rw [hx.tree]
  simpa [stopView, hroot, hh] using hrun

/-- The filter progresses just where the graph does. -/
lemma progresses_iff (hc : st.WellFormed) (hx : st.Stopping replies x) (he : e ∈ st.edges) :
    x.1.stopTraversalProgressesFurther (x.1.clusterTarget e) = true ↔
      (st.stopGraph replies).blocked (st.clusterTarget e) = false ∧
        x.1.isMarkedForStop (st.clusterTarget e) = false := by
  have hhead : x.1.cluster (st.clusterTarget e) = st.clusterTarget e := by
    rw [hx.tree]
    exact (clusterTarget_isHead hc he).2
  rw [hx.clusterTarget, stopTraversalProgressesFurther_iff hhead,
    hx.running_eq (clusterTarget_ne_root hc he)]
  rfl

/-! ### One step -/

/-- A visit marks its cluster. -/
lemma visit (hx : st.Stopping replies x) (hh : st.cluster h = h) :
    st.Stopping replies ((recordedStopSearch replies).visit x h).2 ∧
      ((recordedStopSearch replies).visit x h).2.1.isMarkedForStop =
        Function.update x.1.isMarkedForStop h true := by
  have hhead : x.1.cluster h = h := by rwa [hx.tree]
  have hview : ((stopSearch replies).visit x.1 h).2.stopView =
      { x.1.stopView with isMarkedForStop := Function.update x.1.isMarkedForStop h true } := by
    simp only [stopSearch, insertIntoQueueIfStoppable_stopView, doMarkClusterForStop, hhead]
    cases hmark : x.1.isMarkedForStop h with
    | true =>
      simp only [bne_self_eq_false, Bool.false_eq_true, if_false]
      rw [← hmark, Function.update_eq_self]
      rfl
    | false =>
      simp only [Bool.bne_false, if_true, callOnClusterPullsIncrement_stopView]
      rfl
  refine ⟨hx.of_view ?_, congrArg StopView.isMarkedForStop hview⟩
  rw [hview]
  rfl

lemma agreements_append (calls : List ReleaseCall) (call : ReleaseCall) (use : Usage) :
    agreements (calls ++ [call]) use = agreements calls use +
      if call.usage = use ∧ call.asked = true ∧ call.released = true then 1 else 0 := by
  simp only [agreements, List.countP_append, List.countP_singleton, decide_eq_true_eq]

lemma released_append {calls : List ReleaseCall} (call : ReleaseCall) (h : Released calls e) :
    Released (calls ++ [call]) e := by
  obtain ⟨call', hmem, h⟩ := h
  exact ⟨call', List.mem_append_left _ hmem, h⟩

/-- The state and the calls after the usage of an edge was requested to release. -/
def release (x : State × List ReleaseCall) (replies : UsageId → ReleaseReply) (use : Usage) :
    State × List ReleaseCall :=
  ((x.1.requestRelease replies use).2,
    x.2 ++ [⟨use, !x.1.releaseRequested use.id, (x.1.requestRelease replies use).1⟩])

/-- The flag is set, the usage is gone or `onReleaseRequest` did not agree. -/
lemma afterRelease_cases (st : State) (replies : UsageId → ReleaseReply) (use : Usage) :
    (st.afterRelease replies use = (st.usages, st.releaseRequested) ∧
        (st.releaseRequested use.id = true ∨ st.agrees replies use = false)) ∨
      (st.releaseRequested use.id = false ∧ st.agrees replies use = true ∧
        st.afterRelease replies use = (st.usages.erase use, st.releaseRequested)) ∨
      (st.releaseRequested use.id = false ∧ replies use.id = .later ∧
        st.afterRelease replies use =
          (st.usages, Function.update st.releaseRequested use.id true)) := by
  unfold afterRelease agrees
  cases hflag : st.releaseRequested use.id with
  | true => exact .inl ⟨rfl, .inl rfl⟩
  | false =>
    cases replies use.id with
    | never => exact .inl ⟨rfl, .inr rfl⟩
    | now =>
      refine .inr (.inl ⟨rfl, rfl, ?_⟩)
      simp only [Bool.false_eq_true, if_false]
      rw [← hflag, Function.update_eq_self]
    | later => exact .inr (.inr ⟨rfl, rfl, rfl⟩)

section Release

variable {call : ReleaseCall} (hx : st.Stopping replies x) (hcall : call.usage = u)
  (hreleased : call.released = st.agrees replies u)
include hx hcall hreleased

lemma calls_append : ∀ c ∈ x.2 ++ [call], c.released = st.agrees replies c.usage := by
  intro c hmem
  rcases List.mem_append.1 hmem with hmem | hmem
  · exact hx.calls c hmem
  · rw [List.mem_singleton.1 hmem, hcall, hreleased]

/-- The usage was requested before, or it denies. -/
lemma unchanged (hview : st'.stopView = x.1.stopView)
    (hno : call.asked = false ∨ call.released = false) :
    st.Stopping replies (st', x.2 ++ [call]) := by
  have h : st.Stopping replies (st', x.2) := hx.of_view (by rw [hview]; rfl)
  have hcount : ∀ use, agreements (x.2 ++ [call]) use = agreements x.2 use := by
    intro use
    rw [agreements_append, if_neg, Nat.add_zero]
    rintro ⟨-, h₁, h₂⟩
    rcases hno with hno | hno <;> simp [hno] at h₁ h₂
  refine ⟨h.tree, h.running, h.usages, h.kept, h.flags, hx.calls_append hcall hreleased, ?_, ?_, ?_⟩
  · exact fun use hmem hgone => released_append call (h.gone use hmem hgone)
  · exact fun use => (hcount use).trans_le (h.atMostOnce use)
  · exact fun use hmem hflag => (hcount use).trans (h.notYet use hmem hflag)

/-- The usage is released at once. -/
lemma erased (hnodup : x.1.usages.Nodup) (hu : u ∈ x.1.usages)
    (hflag : x.1.releaseRequested u.id = false) (hagree : st.agrees replies u = true)
    (hview : st'.stopView = { x.1.stopView with usages := x.1.usages.erase u }) :
    st.Stopping replies (st', x.2 ++ [call]) := by
  have husages : st'.usages = x.1.usages.erase u := congrArg (fun v => v.usages) hview
  have htree : st'.toServiceTree = x.1.toServiceTree := congrArg (fun v => v.toServiceTree) hview
  have hflags : st'.releaseRequested = x.1.releaseRequested :=
    congrArg StopView.releaseRequested hview
  have hrunning : st'.stopView.running = x.1.stopView.running := by rw [hview]
  refine ⟨htree.trans hx.tree, hrunning.trans hx.running, ?_, ?_, ?_,
    hx.calls_append hcall hreleased, ?_, ?_, ?_⟩
  · exact husages ▸ List.erase_sublist.trans hx.usages
  · intro use hmem hno
    have hne : use ≠ u := by
      rintro rfl
      exact absurd (hagree.symm.trans hno) (by simp)
    exact husages ▸ (List.mem_erase_of_ne hne).2 (hx.kept use hmem hno)
  · intro use
    rw [← hx.flags use]
    simp only [agrees, hflags]
  · intro use hmem hgone
    by_cases hne : use = u
    · refine ⟨call, List.mem_append_right _ (by simp), ?_, hreleased.trans hagree⟩
      rw [hcall, hne]
    · refine released_append call (hx.gone use hmem fun h => hgone ?_)
      exact husages ▸ (List.mem_erase_of_ne hne).2 h
  · intro use
    rw [agreements_append]
    by_cases hne : u = use
    · rw [← hne, hx.notYet u hu hflag]
      split <;> simp
    · rw [if_neg (fun h => hne (hcall.symm.trans h.1))]
      exact hx.atMostOnce use
  · intro use hmem hno
    simp only [husages, hflags] at hmem hno
    have hne : u ≠ use := by
      rintro rfl
      exact hnodup.not_mem_erase hmem
    rw [agreements_append, if_neg (fun h => hne (hcall.symm.trans h.1))]
    exact hx.notYet use (List.mem_of_mem_erase hmem) hno

/-- The usage is released later. -/
lemma requested (hu : u ∈ x.1.usages) (hflag : x.1.releaseRequested u.id = false)
    (hlater : replies u.id = .later)
    (hview : st'.stopView = { x.1.stopView with
      releaseRequested := Function.update x.1.releaseRequested u.id true }) :
    st.Stopping replies (st', x.2 ++ [call]) := by
  have htop : st'.toTopology = x.1.toTopology := congrArg StopView.toTopology hview
  have hflags : st'.releaseRequested = Function.update x.1.releaseRequested u.id true :=
    congrArg StopView.releaseRequested hview
  have hrunning : st'.stopView.running = x.1.stopView.running := by rw [hview]
  refine ⟨by simp only [htop]; exact hx.tree, hrunning.trans hx.running,
    by simp only [htop]; exact hx.usages, by simp only [htop]; exact hx.kept, ?_,
    hx.calls_append hcall hreleased, ?_, ?_, ?_⟩
  · intro use
    rw [← hx.flags use]
    simp only [agrees, hflags]
    by_cases hid : use.id = u.id
    · simp [hid, hlater]
    · simp [hid]
  · simp only [htop]
    exact fun use hmem hgone => released_append call (hx.gone use hmem hgone)
  · intro use
    rw [agreements_append]
    by_cases hne : u = use
    · rw [← hne, hx.notYet u hu hflag]
      split <;> simp
    · rw [if_neg (fun h => hne (hcall.symm.trans h.1))]
      exact hx.atMostOnce use
  · intro use hmem hno
    simp only [htop, hflags] at hmem hno
    have hid : use.id ≠ u.id := by
      intro hid
      simp [hid] at hno
    rw [Function.update_of_ne hid] at hno
    rw [agreements_append, if_neg (fun h => hid (by rw [← hcall, h.1]))]
    exact hx.notYet use hmem hno

end Release

lemma release_spec (hc : st.WellFormed) (hx : st.Stopping replies x) (hu : u ∈ x.1.usages) :
    st.Stopping replies (release x replies u) ∧
      (release x replies u).1.isMarkedForStop = x.1.isMarkedForStop ∧
      ∀ use ∈ x.1.usages, use ≠ u → use ∈ (release x replies u).1.usages := by
  have hview := requestRelease_stopView (hx.wellFormed hc).toIsTree replies u
  have hagree := requestRelease_fst x.1 replies u
  have hreleased := hagree.trans (hx.flags u)
  have hnodup : x.1.usages.Nodup := (hx.wellFormed hc).usages_nodup'
  have hmarks : (release x replies u).1.isMarkedForStop = x.1.isMarkedForStop :=
    congrArg StopView.isMarkedForStop hview
  have husages : (release x replies u).1.usages = (x.1.afterRelease replies u).1 :=
    congrArg (fun v => v.usages) hview
  rcases afterRelease_cases x.1 replies u with ⟨heq, hno⟩ | ⟨hflag, hyes, heq⟩ |
    ⟨hflag, hlater, heq⟩
  · rw [heq] at hview husages
    refine ⟨hx.unchanged rfl hreleased hview ?_, hmarks, fun use hmem _ => husages ▸ hmem⟩
    refine hno.imp (fun h => ?_) fun h => hagree.trans h
    simp [h]
  · rw [heq] at hview husages
    refine ⟨hx.erased rfl hreleased hnodup hu hflag ((hx.flags u).symm.trans hyes) hview, hmarks,
      fun use hmem hne => ?_⟩
    exact husages ▸ (List.mem_erase_of_ne hne).2 hmem
  · rw [heq] at hview husages
    exact ⟨hx.requested rfl hreleased hu hflag hlater hview, hmarks,
      fun use hmem _ => husages ▸ hmem⟩

/-- Where the filter asks the usage of an edge. -/
lemma filter_of_asked (h : (x.1.stopTraversalProgressesFurther (x.1.clusterTarget (.usage u)) ||
      u.weak) = true) :
    (recordedStopSearch replies).filter x (.usage u) =
      (!x.1.agrees replies u && x.1.stopTraversalProgressesFurther (x.1.clusterTarget (.usage u)),
        release x replies u) := by
  have hagree := requestRelease_fst x.1 replies u
  simp only [recordedStopSearch, Search.record, stopSearch, stopFilter, releaseCalls, h, if_true,
    release]
  rw [← hagree]
  rcases hr : x.1.requestRelease replies u with ⟨b, st₁⟩
  cases b <;> rfl

/-- Where it does not. -/
lemma filter_of_not_asked (h : ∀ use, e = .usage use →
      (x.1.stopTraversalProgressesFurther (x.1.clusterTarget e) || use.weak) = false) :
    (recordedStopSearch replies).filter x e =
      (x.1.stopTraversalProgressesFurther (x.1.clusterTarget e), x) := by
  cases e with
  | inner s => simp [recordedStopSearch, Search.record, stopSearch, stopFilter, releaseCalls]
  | child s => simp [recordedStopSearch, Search.record, stopSearch, stopFilter, releaseCalls]
  | usage use =>
    have h := h use rfl
    simp only [recordedStopSearch, Search.record, stopSearch, stopFilter, releaseCalls, h,
      Bool.false_eq_true, if_false, List.append_nil]

/-- The target of an edge is marked or stopped, or the edge is released. -/
def Handled (st : State) (replies : UsageId → ReleaseReply) (x : State × List ReleaseCall)
    (e : Edge) : Prop :=
  x.1.isMarkedForStop (st.clusterTarget e) = true ∨
    (st.stopGraph replies).blocked (st.clusterTarget e) = true ∨ Released x.2 e

lemma handled_of_not_progress (hc : st.WellFormed) (hx : st.Stopping replies x) (he : e ∈ st.edges)
    (h : x.1.stopTraversalProgressesFurther (x.1.clusterTarget e) = false) :
    Handled st replies x e := by
  by_contra hno
  simp only [Handled, not_or, Bool.not_eq_true] at hno
  exact absurd ((hx.progresses_iff hc he).2 ⟨hno.2.1, hno.1⟩) (by simp [h])

/-- What the filter does with a present edge. -/
lemma filter_spec (hc : st.WellFormed) (hx : st.Stopping replies x) (he : e ∈ x.1.edges) :
    st.Stopping replies ((recordedStopSearch replies).filter x e).2 ∧
      ((recordedStopSearch replies).filter x e).2.1.isMarkedForStop = x.1.isMarkedForStop ∧
      (((recordedStopSearch replies).filter x e).1 = true ↔
        (st.stopGraph replies).free e = true ∧
          (st.stopGraph replies).blocked (st.clusterTarget e) = false ∧
          x.1.isMarkedForStop (st.clusterTarget e) = false) ∧
      (∀ e' ∈ x.1.edges, e' ≠ e → e' ∈ ((recordedStopSearch replies).filter x e).2.1.edges) ∧
      (((recordedStopSearch replies).filter x e).1 = false →
        Handled st replies ((recordedStopSearch replies).filter x e).2 e) ∧
      ∀ e', Released x.2 e' → Released ((recordedStopSearch replies).filter x e).2.2 e' := by
  have he₀ := hx.edges_sublist.subset he
  have hprog := hx.progresses_iff hc he₀
  by_cases hask : ∃ use, e = .usage use ∧
      (x.1.stopTraversalProgressesFurther (x.1.clusterTarget e) || use.weak) = true
  · obtain ⟨u, rfl, hask⟩ := hask
    have hu : u ∈ x.1.usages := Topology.mem_edges_usage.1 he
    obtain ⟨hx', hmarks, hkept⟩ := hx.release_spec hc hu
    rw [filter_of_asked hask]
    refine ⟨hx', hmarks, ?_, fun e' he' hne => ?_, fun hno => ?_, fun e' hr => ?_⟩
    · simp only [Bool.and_eq_true, hprog, hx.flags u]
      rfl
    · cases e' with
      | inner s => exact absurd he' Topology.not_mem_edges_inner
      | child s =>
        rw [Topology.mem_edges_child] at he' ⊢
        rw [hx.tree] at he'
        rwa [hx'.tree]
      | usage w =>
        rw [Topology.mem_edges_usage] at he' ⊢
        exact hkept w he' fun heq => hne (heq ▸ rfl)
    · cases hagree : x.1.agrees replies u with
      | true =>
        refine .inr (.inr ⟨_, List.mem_append_right _ List.mem_cons_self, rfl, ?_⟩)
        rw [requestRelease_fst, hagree]
      | false =>
        rw [hagree] at hno
        have := handled_of_not_progress hc hx he₀ (by simpa using hno)
        rcases this with h | h | h
        · exact .inl (by rw [hmarks]; exact h)
        · exact .inr (.inl h)
        · exact .inr (.inr (released_append _ h))
    · exact released_append _ hr
  · have hask' : ∀ use, e = .usage use →
        (x.1.stopTraversalProgressesFurther (x.1.clusterTarget e) || use.weak) = false :=
      fun use heq => by simpa using fun h => hask ⟨use, heq, h⟩
    rw [filter_of_not_asked hask']
    refine ⟨hx, rfl, ?_, fun e' he' _ => he', handled_of_not_progress hc hx he₀, fun e' hr => hr⟩
    rw [hprog]
    refine ⟨fun h => ⟨?_, h⟩, fun h => h.2⟩
    -- a usage is only not asked where the traversal does not progress
    cases e with
    | inner s => rfl
    | child s => rfl
    | usage use =>
      have hno := hask' use rfl
      rw [hprog.2 h] at hno
      exact absurd hno (by simp)

end Stopping

/-- The stop traversal is a marking search. -/
lemma stopSearch_marks {c : ServiceId} (hc : st.WellFormed) (hs : c ∈ st.services)
    (hh : st.cluster c = c) :
    (recordedStopSearch replies).Marks (st.stopGraph replies)
      ((st.stopGraph replies).Reached st.isMarkedForStop c) (st.Stopping replies)
      (fun x e => e ∈ x.1.edges) (fun x => x.1.isMarkedForStop) (fun _ _ => True)
      (Stopping.Handled st replies) where
  postCancel := rfl
  target hx _ := hx.clusterTarget
  outEdges_subperm {x v} hx hv := by
    obtain ⟨hvs, hvh⟩ := stopReached_isHead hc hs hh hv
    rw [← hx.tree] at hvs hvh
    have hperm := (hx.wellFormed hc).clusterOutEdges_perm hvs hvh
    simp only [hx.clusterSource] at hperm
    exact hperm.subperm.trans (hx.edges_sublist.filter _).subperm
  outEdges_nodup {x v} hx hv := by
    obtain ⟨hvs, hvh⟩ := stopReached_isHead hc hs hh hv
    rw [← hx.tree] at hvs hvh
    have hwf := hx.wellFormed hc
    exact (hwf.clusterOutEdges_perm hvs hvh).nodup_iff.2 (hwf.nodup_edges.filter _)
  outEdges_or {x v e} hx hv he hsrc := by
    obtain ⟨hvs, hvh⟩ := stopReached_isHead hc hs hh hv
    rw [← hx.tree] at hvs hvh
    refine (hx.mem_edges_or he).imp (fun hmem => ?_) fun h => ⟨.inr (.inr h.1), h.2⟩
    exact (mem_clusterOutEdges (hx.wellFormed hc) hvs hvh).2 ⟨hmem, hx.clusterSource.trans hsrc⟩
  outEdges_present {x v e} hx hv he := by
    obtain ⟨hvs, hvh⟩ := stopReached_isHead hc hs hh hv
    rw [← hx.tree] at hvs hvh
    exact ((mem_clusterOutEdges (hx.wellFormed hc) hvs hvh).1 he).1
  visit hx hv := by
    obtain ⟨-, hvh⟩ := stopReached_isHead hc hs hh hv
    exact ⟨rfl, hx.visit hvh⟩
  visit_noted _ _ _ := trivial
  visit_handled {x v e} hx hv _ h := by
    obtain ⟨-, hvh⟩ := stopReached_isHead hc hs hh hv
    have hmarks := (hx.visit hvh).2
    by_cases hev : st.clusterTarget e = v
    · exact .inl (by rw [hmarks, hev, Function.update_self])
    · refine (h.resolve_left hev).imp_left fun hm => ?_
      rwa [hmarks, Function.update_of_ne hev]
  filter hx _ hpre _ := by
    obtain ⟨hx', hmarks, hacc, -⟩ := hx.filter_spec hc hpre
    exact ⟨hx', hmarks, hacc⟩
  filter_present hx _ hpre _ hne he' := (hx.filter_spec hc hpre).2.2.2.1 _ he' hne
  filter_noted _ _ _ _ _ := trivial
  filter_handled {x e e'} hx _ hpre _ _ h := by
    obtain ⟨-, hmarks, -, -, hhandled, hreleased⟩ := hx.filter_spec hc hpre
    rcases h with ⟨rfl, hno⟩ | h | h | h
    · exact hhandled hno
    · exact .inl (by rw [hmarks]; exact h)
    · exact .inr (.inl h)
    · exact .inr (.inr (hreleased e' h))

/-! ### The traversal -/

section Reached

variable {c m : ServiceId} {calls : List ReleaseCall}

/-- An edge that can be followed is never released. -/
lemma stopReached_of_reached (hc : st.WellFormed) (hs : c ∈ st.services) (hh : st.cluster c = c)
    (hcalls : ∀ call ∈ calls, call.released = st.agrees replies call.usage)
    (h : (st.stopGraph replies).Reached st.isMarkedForStop c m) : st.StopReached calls c m := by
  induction h with
  | refl => exact .refl
  | tail hprev hstep ih =>
    obtain ⟨e, he, hfree, hsrc, rfl, hblocked, hmark⟩ := hstep
    obtain ⟨hvs, hvh⟩ := stopReached_isHead hc hs hh hprev
    refine ih.tail ⟨e, (mem_clusterOutEdges hc hvs hvh).2 ⟨he, hsrc⟩, ?_, rfl, ?_⟩
    · rintro ⟨call, hmem, rfl, hreleased⟩
      have hagree := (hcalls call hmem).symm.trans hreleased
      simp [stopGraph, isFree, hagree] at hfree
    · exact (stopTraversalProgressesFurther_iff (clusterTarget_isHead hc he).2).2 ⟨hblocked, hmark⟩

/-- An edge that is not released leads to something marked, or the traversal stops there. -/
lemma reached_of_stopReached (hc : st.WellFormed) (hs : c ∈ st.services) (hh : st.cluster c = c)
    {x : State × List ReleaseCall}
    (hmarks : ∀ h, x.1.isMarkedForStop h = true ↔ st.isMarkedForStop h = true ∨
      (st.stopGraph replies).Reached st.isMarkedForStop c h)
    (hhandled : ∀ e ∈ st.edges, (st.stopGraph replies).Reached st.isMarkedForStop c
      (st.clusterSource e) → Stopping.Handled st replies x e)
    (h : st.StopReached x.2 c m) : (st.stopGraph replies).Reached st.isMarkedForStop c m := by
  induction h with
  | refl => exact .refl
  | tail _ hstep ih =>
    obtain ⟨e, he, hnot, rfl, hprog⟩ := hstep
    obtain ⟨hvs, hvh⟩ := stopReached_isHead hc hs hh ih
    obtain ⟨hedge, rfl⟩ := (mem_clusterOutEdges hc hvs hvh).1 he
    obtain ⟨hrun, hmark⟩ :=
      (stopTraversalProgressesFurther_iff (clusterTarget_isHead hc hedge).2).1 hprog
    rcases hhandled e hedge ih with hm | hb | hr
    · exact ((hmarks _).1 hm).resolve_left (by simp [hmark])
    · exact absurd (hrun.symm.trans hb) (by simp)
    · exact absurd hr hnot

end Reached

/-- A stop request of a cluster other than the root ends without a cycle. It marks its own cluster
and those it reaches through clusters that are neither stopped nor marked along edges that are not
released; all others keep their mark. No usage agrees to release twice. -/
theorem onServiceStopRequest_marks {c : ServiceId} (hc : st.WellFormed) (hs : c ∈ st.services)
    (hh : st.cluster c = c) (hroot : c ≠ st.layout.root) (replies : UsageId → ReleaseReply) :
    ((stopSearch replies).dfs st.dfsFuel c {} st).1.acyclic = true ∧
      ((stopSearch replies).dfs st.dfsFuel c {} st).1.next = [] ∧
      (∀ h, (st.onServiceStopRequest replies c).isMarkedForStop h = true ↔
        st.isMarkedForStop h = true ∨ st.StopReached (st.stopCalls replies c) c h) ∧
      ∀ use, ((st.stopCalls replies c).countP fun call =>
        call.usage = use ∧ call.asked = true ∧ call.released = true) ≤ 1 := by
  have hinit : st.Stopping replies (st, []) :=
    ⟨rfl, rfl, List.Sublist.refl _, fun _ h _ => h, fun _ => rfl, by simp,
      fun _ h hno => absurd h hno, fun _ => Nat.zero_le _, fun _ _ _ => rfl⟩
  obtain ⟨hacyclic, hnext, hx, hmarks, -, hhandled⟩ :=
    Search.dfs_marks (G := st.stopGraph replies)
      (fun x : State × List ReleaseCall => x.1.isMarkedForStop)
      (stopSearch_marks hc hs hh) hinit st.edges_length_le_dfsFuel
  have hrecord : (stopSearch replies).dfs st.dfsFuel c {} st =
      (((recordedStopSearch replies).dfs st.dfsFuel c {} (st, [])).1,
        ((recordedStopSearch replies).dfs st.dfsFuel c {} (st, [])).2.1) :=
    Search.record_dfs _ _ _ _ _
  unfold onServiceStopRequest stopCalls
  rw [if_neg hroot, hrecord]
  generalize (recordedStopSearch replies).dfs st.dfsFuel c {} (st, []) = r at *
  refine ⟨hacyclic, hnext, fun h => (hmarks h).trans (or_congr_right ⟨fun hr => ?_, fun hr => ?_⟩),
    hx.atMostOnce⟩
  · exact stopReached_of_reached hc hs hh hx.calls hr
  · exact reached_of_stopReached hc hs hh hmarks hhandled hr

end State

/-! ### A usage that is asked twice -/

/-- Two usages of service 1 by service 2, and one of service 2 by service 3. -/
def twiceUsed (id : UsageId) : Usage :=
  if id = 3 then ⟨3, Layout.exportOf 2, Layout.importOf 3, false⟩
  else ⟨id, Layout.exportOf 1, Layout.importOf 2, false⟩

/-- All three services are running. -/
def twiceUsedRun : List Op :=
  [.run, .init 1, .init 2, .init 3, .connect (twiceUsed 1), .connect (twiceUsed 2),
    .connect (twiceUsed 3), .requestStart 3 .manual ⟨0, .start⟩, .process true, .process true,
    .process true]

/-- Only the usage of service 2 releases, some time later. -/
def releasesLater (id : UsageId) : ReleaseReply := if id = 3 then .later else .never

lemma twiceUsedRun_wellFormed : (State.after .flat twiceUsedRun).WellFormed := by
  constructor
  · constructor <;> decide +kernel
  all_goals decide +kernel

theorem onServiceStopRequest_marks_twiceUsedRun :
    (State.after .flat twiceUsedRun).running 1 ≠ 0 ∧
      ((State.after .flat twiceUsedRun).onServiceStopRequest releasesLater 1).isMarkedForStop 1 =
        true := by
  obtain ⟨-, -, hmarks, -⟩ := State.onServiceStopRequest_marks (c := 1) twiceUsedRun_wellFormed
    (by decide +kernel) (by decide +kernel) (by decide +kernel) releasesLater
  exact ⟨by decide +kernel, (hmarks 1).2 (.inr .refl)⟩

/-- Service 2 is visited once for each of its usages, so `requestRelease` of its own user is called
twice and agrees both times. -/
theorem twiceUsedRun_requestRelease :
    Reachable .flat (State.after .flat twiceUsedRun) ∧
      (((State.after .flat twiceUsedRun).stopCalls releasesLater 1).countP fun call =>
        call.usage = twiceUsed 3 ∧ call.released = true) = 2 :=
  ⟨Machine.Reachable.run (.init rfl) (by decide +kernel), by decide +kernel⟩

end Idle
