import Idle.Core.Draining
import Idle.Core.Pulls
import Idle.Core.Verify

/-!
# A start waits for what is being stopped

`pulls_` of a cluster counts the edges from clusters that are marked for stop, while services are
started and stopped as well. A cluster that is pulled is not started, so no service is started
before all it depends on has been stopped that has to be stopped.
-/

namespace Idle

namespace State

variable {st st' st'' : State} {s h me : ServiceId} {u : Usage} {t : Topology} {small : Prop}

/-! ### What does not pull -/

/-- The graph, the marks for stop and what is counted for them stay the same. -/
structure Unpulled (st st' : State) : Prop where
  topology : st'.toTopology = st.toTopology
  marked : st'.isMarkedForStop = st.isMarkedForStop
  pulls : st'.pulls = st.pulls

namespace Unpulled

lemma refl (st : State) : Unpulled st st := ⟨rfl, rfl, rfl⟩

lemma tree (h : Unpulled st st') (ht : st.IsTree) : st'.IsTree := h.topology ▸ ht

lemma trans (h₁ : Unpulled st st') (h₂ : Unpulled st' st'') : Unpulled st st'' :=
  ⟨h₂.topology.trans h₁.topology, h₂.marked.trans h₁.marked, h₂.pulls.trans h₁.pulls⟩

lemma ite {c : Prop} [Decidable c] (h : Unpulled st st') :
    Unpulled st (if c then st' else st) := by
  split
  · exact h
  · exact .refl st

end Unpulled

lemma Reports.unpulled (h : Reports st st') : Unpulled st st' :=
  ⟨topology_of_away h.away, isMarkedForStop_of_away h.away, h.pulls⟩

lemma StartFrame.unpulled (h : StartFrame st st') : Unpulled st st' := by
  obtain ⟨p, u, g, c, r, rfl⟩ := h
  exact ⟨rfl, rfl, rfl⟩

lemma MissFrame.unpulled (h : MissFrame st st') : Unpulled st st' := by
  obtain ⟨i, o, rfl⟩ := h
  exact ⟨rfl, rfl, rfl⟩

lemma Checks.unpulled (h : Checks st st') : Unpulled st st' := by
  obtain ⟨u, r, p, d, rfl⟩ := h.frame
  exact ⟨rfl, rfl, rfl⟩

lemma Unlocks.unpulled {ms : List ServiceId} (h : Unlocks ms st st') : Unpulled st st' := by
  obtain ⟨p, u, r, c, d, rfl⟩ := h.frame
  exact ⟨rfl, rfl, rfl⟩

lemma setOverride_unpulled (st : State) (s : ServiceId) (mode : Override) :
    Unpulled st (st.setOverride s mode) := by
  obtain ⟨o, hchecks⟩ := setOverride_checks st s mode
  have ho : Unpulled st { st with override := o } := ⟨rfl, rfl, rfl⟩
  exact ho.trans hchecks.unpulled

lemma transitionTargetSet_unpulled (st : State) (me : ServiceId) (target : Target) :
    Unpulled st (st.transitionTargetSet me target) := by
  obtain ⟨t, p, c, heq⟩ := transitionTargetSet_frame st me target
  rw [heq]
  exact ⟨rfl, rfl, rfl⟩

lemma callOnRequiredDecrement_unpulled (ht : st.IsTree) (me : ServiceId) :
    Unpulled st (st.callOnRequiredDecrement onServiceStartable me) := by
  have hinner : Unpulled st (st.innerDecremented me) := .ite ⟨rfl, rfl, rfl⟩
  exact hinner.trans (callOnRequiredDecrement_reports startable_reports ht me).1.unpulled

lemma onOuterRequiredDecrement_unpulled (ht : st.IsTree) (me : ServiceId) :
    Unpulled st (st.onOuterRequiredDecrement onServiceStartable me) :=
  (onOuterRequiredDecrement_reports startable_reports ht).unpulled

lemma checkAnyInClusterStartable_unpulled (ht : st.IsTree) (h : ServiceId) :
    Unpulled st (st.checkAnyInClusterStartable onServiceStartable h) :=
  (checkAnyInClusterStartable_reports startable_reports ht).1.unpulled

lemma postStartActions_unpulled (ht : st.IsTree) (me : ServiceId) :
    Unpulled st (st.postStartActions onServiceStartable me) := by
  have hstart := (startedCore_frame st me).unpulled
  rw [postStartActions_eq]
  generalize st.startedCore me = st₁ at hstart
  have hreq := hstart.trans (callOnRequiredDecrement_unpulled (hstart.tree ht) me)
  generalize st₁.callOnRequiredDecrement onServiceStartable me = st₂ at hreq
  refine hreq.trans ?_
  unfold startSettled
  split
  · obtain ⟨t, p, c, heq⟩ := doFinalizeCluster_frame st₂ me
    rw [heq]
    exact .ite ⟨rfl, rfl, rfl⟩
  · exact ⟨rfl, rfl, rfl⟩

lemma run_unpulled (ht : st.IsTree) : Unpulled st st.run := by
  unfold run
  split
  · exact .refl st
  · rename_i hr
    apply (startRoot_reports startable_reports ht _).unpulled
    simpa using hr

lemma insertIntoQueueIfStartable_unpulled (st : State) (h : ServiceId) :
    Unpulled st (st.insertIntoQueueIfStartable h) := by
  unfold insertIntoQueueIfStartable
  split
  · exact List.foldlRecOn (motive := fun x : State => Unpulled st x) _ _ (.refl st)
      fun x hx m _ => hx.trans (.ite ⟨rfl, rfl, rfl⟩)
  · exact .refl st

lemma onServiceStartRequest_unpulled (st : State) (s : ServiceId) :
    Unpulled st (st.onServiceStartRequest s) := by
  refine Search.dfs_keeps (P := fun x : State => Unpulled st x) (fun x v h => ?_)
    (fun x e h => ?_) (.refl st)
  · have hmark : Unpulled st (x.doMarkClusterForStart v true) := h.trans ⟨rfl, rfl, rfl⟩
    exact hmark.trans (insertIntoQueueIfStartable_unpulled _ v)
  · simp only [startSearch]
    split
    · exact h
    · exact h.trans (insertIntoQueueIfStartable_unpulled x _)

lemma requestStart_unpulled (st : State) (s : ServiceId) (reason : Reason) (p : Promise) :
    Unpulled st (st.requestStart s reason p) := by
  have hreach : Unpulled st { st with reached := st.reached ++ [p] } := ⟨rfl, rfl, rfl⟩
  unfold requestStart
  generalize ({ st with reached := st.reached ++ [p] } : State) = st₁ at hreach
  have hset : Unpulled st (if reason = .manual then st₁.setOverride s .start else st₁) :=
    hreach.trans (.ite (setOverride_unpulled st₁ s .start))
  simp only
  generalize (if reason = .manual then st₁.setOverride s .start else st₁) = st₂ at hset
  split
  · exact hreach.trans ⟨rfl, rfl, rfl⟩
  · split
    · exact hset.trans ⟨rfl, rfl, rfl⟩
    · have hstart := (hset.trans (onServiceStartRequest_unpulled st₂ s)).trans
        (transitionTargetSet_unpulled _ s .start)
      generalize (st₂.onServiceStartRequest s).transitionTargetSet s .start = st₃ at hstart
      exact hstart.trans ⟨rfl, rfl, rfl⟩

lemma decUse_unpulled (st : State) (s : ServiceId) (onEventLoop : Bool) :
    Unpulled st (st.decUse s onEventLoop) := by
  have h₁ : Unpulled st { st with
      toCore := { st.toCore.decUses s with
        handles := Function.update st.handles s (st.handles s - 1) } } := ⟨rfl, rfl, rfl⟩
  unfold decUse
  simp only
  split
  · split
    · exact h₁.trans (onOutgoingReachedNoExternalUse_drops _ s _).1.unpulled
    · exact ⟨rfl, rfl, rfl⟩
  · exact h₁

lemma tryUse_unpulled (st : State) (s : ServiceId) : Unpulled st (st.tryUse s).1 := by
  unfold tryUse
  split
  · exact .refl st
  · exact ⟨rfl, rfl, rfl⟩

lemma setSatisfied_unpulled (imp : Part) (satisfied : Bool) (ht : st.IsTree) :
    Unpulled st (st.setSatisfied onServiceStartable imp satisfied) := by
  have h₁ : Unpulled st { st with satisfied := Function.update st.satisfied imp satisfied } :=
    ⟨rfl, rfl, rfl⟩
  refine .ite (h₁.trans ?_)
  split
  · exact onOuterRequiredDecrement_unpulled (h₁.tree ht) _
  · exact ⟨rfl, rfl, rfl⟩

lemma runPosted_unpulled (work : Posted) (ht : st.IsTree) : Unpulled st (st.runPosted work) := by
  have h₁ : Unpulled st { st with posted := st.posted.erase work } := ⟨rfl, rfl, rfl⟩
  refine h₁.trans ?_
  cases work with
  | restart h => exact .ite (checkAnyInClusterStartable_unpulled (h₁.tree ht) h)
  | reachedNoExternalUse s n => exact .ite (onOutgoingReachedNoExternalUse_drops _ s n).1.unpulled

/-! ### Marks -/

lemma onClusterPullsDecrement_pulls (ht : st.IsTree) (h : ServiceId) :
    (st.onClusterPullsDecrement onServiceStartable h).toTopology = st.toTopology ∧
      (st.onClusterPullsDecrement onServiceStartable h).isMarkedForStop = st.isMarkedForStop ∧
      (st.onClusterPullsDecrement onServiceStartable h).pulls =
        Function.update st.pulls (st.cluster h) (st.pulls (st.cluster h) - 1) := by
  have ht' : ({ st with
    pulls := Function.update st.pulls (st.cluster h) (st.pulls (st.cluster h) - 1) } :
      State).IsTree := ht
  unfold onClusterPullsDecrement
  simp only
  split
  · obtain ⟨htop, hmarked, hpulls⟩ := checkAnyInClusterStartable_unpulled ht' h
    exact ⟨htop, hmarked, hpulls⟩
  · exact ⟨rfl, rfl, rfl⟩

/-- The loop takes from every counter what arrives there along the edges, by induction on the
edges. -/
lemma foldl_onClusterPullsDecrement (es : List Edge) (ht : st.IsTree) {x : State}
    (hx : x = es.foldl
      (fun st e => st.onClusterPullsDecrement onServiceStartable (st.clusterTarget e)) st) :
    x.toTopology = st.toTopology ∧ x.isMarkedForStop = st.isMarkedForStop ∧
      x.pulls = fun v => st.pulls v - .ofNat (st.arrivals es v) := by
  induction es generalizing st with
  | nil =>
    subst hx
    refine ⟨rfl, rfl, funext fun v => ?_⟩
    simp [arrivals]
  | cons e es ih =>
    obtain ⟨htop, hmarked, hpulls⟩ := onClusterPullsDecrement_pulls ht (st.clusterTarget e)
    obtain ⟨htop', hmarked', hpulls'⟩ := ih (htop ▸ ht) hx
    refine ⟨htop'.trans htop, hmarked'.trans hmarked, ?_⟩
    rw [hpulls']
    funext v
    rw [hpulls, arrivals_of_topology htop, arrivals_cons, UInt16.ofNat_add]
    by_cases hv : v = st.cluster (st.clusterTarget e)
    · subst hv
      simp only [Function.update_self, if_true, UInt16.ofNat_one]
      grind
    · simp [hv]

lemma doMarkClusterForStop_pulls (ht : st.IsTree) (h : ServiceId) (set : Bool) :
    (st.doMarkClusterForStop onServiceStartable h set).toTopology = st.toTopology ∧
      (st.doMarkClusterForStop onServiceStartable h set).isMarkedForStop =
        Function.update st.isMarkedForStop (st.cluster h) set ∧
      (st.doMarkClusterForStop onServiceStartable h set).pulls = st.pullsAfterMark h set := by
  have hpulls : st.pullsAfterMark h set = fun v =>
      if set = st.isMarkedForStop (st.cluster h) then st.pulls v
      else if set then st.pulls v + .ofNat (st.arrivals (st.clusterOutEdges h) v)
      else st.pulls v - .ofNat (st.arrivals (st.clusterOutEdges h) v) := rfl
  rw [hpulls]
  unfold State.doMarkClusterForStop
  by_cases heq : set = st.isMarkedForStop (st.cluster h)
  · rw [if_neg (by simp [heq])]
    simp only [heq, if_true, Function.update_eq_self]
    exact ⟨trivial, trivial, trivial⟩
  · rw [if_pos (by simpa using heq)]
    simp only [heq, if_false]
    cases set with
    | true =>
      have hwires := callOnClusterPullsIncrement_wires { st with
        isMarkedForStop := Function.update st.isMarkedForStop (st.cluster h) true } h
      exact ⟨congrArg Wires.toTopology hwires, congrArg Wires.isMarkedForStop hwires,
        congrArg Wires.pulls hwires⟩
    | false =>
      have ht' : ({ st with
        isMarkedForStop := Function.update st.isMarkedForStop (st.cluster h) false } :
          State).IsTree := ht
      exact foldl_onClusterPullsDecrement _ ht' rfl

/-- The edges into a cluster. -/
def inDegree (t : Topology) (h : ServiceId) : Nat := t.edges.countP fun e => t.clusterTarget e = h

/-- What every handler keeps. -/
structure PullsKept (st : State) : Prop where
  wf : st.WellFormed
  counted : st.PullsCounted
  bounded : ∀ h, inDegree st.toTopology h < 2 ^ 16

lemma pulledEdges_le_inDegree (t : Topology) (mark : ServiceId → Bool) (h : ServiceId) :
    pulledEdges t mark h ≤ inDegree t h :=
  List.countP_mono_left fun e _ he => by
    simp only [decide_eq_true_eq] at he ⊢
    exact he.1

lemma inDegree_connect (t : Topology) (u : Usage) (h : ServiceId) :
    inDegree (t.connect u) h = inDegree t h + if h = t.cluster u.user.owner then 1 else 0 := by
  have hall := fun t => pulledEdges_connect t (fun _ => true) u h
  simpa [pulledEdges, inDegree] using hall t

lemma inDegree_disconnect_le (hu : u ∈ t.usages) (h : ServiceId) :
    inDegree (t.disconnect u) h ≤ inDegree t h := by
  have hall := pulledEdges_disconnect hu (fun _ => true) h
  simp only [pulledEdges, and_true] at hall
  exact Nat.le.intro hall.symm

lemma inDegree_insert_le (ht : t.WellFormed) (hs : s ∉ t.services)
    (ho : (t.layout.parent s).owner ∈ t.services) (h : ServiceId) :
    inDegree (t.insert s) h ≤ max (inDegree t h) 1 := by
  by_cases hhs : h = s
  · subst hhs
    refine le_max_of_le_right ?_
    rw [inDegree, (Topology.insert_edges t h).countP_eq, List.countP_append]
    have hold : t.edges.countP (fun e => (t.insert h).clusterTarget e = h) = 0 := by
      rw [List.countP_eq_zero]
      intro e he
      rw [ht.insert_clusterTarget hs he, decide_eq_true_eq]
      exact fun hcl => hs (hcl ▸ (ht.cluster_mem (ht.target_mem he)).1)
    rw [hold, add_zero]
    refine (List.countP_le_length).trans ?_
    unfold Topology.ownEdge
    split <;> simp
  · have hall := pulledEdges_insert ht hs (fun _ => true) hhs
    simp only [pulledEdges, and_true] at hall
    exact le_max_of_le_left hall.le

namespace PullsKept

lemma initial (L : Layout) : (State.initial L).PullsKept := by
  refine ⟨.initial L, pullsCounted_initial L, fun h => ?_⟩
  have hnil : (State.initial L).edges = [] := by
    simp [State.initial, Topology.edges, Topology.childHeads]
  rw [inDegree, hnil, List.countP_nil]
  decide

lemma unpulled (hk : st.PullsKept) (h : Unpulled st st') : st'.PullsKept := by
  obtain ⟨htop, hmarked, hpulls⟩ := h
  refine ⟨htop ▸ hk.wf, ⟨?_, ?_⟩, ?_⟩
  · rw [htop, hmarked, hpulls]
    exact hk.counted.counted
  · rw [htop, hmarked]
    exact hk.counted.bounded
  · rw [htop]
    exact hk.bounded

lemma mark (hk : st.PullsKept) (hs : s ∈ st.services) (hcl : st.cluster s = s) (set : Bool) :
    (st.doMarkClusterForStop onServiceStartable s set).PullsKept := by
  obtain ⟨htop, hmarked, hpulls⟩ := doMarkClusterForStop_pulls hk.wf.toIsTree s set
  have hroom : (WireOp.markForStop s set).KeepsPulls st := by
    rintro rfl hm h -
    rw [← pulledEdges_mark hm]
    exact lt_of_le_of_lt (pulledEdges_le_inDegree _ _ _) (hk.bounded h)
  generalize st.doMarkClusterForStop onServiceStartable s set = st' at htop hmarked hpulls
  rw [hcl] at hmarked
  have hwires : st'.wires = ⟨st.toTopology, st'.phase, st'.isMarkedForStart,
      Function.update st.isMarkedForStop s set, st'.override, st'.pushes,
      st.pullsAfterMark s set⟩ := by
    rw [← htop, ← hmarked, ← hpulls]
    rfl
  exact ⟨htop ▸ hk.wf, hk.counted.marked hk.wf hs hcl hroom hwires, htop ▸ hk.bounded⟩

lemma disconnect (hk : st.PullsKept) (hu : u ∈ st.usages) :
    (st.disconnect onServiceStartable u).PullsKept := by
  have htop := disconnect_topology hk.wf.toIsTree u
  have hpull : ∃ st₁, st₁ = (if st.isClusterMarkedForStop u.used.owner = true then
      st.onClusterPullsDecrement onServiceStartable (st.cluster u.user.owner) else st) ∧
      st₁.toTopology = st.toTopology ∧ st₁.isMarkedForStop = st.isMarkedForStop ∧
      st₁.pulls = if st.isClusterMarkedForStop u.used.owner then
          Function.update st.pulls (st.cluster (st.cluster u.user.owner))
            (st.pulls (st.cluster (st.cluster u.user.owner)) - 1)
        else st.pulls := by
    refine ⟨_, rfl, ?_⟩
    split
    · exact onClusterPullsDecrement_pulls hk.wf.toIsTree _
    · exact ⟨rfl, rfl, rfl⟩
  obtain ⟨st₁, heq, htop₁, hmarked₁, hpulls₁⟩ := hpull
  -- nothing else is marked or pulled
  have hrest : (st.disconnect onServiceStartable u).isMarkedForStop = st₁.isMarkedForStop ∧
      (st.disconnect onServiceStartable u).pulls = st₁.pulls := by
    unfold State.disconnect onUsageDisconnect
    simp only
    rw [← heq]
    have hpush : Unpulled st₁ (if st₁.isClusterPushed u.user.owner = true then
        st₁.callOnClusterPushesDecrement u.used.owner (some u.user.owner) else st₁) :=
      .ite (callOnClusterPushesDecrement_checks _ _ _).unpulled
    generalize (if st₁.isClusterPushed u.user.owner = true then
      st₁.callOnClusterPushesDecrement u.used.owner (some u.user.owner) else st₁) = st₂ at hpush
    have ht₂ := hpush.tree (htop₁ ▸ hk.wf.toIsTree)
    have houter : Unpulled st₁ (if (!(st₂.phase u.used.owner).isRunning && !u.weak) = true then
        st₂.onOuterRequiredDecrement onServiceStartable u.user.owner else st₂) :=
      hpush.trans (.ite (onOuterRequiredDecrement_unpulled ht₂ _))
    generalize (if (!(st₂.phase u.used.owner).isRunning && !u.weak) = true then
      st₂.onOuterRequiredDecrement onServiceStartable u.user.owner else st₂) = st₃ at houter
    have huse : Unpulled st₁ (if ((st₃.phase u.used.owner).isRunning &&
        (st₃.phase u.user.owner).isLocked) = true then st₃.onOutgoingDecrement u.used.owner
        else st₃) :=
      houter.trans (.ite (onOutgoingDecrement_drops st₃ u.used.owner).unpulled)
    exact ⟨huse.marked, huse.pulls⟩
  generalize st.disconnect onServiceStartable u = st' at htop hrest
  have hwires : st'.wires = ⟨st.toTopology.disconnect u, st'.phase, st'.isMarkedForStart,
      st.isMarkedForStop, st'.override, st'.pushes,
      if st.isClusterMarkedForStop u.used.owner then
        Function.update st.pulls (st.cluster (st.cluster u.user.owner))
          (st.pulls (st.cluster (st.cluster u.user.owner)) - 1)
      else st.pulls⟩ := by
    rw [← htop, ← hpulls₁, ← hmarked₁, ← hrest.1, ← hrest.2]
    rfl
  refine ⟨htop ▸ hk.wf.disconnect u, hk.counted.disconnected hk.wf hu hwires, fun h => ?_⟩
  rw [htop]
  exact lt_of_le_of_lt (inDegree_disconnect_le hu h) (hk.bounded h)

lemma stopKept : StopKept PullsKept where
  wf hk := hk.wf
  frame hk hv := hk.unpulled ⟨congrArg EdgeView.toTopology hv,
    congrArg EdgeView.isMarkedForStop hv, congrArg EdgeView.pulls hv⟩
  override hk _ _ := hk.unpulled (setOverride_unpulled _ _ _)
  mark hk hs hcl := hk.mark hs hcl true
  disconnect hk hu := hk.disconnect hu

/-! ### Starting and stopping -/

lemma doUnlockCluster (hk : st.PullsKept) (hh : h ∈ st.services) (hcl : st.cluster h = h) :
    (st.doUnlockCluster onServiceStartable h).PullsKept := by
  have hunlock := (foldl_unlockMember_unlocks (st.clusterMembers h) st).unpulled
  unfold State.doUnlockCluster
  simp only
  generalize (st.clusterMembers h).foldl unlockMember st = st₁ at hunlock
  have htarget : Unpulled st (st₁.transitionTargetCompleteIf h .stop) := by
    obtain ⟨t, p, c, heq⟩ := transitionTargetCompleteIf_frame st₁ h .stop
    rw [heq]
    exact hunlock.trans ⟨rfl, rfl, rfl⟩
  generalize st₁.transitionTargetCompleteIf h .stop = st₂ at htarget
  have hmark := (hk.unpulled htarget).mark (s := h) (by rwa [htarget.topology])
    (by rwa [htarget.topology]) false
  generalize st₂.doMarkClusterForStop onServiceStartable h false = st₃ at hmark
  exact hmark.unpulled (.ite ⟨rfl, rfl, rfl⟩)

lemma postStopActions (hk : st.PullsKept) (hs : me ∈ st.services) :
    (st.postStopActions onServiceStartable me).PullsKept := by
  have hinner := (callOnInnerOutgoingDecrement_drops st me).unpulled
  unfold State.postStopActions
  simp only
  generalize st.callOnInnerOutgoingDecrement me = st₁ at hinner
  have hpend : Unpulled st { st₁ with toCore := st₁.toCore.transition me .stopping .pending } :=
    hinner.trans ⟨rfl, rfl, rfl⟩
  generalize ({ st₁ with toCore := st₁.toCore.transition me .stopping .pending } : State) = st₂
    at hpend
  unfold callOnClusterRunningDecrement
  simp only
  split
  · have hcount : Unpulled st { st₂ with
        running := Function.update st₂.running (st₂.cluster me) (st₂.running (st₂.cluster me) - 1)
        epoch := Function.update st₂.epoch (st₂.cluster me) (st₂.epoch (st₂.cluster me) + 1) } :=
      hpend.trans ⟨rfl, rfl, rfl⟩
    refine (hk.unpulled hcount).doUnlockCluster ?_ ?_
    · exact hpend.topology ▸ (hk.wf.cluster_mem hs).1
    · exact hpend.topology ▸ hk.wf.cluster_cluster hs
  · exact hk.unpulled (hpend.trans ⟨rfl, rfl, rfl⟩)

lemma process (hk : st.PullsKept) (hg : st.life.Good small) (ready : Bool) :
    (st.process ready).PullsKept := by
  rcases process_cases st ready with ⟨-, heq⟩ | ⟨changing, popped, hpop, hcase⟩
  · rwa [heq]
  · have hlife := pop_life hpop
    have hpopped : popped.PullsKept := by
      rcases pop_eq_some hpop with ⟨-, h⟩ | ⟨-, -, h⟩
      · rw [h]
        exact hk.unpulled ⟨rfl, rfl, rfl⟩
      · rw [h]
        exact hk.unpulled ⟨rfl, rfl, rfl⟩
    rcases hcase with heq | ⟨stopping, hstop, hset, heq⟩ | ⟨-, heq⟩
    · rwa [heq]
    · obtain ⟨-, hs, -⟩ := stopping_spec (hlife ▸ hg) hstop hset
      have hstopping : Unpulled popped stopping := by
        rw [(trySetServiceStopping_eq_some hset).2]
        exact ⟨rfl, rfl, rfl⟩
      have hmiss := callOnRequiredIncrement_frame stopping changing
      have hk₂ := hpopped.unpulled (hstopping.trans hmiss.unpulled)
      rw [heq]
      unfold tryStopServiceInplace doStopEager
      simp only
      split
      · exact hk₂.postStopActions (hmiss.unpulled.topology ▸ hs)
      · exact hk₂
    · have hstart := hpopped.unpulled (doStartEager_frame popped changing).unpulled
      rw [heq]
      exact hstart.unpulled (.ite (postStartActions_unpulled hstart.wf.toIsTree changing))

/-! ### Services and usages come and go -/

lemma connect (hk : st.PullsKept) (hu : st.CanConnect u)
    (hroom : inDegree st.toTopology (st.cluster u.user.owner) + 1 < 2 ^ 16) :
    (st.connect u).PullsKept := by
  obtain ⟨st₁, -, -, hwires⟩ := connect_wires st u
  have htop : (st.connect u).toTopology = st.toTopology.connect u :=
    congrArg Wires.toTopology hwires
  have hcounted := hk.counted.connect hk.wf hu fun _ =>
    lt_of_le_of_lt (Nat.succ_le_succ (pulledEdges_le_inDegree _ _ _)) hroom
  obtain ⟨hid, hused, hexports, huser, himports, hdiff⟩ := hu
  refine ⟨htop ▸ hk.wf.connect hid hused hexports huser himports hdiff, hcounted, fun h => ?_⟩
  rw [htop, inDegree_connect]
  split
  · rename_i heq
    rwa [heq]
  · exact hk.bounded h

lemma init (hk : st.PullsKept) (hs : st.CanInit s) (hnew : s ∉ st.services)
    (hmark : (WireOp.init s).KeepsPulls st) : (st.init s).PullsKept := by
  have htop : (st.init s).toTopology = st.toTopology.insert s :=
    congrArg Wires.toTopology (init_wires st s)
  refine ⟨htop ▸ hk.wf.insert hnew hs.2.1 hs.2.2.1, hk.counted.init hk.wf hs hnew hmark,
    fun h => ?_⟩
  rw [htop]
  refine lt_of_le_of_lt (inDegree_insert_le hk.wf hnew hs.2.1 h) (max_lt (hk.bounded h) ?_)
  decide

lemma destroy (hk : st.PullsKept) (hs : st.CanDestroy s) :
    (st.destroy onServiceStartable s).PullsKept := by
  -- the promise of the head is completed first
  have htarget : Unpulled st (if st.layout.isClusterHead s then st.transitionTargetSet s .none
      else st) := .ite (transitionTargetSet_unpulled st s .none)
  have hphase : (if st.layout.isClusterHead s then st.transitionTargetSet s .none
      else st).phase = st.phase := by
    split
    · obtain ⟨t, p, c, heq⟩ := transitionTargetSet_frame st s .none
      rw [heq]
    · rfl
  -- the counters survive when only the edges of the service are erased
  suffices h : (st.destroy onServiceStartable s).toTopology = st.toTopology.erase s ∧
      (∀ v, v ≠ s → (st.destroy onServiceStartable s).isMarkedForStop v = st.isMarkedForStop v) ∧
      (st.destroy onServiceStartable s).pulls = st.pulls by
    obtain ⟨htop, hmarked, hpulls⟩ := h
    have hcounted := hk.counted.erased hk.wf hs htop hmarked hpulls
    obtain ⟨hmem, hr, -, hchild, husages⟩ := hs
    refine ⟨htop ▸ hk.wf.erase hr hchild husages, hcounted, fun h => ?_⟩
    have hle := hk.bounded h
    rw [inDegree, (Topology.erase_edges hmem).countP_eq, List.countP_append] at hle
    rw [htop]
    exact lt_of_le_of_lt (Nat.le_add_left _ _) hle
  unfold State.destroy
  simp only
  generalize (if st.layout.isClusterHead s then st.transitionTargetSet s .none else st) = st₁
    at htarget hphase
  have hk₁ := hk.unpulled htarget
  have hs₁ : st₁.CanDestroy s := canDestroy_congr htarget.topology (congrFun hphase s) hs
  -- `deleting` takes the override and the mark of a head back
  have hdel : (st₁.deleting onServiceStartable s).toTopology = st₁.toTopology ∧
      (∀ v, v ≠ s → (st₁.deleting onServiceStartable s).isMarkedForStop v =
        st₁.isMarkedForStop v) ∧
      (st₁.deleting onServiceStartable s).pulls = st₁.pulls := by
    rw [deleting_eq onServiceStartable hk₁.wf hs₁]
    split
    · rename_i hh
      have hcl := hk₁.wf.cluster_of_isClusterHead hs₁.1 hh
      obtain ⟨htop₂, hmarked₂, hpulls₂⟩ := setOverride_unpulled st₁ s .none
      have hphase₂ : (st₁.setOverride s .none).phase = st₁.phase :=
        congrArg (fun l => l.phase) (setOverride_life st₁ s .none)
      generalize st₁.setOverride s .none = st₂ at htop₂ hmarked₂ hpulls₂ hphase₂
      have hs₂ := canDestroy_congr htop₂ (congrFun hphase₂ s) hs₁
      have hwf₂ : st₂.WellFormed := htop₂ ▸ hk₁.wf
      obtain ⟨htop₃, hmarked₃, hpulls₃⟩ := doMarkClusterForStop_pulls hwf₂.toIsTree s false
      have hcl₂ : st₂.cluster s = s := by rwa [htop₂]
      refine ⟨htop₃.trans htop₂, fun v hv => ?_, ?_⟩
      · rw [hmarked₃, hcl₂, Function.update_of_ne hv, hmarked₂]
      · rw [hpulls₃, pullsAfterMark_unused hwf₂ hs₂ hcl₂, hpulls₂]
    · exact ⟨rfl, fun _ _ => rfl, rfl⟩
  rw [onServiceDel_eq]
  generalize st₁.deleting onServiceStartable s = st₂ at hdel
  obtain ⟨htop₂, hmarked₂, hpulls₂⟩ := hdel
  -- the requirements of the cluster above do not touch the pulls
  have hreq := callOnRequiredDecrement_unpulled (htop₂ ▸ hk₁.wf.toIsTree) s
  generalize st₂.callOnRequiredDecrement onServiceStartable s = st₃ at hreq
  have htop₃ : st₃.toTopology = st.toTopology :=
    hreq.topology.trans (htop₂.trans htarget.topology)
  have hmarked₃ : ∀ v, v ≠ s → st₃.isMarkedForStop v = st.isMarkedForStop v := by
    intro v hv
    rw [hreq.marked, hmarked₂ v hv, htarget.marked]
  have hpulls₃ : st₃.pulls = st.pulls := hreq.pulls.trans (hpulls₂.trans htarget.pulls)
  have herase : ({ st₃ with services := st₃.services.erase s } : State).toTopology =
      st.toTopology.erase s := by
    rw [Topology.erase, ← htop₃]
  split
  · exact ⟨herase, hmarked₃, hpulls₃⟩
  · exact ⟨herase, hmarked₃, hpulls₃⟩

end PullsKept

end State

/-- No child is initialised below a cluster that is marked for stop, and no cluster gets more in
edges than its counter can hold. -/
def Op.KeepsGates (st : State) : Op → Prop
  | .init s => st.layout.isClusterHead s = true →
      st.isClusterMarkedForStop (st.layout.parent s).owner = false
  | .connect u => State.inDegree st.toTopology (st.cluster u.user.owner) + 1 < 2 ^ 16
  | _ => True

instance Op.decidableKeepsGates (st : State) : (op : Op) → Decidable (op.KeepsGates st)
  | .init s => inferInstanceAs (Decidable (st.layout.isClusterHead s = true → _))
  | .connect _ => inferInstanceAs (Decidable (State.inDegree st.toTopology _ + 1 < 2 ^ 16))
  | .destroy _ | .disconnect _ | .setSatisfied _ _ | .requestStart _ _ _ | .requestStop _ _ _
  | .requestObserve _ _ | .immediateStop _ _ | .process _ | .started _ | .stopped _ | .posted _
  | .run | .tryUse _ | .incUse _ | .decUse _ _ => .isTrue trivial

namespace State

variable {st : State}

/-- Every handler keeps the pull counters exact. -/
theorem PullsKept.exec {op : Op} (hk : st.PullsKept) (hl : st.life.Sound False small [])
    (hp : op.Pre st) (hcond : op.KeepsGates st) : (op.exec st).PullsKept := by
  have ht : st.IsTree := hk.wf.toIsTree
  cases op with
  | init s =>
    apply hk.init hp _ hcond
    intro hmem
    have hnext : (st.phase s).next?.isSome := (hl.good.initialized s).1 hmem
    rw [hp.1] at hnext
    exact absurd hnext (by decide)
  | destroy s => exact hk.destroy hp
  | connect use => exact hk.connect hp hcond
  | disconnect use => exact hk.disconnect hp
  | setSatisfied imp satisfied => exact hk.unpulled (setSatisfied_unpulled imp satisfied ht)
  | requestStart s reason promise => exact hk.unpulled (requestStart_unpulled st s reason promise)
  | requestStop replies s promise => exact stopKept.requestStop hk hp.1 promise
  | requestObserve s promise =>
    unfold Op.exec requestObserve
    simp only
    split
    · exact hk.unpulled ⟨rfl, rfl, rfl⟩
    · exact hk.unpulled ⟨rfl, rfl, rfl⟩
  | immediateStop replies s =>
    unfold Op.exec immediateStop
    simp only
    split
    · have hset := setOverride_unpulled st s .none
      refine stopKept.onServiceStopRequest replies (hk.unpulled hset) ?_ ?_
      · exact hset.topology ▸ (hk.wf.cluster_mem hp).1
      · exact hset.topology ▸ hk.wf.cluster_cluster hp
    · exact hk
  | process ready => exact hk.process hl.good ready
  | started s => exact hk.unpulled (postStartActions_unpulled ht s)
  | stopped s => exact hk.postStopActions hp.1
  | posted work => exact hk.unpulled (runPosted_unpulled work ht)
  | run => exact hk.unpulled (run_unpulled ht)
  | tryUse s => exact hk.unpulled (tryUse_unpulled st s)
  | incUse s => exact hk.unpulled ⟨rfl, rfl, rfl⟩
  | decUse s onEventLoop => exact hk.unpulled (decUse_unpulled st s onEventLoop)

lemma PullsKept.of_reachable {L : Layout} (h : (system L).Reachable Op.KeepsGates st) :
    st.PullsKept := by
  refine h.invariant (fun _ h => h ▸ .initial L) fun st op hr hk hp hcond => ?_
  exact hk.exec (Reachable.sound (hr.mono fun _ _ _ => trivial)) hp hcond

/-- A cluster that is not pulled does not depend on one that is marked for stop. -/
lemma PullsKept.unmarked (hk : st.PullsKept) {s : ServiceId} (hs : s ∈ st.services)
    (h0 : st.isClusterPulled s = false) {e : Edge} (he : e ∈ st.edges)
    (htgt : st.clusterTarget e = st.cluster s) :
    st.isMarkedForStop (st.clusterSource e) = false := by
  have hmem := (hk.wf.cluster_mem hs).1
  have hcl := hk.wf.cluster_cluster hs
  have hzero : st.pulls (st.cluster s) = 0 := by simpa [isClusterPulled] using h0
  have hcount := congrArg UInt16.toNat (hk.counted.counted _ hmem hcl)
  rw [hzero, UInt16.toNat_ofNat_of_lt' (hk.counted.bounded _ hmem hcl)] at hcount
  have hnone := List.countP_eq_zero.1 hcount.symm e he
  rw [decide_eq_true_eq, not_and, Bool.not_eq_true] at hnone
  exact hnone htgt

/-- A round only starts the service it takes from the queue, and only if nothing pulls it. -/
lemma not_pulled_of_enters (hl : st.life.Sound False small []) {ready : Bool} {s : ServiceId}
    (hs : s ∈ st.services) (hr : s ≠ st.layout.root) (henter : Enters s st (st.process ready)) :
    st.isClusterPulled s = false := by
  obtain ⟨hp, hp'⟩ := henter
  have hchange : (st.process ready).phase s ≠ st.phase s := by
    intro heq
    rw [heq] at hp'
    rcases hp with hp | hp <;> rw [hp] at hp' <;> exact absurd hp' (by decide)
  rcases process_round st ready hl with ⟨-, heq⟩ | ⟨changing, popped, hpop, hround⟩
  · exact absurd (by rw [heq]) hchange
  · obtain ⟨down, up, rfl, -⟩ := pop_frame hpop
    cases hround with
    | idle h => exact absurd (by rw [h]) hchange
    | stop shall hrun h =>
      have hne : s ≠ changing := by
        rintro rfl
        have hrun : st.phase s = .running := hrun
        rw [hrun] at hp
        exact absurd hp (by decide)
      rcases h.others s hs hne hr with ⟨heq, -⟩ | ⟨-, heq, -⟩
      · exact absurd heq hchange
      · rw [heq] at hp'
        exact absurd hp' (by decide)
    | start shall hidle h =>
      by_cases hne : s = changing
      · subst hne
        simp only [shallClusterStart, Bool.and_eq_true, Bool.not_eq_true'] at shall
        exact shall.2
      · rcases h.others s hs hne hr with heq | ⟨-, -, heq⟩
        · exact absurd heq hchange
        · rw [heq] at hp'
          exact absurd hp' (by decide)

end State

/-- `pulls_` of a cluster is the number of edges to it from clusters that are marked for stop, in
every state of a run, and a service that is started depends on no such cluster. -/
theorem pulls_gate {L : Layout} {st : State} (h : (system L).Reachable Op.KeepsGates st) :
    (∀ s ∈ st.services, (st.pulls (st.cluster s)).toNat =
      st.edges.countP fun e => st.clusterTarget e = st.cluster s ∧
        st.isMarkedForStop (st.clusterSource e) = true) ∧
    ∀ ready, ∀ s ∈ st.services, s ≠ st.layout.root → Enters s st (st.process ready) →
      ∀ e ∈ st.edges, st.clusterTarget e = st.cluster s →
        st.isMarkedForStop (st.clusterSource e) = false := by
  have hk := State.PullsKept.of_reachable h
  have hl := Reachable.sound (h.mono fun _ _ _ => trivial)
  refine ⟨fun s hs => ?_, fun ready s hs hr henter e he htgt => ?_⟩
  · have hmem := (hk.wf.cluster_mem hs).1
    have hcl := hk.wf.cluster_cluster hs
    rw [hk.counted.counted _ hmem hcl, UInt16.toNat_ofNat_of_lt' (hk.counted.bounded _ hmem hcl)]
    rfl
  · exact hk.unmarked hs (State.not_pulled_of_enters hl hs hr henter) he htgt

/-- Service 1, which service 2 uses, is stopped, and service 2 is started again in the meantime. -/
def gatedRun : List Op :=
  [.init 1, .init 2, .connect usage12, .requestStart 2 .manual ⟨0, .start⟩, .process true,
    .process true, .process true, .requestStop (fun _ => .never) 1 ⟨1, .stop⟩, .process false,
    .requestStart 2 .manual ⟨2, .start⟩, .stopped 2, .process true]

/-- Service 2 is pulled until service 1 is stopped, and started after that. -/
theorem pulls_gate_gatedRun :
    (State.after .flat (gatedRun.take 11)).pulls 2 = 1 ∧
      (State.after .flat (gatedRun.take 11)).isMarkedForStop 1 = true ∧
      ((State.after .flat gatedRun).process true).phase 2 = .running ∧
      (State.after .flat gatedRun).isMarkedForStop 1 = false := by
  have hsource : (State.after .flat gatedRun).clusterSource (.usage usage12) = 1 := by
    decide +kernel
  have hrun : (system .flat).Reachable Op.KeepsGates (State.after .flat gatedRun) :=
    Machine.Reachable.run (.init rfl) (by decide +kernel)
  have hmark := (pulls_gate hrun).2 true 2 (by decide +kernel) (by decide +kernel)
    ⟨by decide +kernel, by decide +kernel⟩ (.usage usage12) (by decide +kernel) (by decide +kernel)
  rw [hsource] at hmark
  exact ⟨by decide +kernel, by decide +kernel, by decide +kernel, hmark⟩

end Idle
