import Idle.Core.Steady

/-!
# Overrides and pushes while services are reported

Overrides and push counters are changed by requests, by usages that come and go, and by services
that leave. All other handlers may at most start the root when they report a service as startable,
and this overrides the root. Nothing but the root is pushed by that, because no edge ends there.
-/

namespace Idle

namespace State

variable {st st' st'' : State} {s h me : ServiceId}

/-- Neither the graph nor what is counted along it changes, or the root is overridden. -/
structure Wakes (st st' : State) : Prop where
  topology : st'.toTopology = st.toTopology
  pushed : st'.override = st.override ∧ st'.pushes = st.pushes ∨
    st.override st.layout.root ≠ .start ∧
      st'.override = Function.update st.override st.layout.root .start ∧
      st'.pushes = Function.update st.pushes st.layout.root (st.pushes st.layout.root + 1)

namespace Wakes

lemma of_eq (ht : st'.toTopology = st.toTopology) (ho : st'.override = st.override)
    (hp : st'.pushes = st.pushes) : Wakes st st' := ⟨ht, .inl ⟨ho, hp⟩⟩

lemma refl (st : State) : Wakes st st := of_eq rfl rfl rfl

lemma tree (h : Wakes st st') (ht : st.IsTree) : st'.IsTree := h.topology ▸ ht

lemma trans (h₁ : Wakes st st') (h₂ : Wakes st' st'') : Wakes st st'' := by
  refine ⟨h₂.topology.trans h₁.topology, ?_⟩
  have hroot : st'.layout.root = st.layout.root := congrArg (·.layout.root) h₁.topology
  have h₂ := h₂.pushed
  rw [hroot] at h₂
  rcases h₁.pushed with ⟨ho, hp⟩ | ⟨hne, ho, hp⟩
  · rwa [ho, hp] at h₂
  · -- the root is overridden once
    rcases h₂ with ⟨ho', hp'⟩ | ⟨hne', -, -⟩
    · exact .inr ⟨hne, ho'.trans ho, hp'.trans hp⟩
    · rw [ho, Function.update_self] at hne'
      exact absurd rfl hne'

/-- Only the root may be overridden and pushed. -/
lemma other (h : Wakes st st') (hr : s ≠ st.layout.root) :
    st'.override s = st.override s ∧ st'.pushes s = st.pushes s := by
  rcases h.pushed with ⟨ho, hp⟩ | ⟨-, ho, hp⟩
  · rw [ho, hp]
    exact ⟨rfl, rfl⟩
  · rw [ho, hp]
    exact ⟨Function.update_of_ne hr _ _, Function.update_of_ne hr _ _⟩

lemma foldl {α : Type} {f : State → α → State} (hf : ∀ x a, x.IsTree → Wakes x (f x a))
    (l : List α) (ht : st.IsTree) : Wakes st (l.foldl f st) :=
  List.foldlRecOn (motive := fun x : State => Wakes st x) l f (.refl st)
    fun x hx a _ => hx.trans (hf x a (hx.tree ht))

lemma ite {c : Prop} [Decidable c] (h : Wakes st st') : Wakes st (if c then st' else st) := by
  split
  · exact h
  · exact .refl st

end Wakes

lemma StartFrame.wakes (h : StartFrame st st') : Wakes st st' := by
  obtain ⟨p, u, g, c, r, rfl⟩ := h
  exact .of_eq rfl rfl rfl

lemma MissFrame.wakes (h : MissFrame st st') : Wakes st st' := by
  obtain ⟨i, o, rfl⟩ := h
  exact .of_eq rfl rfl rfl

lemma PullFrame.wakes (h : PullFrame st st') : Wakes st st' := by
  obtain ⟨p, rfl⟩ := h
  exact .of_eq rfl rfl rfl

lemma Drops.wakes (h : Drops st st') : Wakes st st' := by
  have hp := h.pushes
  obtain ⟨u, r, p, d, rfl⟩ := h.frame
  exact .of_eq rfl rfl hp

lemma Unlocks.wakes {ms : List ServiceId} (h : Unlocks ms st st') : Wakes st st' := by
  obtain ⟨p, u, r, c, d, rfl⟩ := h.frame
  exact .of_eq rfl rfl rfl

lemma transitionTargetSet_wakes (st : State) (me : ServiceId) (target : Target) :
    Wakes st (st.transitionTargetSet me target) := by
  obtain ⟨t, p, c, heq⟩ := transitionTargetSet_frame st me target
  rw [heq]
  exact .of_eq rfl rfl rfl

lemma transitionTargetCompleteIf_wakes (st : State) (me : ServiceId) (target : Target) :
    Wakes st (st.transitionTargetCompleteIf me target) := by
  obtain ⟨t, p, c, heq⟩ := transitionTargetCompleteIf_frame st me target
  rw [heq]
  exact .of_eq rfl rfl rfl

lemma startSettled_wakes (st : State) (me : ServiceId) : Wakes st (st.startSettled me) := by
  unfold startSettled
  split
  · obtain ⟨t, p, c, heq⟩ := doFinalizeCluster_frame st me
    rw [heq]
    exact .ite (.of_eq rfl rfl rfl)
  · exact .of_eq rfl rfl rfl

/-! ### The root is overridden -/

/-- The root has no in edges, so the search ends there. -/
lemma callOnClusterPushesIncrement_root (ht : st.IsTree) :
    st.callOnClusterPushesIncrement st.layout.root none = { st with
      pushes := Function.update st.pushes st.layout.root (st.pushes st.layout.root + 1) } := by
  have hnil : st.clusterInEdges st.layout.root = [] := by
    refine List.flatMap_eq_nil_iff.2 fun m hm => ?_
    obtain ⟨hm, hcl⟩ := (ht.mem_clusterMembers ht.root_mem ht.cluster_root).1 hm
    rw [(ht.cluster_eq_root hm).1 hcl]
    exact st.inEdges_root _
  have hvisit : ((pushSearch pushesIncrementVisit).visit st st.layout.root).2 = { st with
      pushes := Function.update st.pushes st.layout.root (st.pushes st.layout.root + 1) } := by
    simp only [pushSearch, pushesIncrementVisit, ht.cluster_root]
  unfold callOnClusterPushesIncrement
  simp only [ht.cluster_root]
  split
  · refine (Search.dfs_leaf ?_ _).trans hvisit
    rw [hvisit]
    exact hnil
  · rfl

lemma setOverride_root_wakes (ht : st.IsTree) :
    Wakes st (st.setOverride st.layout.root .start) := by
  unfold setOverride
  simp only [ht.cluster_root]
  split
  · rename_i hne
    have ht' : ({ st with override := Function.update st.override st.layout.root .start } :
      State).IsTree := ht
    rw [if_pos trivial, callOnClusterPushesIncrement_root ht']
    exact ⟨rfl, .inr ⟨hne, rfl, rfl⟩⟩
  · exact .refl st

/-! ### Services are reported -/

section Startable

variable {k : State → ServiceId → State} (hk : ∀ st s, st.IsTree → Wakes st (k st s))
include hk

lemma checkAnyInClusterStartable_wakes (ht : st.IsTree) :
    Wakes st (st.checkAnyInClusterStartable k h) :=
  .ite (.foldl (fun x _ hx => .ite (hk x _ hx)) _ ht)

lemma checkInnerStartable_wakes (ht : st.IsTree) : Wakes st (st.checkInnerStartable k me) :=
  .ite (hk st me ht)

lemma onOuterRequiredDecrement_wakes (ht : st.IsTree) (me : ServiceId) :
    Wakes st (st.onOuterRequiredDecrement k me) := by
  have h₁ : Wakes st { st with toCore := st.toCore.decOuter me } := .of_eq rfl rfl rfl
  exact h₁.trans (.ite (checkAnyInClusterStartable_wakes hk (h₁.tree ht)))

lemma onInnerRequiredDecrement_wakes (ht : st.IsTree) (me : ServiceId) :
    Wakes st (st.onInnerRequiredDecrement k me) := by
  have h₁ : Wakes st { st with toCore := st.toCore.decInner me } := .of_eq rfl rfl rfl
  exact h₁.trans (.ite (checkInnerStartable_wakes hk (h₁.tree ht)))

lemma callOnRequiredDecrement_wakes (ht : st.IsTree) (me : ServiceId) :
    Wakes st (st.callOnRequiredDecrement k me) := by
  have houter : ∀ {α : Type} (f : State → α → ServiceId) (l : List α) {x : State}, x.IsTree →
      Wakes x (l.foldl (fun x a => x.onOuterRequiredDecrement k (f x a)) x) :=
    fun f l _ hx => .foldl (fun _ _ hx => onOuterRequiredDecrement_wakes hk hx _) l hx
  unfold callOnRequiredDecrement
  split
  · have hinner := Wakes.foldl (f := fun x (e : Edge) =>
      x.onInnerRequiredDecrement k (e.target x.layout))
      (fun _ _ hx => onInnerRequiredDecrement_wakes hk hx _) (st.outEdges .clusterGraph me) ht
    exact hinner.trans (houter (fun x (e : Edge) => e.target x.layout) _ (hinner.tree ht))
  · exact houter (fun _ s => s) _ ht

lemma onClusterPullsDecrement_wakes (ht : st.IsTree) (h : ServiceId) :
    Wakes st (st.onClusterPullsDecrement k h) := by
  have h₁ : Wakes st { st with
    pulls := Function.update st.pulls (st.cluster h) (st.pulls (st.cluster h) - 1) } :=
    .of_eq rfl rfl rfl
  exact h₁.trans (.ite (checkAnyInClusterStartable_wakes hk (h₁.tree ht)))

lemma doMarkClusterForStop_wakes (ht : st.IsTree) (h : ServiceId) (set : Bool) :
    Wakes st (st.doMarkClusterForStop k h set) := by
  have h₁ : Wakes st { st with
    isMarkedForStop := Function.update st.isMarkedForStop (st.cluster h) set } :=
    .of_eq rfl rfl rfl
  refine .ite (h₁.trans ?_)
  split
  · exact (callOnClusterPullsIncrement_frame _ h).wakes
  · exact .foldl (fun _ _ hx => onClusterPullsDecrement_wakes hk hx _) _ (h₁.tree ht)

lemma postStartActions_wakes (ht : st.IsTree) : Wakes st (st.postStartActions k me) := by
  have hstart := (startedCore_frame st me).wakes
  rw [postStartActions_eq]
  generalize st.startedCore me = st₁ at hstart
  have hreq := hstart.trans (callOnRequiredDecrement_wakes hk (hstart.tree ht) me)
  exact hreq.trans (startSettled_wakes _ me)

lemma startRoot_wakes (ht : st.IsTree) : Wakes st (st.startRoot k) := by
  have hset := setOverride_root_wakes ht
  unfold startRoot
  simp only
  generalize st.setOverride st.layout.root .start = st₁ at hset
  have hstart := hset.trans (doStartEager_frame st₁ st₁.layout.root).wakes
  generalize st₁.doStartEager st₁.layout.root = st₂ at hstart
  exact hstart.trans (postStartActions_wakes hk (hstart.tree ht))

end Startable

lemma onServiceStartable_wakes (st : State) (s : ServiceId) (ht : st.IsTree) :
    Wakes st (st.onServiceStartable s) := by
  have hroot : Wakes st (if s ≠ st.layout.root ∧ (st.phase st.layout.root).isRunning = false then
      st.startRoot pushUp else st) :=
    .ite (startRoot_wakes (fun _ _ _ => .of_eq rfl rfl rfl) ht)
  exact hroot.trans (.of_eq rfl rfl rfl)

/-! ### Services are started and stopped -/

lemma doUnlockCluster_wakes (ht : st.IsTree) :
    Wakes st (st.doUnlockCluster onServiceStartable h) := by
  have h₁ := (foldl_unlockMember_unlocks (st.clusterMembers h) st).wakes
  unfold doUnlockCluster
  simp only
  generalize (st.clusterMembers h).foldl unlockMember st = st₁ at h₁
  have h₂ := h₁.trans (transitionTargetCompleteIf_wakes st₁ h .stop)
  generalize st₁.transitionTargetCompleteIf h .stop = st₂ at h₂
  have h₃ := h₂.trans
    (doMarkClusterForStop_wakes onServiceStartable_wakes (h₂.tree ht) h false)
  generalize st₂.doMarkClusterForStop onServiceStartable h false = st₃ at h₃
  exact h₃.trans (.ite (.of_eq rfl rfl rfl))

lemma postStopActions_wakes (ht : st.IsTree) :
    Wakes st (st.postStopActions onServiceStartable me) := by
  have hinner := (callOnInnerOutgoingDecrement_drops st me).wakes
  unfold postStopActions
  simp only
  generalize st.callOnInnerOutgoingDecrement me = st₁ at hinner
  have hpend : Wakes st { st₁ with toCore := st₁.toCore.transition me .stopping .pending } :=
    hinner.trans (.of_eq rfl rfl rfl)
  generalize ({ st₁ with toCore := st₁.toCore.transition me .stopping .pending } : State) = st₂
    at hpend
  unfold callOnClusterRunningDecrement
  simp only
  split
  · have hcount : Wakes st { st₂ with
        running := Function.update st₂.running (st₂.cluster me) (st₂.running (st₂.cluster me) - 1)
        epoch := Function.update st₂.epoch (st₂.cluster me) (st₂.epoch (st₂.cluster me) + 1) } :=
      hpend.trans (.of_eq rfl rfl rfl)
    exact hcount.trans (doUnlockCluster_wakes (hcount.tree ht))
  · exact hpend.trans (.of_eq rfl rfl rfl)

lemma process_wakes (ready : Bool) (ht : st.IsTree) : Wakes st (st.process ready) := by
  rcases process_cases st ready with ⟨-, heq⟩ | ⟨changing, popped, hpop, hcase⟩
  · rw [heq]
    exact .refl st
  · have hpopped : Wakes st popped := by
      rcases pop_eq_some hpop with ⟨-, h⟩ | ⟨-, -, h⟩
      · rw [h]
        exact .of_eq rfl rfl rfl
      · rw [h]
        exact .of_eq rfl rfl rfl
    refine hpopped.trans ?_
    have ht := hpopped.tree ht
    rcases hcase with heq | ⟨stopping, -, hset, heq⟩ | ⟨-, heq⟩
    · rw [heq]
      exact .refl popped
    · have h₁ : Wakes popped stopping := by
        rw [(trySetServiceStopping_eq_some hset).2]
        exact .of_eq rfl rfl rfl
      have h₂ := h₁.trans (callOnRequiredIncrement_frame stopping changing).wakes
      rw [heq]
      exact h₂.trans (.ite (postStopActions_wakes (h₂.tree ht)))
    · have h₁ := (doStartEager_frame popped changing).wakes
      rw [heq]
      exact h₁.trans (.ite (postStartActions_wakes onServiceStartable_wakes (h₁.tree ht)))

lemma run_wakes (ht : st.IsTree) : Wakes st st.run := by
  unfold run
  split
  · exact .refl st
  · exact startRoot_wakes onServiceStartable_wakes ht

/-! ### Other handlers -/

lemma setSatisfied_wakes (imp : Part) (satisfied : Bool) (ht : st.IsTree) :
    Wakes st (st.setSatisfied onServiceStartable imp satisfied) := by
  have h₁ : Wakes st { st with satisfied := Function.update st.satisfied imp satisfied } :=
    .of_eq rfl rfl rfl
  refine .ite (h₁.trans ?_)
  split
  · exact onOuterRequiredDecrement_wakes onServiceStartable_wakes (h₁.tree ht) _
  · exact .of_eq rfl rfl rfl

lemma insertIntoQueueIfStartable_wakes (st : State) (h : ServiceId) :
    Wakes st (st.insertIntoQueueIfStartable h) := by
  unfold insertIntoQueueIfStartable
  split
  · refine List.foldlRecOn (motive := fun x : State => Wakes st x) _ _ (.refl st)
      fun x hx m _ => hx.trans (.ite (.of_eq rfl rfl rfl))
  · exact .refl st

lemma onServiceStartRequest_wakes (st : State) (s : ServiceId) :
    Wakes st (st.onServiceStartRequest s) := by
  refine Search.dfs_keeps (P := fun x : State => Wakes st x) (fun x v h => ?_) (fun x e h => ?_)
    (.refl st)
  · have hmark : Wakes st (x.doMarkClusterForStart v true) := h.trans (.of_eq rfl rfl rfl)
    exact hmark.trans (insertIntoQueueIfStartable_wakes _ v)
  · simp only [startSearch]
    split
    · exact h
    · exact h.trans (insertIntoQueueIfStartable_wakes x _)

lemma decUse_wakes (st : State) (s : ServiceId) (onEventLoop : Bool) :
    Wakes st (st.decUse s onEventLoop) := by
  have h₁ : Wakes st { st with
      toCore := { st.toCore.decUses s with
        handles := Function.update st.handles s (st.handles s - 1) } } := .of_eq rfl rfl rfl
  unfold decUse
  simp only
  split
  · split
    · exact h₁.trans (onOutgoingReachedNoExternalUse_drops _ s _).1.wakes
    · exact .of_eq rfl rfl rfl
  · exact h₁

lemma tryUse_wakes (st : State) (s : ServiceId) : Wakes st (st.tryUse s).1 := by
  unfold tryUse
  split
  · exact .refl st
  · exact .of_eq rfl rfl rfl

lemma runPosted_wakes (work : Posted) (ht : st.IsTree) : Wakes st (st.runPosted work) := by
  have h₁ : Wakes st { st with posted := st.posted.erase work } := .of_eq rfl rfl rfl
  refine h₁.trans ?_
  cases work with
  | restart h => exact .ite (checkAnyInClusterStartable_wakes onServiceStartable_wakes ht)
  | reachedNoExternalUse s n => exact .ite (onOutgoingReachedNoExternalUse_drops _ s n).1.wakes

end State

end Idle
