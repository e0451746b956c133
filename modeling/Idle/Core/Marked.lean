import Idle.Core.Draining

/-!
# Stop marks

A cluster that is marked for stop stays marked until all of its members are stopped: the requests
only add marks, and the only other places where a mark is taken away are the destruction of the
cluster and `do_unlock_cluster`.
-/

namespace Idle

namespace State

variable {st₀ st st' : State} {s h me : ServiceId} {small : Prop}

/-- What requests and reports do: marks are added, and no phase changes but that of the root. -/
structure Asks (st₀ st : State) : Prop where
  wf : st.WellFormed
  tree : st.toServiceTree = st₀.toServiceTree
  marked : ∀ h, st₀.isMarkedForStop h = true → st.isMarkedForStop h = true
  phase : ∀ s, s ≠ st₀.layout.root → st.phase s = st₀.phase s

namespace Asks

/-! ### Changes that take no mark away -/

lemma refl (hw : st.WellFormed) : Asks st st :=
  ⟨hw, rfl, fun _ h => h, fun _ _ => rfl⟩

lemma congr (hm : Asks st₀ st) (ht : st'.toTopology = st.toTopology)
    (h : st'.isMarkedForStop = st.isMarkedForStop) (hp : st'.phase = st.phase) : Asks st₀ st' :=
  ⟨ht ▸ hm.wf, ht ▸ hm.tree, fun s hs => h ▸ hm.marked s hs, fun s hs => hp ▸ hm.phase s hs⟩

lemma checks (hm : Asks st₀ st) (h : Checks st st') : Asks st₀ st' := by
  obtain ⟨u, r, p, d, rfl⟩ := h.frame
  exact hm.congr rfl rfl rfl

lemma stirs (hm : Asks st₀ st) (h : Stirs st st') : Asks st₀ st' := by
  have ht := topology_of_away h.away
  refine ⟨ht ▸ hm.wf, ht ▸ hm.tree, fun s hs => ?_, fun s hs => ?_⟩
  · rw [isMarkedForStop_of_away h.away]
    exact hm.marked s hs
  · have hroot : st.layout.root = st₀.layout.root := congrArg (fun t => t.layout.root) hm.tree
    rw [h.phase_eq (hroot ▸ hs)]
    exact hm.phase s hs

lemma setOverride (hm : Asks st₀ st) (me : ServiceId) (mode : Override) :
    Asks st₀ (st.setOverride me mode) := by
  obtain ⟨o, hchecks⟩ := setOverride_checks st me mode
  have ho : Asks st₀ { st with override := o } := hm.congr rfl rfl rfl
  exact ho.checks hchecks

lemma transitionTargetSet (hm : Asks st₀ st) (me : ServiceId) (target : Target) :
    Asks st₀ (st.transitionTargetSet me target) := by
  obtain ⟨t, p, c, heq⟩ := transitionTargetSet_frame st me target
  rw [heq]
  exact hm.congr rfl rfl rfl

lemma doMarkClusterForStop_true (hm : Asks st₀ st) (h : ServiceId) :
    Asks st₀ (st.doMarkClusterForStop onServiceStartable h true) := by
  have hmark : Asks st₀ { st with
      isMarkedForStop := Function.update st.isMarkedForStop (st.cluster h) true } := by
    refine ⟨hm.wf, hm.tree, fun s hs => ?_, hm.phase⟩
    by_cases hsc : s = st.cluster h
    · rw [hsc]
      exact Function.update_self ..
    · exact (Function.update_of_ne hsc _ _).trans (hm.marked s hs)
  unfold State.doMarkClusterForStop
  split
  · simp only [if_true]
    obtain ⟨p, heq⟩ := callOnClusterPullsIncrement_frame { st with
      isMarkedForStop := Function.update st.isMarkedForStop (st.cluster h) true } h
    rw [heq]
    exact hmark.congr rfl rfl rfl
  · exact hm

/-! ### Usages and imports -/

lemma disconnect (hm : Asks st₀ st) (use : Usage) :
    Asks st₀ (st.disconnect onServiceStartable use) := by
  have h₁ : Asks st₀ (st.onUsageDisconnect onServiceStartable use) := by
    refine ite_kept (Q := Asks st₀)
      (fun h => h.checks (onOutgoingDecrement_drops _ _).toChecks) ?_
    refine ite_kept (Q := Asks st₀) (fun h => h.stirs
      (onOuterRequiredDecrement_reports startable_reports h.wf.toIsTree).toStirs) ?_
    refine ite_kept (Q := Asks st₀)
      (fun h => h.checks (callOnClusterPushesDecrement_checks _ _ _)) ?_
    exact ite_kept (Q := Asks st₀) (fun h => h.stirs
      (onClusterPullsDecrement_stirs startable_reports h.wf.toIsTree)) hm
  unfold State.disconnect
  generalize st.onUsageDisconnect onServiceStartable use = st₁ at h₁
  exact ⟨h₁.wf.disconnect use, h₁.tree, h₁.marked, h₁.phase⟩

lemma connect (hm : Asks st₀ st) {use : Usage} (hu : st.CanConnect use) :
    Asks st₀ (st.connect use) := by
  obtain ⟨hid, hused, hexports, huser, himports, hdiff⟩ := hu
  have h₁ : Asks st₀ ({ st with
      usages := st.usages ++ [use]
      held := Function.update st.held use.id false
      releaseRequested := Function.update st.releaseRequested use.id false } : State) :=
    ⟨hm.wf.connect hid hused hexports huser himports hdiff, hm.tree, hm.marked, hm.phase⟩
  unfold State.connect
  simp only
  generalize ({ st with
    usages := st.usages ++ [use]
    held := Function.update st.held use.id false
    releaseRequested := Function.update st.releaseRequested use.id false } : State) = st₁ at h₁
  refine ite_kept (Q := Asks st₀) (fun h => h.congr rfl rfl rfl) ?_
  refine ite_kept (Q := Asks st₀)
    (fun h => h.checks (callOnClusterPushesIncrement_checks _ _ _)) ?_
  refine ite_kept (Q := Asks st₀) (fun h => h.congr rfl rfl rfl) ?_
  exact ite_kept (Q := Asks st₀) (fun h => h.congr rfl rfl rfl) h₁

lemma setSatisfied (hm : Asks st₀ st) (imp : Part) (satisfied : Bool) :
    Asks st₀ (st.setSatisfied onServiceStartable imp satisfied) := by
  refine ite_kept (Q := Asks st₀) (fun _ => ?_) hm
  have h₁ : Asks st₀ ({ st with satisfied := Function.update st.satisfied imp satisfied } :
      State) := hm.congr rfl rfl rfl
  generalize ({ st with satisfied := Function.update st.satisfied imp satisfied } : State) = st₁
    at h₁
  simp only
  split
  · exact h₁.stirs
      (onOuterRequiredDecrement_reports startable_reports h₁.wf.toIsTree).toStirs
  · exact h₁.congr rfl rfl rfl

/-! ### Requests -/

lemma onServiceStartRequest (hm : Asks st₀ st) (s : ServiceId) :
    Asks st₀ (st.onServiceStartRequest s) := by
  refine Search.dfs_keeps (P := Asks st₀) (fun x v h => ?_) (fun x e h => ?_) hm
  · have h₁ : Asks st₀ (x.doMarkClusterForStart v true) := h.congr rfl rfl rfl
    exact h₁.stirs (insertIntoQueueIfStartable_stirs _ v)
  · simp only [startSearch]
    split
    · exact h
    · exact h.stirs (insertIntoQueueIfStartable_stirs x _)

lemma requestStart (hm : Asks st₀ st) (s : ServiceId) (reason : Reason) (p : Promise) :
    Asks st₀ (st.requestStart s reason p) := by
  have h₁ : Asks st₀ ({ st with reached := st.reached ++ [p] } : State) := hm.congr rfl rfl rfl
  unfold State.requestStart
  simp only
  generalize ({ st with reached := st.reached ++ [p] } : State) = st₁ at h₁
  have h₂ : Asks st₀ (if reason = .manual then st₁.setOverride s .start else st₁) :=
    ite_kept (Q := Asks st₀) (fun h => h.setOverride s .start) h₁
  generalize (if reason = .manual then st₁.setOverride s .start else st₁) = st₂ at h₂
  split
  · exact h₁.congr rfl rfl rfl
  · split
    · exact h₂.congr rfl rfl rfl
    · have h₃ := (h₂.onServiceStartRequest s).transitionTargetSet s .start
      generalize (st₂.onServiceStartRequest s).transitionTargetSet s .start = st₃ at h₃
      exact h₃.congr rfl rfl rfl

section Replies

variable {replies : UsageId → ReleaseReply}

lemma requestRelease (hm : Asks st₀ st) (use : Usage) :
    Asks st₀ (st.requestRelease replies use).2 := by
  unfold State.requestRelease
  split
  · exact hm
  · split
    · exact hm
    · exact hm.disconnect use
    · exact hm.congr rfl rfl rfl

lemma stopFilter (hm : Asks st₀ st) (e : Edge) : Asks st₀ (st.stopFilter replies e).2 := by
  unfold State.stopFilter
  cases e with
  | inner s => exact hm
  | child s => exact hm
  | usage use =>
    have hrel : Asks st₀ (st.requestRelease replies use).2 := hm.requestRelease use
    simp only
    split
    · split
      all_goals
        rename_i heq
        rw [heq] at hrel
        exact hrel
    · exact hm

lemma stopRootCluster (hm : Asks st₀ st) (h : ServiceId) :
    Asks st₀ (st.stopRootCluster replies h) := by
  have h₁ : Asks st₀
      (if (st.phase h).isLocked then st.releaseWeakUsages replies h else st) := by
    refine ite_kept (Q := Asks st₀) (fun hm => ?_) hm
    refine List.foldlRecOn (motive := fun x : State => Asks st₀ x) _ _ hm fun x hx use _ => ?_
    exact ite_kept (Q := Asks st₀) (fun hx => hx.requestRelease use) hx
  unfold State.stopRootCluster
  simp only
  generalize (if (st.phase h).isLocked then st.releaseWeakUsages replies h else st) = st₁ at h₁
  have h₂ := (h₁.setOverride h .none).transitionTargetSet h .none
  generalize (st₁.setOverride h .none).transitionTargetSet h .none = st₂ at h₂
  have h₃ : Asks st₀ (st₂.doMarkClusterForStart h false) := h₂.congr rfl rfl rfl
  generalize st₂.doMarkClusterForStart h false = st₃ at h₃
  split
  · have h₄ := h₃.doMarkClusterForStop_true h
    generalize st₃.doMarkClusterForStop onServiceStartable h true = st₄ at h₄
    split
    · exact h₄.congr rfl rfl rfl
    · exact h₄
  · exact h₃

lemma onServiceStopRequest (hm : Asks st₀ st) (s : ServiceId) :
    Asks st₀ (st.onServiceStopRequest replies s) := by
  unfold State.onServiceStopRequest
  split
  · unfold stopRoot
    split
    · exact hm
    · split
      · exact hm
      · have h₁ : Asks st₀ ({ st with down := [], up := [] } : State) := hm.congr rfl rfl rfl
        exact List.foldlRecOn (motive := fun x : State => Asks st₀ x) _ _ h₁
          fun x hx h _ => hx.stopRootCluster h
  · refine Search.dfs_keeps (P := Asks st₀) (fun x v h => ?_) (fun x e h => h.stopFilter e) hm
    have h₁ := h.doMarkClusterForStop_true v
    simp only [stopSearch, insertIntoQueueIfStoppable]
    generalize x.doMarkClusterForStop onServiceStartable v true = x₁ at h₁
    split
    · exact h₁.congr rfl rfl rfl
    · exact h₁

lemma requestStop (hm : Asks st₀ st) (s : ServiceId) (p : Promise) :
    Asks st₀ (st.requestStop replies s p) := by
  have h₁ : Asks st₀ ({ st with reached := st.reached ++ [p] } : State) := hm.congr rfl rfl rfl
  unfold State.requestStop
  simp only
  generalize ({ st with reached := st.reached ++ [p] } : State) = st₁ at h₁
  have h₂ := h₁.setOverride s .none
  generalize st₁.setOverride s .none = st₂ at h₂
  split
  · exact h₁.congr rfl rfl rfl
  · split
    · exact h₂.congr rfl rfl rfl
    · have h₃ : Asks st₀ (st₂.onServiceStopRequest replies s) := h₂.onServiceStopRequest s
      have h₄ := h₃.transitionTargetSet s .stop
      generalize (st₂.onServiceStopRequest replies s).transitionTargetSet s .stop = st₄ at h₄
      exact h₄.congr rfl rfl rfl

lemma immediateStop (hm : Asks st₀ st) (s : ServiceId) :
    Asks st₀ (st.immediateStop replies s) :=
  ite_kept (Q := Asks st₀) (fun h => (h.setOverride s .none).onServiceStopRequest _) hm

end Replies

lemma requestObserve (hm : Asks st₀ st) (s : ServiceId) (p : Promise) :
    Asks st₀ (st.requestObserve s p) := by
  unfold State.requestObserve
  simp only
  split
  · exact hm.congr rfl rfl rfl
  · exact hm.congr rfl rfl rfl

/-! ### Handlers -/

lemma tryUse (hm : Asks st₀ st) (s : ServiceId) : Asks st₀ (st.tryUse s).1 := by
  unfold State.tryUse
  split
  · exact hm
  · exact hm.congr rfl rfl rfl

lemma decUse (hm : Asks st₀ st) (s : ServiceId) (onEventLoop : Bool) :
    Asks st₀ (st.decUse s onEventLoop) := by
  have h₁ : Asks st₀ ({ st with
      toCore := { st.toCore.decUses s with
        handles := Function.update st.handles s (st.handles s - 1) } } : State) :=
    hm.congr rfl rfl rfl
  unfold State.decUse
  simp only
  split
  · split
    · exact h₁.checks (onOutgoingReachedNoExternalUse_drops _ s _).1.toChecks
    · exact hm.congr rfl rfl rfl
  · exact h₁

lemma runPosted (hm : Asks st₀ st) (work : Posted) : Asks st₀ (st.runPosted work) := by
  have h₁ : Asks st₀ ({ st with posted := st.posted.erase work } : State) := hm.congr rfl rfl rfl
  unfold State.runPosted
  simp only
  cases work with
  | restart h =>
    refine ite_kept (Q := Asks st₀) (fun h => h.stirs ?_) h₁
    exact (checkAnyInClusterStartable_reports startable_reports h.wf.toIsTree).1.toStirs
  | reachedNoExternalUse s n =>
    exact ite_kept (Q := Asks st₀)
      (fun h => h.checks (onOutgoingReachedNoExternalUse_drops _ s n).1.toChecks) h₁

lemma run (hm : Asks st₀ st) : Asks st₀ st.run := by
  unfold State.run
  split
  · exact hm
  · rename_i hr
    refine hm.stirs (startRoot_reports startable_reports hm.wf.toIsTree ?_).toStirs
    simpa using hr

end Asks

/-- No handler that neither starts nor stops a service takes a mark away. -/
lemma exec_asks {op : Op} (hm : Asks st₀ st) (hp : op.Pre st) (hop : op.IsSteady) :
    Asks st₀ (op.exec st) := by
  cases op with
  | connect use => exact hm.connect hp
  | disconnect use => exact hm.disconnect use
  | setSatisfied imp satisfied => exact hm.setSatisfied imp satisfied
  | requestStart s reason promise => exact hm.requestStart s reason promise
  | requestStop replies s promise => exact hm.requestStop s promise
  | requestObserve s promise => exact hm.requestObserve s promise
  | immediateStop replies s => exact hm.immediateStop s
  | posted work => exact hm.runPosted work
  | run => exact hm.run
  | tryUse s => exact hm.tryUse s
  | incUse s => exact hm.congr rfl rfl rfl
  | decUse s onEventLoop => exact hm.decUse s onEventLoop
  | init s => exact hop.elim
  | destroy s => exact hop.elim
  | process ready => exact hop.elim
  | started s => exact hop.elim
  | stopped s => exact hop.elim

/-! ### The mark stays until the cluster is stopped -/

/-- What becomes of the mark of the cluster of `s`. -/
def StaysMarked (s : ServiceId) (st st' : State) : Prop :=
  st'.isMarkedForStop (st.cluster s) = true ∨ st'.phase s = .stopped ∨ st'.phase s = .destroyed

lemma Stops.staysMarked (h : Stops small me st st') (hs : s ∈ st.services)
    (hr : s ≠ st.layout.root) (hm : st.isMarkedForStop (st.cluster s) = true) :
    StaysMarked s st st' := by
  by_cases hme : s = me
  · subst hme
    rcases h.self hr with ⟨-, hmark⟩ | hp
    · exact .inl (hmark.trans hm)
    · exact .inr (.inl hp)
  · rcases h.others s hs hme hr with ⟨-, hmark⟩ | ⟨-, hp, -⟩
    · exact .inl (hmark.trans hm)
    · exact .inr (.inl hp)

lemma process_staysMarked {ready : Bool} (hl : st.life.Sound False small []) (hs : s ∈ st.services)
    (hr : s ≠ st.layout.root) (hm : st.isMarkedForStop (st.cluster s) = true) :
    StaysMarked s st (st.process ready) := by
  rcases process_round st ready hl with ⟨-, heq⟩ | ⟨changing, popped, hpop, hround⟩
  · rw [heq]
    exact .inl hm
  · obtain ⟨down, up, rfl, -⟩ := pop_frame hpop
    cases hround with
    | idle h =>
      rw [h]
      exact .inl hm
    | stop _ _ h => exact h.staysMarked hs hr hm
    | start _ _ h => exact .inl ((congrFun h.marked _).trans hm)

/-- The marks of the other clusters are not looked at. -/
lemma init_marked (st : State) (t : ServiceId) {h : ServiceId} (hh : h ≠ t) :
    (st.init t).isMarkedForStop h = st.isMarkedForStop h := by
  unfold init
  simp only
  obtain ⟨i, o, heq⟩ := onServiceAdd_frame { st.construct t with
    cluster := Function.update (st.construct t).cluster t
      (if (st.construct t).layout.isMember t then
        (st.construct t).cluster ((st.construct t).layout.parent t).owner else t)
    phase := Function.update (st.construct t).phase t .stopped
    services := (st.construct t).services ++ [t] } t
  rw [heq]
  unfold construct
  simp only
  split
  · exact Function.update_of_ne hh _ _
  · rfl

/-- Only the destroyed cluster loses its mark. -/
lemma destroy_marked (hw : st.WellFormed) {t : ServiceId} (ht : st.CanDestroy t) {h : ServiceId}
    (hh : st.layout.isClusterHead t = true → h ≠ st.cluster t)
    (hm : st.isMarkedForStop h = true) :
    (st.destroy onServiceStartable t).isMarkedForStop h = true := by
  have h₁ : ∃ x : State, x = (if st.layout.isClusterHead t then st.transitionTargetSet t .none
      else st) ∧ x.toTopology = st.toTopology ∧ x.phase = st.phase ∧
      x.isMarkedForStop = st.isMarkedForStop := by
    refine ⟨_, rfl, ?_⟩
    split
    · obtain ⟨t', p, c, heq⟩ := transitionTargetSet_frame st t .none
      rw [heq]
      exact ⟨rfl, rfl, rfl⟩
    · exact ⟨rfl, rfl, rfl⟩
  obtain ⟨x, hx, htop, hp, hmx⟩ := h₁
  have hdel : ((x.deleting onServiceStartable t)).isMarkedForStop h = true ∧
      (x.deleting onServiceStartable t).IsTree := by
    have hwx : x.WellFormed := htop ▸ hw
    rw [deleting_eq onServiceStartable hwx (canDestroy_congr htop (congrFun hp t) ht)]
    have hcl : x.cluster t = st.cluster t := by rw [htop]
    split
    · rename_i hhead
      rw [htop] at hhead
      have hov := (Asks.refl hwx).setOverride t .none
      generalize x.setOverride t .none = y at hov
      have hstirs := doMarkClusterForStop_stirs startable_reports hov.wf.toIsTree (h := t)
      have hy : y.cluster t = st.cluster t := by rw [hov.tree, hcl]
      refine ⟨?_, tree_of_away hstirs.away ▸ hov.wf.toIsTree⟩
      rw [isMarkedForStop_of_away hstirs.away]
      refine (Function.update_of_ne ?_ _ _).trans (hov.marked h (by rw [hmx, hm]))
      rw [hy]
      exact hh hhead
    · exact ⟨by rw [hmx, hm], hwx.toIsTree⟩
  have hrest : ((x.deleting onServiceStartable t).callOnRequiredDecrement onServiceStartable
      t).isMarkedForStop h = true := by
    obtain ⟨hrep, -⟩ := callOnRequiredDecrement_reports startable_reports hdel.2 t
    rw [isMarkedForStop_of_away hrep.away, (innerDecremented_marks _ t).1]
    exact hdel.1
  unfold destroy
  simp only
  rw [← hx, onServiceDel_eq]
  split
  · exact hrest
  · exact hrest

/-- A mark stays as long as the cluster is locked. -/
theorem exec_staysMarked {op : Op} (hw : st.WellFormed) (hl : st.life.Sound False small [])
    (hpre : op.Pre st) (hs : s ∈ st.services) (hr : s ≠ st.layout.root)
    (hp : st.phase s ≠ .stopped) (hm : st.isMarkedForStop (st.cluster s) = true) :
    StaysMarked s st (op.exec st) := by
  have ht : st.IsTree := hw.toIsTree
  have hsteady : op.IsSteady → StaysMarked s st (op.exec st) := fun hop =>
    .inl ((exec_asks (.refl hw) hpre hop).marked _ hm)
  cases op with
  | init t =>
    refine .inl ((init_marked st t ?_).trans hm)
    rintro rfl
    have hnext := (hl.good.initialized _).1 (ht.cluster_mem hs).1
    have hun : st.life.phase (st.cluster s) = .uninitialized := hpre.1
    rw [hun] at hnext
    exact absurd hnext (by decide)
  | destroy t =>
    refine .inl (destroy_marked hw hpre (fun _ hcl => hp ?_) hm)
    -- all members of the cluster of a stopped service are stopped
    exact (hl.good.stopped hpre.1 hpre.2.2.1).2 s hs hcl
  | process ready => exact process_staysMarked hl hs hr hm
  | started t => exact .inl ((congrFun (postStartActions_starts ht).marked _).trans hm)
  | stopped t => exact (postStopActions_stops hl.good hpre.1 hpre.2).staysMarked hs hr hm
  | _ => exact hsteady trivial

/-! ### Services come and go -/

/-- What `on_service_del` leaves of the tree and of the phases. -/
lemma onServiceDel_frame (hw : st.WellFormed) (hs : st.CanDestroy s) {x : State}
    (hx : x = if st.layout.isClusterHead s then st.transitionTargetSet s .none else st) :
    (x.onServiceDel onServiceStartable s).toTopology = st.toTopology ∧
      ∀ t, t ≠ st.layout.root → (x.onServiceDel onServiceStartable s).phase t = st.phase t := by
  have h₁ : x.toTopology = st.toTopology ∧ x.phase = st.phase := by
    rw [hx]
    split
    · obtain ⟨t', p, c, heq⟩ := transitionTargetSet_frame st s .none
      rw [heq]
      exact ⟨rfl, rfl⟩
    · exact ⟨rfl, rfl⟩
  obtain ⟨htop, hp⟩ := h₁
  have hwx : x.WellFormed := htop ▸ hw
  have hdel : (x.deleting onServiceStartable s).toTopology = st.toTopology ∧
      ∀ t, t ≠ st.layout.root → (x.deleting onServiceStartable s).phase t = st.phase t := by
    rw [deleting_eq onServiceStartable hwx (canDestroy_congr htop (congrFun hp s) hs)]
    split
    · obtain ⟨o, hchecks⟩ := setOverride_checks x s .none
      have hy : (x.setOverride s .none).toTopology = st.toTopology := hchecks.topology.trans htop
      have hpy : (x.setOverride s .none).phase = st.phase := by
        obtain ⟨u, r, p, d, heq⟩ := hchecks.frame
        rw [heq]
        exact hp
      generalize x.setOverride s .none = y at hy hpy
      have hcalm := (doMarkClusterForStop_stirs startable_reports
        (hy ▸ hw.toIsTree : y.IsTree) (h := s)).calm
      refine ⟨hcalm.topology.trans hy, fun t ht => (hcalm.phase t ?_).trans (congrFun hpy t)⟩
      have hroot : (y.unmarked s).layout.root = st.layout.root := congrArg (·.layout.root) hy
      rw [hroot]
      exact ht
    · exact ⟨htop, fun t _ => congrFun hp t⟩
  rw [onServiceDel_eq]
  generalize x.deleting onServiceStartable s = y at hdel
  obtain ⟨htop₂, hp₂⟩ := hdel
  obtain ⟨hphase, htop₃⟩ := innerDecremented_phase y s
  obtain ⟨hrep, -⟩ := callOnRequiredDecrement_reports startable_reports
    (htop₂ ▸ hw.toIsTree : y.IsTree) s
  have hcalm := hrep.toStirs.calm
  refine ⟨hcalm.topology.trans (htop₃.trans htop₂), fun t ht => ?_⟩
  have hroot : (y.innerDecremented s).layout.root = st.layout.root := by rw [htop₃, htop₂]
  rw [hcalm.phase t (hroot ▸ ht), hphase]
  exact hp₂ t ht

/-- Only the service itself is gone, in phase `destroyed`. -/
lemma destroy_frame (hw : st.WellFormed) (hs : st.CanDestroy s) :
    (st.destroy onServiceStartable s).services = st.services.erase s ∧
      (st.destroy onServiceStartable s).phase s = .destroyed ∧
      ∀ t, t ≠ s → t ≠ st.layout.root →
        (st.destroy onServiceStartable s).phase t = st.phase t := by
  obtain ⟨htop, hp⟩ := onServiceDel_frame hw hs rfl
  unfold destroy
  simp only
  generalize (if st.layout.isClusterHead s then st.transitionTargetSet s .none
    else st).onServiceDel onServiceStartable s = y at htop hp
  have hserv : y.services.erase s = st.services.erase s := by rw [htop]
  split
  · exact ⟨hserv, Function.update_self .., fun t hts ht =>
      (Function.update_of_ne hts _ _).trans (hp t ht)⟩
  · exact ⟨hserv, Function.update_self .., fun t hts ht =>
      (Function.update_of_ne hts _ _).trans (hp t ht)⟩

/-- What is destroyed was stopped until then. -/
lemma destroy_replay (hl : st.life.Sound False True []) (hs : st.CanDestroy s) :
    replay s (st.destroy onServiceStartable s).changes = some .stopped := by
  obtain ⟨hmem, hr, hp, -⟩ := hs
  have h₁ : ∃ x : State, x = (if st.layout.isClusterHead s then st.transitionTargetSet s .none
      else st) ∧ x.life.Sound False True [] ∧ x.toServiceTree = st.toServiceTree ∧
      x.phase s = .stopped := by
    refine ⟨_, rfl, ?_⟩
    split
    · rename_i hh
      have hhead := hl.good.tree.cluster_of_isClusterHead hmem hh
      have hlife := transitionTargetSet_life st s .none
      have hcl : st.cluster s = s := hhead
      rw [hcl] at hlife
      obtain ⟨t, p, c, heq⟩ := transitionTargetSet_frame st s .none
      refine ⟨hlife ▸ hl.transitionTargetSet (Life.mem_heads.2 ⟨hmem, hhead⟩) .none, ?_, ?_⟩
      · rw [heq]
      · rw [heq]
        exact hp
    · exact ⟨hl, rfl, hp⟩
  obtain ⟨x, hx, hlx, htree, hpx⟩ := h₁
  have hmemx : s ∈ x.services := by rwa [htree]
  have hrx : s ≠ x.layout.root := by rwa [htree]
  have hdel : (x.onServiceDel onServiceStartable s).life.Sound False True [] ∧
      Life.Unmoved x.life s (x.onServiceDel onServiceStartable s).life :=
    onServiceDel_keeps (Q := fun l => l.Sound False True [] ∧ Life.Unmoved x.life s l)
      (fun st' t h => ⟨onServiceStartable_sound h.1, onServiceStartable_unmoved h.1
        (by
          have hserv : st'.services = x.services := congrArg (fun t => t.services) h.2.1
          rw [hserv]
          exact hmemx)
        (by
          have hlay : st'.layout = x.layout := congrArg (fun t => t.layout) h.2.1
          rw [hlay]
          exact hrx) h.2⟩)
      ⟨hlx, rfl, rfl, rfl, rfl⟩
  have hlife := destroy_life (k := onServiceStartable) st s
  rw [← hx] at hlife
  have hchanges : (st.destroy onServiceStartable s).changes =
      (x.onServiceDel onServiceStartable s).changes := congrArg (fun l => l.changes) hlife
  generalize x.onServiceDel onServiceStartable s = y at hdel hchanges
  obtain ⟨hly, htreey, hpy, -⟩ := hdel
  have hmemy : s ∈ y.life.services := by
    rw [htreey]
    exact hmemx
  have hphase : y.life.phase s = .stopped := hpy.trans hpx
  rw [hchanges, ← hphase]
  exact hly.good.replay_eq trivial s hmemy

/-- A service stays until it is destroyed. -/
lemma exec_mem_services {op : Op} (hw : st.WellFormed) (hl : st.life.Sound False small [])
    (hpre : op.Pre st) (hs : s ∈ st.services) (hne : op ≠ .destroy s) :
    s ∈ (op.exec st).services := by
  have ht : st.IsTree := hw.toIsTree
  have htree : ∀ st' : State, st'.toServiceTree = st.toServiceTree → s ∈ st'.services :=
    fun st' h => by rwa [h]
  have hsteady : op.IsSteady → s ∈ (op.exec st).services :=
    fun hop => htree _ (exec_asks (.refl hw) hpre hop).tree
  cases op with
  | init t =>
    have hserv : (st.init t).services = st.services ++ [t] :=
      congrArg (fun w => w.services) (init_wires st t)
    have hmem : s ∈ (st.init t).services := by
      rw [hserv]
      exact List.mem_append_left _ hs
    exact hmem
  | destroy t =>
    have hst : s ≠ t := fun h => hne (h ▸ rfl)
    have hmem : s ∈ (st.destroy onServiceStartable t).services := by
      rw [(destroy_frame hw hpre).1]
      exact (List.mem_erase_of_ne hst).2 hs
    exact hmem
  | process ready =>
    exact htree _ (congrArg (·.toServiceTree) (process_remaining _ hl).1)
  | started t => exact htree _ (congrArg (·.toServiceTree) (postStartActions_starts ht).topology)
  | stopped t =>
    exact htree _ (congrArg (·.toServiceTree)
      (postStopActions_stops hl.good hpre.1 hpre.2).topology)
  | _ => exact hsteady trivial

/-- A round leaves the phases of what is no service any more, or not yet. -/
lemma process_phase_outside {ready : Bool} (hl : st.life.Sound False small [])
    (hs : s ∉ st.services) : (st.process ready).phase s = st.phase s := by
  rcases process_round st ready hl with ⟨-, heq⟩ | ⟨changing, popped, hpop, hround⟩
  · rw [heq]
  · obtain ⟨down, up, rfl, -⟩ := pop_frame hpop
    cases hround with
    | idle h => rw [h]
    | stop _ _ h => exact h.outside s hs
    | start _ hp h =>
      exact h.outside (mem_services_of_locked hl.good (hp.imp_right .inl)) s hs

/-- A service has no phase until it is initialised. -/
lemma exec_phase_outside {op : Op} (hw : st.WellFormed) (hl : st.life.Sound False small [])
    (hpre : op.Pre st) (hs : s ∉ st.services) (hne : op ≠ .init s) :
    (op.exec st).phase s = st.phase s := by
  have ht : st.IsTree := hw.toIsTree
  have hr : s ≠ st.layout.root := fun h => hs (h ▸ ht.root_mem)
  have hsteady : op.IsSteady → (op.exec st).phase s = st.phase s :=
    fun hop => (exec_asks (.refl hw) hpre hop).phase s hr
  cases op with
  | init t =>
    have hst : s ≠ t := fun h => hne (h ▸ rfl)
    have hphase : (st.init t).phase = Function.update st.phase t .stopped :=
      congrArg (fun w => w.phase) (init_wires st t)
    exact (congrFun hphase s).trans (Function.update_of_ne hst _ _)
  | destroy t =>
    have hst : s ≠ t := fun h => hs (h ▸ hpre.1)
    exact (destroy_frame hw hpre).2.2 s hst hr
  | process ready => exact process_phase_outside hl hs
  | started t => exact (postStartActions_starts ht).outside hpre.1 s hs
  | stopped t => exact (postStopActions_stops hl.good hpre.1 hpre.2).outside s hs
  | _ => exact hsteady trivial

/-! ### The graph stays well formed -/

lemma destroy_wellFormed (hw : st.WellFormed) (hs : st.CanDestroy s) :
    (st.destroy onServiceStartable s).WellFormed := by
  obtain ⟨htop, -⟩ := onServiceDel_frame hw hs rfl
  obtain ⟨-, hr, -, hchild, husages⟩ := hs
  unfold State.destroy
  simp only
  generalize (if st.layout.isClusterHead s then st.transitionTargetSet s .none
    else st).onServiceDel onServiceStartable s = y at htop
  have hwy : y.WellFormed := htop ▸ hw
  have herase : (y.toTopology.erase s).WellFormed := by
    rw [htop]
    exact hw.erase hr hchild husages
  split
  · exact herase
  · exact herase

/-- Every handler keeps the graph well formed. -/
theorem exec_wellFormed {op : Op} (hw : st.WellFormed) (hl : st.life.Sound False small [])
    (hpre : op.Pre st) : (op.exec st).WellFormed := by
  have hsame : ∀ st' : State, st'.toTopology = st.toTopology → st'.WellFormed :=
    fun st' h => by rwa [h]
  have hsteady : op.IsSteady → (op.exec st).WellFormed :=
    fun hop => (exec_asks (.refl hw) hpre hop).wf
  cases op with
  | init t =>
    have htop : (st.init t).toTopology = st.toTopology.insert t :=
      congrArg (·.toTopology) (init_wires st t)
    have hnew : t ∉ st.services := fun hmem => by
      have hnext := (hl.good.initialized t).1 hmem
      have hp : st.life.phase t = .uninitialized := hpre.1
      rw [hp] at hnext
      exact absurd hnext (by decide)
    have hwt : (st.init t).WellFormed := by
      rw [htop]
      exact hw.insert hnew hpre.2.1 hpre.2.2.1
    exact hwt
  | destroy t => exact destroy_wellFormed hw hpre
  | process ready => exact hsame _ (process_remaining _ hl).1
  | started t => exact hsame _ (postStartActions_starts hw.toIsTree).topology
  | stopped t => exact hsame _ (postStopActions_stops hl.good hpre.1 hpre.2).topology
  | _ => exact hsteady trivial

end State

theorem Reachable.wellFormed {L : Layout} {st : State} (h : Reachable L st) : st.WellFormed := by
  refine Machine.Reachable.invariant (P := fun st => st.WellFormed) h ?_ ?_
  · rintro st rfl
    exact .initial L
  · exact fun st op hr hw hp _ => State.exec_wellFormed hw (Reachable.sound hr) hp

end Idle
