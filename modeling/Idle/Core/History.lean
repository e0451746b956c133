import Idle.Core.Handlers

/-!
# What a run never takes back

Every handler is a sequence of phase changes, of changes of `running_`, of the epoch and of the
promises, and of services that come and go. What all of these keep is kept by every handler, and
along every run. The history of phase changes only grows, and no initialised service changes its
cluster.
-/

namespace Idle

open State

namespace Life

/-- What the changes that the handlers consist of keep. -/
structure Closed (Q : Life → Prop) : Prop where
  transition : ∀ l s p q, q.next?.isSome → Q l → Q (l.mapPhases (·.transition s p q))
  count : ∀ l running epoch, Q l → Q { l with running := running, epoch := epoch }
  promises : ∀ l target promise reached completed, Q l →
    Q { l with target := target, promise := promise, reached := reached, completed := completed }
  insert : ∀ l s, l.phase s = .uninitialized → Q l → Q (l.insert s)
  erase : ∀ l s, Q l → Q (l.erase s)

variable {Q : Life → Prop} {l : Life} {h : ServiceId} {target : Target}

lemma Closed.transitionTargetSet (hQ : Closed Q) (hl : Q l) :
    Q (l.transitionTargetSet h target) := by
  unfold Life.transitionTargetSet
  split
  · exact hl
  · split
    · exact hQ.promises l _ _ _ _ hl
    · exact hQ.promises l _ _ _ _ hl

lemma Closed.transitionTargetCompleteIf (hQ : Closed Q) (hl : Q l) :
    Q (l.transitionTargetCompleteIf h target) := by
  unfold Life.transitionTargetCompleteIf
  split
  · exact hQ.promises l _ _ _ _ hl
  · exact hl

end Life

namespace State

variable {Q : Life → Prop} {st st' : State} {s me h : ServiceId} {p : Promise}
variable {replies : UsageId → ReleaseReply} {ready : Bool} {k : State → ServiceId → State}

section Closed

variable (hQ : Life.Closed Q)
include hQ

/-! ### Starting -/

lemma doStartEager_closed (hl : Q st.life) : Q (st.doStartEager me).life := by
  have hlock :
      Q (if (st.phase me).isLocked then st else st.doLockCluster (st.cluster me)).life := by
    split
    · exact hl
    · refine foldl_keeps (f := callOnClusterRunningIncrement)
        (fun st s h => hQ.count st.life _ st.epoch h) _ ?_
      refine foldl_keeps (fun st s h => ?_) _ hl
      rw [lockMember_life]
      exact hQ.transition _ _ _ _ (by decide) h
  unfold doStartEager
  simp only [callOnInnerOutgoingIncrement_life]
  generalize (if (st.phase me).isLocked then st else st.doLockCluster (st.cluster me)) = st₁
    at hlock
  exact hQ.transition st₁.life me _ _ (by decide) hlock

lemma postStartActions_closed (hk : ∀ st s, Q st.life → Q (k st s).life) (hl : Q st.life) :
    Q (st.postStartActions k me).life :=
  postStartActions_keeps hk (hQ.transition _ _ _ _ (by decide) hl)
    fun _ hl _ => hQ.transitionTargetCompleteIf hl

lemma startRoot_closed (hk : ∀ st s, Q st.life → Q (k st s).life) (hl : Q st.life) :
    Q (st.startRoot k).life := by
  have hset : Q (st.setOverride st.layout.root .start).life := by rwa [setOverride_life]
  unfold startRoot
  generalize st.setOverride st.layout.root .start = st₁ at hset
  exact postStartActions_closed hQ hk (doStartEager_closed hQ hset)

lemma onServiceStartable_closed (hl : Q st.life) : Q (st.onServiceStartable s).life := by
  unfold onServiceStartable
  rw [pushUp_life]
  exact ite_keeps (startRoot_closed hQ fun _ _ h => h) hl

lemma tryStartServiceInplace_closed (hl : Q st.life) :
    Q (st.tryStartServiceInplace me ready).life :=
  ite_keeps (postStartActions_closed hQ fun _ _ => onServiceStartable_closed hQ)
    (doStartEager_closed hQ hl)

/-! ### Stopping -/

lemma doUnlockCluster_closed (hl : Q st.life) :
    Q (st.doUnlockCluster onServiceStartable h).life := by
  have hunlock : Q ((st.clusterMembers h).foldl unlockMember st).life := by
    refine foldl_keeps (fun st s h => ?_) _ hl
    rw [unlockMember_life]
    exact hQ.transition _ _ _ _ (by decide) h
  unfold doUnlockCluster
  generalize (st.clusterMembers h).foldl unlockMember st = st₁ at hunlock
  refine ite_keeps (fun h => h) ?_
  refine doMarkClusterForStop_keeps (fun _ _ => onServiceStartable_closed hQ) ?_
  rw [transitionTargetCompleteIf_life]
  exact hQ.transitionTargetCompleteIf hunlock

lemma postStopActions_closed (hl : Q st.life) :
    Q (st.postStopActions onServiceStartable me).life := by
  have hinner : Q (st.callOnInnerOutgoingDecrement me).life := by
    rwa [callOnInnerOutgoingDecrement_life]
  unfold postStopActions
  generalize st.callOnInnerOutgoingDecrement me = st₁ at hinner
  have hpend := hQ.transition st₁.life me .stopping .pending (by decide) hinner
  unfold callOnClusterRunningDecrement
  exact ite_keeps (fun h => doUnlockCluster_closed hQ (hQ.count _ _ _ h))
    (hQ.count _ _ st₁.epoch hpend)

lemma tryStopServiceInplace_closed (hl : Q st.life) :
    Q (st.tryStopServiceInplace me ready).life := by
  have hstop : Q (st.doStopEager me).life := by rwa [doStopEager_life]
  exact ite_keeps (postStopActions_closed hQ) hstop

/-! ### The handlers -/

lemma processService_closed (hl : Q st.life) : Q (st.processService me ready).life := by
  unfold processService
  split
  · split
    · split
      · rename_i st₁ hset
        refine tryStopServiceInplace_closed hQ ?_
        rw [trySetServiceStopping_life hset]
        exact hQ.transition _ _ _ _ (by decide) hl
      · exact hl
    · exact hl
  · exact ite_keeps (ite_keeps (tryStartServiceInplace_closed hQ)) hl

lemma process_closed (hl : Q st.life) : Q (st.process ready).life := by
  unfold process
  split
  · rename_i changing st₁ hpop
    exact processService_closed hQ (pop_life hpop ▸ hl)
  · exact hl

lemma destroy_closed (hl : Q st.life) : Q (st.destroy onServiceStartable s).life := by
  rw [destroy_life]
  refine hQ.erase _ _ (onServiceDel_keeps (fun _ _ => onServiceStartable_closed hQ) ?_)
  refine ite_keeps (fun hl => ?_) hl
  rw [transitionTargetSet_life]
  exact hQ.transitionTargetSet hl

lemma stopRootCluster_closed (hl : Q st.life) : Q (st.stopRootCluster replies h).life := by
  have hk : ∀ (st : State) s, Q st.life → Q (st.onServiceStartable s).life :=
    fun _ _ => onServiceStartable_closed hQ
  have hrelease : Q (if (st.phase h).isLocked then st.releaseWeakUsages replies h else st).life :=
    ite_keeps (releaseWeakUsages_keeps hk) hl
  simp only [stopRootCluster]
  generalize (if (st.phase h).isLocked then st.releaseWeakUsages replies h else st) = st₁
    at hrelease
  have hset : Q ((st₁.setOverride h .none).transitionTargetSet h .none).life := by
    rw [transitionTargetSet_life, setOverride_life]
    exact hQ.transitionTargetSet hrelease
  generalize (st₁.setOverride h .none).transitionTargetSet h .none = st₂ at hset
  refine ite_keeps (fun hl => ite_keeps (fun h => h) (doMarkClusterForStop_keeps hk hl)) ?_
  rwa [doMarkClusterForStart_life]

lemma onServiceStopRequest_closed (hl : Q st.life) :
    Q (st.onServiceStopRequest replies s).life := by
  unfold onServiceStopRequest
  split
  · unfold stopRoot
    split
    · exact hl
    · exact ite_keeps (fun _ => hl) (foldl_keeps (fun _ _ h => stopRootCluster_closed hQ h) _ hl)
  · exact stopSearch_dfs_keeps (fun _ _ => onServiceStartable_closed hQ) hl

/-- What chains a promise after the target of its cluster was set. -/
lemma retarget_closed {target : Target} (hl : Q st.life) :
    Q ((st.transitionTargetSet s target).chainPromise s p).life := by
  have hset : Q (st.transitionTargetSet s target).life := by
    rw [transitionTargetSet_life]
    exact hQ.transitionTargetSet hl
  exact hQ.promises _ _ _ _ _ hset

lemma completeNow_closed {outcome : Outcome} (hl : Q st.life) :
    Q (st.completeNow s p outcome).life :=
  hQ.promises st.life _ _ _ _ hl

lemma reach_closed (hl : Q st.life) :
    Q ({ st with reached := st.reached ++ [p] } : State).life :=
  hQ.promises st.life _ _ _ _ hl

lemma requestStart_closed {reason : Reason} (hl : Q st.life) :
    Q (st.requestStart s reason p).life := by
  have hreach := reach_closed hQ (p := p) hl
  unfold requestStart
  generalize ({ st with reached := st.reached ++ [p] } : State) = st₁ at hreach
  have hstart : Q (if reason = .manual then st₁.setOverride s .start else st₁).life :=
    ite_keeps (fun h => by rwa [setOverride_life]) hreach
  simp only
  generalize (if reason = .manual then st₁.setOverride s .start else st₁) = st₂ at hstart
  split
  · exact completeNow_closed hQ hreach
  · split
    · exact completeNow_closed hQ hstart
    · refine retarget_closed hQ ?_
      rwa [onServiceStartRequest_life]

lemma requestStop_closed (hl : Q st.life) : Q (st.requestStop replies s p).life := by
  have hreach := reach_closed hQ (p := p) hl
  unfold requestStop
  generalize ({ st with reached := st.reached ++ [p] } : State) = st₁ at hreach
  have hstop : Q (st₁.setOverride s .none).life := by rwa [setOverride_life]
  simp only
  generalize st₁.setOverride s .none = st₂ at hstop
  split
  · exact completeNow_closed hQ hreach
  · split
    · exact completeNow_closed hQ hstop
    · exact retarget_closed hQ (onServiceStopRequest_closed hQ hstop)

lemma requestObserve_closed (hl : Q st.life) : Q (st.requestObserve s p).life := by
  have hreach := reach_closed hQ (p := p) hl
  unfold requestObserve
  generalize ({ st with reached := st.reached ++ [p] } : State) = st₁ at hreach
  simp only
  split
  · exact completeNow_closed hQ hreach
  · exact hQ.promises st₁.life _ _ _ _ hreach

lemma immediateStop_closed (hl : Q st.life) : Q (st.immediateStop replies s).life :=
  ite_keeps (fun hl => onServiceStopRequest_closed hQ (by rwa [setOverride_life])) hl

lemma runPosted_closed {work : Posted} (hl : Q st.life) : Q (st.runPosted work).life := by
  unfold runPosted
  cases work with
  | restart head =>
    exact ite_keeps (checkAnyInClusterStartable_keeps fun _ _ => onServiceStartable_closed hQ) hl
  | reachedNoExternalUse s current =>
    exact ite_keeps (fun h => by rwa [onOutgoingReachedNoExternalUse_life]) hl

/-- What the changes keep is kept by every handler. -/
theorem exec_closed {op : Op} (hp : op.Pre st) (hl : Q st.life) : Q (op.exec st).life := by
  have hk : ∀ (st : State) s, Q st.life → Q (st.onServiceStartable s).life :=
    fun _ _ => onServiceStartable_closed hQ
  cases op with
  | init s =>
    simp only [Op.exec, init_life]
    exact hQ.insert _ _ hp.1 hl
  | destroy s => exact destroy_closed hQ hl
  | connect use => simpa [Op.exec] using hl
  | disconnect use => exact disconnect_keeps hk hl
  | setSatisfied imp satisfied => exact setSatisfied_keeps hk hl
  | requestStart s reason promise => exact requestStart_closed hQ hl
  | requestStop replies s promise => exact requestStop_closed hQ hl
  | requestObserve s promise => exact requestObserve_closed hQ hl
  | immediateStop replies s => exact immediateStop_closed hQ hl
  | process ready => exact process_closed hQ hl
  | started s => exact postStartActions_closed hQ hk hl
  | stopped s => exact postStopActions_closed hQ hl
  | posted work => exact runPosted_closed hQ hl
  | run => exact ite_keeps (fun _ => hl) (startRoot_closed hQ hk hl)
  | tryUse s => simpa [Op.exec] using hl
  | incUse s => exact hl
  | decUse s onEventLoop => simpa [Op.exec] using hl

end Closed

end State

/-! ### The history grows -/

namespace Life

/-- The later life continues the history of the earlier one. -/
structure Follows (l₀ l : Life) : Prop where
  history : l₀.changes <+: l.changes
  initialized : ∀ s, l₀.phase s ≠ .uninitialized → l.phase s ≠ .uninitialized
  cluster : ∀ s, l₀.phase s ≠ .uninitialized → l.cluster s = l₀.cluster s

lemma Follows.refl (l : Life) : l.Follows l := ⟨List.prefix_rfl, fun _ h => h, fun _ _ => rfl⟩

lemma Follows.closed (l₀ : Life) : Closed l₀.Follows where
  transition l s p q hq hl := by
    refine ⟨hl.history.trans (List.prefix_append _ _), fun t ht => ?_, hl.cluster⟩
    have hne : q ≠ .uninitialized := by
      rintro rfl
      cases hq
    by_cases hts : t = s
    · simpa [Life.mapPhases, Phases.transition, hts] using hne
    · simpa [Life.mapPhases, Phases.transition, hts] using hl.initialized t ht
  count l _ _ hl := ⟨hl.history, hl.initialized, hl.cluster⟩
  promises l _ _ _ _ hl := ⟨hl.history, hl.initialized, hl.cluster⟩
  insert l s hs hl := by
    have hne : ∀ t, l₀.phase t ≠ .uninitialized → t ≠ s :=
      fun t ht heq => hl.initialized t ht (heq ▸ hs)
    refine ⟨hl.history, fun t ht => ?_, fun t ht => ?_⟩
    · simpa [Life.insert, Life.mapPhases, Phases.insert, hne t ht] using hl.initialized t ht
    · simpa [Life.insert, Life.mapPhases, Phases.insert, hne t ht] using hl.cluster t ht
  erase l s hl := by
    refine ⟨hl.history, fun t ht => ?_, hl.cluster⟩
    by_cases hts : t = s
    · simp [Life.erase, Life.mapPhases, Phases.erase, hts]
    · simpa [Life.erase, Life.mapPhases, Phases.erase, hts] using hl.initialized t ht

end Life

/-- A run continues the history of the state it begins with. -/
theorem follows_run {L : Layout} {st : State} {cond : State → Op → Prop} {ops : List Op}
    (hops : (system L).Admissible cond st ops) :
    st.life.Follows (ops.foldl (system L).step st).life :=
  hops.invariant (P := fun st' => st.life.Follows st'.life) (Life.Follows.refl _)
    fun _ _ hl hp _ => exec_closed (Life.Follows.closed _) hp hl

end Idle
