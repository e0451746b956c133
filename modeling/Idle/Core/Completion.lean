import Idle.Core.Handlers

/-!
# Completion of promises

Every promise that reaches its handler is completed at most once, in the state that it promises,
and it is cancelled when its cluster gets another target. Promises are lost in one case only:
`destroy` resets the target of the cluster, which cancels the chained promises, but not if the
cluster has no target. What `request_observe` chained to such a cluster is then dropped with it.
-/

namespace Idle

open State

variable {st : State} {h s : ServiceId} {p : Promise} {small : Prop}

/-! ### What is cancelled -/

namespace Life

/-- Promises that were chained to a cluster are completed, and they were cancelled. -/
def Canceled (ps : List Promise) (l : Life) : Prop :=
  ∀ p ∈ ps, ∃ c ∈ l.completed, c.promise = p ∧ c.outcome = .canceled

lemma complete_canceled (l : Life) (h : ServiceId) :
    Canceled (l.promise h) (l.complete h .canceled) := by
  intro p hp
  exact ⟨_, List.mem_append_right _ (List.mem_map_of_mem hp), rfl, rfl⟩

lemma Canceled.complete {ps : List Promise} {l : Life} (hl : Canceled ps l) (h : ServiceId)
    (outcome : Outcome) : Canceled ps (l.complete h outcome) := by
  intro p hp
  obtain ⟨c, hc, hcp⟩ := hl p hp
  exact ⟨c, List.mem_append_left _ hc, hcp⟩

lemma Canceled.transitionTargetSet {ps : List Promise} {l : Life} (hl : Canceled ps l)
    (h : ServiceId) (target : Target) : Canceled ps (l.transitionTargetSet h target) := by
  unfold Life.transitionTargetSet
  split
  · exact hl
  · split
    · exact hl
    · exact hl.complete h .canceled

lemma Canceled.transitionTargetCompleteIf {ps : List Promise} {l : Life} (hl : Canceled ps l)
    (h : ServiceId) (target : Target) : Canceled ps (l.transitionTargetCompleteIf h target) := by
  unfold Life.transitionTargetCompleteIf
  split
  · exact hl.complete h .value
  · exact hl

/-- Another target cancels what was chained for the old one. -/
lemma transitionTargetSet_canceled {l : Life} {target : Target} (hnone : l.target h ≠ .none)
    (hne : l.target h ≠ target) : Canceled (l.promise h) (l.transitionTargetSet h target) := by
  unfold transitionTargetSet
  rw [if_neg hne, if_neg hnone]
  exact complete_canceled l h

lemma transitionTargetSet_of_ne {l : Life} {g : ServiceId} (hgh : h ≠ g) (target : Target) :
    (l.transitionTargetSet g target).target h = l.target h ∧
      (l.transitionTargetSet g target).promise h = l.promise h := by
  unfold transitionTargetSet
  split
  · exact ⟨rfl, rfl⟩
  · split <;> simp [setTarget, complete, hgh]

/-- Resetting the target of all clusters cancels everything that was chained for a target. -/
lemma foldl_transitionTargetSet_canceled {hs : List ServiceId} {l : Life} (hmem : h ∈ hs)
    (hnone : l.target h ≠ .none) :
    Canceled (l.promise h) (hs.foldl (fun l g => l.transitionTargetSet g .none) l) := by
  induction hs generalizing l with
  | nil => simp at hmem
  | cons g hs ih =>
    rw [List.foldl_cons]
    by_cases hgh : h = g
    · subst hgh
      refine List.foldlRecOn (motive := Canceled (l.promise h)) hs _
        (transitionTargetSet_canceled hnone hnone) fun l hl g _ => hl.transitionTargetSet g .none
    · obtain ⟨htarget, hpromise⟩ := transitionTargetSet_of_ne (l := l) hgh .none
      rw [← hpromise]
      exact ih ((List.mem_cons.1 hmem).resolve_left hgh) (htarget ▸ hnone)

end Life

namespace State

/-! ### Stopping the root -/

/-- While the root is running, reporting a service as startable only queues it. -/
lemma onServiceStartable_life_of_running {l : Life} (hl : l.phase l.layout.root = .running)
    (st : State) (s : ServiceId) (hst : st.life = l) : (st.onServiceStartable s).life = l := by
  subst hst
  have hp : st.phase st.layout.root = .running := hl
  unfold onServiceStartable
  rw [if_neg (by simp [hp])]
  rfl

lemma stopRootCluster_life {replies : UsageId → ReleaseReply} {l : Life}
    (hl : l.phase l.layout.root = .running) (hcl : l.cluster h = h) (hst : st.life = l) :
    (st.stopRootCluster replies h).life = l.transitionTargetSet h .none := by
  have hk := onServiceStartable_life_of_running hl
  have h₁ : (if (st.phase h).isLocked then st.releaseWeakUsages replies h else st).life = l :=
    ite_keeps (Q := fun l' => l' = l) (releaseWeakUsages_keeps (Q := fun l' => l' = l) hk) hst
  simp only [stopRootCluster]
  generalize (if (st.phase h).isLocked then st.releaseWeakUsages replies h else st) = st₁ at h₁
  have h₂ : ((st₁.setOverride h .none).transitionTargetSet h .none).life =
      l.transitionTargetSet h .none := by
    have hset := (setOverride_life st₁ h .none).trans h₁
    have hcl' : (st₁.setOverride h .none).cluster h = h := by
      have := congrArg (fun l => l.cluster h) hset
      exact this.trans hcl
    rw [transitionTargetSet_life, hcl', hset]
  have hrun : (l.transitionTargetSet h .none).phase (l.transitionTargetSet h .none).layout.root =
      .running := by simpa using hl
  generalize (st₁.setOverride h .none).transitionTargetSet h .none = st₂ at h₂
  split
  · have h₃ : ((st₂.doMarkClusterForStart h false).doMarkClusterForStop onServiceStartable h
        true).life = l.transitionTargetSet h .none :=
      doMarkClusterForStop_keeps (Q := fun l' => l' = l.transitionTargetSet h .none)
        (onServiceStartable_life_of_running hrun) h₂
    split
    · exact h₃
    · exact h₃
  · exact h₂

lemma foldl_stopRootCluster_life {replies : UsageId → ReleaseReply} {hs : List ServiceId} {l : Life}
    (hl : l.phase l.layout.root = .running) (hcl : ∀ h ∈ hs, l.cluster h = h)
    (hst : st.life = l) : (hs.foldl (stopRootCluster replies) st).life =
      hs.foldl (fun l h => l.transitionTargetSet h .none) l := by
  induction hs generalizing st l with
  | nil => exact hst
  | cons h hs ih =>
    rw [List.foldl_cons, List.foldl_cons]
    refine ih (by simpa using hl) (fun g hg => ?_)
      (stopRootCluster_life hl (hcl h List.mem_cons_self) hst)
    simpa using hcl g (List.mem_cons_of_mem _ hg)

/-- The root is stopped, together with everything else. -/
def StopsRoot (st : State) : Prop :=
  st.isClusterStopped st.layout.root = false ∧ st.isClusterMarkedForStop st.layout.root = false

lemma Life.Sound.root_running {kept : Prop} {fl : List Promise} (hl : st.life.Sound kept small fl)
    (hr : st.isClusterStopped st.layout.root = false) : st.phase st.layout.root = .running := by
  refine hl.rests.resolve_left fun hstopped => ?_
  have hroot : st.cluster st.layout.root = st.layout.root := hl.good.tree.cluster_root
  have hrun : st.running st.layout.root = 0 := by
    have := (hl.good.stopped hl.good.tree.root_mem hstopped).1
    exact hroot ▸ this
  simp [Core.isClusterStopped, hroot, hrun] at hr

lemma stopRoot_canceled {replies : UsageId → ReleaseReply} {kept : Prop} {fl : List Promise}
    (hl : st.life.Sound kept small fl) (hr : st.StopsRoot) (hh : h ∈ st.life.heads)
    (hnone : st.target h ≠ .none) : Life.Canceled (st.promise h) (st.stopRoot replies).life := by
  have hrun := Life.Sound.root_running hl hr.1
  have hheads : ∀ g ∈ st.clusters, g ∈ st.services ∧ st.layout.isClusterHead g = true := by
    intro g hg
    obtain ⟨hg, hhead⟩ := List.mem_filter.1 hg
    exact ⟨hl.good.tree.mem_transitiveServices.1 hg, hhead⟩
  have hmem : h ∈ st.clusters := by
    obtain ⟨hs, hcl⟩ := Life.mem_heads.1 hh
    exact List.mem_filter.2 ⟨hl.good.tree.mem_transitiveServices.2 hs,
      (hl.good.tree.isClusterHead_iff hs).2 hcl⟩
  have hlife : (st.clusters.foldl (stopRootCluster replies) { st with down := [], up := [] }).life =
      st.clusters.foldl (fun l h => l.transitionTargetSet h .none) st.life :=
    foldl_stopRootCluster_life hrun
      (fun g hg => hl.good.tree.cluster_of_isClusterHead (hheads g hg).1 (hheads g hg).2) rfl
  unfold stopRoot
  rw [if_neg (by simp [hr.1]), if_neg (by simp [hr.2]), hlife]
  exact Life.foldl_transitionTargetSet_canceled (l := st.life) hmem hnone

/-! ### Handlers -/

lemma onServiceStartable_canceled {ps : List Promise} (st : State) (s : ServiceId)
    (hl : Life.Canceled ps st.life) : Life.Canceled ps (st.onServiceStartable s).life := by
  have hset := setOverride_life st st.layout.root .start
  unfold onServiceStartable startRoot
  simp only [pushUp_life]
  generalize st.setOverride st.layout.root .start = st' at hset
  have hstart : (st'.doStartEager st'.layout.root).life.completed = st.life.completed :=
    (doStartEager_proj (f := fun l => l.completed) (fun _ _ _ _ => rfl) (fun _ _ => rfl) _ _).trans
      (congrArg (fun l => l.completed) hset)
  generalize st'.doStartEager st'.layout.root = st₂ at hstart
  refine ite_keeps (fun hl => ?_) hl
  refine postStartActions_keeps (Q := Life.Canceled ps) (fun _ _ h => h) ?_
    fun st' h _ => h.transitionTargetCompleteIf _ _
  intro p hp
  obtain ⟨c, hc, h⟩ := hl p hp
  exact ⟨c, by rw [← hstart] at hc; exact hc, h⟩

lemma destroy_canceled (hs : st.IsTree) (hmem : h ∈ st.services)
    (hhead : st.layout.isClusterHead h = true) (hnone : st.target h ≠ .none) :
    Life.Canceled (st.promise h) (st.destroy onServiceStartable h).life := by
  rw [destroy_life, if_pos hhead]
  refine onServiceDel_keeps (Q := Life.Canceled (st.promise h)) onServiceStartable_canceled ?_
  rw [transitionTargetSet_life, hs.cluster_of_isClusterHead hmem hhead]
  exact Life.transitionTargetSet_canceled (l := st.life) hnone hnone

lemma requestStart_canceled {reason : Reason} (hs : st.IsTree) (hmem : h ∈ st.services)
    (hhead : st.layout.isClusterHead h = true) (htarget : st.target h = .stop)
    (hrun : st.phase h ≠ .running) :
    Life.Canceled (st.promise h) (st.requestStart h reason p).life := by
  have hcl : st.cluster h = h := hs.cluster_of_isClusterHead hmem hhead
  simp only [requestStart]
  rw [if_neg (not_not.2 hmem)]
  have h₁ : (if reason = .manual then
      ({ st with reached := st.reached ++ [p] } : State).setOverride h .start
      else { st with reached := st.reached ++ [p] }).life =
      { st.life with reached := st.reached ++ [p] } :=
    ite_keeps (Q := fun l => l = { st.life with reached := st.reached ++ [p] })
      (fun h => by rwa [setOverride_life]) rfl
  generalize (if reason = .manual then
      ({ st with reached := st.reached ++ [p] } : State).setOverride h .start
      else { st with reached := st.reached ++ [p] }) = st₁ at h₁
  have hphase : st₁.phase h = st.phase h := congrArg (fun l => l.phase h) h₁
  rw [if_neg (by simpa [hphase] using hrun)]
  have h₂ := (onServiceStartRequest_life st₁ h).trans h₁
  generalize st₁.onServiceStartRequest h = st₂ at h₂
  have hcl₂ : st₂.cluster h = h := (congrArg (fun l => l.cluster h) h₂).trans hcl
  have : Life.Canceled (st.promise h) (st₂.transitionTargetSet h .start).life := by
    rw [transitionTargetSet_life, hcl₂, h₂]
    exact Life.transitionTargetSet_canceled (l := { st.life with reached := st.reached ++ [p] })
      (show st.target h ≠ .none by simp [htarget]) (show st.target h ≠ .start by simp [htarget])
  exact this

/-- A stop request of another cluster than the root leaves its own promises alone. -/
lemma onServiceStopRequest_unmoved {replies : UsageId → ReleaseReply} {kept : Prop}
    {fl : List Promise} (hl : st.life.Sound kept small fl) (hs : s ∈ st.services)
    (hr : s ≠ st.layout.root) :
    Life.Unmoved st.life s (st.onServiceStopRequest replies s).life := by
  unfold onServiceStopRequest
  rw [if_neg hr]
  refine (stopSearch_dfs_keeps (Q := fun l => l.Sound kept small fl ∧ Life.Unmoved st.life s l)
    (fun st' t h => ⟨onServiceStartable_sound h.1, onServiceStartable_unmoved h.1 ?_ ?_ h.2⟩)
    ⟨hl, rfl, rfl, rfl, rfl⟩).2
  · have : st'.services = st.services := congrArg (fun t => t.services) h.2.1
    rwa [this]
  · have : st'.layout = st.layout := congrArg (fun t => t.layout) h.2.1
    rwa [this]

/-- A stop request cancels the promises of a start, and through `stop_root` those of all
requests. -/
lemma stopRequest_canceled {replies : UsageId → ReleaseReply} {kept : Prop} {fl : List Promise}
    (hl : st.life.Sound kept small fl) (hmem : s ∈ st.services) (hcl : st.cluster s = s)
    (hh : h ∈ st.life.heads)
    (htarget : (h = s ∧ st.target h = .start) ∨
      (s = st.layout.root ∧ st.StopsRoot ∧ st.target h ≠ .none)) :
    Life.Canceled (st.promise h)
      ((st.onServiceStopRequest replies s).transitionTargetSet s .stop).life := by
  have htree : (st.onServiceStopRequest replies s).toServiceTree = st.toServiceTree :=
    (onServiceStopRequest_sound hl).2
  have hcl' : (st.onServiceStopRequest replies s).cluster s = s := by rw [htree]; exact hcl
  rw [transitionTargetSet_life, hcl']
  by_cases hroot : s = st.layout.root ∧ st.StopsRoot ∧ st.target h ≠ .none
  · obtain ⟨rfl, hr, hnone⟩ := hroot
    refine Life.Canceled.transitionTargetSet ?_ _ _
    unfold onServiceStopRequest
    rw [if_pos rfl]
    exact stopRoot_canceled hl hr hh hnone
  · -- nothing was done to the target and the promises of `h` before
    obtain ⟨rfl, hstart⟩ := htarget.resolve_right hroot
    have hkeep : (st.onServiceStopRequest replies h).life.target h = st.target h ∧
        (st.onServiceStopRequest replies h).life.promise h = st.promise h := by
      by_cases hr : h = st.layout.root
      · subst hr
        have hns : ¬ st.StopsRoot := fun hsr => hroot ⟨rfl, hsr, by simp [hstart]⟩
        have : st.onServiceStopRequest replies st.layout.root = st := by
          unfold onServiceStopRequest stopRoot
          rw [if_pos rfl]
          by_cases hstop : st.isClusterStopped st.layout.root = true
          · rw [if_pos hstop]
          · have hmark : st.isClusterMarkedForStop st.layout.root = true := by
              by_contra hmark
              exact hns ⟨by simpa using hstop, by simpa using hmark⟩
            rw [if_neg hstop, if_pos hmark]
        rw [this]
        exact ⟨rfl, rfl⟩
      · have : Life.Unmoved st.life h (st.onServiceStopRequest replies h).life :=
          onServiceStopRequest_unmoved hl hmem hr
        exact ⟨this.2.2.1, this.2.2.2⟩
    rw [← hkeep.2]
    exact Life.transitionTargetSet_canceled (by rw [hkeep.1, hstart]; simp)
      (by rw [hkeep.1, hstart]; simp)

lemma requestStop_canceled {replies : UsageId → ReleaseReply} {kept : Prop}
    (hl : st.life.Sound kept small []) (hnew : p ∉ st.reached)
    (hmem : s ∈ st.services) (hhead : st.layout.isClusterHead s = true) (hh : h ∈ st.life.heads)
    (htarget : (h = s ∧ st.target h = .start ∧ st.isClusterStopped s = false) ∨
      (s = st.layout.root ∧ st.StopsRoot ∧ st.target h ≠ .none)) :
    Life.Canceled (st.promise h) (st.requestStop replies s p).life := by
  have hcl : st.cluster s = s := hl.good.tree.cluster_of_isClusterHead hmem hhead
  have hsound := reach_sound hl hnew
  obtain ⟨o, ps, d, hset⟩ := setOverride_frame { st with reached := st.reached ++ [p] } s .none
  have hns : st.isClusterStopped s = false := by
    rcases htarget with ⟨-, -, h⟩ | ⟨rfl, h, -⟩
    · exact h
    · exact h.1
  simp only [requestStop]
  rw [if_neg (not_not.2 hmem), hset, if_neg (by simpa [Core.isClusterStopped] using hns)]
  generalize hst' : ({ st with
      reached := st.reached ++ [p], override := o, pushes := ps, down := d } : State) = st'
  have hc : Life.Canceled (st'.promise h)
      ((st'.onServiceStopRequest replies s).transitionTargetSet s .stop).life := by
    subst hst'
    exact stopRequest_canceled hsound hmem hcl hh (htarget.imp (fun h => ⟨h.1, h.2.1⟩) id)
  have hpromise : st'.promise = st.promise := by rw [← hst']
  rw [chainPromise_life, ← hpromise]
  exact hc

lemma immediateStop_canceled {replies : UsageId → ReleaseReply} {kept : Prop} {fl : List Promise}
    (hl : st.life.Sound kept small fl) (hr : st.StopsRoot) (hh : h ∈ st.life.heads)
    (hnone : st.target h ≠ .none) :
    Life.Canceled (st.promise h) (st.immediateStop replies st.layout.root).life := by
  have hrun := Life.Sound.root_running hl hr.1
  have hcl : st.cluster st.layout.root = st.layout.root := hl.good.tree.cluster_root
  obtain ⟨o, ps, d, hset⟩ := setOverride_frame st st.layout.root .none
  unfold immediateStop onServiceStopRequest
  rw [if_pos (.inr (.inr hrun)), hset, hcl, if_pos rfl]
  have hlife : ({ st with override := o, pushes := ps, down := d } :
      State).life.Sound kept small fl :=
    hl
  exact stopRoot_canceled hlife hr hh hnone

end State

/-! ### Every run -/

/-- The operation gives another target to the cluster, destroys it, or stops it together with the
root. -/
def Op.Retargets (st : State) (h : ServiceId) : Op → Prop
  | .requestStart s _ _ => h = s ∧ st.target h = .stop ∧ st.phase h ≠ .running
  | .requestStop _ s _ => (h = s ∧ st.target h = .start ∧ st.isClusterStopped s = false) ∨
      (s = st.layout.root ∧ st.StopsRoot ∧ st.target h ≠ .none)
  | .immediateStop _ s => s = st.layout.root ∧ st.StopsRoot ∧ st.target h ≠ .none
  | .destroy s => h = s ∧ st.target h ≠ .none
  | _ => False

/-- Every promise that was reached is completed once or still chained, and it was resolved only in
the state that it promises. -/
structure State.PromisesKept (st : State) : Prop where
  nodup : st.reached.Nodup
  conserved : st.reached.Perm (st.completed.map Completion.promise ++
    (st.services.filter st.layout.isClusterHead).flatMap st.promise)
  start_value : ∀ c ∈ st.completed, c.promise.kind = .start → c.outcome = .value →
    c.headRunning = true
  stop_value : ∀ c ∈ st.completed, c.promise.kind = .stop → c.outcome = .value → c.running = 0

theorem reachable_keeping_sound {L : Layout} (hst : (system L).Reachable KeepsPromises st) :
    st.life.Sound True False [] := by
  refine Machine.Reachable.invariant (P := fun st => st.life.Sound True False []) hst ?_ ?_
  · rintro st rfl
    exact initial_sound L True False
  · exact fun st op _ hl hp hk => exec_sound hl hp (fun _ => hk) False.elim

lemma Life.Sound.promisesKept (hl : st.life.Sound True small []) : st.PromisesKept := by
  have hheads : st.life.heads = st.services.filter st.layout.isClusterHead :=
    List.filter_congr fun s hs => by
      rw [Bool.eq_iff_iff, decide_eq_true_eq]
      exact (hl.good.tree.isClusterHead_iff hs).symm
  obtain ⟨hnodup, hperm⟩ := hl.conserved trivial
  refine ⟨hnodup, ?_, fun c hc hk ho => hl.resolved.start_value c hc ho hk,
    fun c hc hk ho => hl.resolved.stop_value c hc ho hk⟩
  rw [List.append_nil, Life.chained, hheads] at hperm
  exact hperm

/-- In a run that keeps promises, every promise is completed at most once and none is lost; it is
resolved only in the state it promises; and an operation that retargets a cluster cancels all
promises chained to it. -/
theorem promises_kept {L : Layout} (hst : (system L).Reachable KeepsPromises st) :
    st.PromisesKept ∧
      ∀ op : Op, op.Pre st → ∀ h ∈ st.services, st.layout.isClusterHead h = true →
        op.Retargets st h → ∀ p ∈ st.promise h,
          (∃ c ∈ (op.exec st).completed, c.promise = p ∧ c.outcome = .canceled) ∧
          ∀ c ∈ (op.exec st).completed, c.promise = p → c.outcome = .canceled := by
  have hl := reachable_keeping_sound hst
  refine ⟨Life.Sound.promisesKept hl, fun op hop h hh hhead hret p hp => ?_⟩
  have hheads : h ∈ st.life.heads :=
    Life.mem_heads.2 ⟨hh, hl.good.tree.cluster_of_isClusterHead hh hhead⟩
  have hcanceled : Life.Canceled (st.promise h) (op.exec st).life := by
    cases op with
    | requestStart s reason promise =>
      obtain ⟨rfl, htarget, hrun⟩ := hret
      exact requestStart_canceled hl.good.tree hh hhead htarget hrun
    | requestStop replies s promise =>
      have hs : s ∈ st.services := by
        rcases hret with ⟨rfl, -⟩ | ⟨rfl, -⟩
        · exact hh
        · exact hl.good.tree.root_mem
      exact requestStop_canceled hl hop.2.1 hs hop.1 hheads hret
    | immediateStop replies s =>
      obtain ⟨rfl, hr, hnone⟩ := hret
      exact immediateStop_canceled hl hr hheads hnone
    | destroy s =>
      obtain ⟨rfl, hnone⟩ := hret
      exact destroy_canceled hl.good.tree hh hhead hnone
    | _ => exact hret.elim
  refine ⟨hcanceled p hp, fun c hc hcp => ?_⟩
  -- the promise was completed once, and that was when it was cancelled
  have hkeeps : KeepsPromises st op := by
    cases op with
    | destroy s =>
      obtain ⟨rfl, hnone⟩ := hret
      exact fun _ h => absurd h hnone
    | _ => trivial
  have hkept := Life.Sound.promisesKept (exec_sound hl hop (fun _ => hkeeps) False.elim)
  have hnodup := (hkept.conserved.nodup_iff.1 hkept.nodup).of_append_left
  obtain ⟨d, hd, hdp, hdo⟩ := hcanceled p hp
  rw [List.inj_on_of_nodup_map hnodup hc hd (hcp.trans hdp.symm)]
  exact hdo

/-- A stop request cancels the promise of the start that is still going on. -/
theorem promises_kept_startingRun :
    (State.after .flat startingRun).PromisesKept ∧
      ∀ c ∈ (Op.exec (State.after .flat startingRun)
          (.requestStop (fun _ => .never) 1 ⟨1, .stop⟩)).completed,
        c.promise = ⟨0, .start⟩ → c.outcome = .canceled := by
  have hst : (system .flat).Reachable KeepsPromises (State.after .flat startingRun) :=
    Machine.Reachable.run (.init rfl) (by decide)
  have h := promises_kept hst
  exact ⟨h.1, (h.2 (.requestStop (fun _ => .never) 1 ⟨1, .stop⟩) (by decide) 1 (by decide)
    (by decide) (.inl ⟨rfl, by decide, by decide⟩) ⟨0, .start⟩ (by decide)).2⟩

/-- A service is observed and destroyed. -/
def observedRun : List Op := [.init 1, .requestObserve 1 ⟨0, .observe⟩, .destroy 1]

/-- The promise of the observer is gone: it was neither completed nor is it chained. -/
theorem observedRun_drops_promise :
    Reachable .flat (State.after .flat observedRun) ∧
      ⟨0, .observe⟩ ∈ (State.after .flat observedRun).reached ∧
      (State.after .flat observedRun).completed = [] ∧
      (State.after .flat observedRun).promise 1 = [] ∧
      ¬ (State.after .flat observedRun).PromisesKept := by
  refine ⟨Machine.Reachable.run (.init rfl) (by decide), by decide, by decide, by decide, ?_⟩
  exact fun h => absurd h.conserved (by decide)

end Idle
