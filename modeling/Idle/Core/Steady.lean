import Idle.Core.Checks

/-!
# What the handlers keep

Most handlers neither start nor stop a service: they move marks, promises and counters, and report
what can be started or stopped by that. `Steady` lists what a property of the core has to survive
to be kept by them, and by what the other handlers do besides the change of a phase.
-/

namespace Idle

namespace State

variable {st st' : State} {s h me : ServiceId} {small : Prop}

/-- What is counted inside the clusters, the queue, the graph and the phases stay the same. -/
structure Aside (st st' : State) : Prop where
  topology : st'.toTopology = st.toTopology
  phase : st'.phase = st.phase
  inner : st'.innerDepsMissing = st.innerDepsMissing
  down : st'.down = st.down
  up : st'.up = st.up

/-- The members of a cluster are unlocked. Whoever they used may be stopped after that. -/
structure Unlocks (ms : List ServiceId) (st st' : State) : Prop where
  frame : ∃ phase uses ranOut changes down, st' = { st with
    toCore := { st.toCore with
      phase := phase, uses := uses, usesRanOut := ranOut, changes := changes }
    down := down }
  phase : ∀ s, st'.phase s = if s ∈ ms then .stopped else st.phase s
  down_mono : ∀ s ∈ st.down, s ∈ st'.down
  down_new : ∀ s ∈ st'.down, s ∈ st.down ∨ st.phase s = .running
  down_nodup : st.down.Nodup → st'.down.Nodup
  ends : ∀ s, st'.Ends s → st.Ends s ∨ s ∈ st'.down

/-- What a property has to survive. That all members of a cluster are pending when it is unlocked
is only known of `small` clusters. -/
structure Steady (small : Prop) (Q : State → Prop) : Prop where
  wf : ∀ {st : State}, Q st → st.WellFormed
  aside : ∀ {st st' : State}, Q st → Aside st st' → Q st'
  checks : ∀ {st st' : State}, Q st → Checks st st' → Q st'
  stirs : ∀ {st st' : State}, Q st → Stirs st st' → Q st'
  usages_append : ∀ {st : State} {use : Usage}, Q st → st.CanConnect use →
    Q { st with usages := st.usages ++ [use] }
  usages_erase : ∀ {st : State} (use : Usage), Q st → Q { st with usages := st.usages.erase use }
  queue_nil : ∀ {st : State}, Q st → Q { st with down := [], up := [] }
  pend : ∀ {st : State} {me : ServiceId}, Q st → st.phase me = .stopping →
    Q { st with toCore := st.toCore.transition me .stopping .pending }
  unlocks : ∀ {st st' : State} {ms : List ServiceId}, Q st → Unlocks ms st st' →
    (∀ m ∈ ms, (st.phase m).isLocked = true) → (small → ∀ m ∈ ms, st.phase m = .pending) → Q st'

lemma ite_kept {Q : State → Prop} {c : Prop} [Decidable c] (hf : Q st → Q st') (h : Q st) :
    Q (if c then st' else st) := by
  split
  · exact hf h
  · exact h

/-! ### Starting -/

lemma startable_reports (st : State) (s : ServiceId) (ht : st.IsTree)
    (h : st.isStartable s = true) :
    Reports st (st.onServiceStartable s) ∧ s ∈ (st.onServiceStartable s).up :=
  onServiceStartable_reports ht h

/-- Only the service that is started leaves its phase, apart from those that are locked. -/
lemma doStartEager_phase (hg : st.life.Good small) (hs : me ∈ st.services)
    (hp : st.phase me = .locked ∨ st.phase me = .stopped) {t : ServiceId} (ht : t ≠ me) :
    (st.doStartEager me).phase t = st.phase t ∨
      st.phase t = .stopped ∧ (st.doStartEager me).phase t = .locked := by
  have hphase : (st.doStartEager me).phase = (st.doStartEager me).life.phase := rfl
  rcases hp with hp | hp
  · rw [hphase, doStartEager_life_locked hp]
    exact .inl (Function.update_of_ne ht _ _)
  · rw [hphase, doStartEager_life_stopped hg.tree hs hp]
    have hne : (st.life.mapPhases fun l => (l.lock (l.cluster me)).transition me .locked
        .starting).phase t = (st.life.lock (st.cluster me)).phase t := Function.update_of_ne ht _ _
    rw [hne]
    obtain ⟨hh, hhh⟩ := Life.mem_heads.1 (Life.Sound.cluster_mem_heads hg hs)
    by_cases htm : t ∈ st.life.clusterMembers (st.cluster me)
    · obtain ⟨htm', hcl⟩ := (hg.tree.mem_clusterMembers hh hhh).1 htm
      exact .inr ⟨(hg.stopped hs hp).2 t htm' hcl, if_pos htm⟩
    · exact .inl (if_neg htm)

lemma StartFrame.topology (h : StartFrame st st') : st'.toTopology = st.toTopology := by
  obtain ⟨p, u, g, c, r, rfl⟩ := h
  rfl

lemma StartFrame.queue (h : StartFrame st st') : st'.down = st.down ∧ st'.up = st.up := by
  obtain ⟨p, u, g, c, r, rfl⟩ := h
  exact ⟨rfl, rfl⟩

lemma StartFrame.inner (h : StartFrame st st') : st'.innerDepsMissing = st.innerDepsMissing := by
  obtain ⟨p, u, g, c, r, rfl⟩ := h
  rfl

/-- The service while its start is reported. -/
def startedCore (st : State) (me : ServiceId) : State :=
  ({ st with toCore := st.toCore.transition me .starting .running } :
    State).callOnOuterDelayedOutgoingIncrement me

lemma startedCore_life (st : State) (me : ServiceId) :
    (st.startedCore me).life = st.life.mapPhases (·.transition me .starting .running) :=
  callOnOuterDelayedOutgoingIncrement_life _ me

lemma startedCore_frame (st : State) (me : ServiceId) : StartFrame st (st.startedCore me) :=
  StartFrame.trans ⟨_, _, _, _, _, rfl⟩ (callOnOuterDelayedOutgoingIncrement_frame _ me)

lemma startedCore_phase (st : State) (me : ServiceId) :
    (st.startedCore me).phase = Function.update st.phase me .running :=
  congrArg (fun l => l.phase) (startedCore_life st me)

/-- The end of `post_start_actions`. -/
def startSettled (st : State) (me : ServiceId) : State :=
  if !st.shallClusterStop me then
    if st.layout.isClusterHead me then st.doFinalizeCluster me else st
  else st.pushDown me

lemma postStartActions_eq (k : State → ServiceId → State) (st : State) (me : ServiceId) :
    st.postStartActions k me = ((st.startedCore me).callOnRequiredDecrement k me).startSettled me :=
  rfl

lemma doFinalizeCluster_frame (st : State) (me : ServiceId) :
    ∃ target promise completed, st.doFinalizeCluster me =
      { st.doMarkClusterForStart me false with
        target := target, promise := promise, completed := completed } := by
  unfold doFinalizeCluster transitionTargetCompleteIf
  split
  · exact ⟨_, _, _, rfl⟩
  · exact ⟨_, _, _, rfl⟩

lemma innerDecremented_phase (st : State) (me : ServiceId) :
    (st.innerDecremented me).phase = st.phase ∧
      (st.innerDecremented me).toTopology = st.toTopology := by
  unfold innerDecremented
  split
  · exact ⟨rfl, rfl⟩
  · exact ⟨rfl, rfl⟩

lemma Stirs.keeps_running (h : Stirs st st') (hp : st.phase s = .running) :
    st'.phase s = .running := by
  by_cases hr : s = st.layout.root
  · subst hr
    exact h.running hp
  · rw [h.phase_eq hr, hp]

/-! ### Stopping -/

/-- By induction on the members, each of which uses its dependencies until it is unlocked. -/
lemma foldl_unlockMember_unlocks (ms : List ServiceId) (st : State) :
    Unlocks ms st (ms.foldl unlockMember st) := by
  induction ms generalizing st with
  | nil =>
    exact ⟨⟨_, _, _, _, _, rfl⟩, fun s => by simp, fun _ h => h, fun _ h => .inl h, id,
      fun _ h => .inl h⟩
  | cons m ms ih =>
    have hdrops := callOnOuterOutgoingDecrement_drops st m
    have hphase := hdrops.phase
    have hshall := hdrops.shallClusterStop
    have hrest := ih (st.unlockMember m)
    rw [List.foldl_cons]
    have heq : st.unlockMember m = { st.callOnOuterOutgoingDecrement m with
        toCore := (st.callOnOuterOutgoingDecrement m).toCore.transition m .pending .stopped } := rfl
    generalize st.callOnOuterOutgoingDecrement m = st₁ at hdrops hphase hshall heq
    have hphase₂ : (st.unlockMember m).phase = Function.update st.phase m .stopped := by
      rw [heq, ← hphase]
      rfl
    have hdown₂ : (st.unlockMember m).down = st₁.down := by rw [heq]
    -- a service that ends is running, so it is not the member unlocked here
    have hends₂ : ∀ s, (st.unlockMember m).Ends s → st₁.Ends s := by
      intro s hs
      have hsm : s ≠ m := by
        rintro rfl
        have hrun := hs.1
        rw [hphase₂, Function.update_self] at hrun
        exact absurd hrun (by decide)
      refine ⟨?_, ?_, ?_⟩
      · have hrun := hs.1
        rwa [hphase₂, Function.update_of_ne hsm, ← hphase] at hrun
      · rw [← hs.2.1, heq]
        rfl
      · rw [← hs.2.2, heq]
        rfl
    -- the rest of the members starts where this one has ended
    obtain ⟨u, r, p, d, rfl⟩ := hdrops.frame
    have hp : p = st.pushes := hdrops.pushes
    subst hp
    refine ⟨?_, fun s => ?_, fun s hs => ?_, fun s hs => ?_, fun hq => ?_, fun s hs => ?_⟩
    · obtain ⟨p', u', r', c', d', h⟩ := hrest.frame
      rw [heq] at h ⊢
      exact ⟨_, _, _, _, _, h⟩
    · rw [hrest.phase, hphase₂]
      by_cases hsm : s = m
      · simp [hsm]
      · simp [hsm]
    · exact hrest.down_mono s (hdown₂ ▸ hdrops.down_mono s hs)
    · rcases hrest.down_new s hs with hs | hs
      · exact hdrops.down_new s (hdown₂ ▸ hs)
      · rw [hphase₂] at hs
        by_cases hsm : s = m
        · rw [hsm, Function.update_self] at hs
          exact absurd hs (by decide)
        · rw [Function.update_of_ne hsm] at hs
          exact .inr hs
    · exact hrest.down_nodup (hdown₂ ▸ hdrops.down_nodup hq)
    · rcases hrest.ends s hs with hs | hs
      · rcases hdrops.ends s (hends₂ s hs) with hs | hs
        · exact .inl hs
        · exact .inr (hrest.down_mono s (hdown₂ ▸ hs))
      · exact .inr hs

lemma Unlocks.topology {ms : List ServiceId} (h : Unlocks ms st st') :
    st'.toTopology = st.toTopology := by
  obtain ⟨p, u, r, c, d, rfl⟩ := h.frame
  rfl

lemma transitionTargetCompleteIf_frame (st : State) (me : ServiceId) (target : Target) :
    ∃ target' promise completed, st.transitionTargetCompleteIf me target =
      { st with target := target', promise := promise, completed := completed } := by
  unfold transitionTargetCompleteIf
  split
  · exact ⟨_, _, _, rfl⟩
  · exact ⟨_, _, _, rfl⟩

lemma transitionTargetSet_frame (st : State) (me : ServiceId) (target : Target) :
    ∃ target' promise completed, st.transitionTargetSet me target =
      { st with target := target', promise := promise, completed := completed } := by
  unfold transitionTargetSet
  simp only
  split
  · split
    · exact ⟨_, _, _, rfl⟩
    · exact ⟨_, _, _, rfl⟩
  · exact ⟨_, _, _, rfl⟩

/-! ### Processing -/

/-- What a round takes from the queue, `down_` first. -/
lemma pop_eq_some (h : st.pop = some (s, st')) :
    (st.down = st'.down ++ [s] ∧ st' = { st with down := st'.down }) ∨
      (st.down = [] ∧ st.up = st'.up ++ [s] ∧ st' = { st with up := st'.up }) := by
  unfold pop at h
  split at h
  · rename_i hlast
    cases h
    exact .inl ⟨(List.dropLast_append_getLast? _ hlast).symm, rfl⟩
  · rename_i hlast
    split at h
    · rename_i hlast'
      cases h
      exact .inr ⟨List.getLast?_eq_none_iff.1 hlast,
        (List.dropLast_append_getLast? _ hlast').symm, rfl⟩
    · cases h

lemma pop_topology (h : st.pop = some (s, st')) :
    st'.toTopology = st.toTopology ∧ st'.phase = st.phase := by
  rcases pop_eq_some h with ⟨-, h⟩ | ⟨-, -, h⟩
  · rw [h]
    exact ⟨rfl, rfl⟩
  · rw [h]
    exact ⟨rfl, rfl⟩

lemma mem_services_of_locked (hg : st.life.Good small)
    (hp : st.phase me = .locked ∨ st.phase me = .stopped ∨ st.phase me = .running) :
    me ∈ st.services := by
  refine Life.Sound.mem_services hg ?_
  have hphase : st.life.phase me = st.phase me := rfl
  rw [hphase]
  rcases hp with hp | hp | hp <;> rw [hp] <;> rfl

lemma trySetServiceStopping_eq_some (h : st.trySetServiceStopping me = some st') :
    st.uses me = 1 ∧ st' = { st with
      toCore := { st.toCore.transition me .running .stopping with
        uses := Function.update st.uses me 0 } } := by
  unfold trySetServiceStopping at h
  split at h
  · rename_i hu
    cases h
    exact ⟨beq_iff_eq.1 hu, rfl⟩
  · cases h

lemma isStoppable_running (h : st.isStoppable me = true) : st.phase me = .running := by
  simp only [Core.isStoppable, Bool.and_eq_true, Phase.isRunning_iff] at h
  exact h.1

/-- A round does nothing with what it takes from the queue, or stops or starts it. -/
lemma process_cases (st : State) (ready : Bool) :
    st.pop = none ∧ st.process ready = st ∨
    ∃ changing popped, st.pop = some (changing, popped) ∧
      (st.process ready = popped ∨
        (∃ stopping, popped.isStoppable changing = true ∧
          popped.trySetServiceStopping changing = some stopping ∧
          st.process ready = stopping.tryStopServiceInplace changing ready) ∨
        popped.isStartable changing = true ∧
          st.process ready = popped.tryStartServiceInplace changing ready) := by
  unfold process
  split
  · rename_i changing popped hpop
    refine .inr ⟨changing, popped, hpop, ?_⟩
    unfold processService
    split
    · split
      · rename_i hstop
        split
        · rename_i stopping hset
          exact .inr (.inl ⟨stopping, hstop, hset, rfl⟩)
        · exact .inl rfl
      · exact .inl rfl
    · split
      · split
        · rename_i hstart
          exact .inr (.inr ⟨hstart, rfl⟩)
        · exact .inl rfl
      · exact .inl rfl
  · rename_i hpop
    exact .inl ⟨hpop, rfl⟩

/-- What is stopped was running, and is stopping from then on. -/
lemma stopping_spec (hg : st.life.Good small) (h : st.isStoppable me = true)
    (hst : st.trySetServiceStopping me = some st') :
    st'.life.Good small ∧ me ∈ st'.services ∧
      st'.phase = Function.update st.phase me .stopping := by
  have hp := isStoppable_running h
  have hs := mem_services_of_locked hg (.inr (.inr hp))
  refine ⟨?_, ?_, ?_⟩
  · rw [trySetServiceStopping_life hst]
    exact hg.advance hs hp rfl (by decide) (by decide) (by decide)
  · rw [(trySetServiceStopping_eq_some hst).2]
    exact hs
  · rw [(trySetServiceStopping_eq_some hst).2]
    rfl

/-! ### Services come and go -/

lemma canDestroy_congr (ht : st'.toTopology = st.toTopology) (hp : st'.phase s = st.phase s)
    (hs : st.CanDestroy s) : st'.CanDestroy s := by
  unfold CanDestroy at hs ⊢
  rwa [ht, hp]

/-- `on_service_del` up to what is missing without the service. -/
def deleting (k : State → ServiceId → State) (st : State) (me : ServiceId) : State :=
  if st.layout.isClusterHead me then
    (st.setOverride me .none).doMarkClusterForStop k me false
  else
    let st := if st.isClusterPushed me then
      (st.inEdges .externalGraph me).foldl
        (fun st e => st.callOnClusterPushesDecrement (e.source st.layout) (some me)) st
      else st
    if st.isClusterMarkedForStop me then
      (st.outEdges .externalGraph me).foldl
        (fun st e => st.onClusterPullsDecrement k (e.target st.layout)) st
    else st

lemma onServiceDel_eq (k : State → ServiceId → State) (st : State) (me : ServiceId) :
    st.onServiceDel k me = (st.deleting k me).callOnRequiredDecrement k me := rfl

/-- A member that is destroyed has no edges to other clusters. -/
lemma deleting_eq (k : State → ServiceId → State) (hw : st.WellFormed) (hs : st.CanDestroy s) :
    st.deleting k s = if st.layout.isClusterHead s then
      (st.setOverride s .none).doMarkClusterForStop k s false else st := by
  obtain ⟨hmem, -, -, hchild, husages⟩ := hs
  unfold deleting
  simp only
  by_cases hh : st.layout.isClusterHead s = true
  · rw [if_pos hh, if_pos hh]
  · rw [if_neg hh, if_neg hh]
    have hin := inEdges_external_of_isMember hw hmem (Bool.eq_false_iff.2 hh)
      fun u hu => (husages u hu).2
    have hout := outEdges_external_of_unused hw hchild fun u hu => (husages u hu).1
    rw [hin, List.foldl_nil, ite_self, hout, List.foldl_nil, ite_self]

/-! ### Requests -/

lemma insertIntoQueueIfStartable_stirs (st : State) (h : ServiceId) :
    Stirs st (st.insertIntoQueueIfStartable h) := by
  unfold insertIntoQueueIfStartable
  split
  · refine List.foldlRecOn (motive := fun x : State => Stirs st x) _ _ (.refl st)
      fun x hx m _ => ?_
    split
    · rename_i hstart
      exact hx.trans (pushUp_reports (isStartable_phase hstart)).1.toStirs
    · exact hx
  · exact .refl st

lemma pushDown_checks (h : st.isStoppable s = true) : Checks st (st.pushDown s) := by
  refine ⟨⟨_, _, _, _, rfl⟩, fun t ht => mem_insertSorted.2 (.inr ht), fun t ht => ?_,
    fun hq => nodup_insertSorted hq s⟩
  rcases mem_insertSorted.1 ht with rfl | ht
  · exact .inr (isStoppable_running h)
  · exact .inl ht

lemma completeNow_aside (st : State) (s : ServiceId) (p : Promise) (outcome : Outcome) :
    Aside st (st.completeNow s p outcome) := ⟨rfl, rfl, rfl, rfl, rfl⟩

lemma chainPromise_aside (st : State) (s : ServiceId) (p : Promise) :
    Aside st (st.chainPromise s p) := ⟨rfl, rfl, rfl, rfl, rfl⟩

namespace Steady

variable {Q : State → Prop} (hQ : Steady small Q)
include hQ

/-! ### The ends of the handlers -/

lemma setOverride (h : Q st) (s : ServiceId) (mode : Override) : Q (st.setOverride s mode) := by
  obtain ⟨o, hchecks⟩ := setOverride_checks st s mode
  have ho : Q { st with override := o } := hQ.aside h ⟨rfl, rfl, rfl, rfl, rfl⟩
  exact hQ.checks ho hchecks

lemma transitionTargetSet (h : Q st) (s : ServiceId) (target : Target) :
    Q (st.transitionTargetSet s target) := by
  obtain ⟨t, p, c, heq⟩ := transitionTargetSet_frame st s target
  rw [heq]
  exact hQ.aside h ⟨rfl, rfl, rfl, rfl, rfl⟩

lemma startSettled (h : Q st) (hp : st.phase me = .running) : Q (st.startSettled me) := by
  unfold State.startSettled
  split
  · split
    · obtain ⟨t, p, c, heq⟩ := doFinalizeCluster_frame st me
      rw [heq]
      exact hQ.aside h ⟨rfl, rfl, rfl, rfl, rfl⟩
    · exact h
  · refine hQ.checks h ⟨⟨_, _, _, _, rfl⟩, fun s hs => mem_insertSorted.2 (.inr hs), fun s hs => ?_,
      fun hd => nodup_insertSorted hd me⟩
    rcases mem_insertSorted.1 hs with rfl | hs
    · exact .inr hp
    · exact .inl hs

/-- What is left of a start when the service is running and not missing any more. -/
lemma postStartActions (h : Q ((st.startedCore me).innerDecremented me)) :
    Q (st.postStartActions onServiceStartable me) := by
  rw [postStartActions_eq]
  have hrun : (st.startedCore me).phase me = .running := by
    rw [startedCore_phase, Function.update_self]
  obtain ⟨hphase, htop⟩ := innerDecremented_phase (st.startedCore me) me
  have ht : (st.startedCore me).IsTree := htop ▸ (hQ.wf h).toIsTree
  generalize st.startedCore me = st₁ at h hrun hphase ht
  obtain ⟨hrep, -⟩ := callOnRequiredDecrement_reports startable_reports ht me
  refine hQ.startSettled (hQ.stirs h hrep.toStirs) (hrep.keeps_running ?_)
  rw [hphase, hrun]

lemma doUnlockCluster (hst : Q st)
    (hlocked : ∀ m ∈ st.clusterMembers h, (st.phase m).isLocked = true)
    (hpending : small → ∀ m ∈ st.clusterMembers h, st.phase m = .pending) :
    Q (st.doUnlockCluster onServiceStartable h) := by
  have h₁ := hQ.unlocks hst (foldl_unlockMember_unlocks (st.clusterMembers h) st) hlocked hpending
  unfold State.doUnlockCluster
  simp only
  generalize (st.clusterMembers h).foldl unlockMember st = st₁ at h₁
  have h₂ : Q (st₁.transitionTargetCompleteIf h .stop) := by
    obtain ⟨t, p, c, heq⟩ := transitionTargetCompleteIf_frame st₁ h .stop
    rw [heq]
    exact hQ.aside h₁ ⟨rfl, rfl, rfl, rfl, rfl⟩
  generalize st₁.transitionTargetCompleteIf h .stop = st₂ at h₂
  have h₃ : Q (st₂.unmarked h) := hQ.aside h₂ ⟨rfl, rfl, rfl, rfl, rfl⟩
  have h₄ := hQ.stirs h₃ (doMarkClusterForStop_stirs startable_reports (hQ.wf h₂).toIsTree)
  generalize st₂.doMarkClusterForStop onServiceStartable h false = st₃ at h₄
  split
  · exact hQ.aside h₄ ⟨rfl, rfl, rfl, rfl, rfl⟩
  · exact h₄

lemma postStopActions (h : Q st) (hg : st.life.Good small) (hs : me ∈ st.services)
    (hp : st.phase me = .stopping) : Q (st.postStopActions onServiceStartable me) := by
  have hdrops := callOnInnerOutgoingDecrement_drops st me
  have hlife := callOnInnerOutgoingDecrement_life st me
  unfold State.postStopActions
  simp only
  generalize st.callOnInnerOutgoingDecrement me = st₁ at hdrops hlife
  have hp₁ : st₁.phase me = .stopping := by rw [hdrops.phase, hp]
  have h₂ := hQ.pend (hQ.checks h hdrops.toChecks) hp₁
  unfold callOnClusterRunningDecrement
  simp only
  split
  · rename_i h0
    have hs₁ : me ∈ st₁.life.services := hlife ▸ hs
    have hg₁ : st₁.life.Good small := hlife ▸ hg
    have h0 : (st₁.life.pend me).running (st₁.life.cluster me) = 0 := by
      simpa [Core.transition, Phases.pend, life] using h0
    obtain ⟨hh, hhh⟩ := Life.mem_heads.1 (Life.Sound.cluster_mem_heads hg₁ hs₁)
    have hmem := fun m => hg₁.tree.mem_clusterMembers (t := m) hh hhh
    refine hQ.doUnlockCluster (hQ.aside h₂ ⟨rfl, rfl, rfl, rfl, rfl⟩) (fun m hm => ?_)
      fun hsmall m hm => ?_
    · obtain ⟨hm, hcl⟩ := (hmem m).1 hm
      exact (hg₁.pend_count hs₁ hp₁).2.1 m hm hcl
    · obtain ⟨hm, hcl⟩ := (hmem m).1 hm
      exact hg₁.all_pending hs₁ hp₁ (.inl hsmall) h0 hm hcl
  · exact hQ.aside h₂ ⟨rfl, rfl, rfl, rfl, rfl⟩

/-- What is left of a stop when the service above knows that it is missing. -/
lemma tryStopServiceInplace {ready : Bool} (h : Q (st.doStopEager me)) (hg : st.life.Good small)
    (hs : me ∈ st.services) (hp : st.phase me = .stopping) :
    Q (st.tryStopServiceInplace me ready) := by
  have hlife := doStopEager_life st me
  unfold State.tryStopServiceInplace
  simp only
  generalize st.doStopEager me = st₁ at h hlife
  split
  · refine hQ.postStopActions h (hlife ▸ hg) ?_ ?_
    · have hservices := congrArg (fun l => l.services) hlife
      exact hservices ▸ hs
    · exact (congrArg (fun l => l.phase me) hlife).trans hp
  · exact h

/-- What is left of the destruction of a service that is only missing in the service above it. -/
lemma deleting (h : Q st) (hs : st.CanDestroy s) : Q (st.deleting onServiceStartable s) ∧
    (st.deleting onServiceStartable s).toTopology = st.toTopology ∧
    (st.deleting onServiceStartable s).phase s = .stopped := by
  rw [deleting_eq onServiceStartable (hQ.wf h) hs]
  split
  · obtain ⟨o, hchecks⟩ := setOverride_checks st s .none
    have h₁ := hQ.setOverride h s .none
    have htop₁ : (st.setOverride s .none).toTopology = st.toTopology := hchecks.topology
    have hp₁ : (st.setOverride s .none).phase = st.phase := hchecks.phase
    generalize st.setOverride s .none = st₁ at h₁ htop₁ hp₁
    have hstirs := doMarkClusterForStop_stirs startable_reports (hQ.wf h₁).toIsTree (h := s)
    have h₂ : Q (st₁.unmarked s) := hQ.aside h₁ ⟨rfl, rfl, rfl, rfl, rfl⟩
    refine ⟨hQ.stirs h₂ hstirs, (topology_of_away hstirs.away).trans htop₁, ?_⟩
    have hroot : (st₁.unmarked s).layout.root = st.layout.root := congrArg (·.layout.root) htop₁
    rw [hstirs.phase_eq (hroot ▸ hs.2.1)]
    exact (congrFun hp₁ s).trans hs.2.2.1
  · exact ⟨h, rfl, hs.2.2.1⟩

/-! ### Usages and imports -/

lemma disconnect (h : Q st) (use : Usage) : Q (st.disconnect onServiceStartable use) := by
  have h₁ : Q (st.onUsageDisconnect onServiceStartable use) := by
    refine ite_kept (fun h => hQ.checks h (onOutgoingDecrement_drops _ _).toChecks) ?_
    refine ite_kept (fun h => hQ.stirs h
      (onOuterRequiredDecrement_reports startable_reports (hQ.wf h).toIsTree).toStirs) ?_
    refine ite_kept (fun h => hQ.checks h (callOnClusterPushesDecrement_checks _ _ _)) ?_
    exact ite_kept (fun h => hQ.stirs h
      (onClusterPullsDecrement_stirs startable_reports (hQ.wf h).toIsTree)) h
  unfold State.disconnect
  generalize st.onUsageDisconnect onServiceStartable use = st₁ at h₁
  exact hQ.aside (hQ.usages_erase use h₁) ⟨rfl, rfl, rfl, rfl, rfl⟩

lemma connect (h : Q st) {use : Usage} (hu : st.CanConnect use) : Q (st.connect use) := by
  have h₁ : Q { st with
      usages := st.usages ++ [use]
      held := Function.update st.held use.id false
      releaseRequested := Function.update st.releaseRequested use.id false } :=
    hQ.aside (hQ.usages_append h hu) ⟨rfl, rfl, rfl, rfl, rfl⟩
  unfold State.connect
  simp only
  generalize ({ st with
    usages := st.usages ++ [use]
    held := Function.update st.held use.id false
    releaseRequested := Function.update st.releaseRequested use.id false } : State) = st₁ at h₁
  refine ite_kept (fun h => hQ.aside h ⟨rfl, rfl, rfl, rfl, rfl⟩) ?_
  refine ite_kept (fun h => hQ.checks h (callOnClusterPushesIncrement_checks _ _ _)) ?_
  refine ite_kept (fun h => hQ.aside h ⟨rfl, rfl, rfl, rfl, rfl⟩) ?_
  exact ite_kept (fun h => hQ.aside h ⟨rfl, rfl, rfl, rfl, rfl⟩) h₁

lemma setSatisfied (h : Q st) (imp : Part) (satisfied : Bool) :
    Q (st.setSatisfied onServiceStartable imp satisfied) := by
  refine ite_kept (fun _ => ?_) h
  have h₁ : Q { st with satisfied := Function.update st.satisfied imp satisfied } :=
    hQ.aside h ⟨rfl, rfl, rfl, rfl, rfl⟩
  generalize ({ st with satisfied := Function.update st.satisfied imp satisfied } : State) = st₁
    at h₁
  simp only
  split
  · exact hQ.stirs h₁
      (onOuterRequiredDecrement_reports startable_reports (hQ.wf h₁).toIsTree).toStirs
  · exact hQ.aside h₁ ⟨rfl, rfl, rfl, rfl, rfl⟩

/-! ### Requests -/

lemma onServiceStartRequest (h : Q st) (s : ServiceId) : Q (st.onServiceStartRequest s) := by
  refine Search.dfs_keeps (P := Q) (fun x v h => ?_) (fun x e h => ?_) h
  · have h₁ : Q (x.doMarkClusterForStart v true) := hQ.aside h ⟨rfl, rfl, rfl, rfl, rfl⟩
    exact hQ.stirs h₁ (insertIntoQueueIfStartable_stirs _ v)
  · simp only [startSearch]
    split
    · exact h
    · exact hQ.stirs h (insertIntoQueueIfStartable_stirs x _)

lemma doMarkClusterForStop_true (hst : Q st) (h : ServiceId) :
    Q (st.doMarkClusterForStop onServiceStartable h true) := by
  unfold State.doMarkClusterForStop
  split
  · simp only [if_true]
    obtain ⟨p, heq⟩ := callOnClusterPullsIncrement_frame { st with
      isMarkedForStop := Function.update st.isMarkedForStop (st.cluster h) true } h
    rw [heq]
    exact hQ.aside hst ⟨rfl, rfl, rfl, rfl, rfl⟩
  · exact hst

section Replies

variable {replies : UsageId → ReleaseReply}

lemma requestRelease (h : Q st) (use : Usage) : Q (st.requestRelease replies use).2 := by
  unfold State.requestRelease
  split
  · exact h
  · split
    · exact h
    · exact hQ.disconnect h use
    · exact hQ.aside h ⟨rfl, rfl, rfl, rfl, rfl⟩

lemma stopFilter (h : Q st) (e : Edge) : Q (st.stopFilter replies e).2 := by
  unfold State.stopFilter
  cases e with
  | inner s => exact h
  | child s => exact h
  | usage use =>
    have hrel : Q (st.requestRelease replies use).2 := hQ.requestRelease h use
    simp only
    split
    · split
      all_goals
        rename_i heq
        rw [heq] at hrel
        exact hrel
    · exact h

lemma stopRootCluster (hst : Q st) (h : ServiceId) : Q (st.stopRootCluster replies h) := by
  have h₁ : Q (if (st.phase h).isLocked then st.releaseWeakUsages replies h else st) := by
    refine ite_kept (fun hst => ?_) hst
    refine List.foldlRecOn (motive := fun x : State => Q x) _ _ hst fun x hx use _ => ?_
    exact ite_kept (fun hx => hQ.requestRelease hx use) hx
  unfold State.stopRootCluster
  simp only
  generalize (if (st.phase h).isLocked then st.releaseWeakUsages replies h else st) = st₁ at h₁
  have h₂ := hQ.transitionTargetSet (hQ.setOverride h₁ h .none) h .none
  generalize (st₁.setOverride h .none).transitionTargetSet h .none = st₂ at h₂
  have h₃ : Q (st₂.doMarkClusterForStart h false) := hQ.aside h₂ ⟨rfl, rfl, rfl, rfl, rfl⟩
  generalize st₂.doMarkClusterForStart h false = st₃ at h₃
  split
  · have h₄ := hQ.doMarkClusterForStop_true h₃ h
    generalize st₃.doMarkClusterForStop onServiceStartable h true = st₄ at h₄
    split
    · rename_i hstop
      exact hQ.checks h₄ (pushDown_checks hstop)
    · exact h₄
  · exact h₃

lemma onServiceStopRequest (h : Q st) (s : ServiceId) : Q (st.onServiceStopRequest replies s) := by
  unfold State.onServiceStopRequest
  split
  · unfold stopRoot
    split
    · exact h
    · split
      · exact h
      · exact List.foldlRecOn (motive := fun x : State => Q x) _ _ (hQ.queue_nil h)
          fun x hx h _ => hQ.stopRootCluster hx h
  · refine Search.dfs_keeps (P := Q) (fun x v h => ?_) (fun x e h => hQ.stopFilter h e) h
    have h₁ := hQ.doMarkClusterForStop_true h v
    simp only [stopSearch, insertIntoQueueIfStoppable]
    generalize x.doMarkClusterForStop onServiceStartable v true = x₁ at h₁
    split
    · rename_i hstop
      exact hQ.checks h₁ (pushDown_checks hstop)
    · exact h₁

lemma requestStop (h : Q st) (s : ServiceId) (p : Promise) : Q (st.requestStop replies s p) := by
  have h₁ : Q { st with reached := st.reached ++ [p] } := hQ.aside h ⟨rfl, rfl, rfl, rfl, rfl⟩
  unfold State.requestStop
  simp only
  generalize ({ st with reached := st.reached ++ [p] } : State) = st₁ at h₁
  have h₂ := hQ.setOverride h₁ s .none
  generalize st₁.setOverride s .none = st₂ at h₂
  split
  · exact hQ.aside h₁ (completeNow_aside ..)
  · split
    · exact hQ.aside h₂ (completeNow_aside ..)
    · have h₃ : Q (st₂.onServiceStopRequest replies s) := hQ.onServiceStopRequest h₂ s
      have h₃ := hQ.transitionTargetSet h₃ s .stop
      exact hQ.aside h₃ (chainPromise_aside ..)

end Replies

lemma requestStart (h : Q st) (s : ServiceId) (reason : Reason) (p : Promise) :
    Q (st.requestStart s reason p) := by
  have h₁ : Q { st with reached := st.reached ++ [p] } := hQ.aside h ⟨rfl, rfl, rfl, rfl, rfl⟩
  unfold State.requestStart
  simp only
  generalize ({ st with reached := st.reached ++ [p] } : State) = st₁ at h₁
  have h₂ : Q (if reason = .manual then st₁.setOverride s .start else st₁) :=
    ite_kept (fun h => hQ.setOverride h s .start) h₁
  generalize (if reason = .manual then st₁.setOverride s .start else st₁) = st₂ at h₂
  split
  · exact hQ.aside h₁ (completeNow_aside ..)
  · split
    · exact hQ.aside h₂ (completeNow_aside ..)
    · have h₃ := hQ.transitionTargetSet (hQ.onServiceStartRequest h₂ s) s .start
      exact hQ.aside h₃ (chainPromise_aside ..)

lemma requestObserve (h : Q st) (s : ServiceId) (p : Promise) : Q (st.requestObserve s p) := by
  unfold State.requestObserve
  simp only
  split
  · exact hQ.aside h ⟨rfl, rfl, rfl, rfl, rfl⟩
  · exact hQ.aside h ⟨rfl, rfl, rfl, rfl, rfl⟩

/-! ### Handlers that neither start nor stop a service -/

lemma tryUse (h : Q st) (s : ServiceId) : Q (st.tryUse s).1 := by
  unfold State.tryUse
  split
  · exact h
  · exact hQ.aside h ⟨rfl, rfl, rfl, rfl, rfl⟩

lemma decUse (h : Q st) (s : ServiceId) (onEventLoop : Bool) : Q (st.decUse s onEventLoop) := by
  have h₁ : Q { st with
      toCore := { st.toCore.decUses s with
        handles := Function.update st.handles s (st.handles s - 1) } } :=
    hQ.aside h ⟨rfl, rfl, rfl, rfl, rfl⟩
  unfold State.decUse
  simp only
  split
  · split
    · exact hQ.checks h₁ (onOutgoingReachedNoExternalUse_drops _ s _).1.toChecks
    · exact hQ.aside h ⟨rfl, rfl, rfl, rfl, rfl⟩
  · exact h₁

lemma runPosted (h : Q st) (work : Posted) : Q (st.runPosted work) := by
  have h₁ : Q { st with posted := st.posted.erase work } := hQ.aside h ⟨rfl, rfl, rfl, rfl, rfl⟩
  unfold State.runPosted
  simp only
  cases work with
  | restart h =>
    refine ite_kept (fun h => hQ.stirs h ?_) h₁
    exact (checkAnyInClusterStartable_reports startable_reports (hQ.wf h).toIsTree).1.toStirs
  | reachedNoExternalUse s n =>
    exact ite_kept
      (fun h => hQ.checks h (onOutgoingReachedNoExternalUse_drops _ s n).1.toChecks) h₁

lemma run (h : Q st) : Q st.run := by
  unfold State.run
  split
  · exact h
  · rename_i hr
    refine hQ.stirs h (startRoot_reports startable_reports (hQ.wf h).toIsTree ?_).toStirs
    simpa using hr

end Steady

end State

/-- The handler neither starts nor stops a service other than the root, and none comes or goes. -/
def Op.IsSteady : Op → Prop
  | init _ | destroy _ | process _ | started _ | stopped _ => False
  | _ => True

/-- What is steady is kept by the handlers that are. -/
theorem State.Steady.exec {small : Prop} {Q : State → Prop} {st : State} {op : Op}
    (hQ : Steady small Q) (h : Q st) (hp : op.Pre st) (hop : op.IsSteady) : Q (op.exec st) := by
  cases op with
  | connect use => exact hQ.connect h hp
  | disconnect use => exact hQ.disconnect h use
  | setSatisfied imp satisfied => exact hQ.setSatisfied h imp satisfied
  | requestStart s reason promise => exact hQ.requestStart h s reason promise
  | requestStop replies s promise => exact hQ.requestStop h s promise
  | requestObserve s promise => exact hQ.requestObserve h s promise
  | immediateStop replies s =>
    exact ite_kept (fun h => hQ.onServiceStopRequest (hQ.setOverride h s .none) _) h
  | posted work => exact hQ.runPosted h work
  | run => exact hQ.run h
  | tryUse s => exact hQ.tryUse h s
  | incUse s => exact hQ.aside h ⟨rfl, rfl, rfl, rfl, rfl⟩
  | decUse s onEventLoop => exact hQ.decUse h s onEventLoop
  | init s => exact hop.elim
  | destroy s => exact hop.elim
  | process ready => exact hop.elim
  | started s => exact hop.elim
  | stopped s => exact hop.elim

end Idle
