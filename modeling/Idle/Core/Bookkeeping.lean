import Idle.Core.Arrivals
import Idle.Core.Handlers

/-!
# The handlers keep the balance

What the handlers of the event loop do to the counters is put together from the phase changes and
from the changes of the graph. Nothing that a balanced core reports as startable makes the
scheduler start the root.
-/

namespace Idle

namespace Core

variable {c : Core} {s h : ServiceId} {u : Usage} {ms : List ServiceId} {extra : ServiceId → Nat}

/-- While the root is not running, everything else waits for it. -/
lemma Balanced.rootGate (hc : c.Balanced extra) : c.RootGate := by
  by_cases hr : c.phase c.layout.root = .running
  · exact .inl hr
  -- whoever is locked has the root running, and whoever is stopped misses it
  · refine .inr fun s hsr => ?_
    have hmem : ∀ {p : Phase}, c.phase s = p → p.next?.isSome = true → s ∈ c.services := by
      intro p hp hnext
      rwa [hc.initialized, hp]
    refine ⟨fun hp => hr (hc.root_running s (hmem hp rfl) hsr (by rw [hp]; rfl)), fun hp h0 => ?_⟩
    exact hr ((hc.running_of_outer_eq_zero (hmem hp rfl) h0).1 hsr)

/-- The root has no imports, so there is nothing that it could wait for. -/
lemma Balanced.root_startable (hc : c.Balanced extra) (hp : c.phase c.layout.root = .stopped) :
    c.isStartable c.layout.root = true := by
  have himports : c.layout.imports c.layout.root = [] := by
    refine List.filter_eq_nil_iff.2 fun p hpart => ?_
    simpa using c.layout.root_parts hpart
  -- the four summands of what the root misses are zero, one after the other
  have htarget : ∀ e ∈ c.edges, e.target c.layout ≠ c.layout.root := by
    intro e he heq
    cases e with
    | inner s => exact Topology.not_mem_edges_inner he
    | child s => exact (Topology.mem_edges_child.1 he).2.2 heq
    | usage u =>
      have huser := hc.wf.user_imports u (Topology.mem_edges_usage.1 he)
      have howner : u.user.owner = c.layout.root := heq
      rw [howner, himports] at huser
      exact absurd huser List.not_mem_nil
  have hopen : c.openEdges c.layout.root = 0 := by
    refine List.countP_eq_zero.2 fun e he => ?_
    have : c.clusterTarget e ≠ c.layout.root :=
      fun heq => htarget e he ((hc.wf.cluster_eq_root (hc.wf.target_mem he)).1 heq)
    simp [this]
  have hunsatisfied : c.unsatisfied c.layout.root = 0 := by
    refine List.countP_eq_zero.2 fun i hi => ?_
    obtain ⟨t, ht, hi⟩ := List.mem_flatMap.1 hi
    have howner : i.owner = t := c.layout.parts_owner (List.mem_filter.1 hi).1
    have : c.cluster i.owner ≠ c.layout.root := by
      intro heq
      rw [howner] at heq
      rw [(hc.wf.cluster_eq_root ht).1 heq, himports] at hi
      exact absurd hi List.not_mem_nil
    simp [this]
  have hmissing : c.rootMissing c.layout.root = 0 := by
    unfold rootMissing
    split
    · rfl
    · refine List.countP_eq_zero.2 fun s hs => ?_
      simp only [decide_eq_true_eq, not_and]
      exact fun hne heq => hne ((hc.wf.cluster_eq_root hs).1 heq)
  have hinner : c.innerSpec c.layout.root = 0 := by
    refine List.countP_eq_zero.2 fun s hs => ?_
    simp only [decide_eq_true_eq, not_and]
    intro hm howner
    have hsr : s ≠ c.layout.root := by
      rintro rfl
      simp at hm
    have hpart := hc.wf.parent_parts hs hsr
    rw [howner] at hpart
    have := c.layout.root_parts hpart
    simp_all [Layout.isMember]
  -- as the counters are balanced, they are zero too
  have h1 := hc.inner_eq _ hc.wf.root_mem
  have h2 := hc.outer_eq _ hc.wf.root_mem hc.wf.cluster_root
  rw [hinner] at h1
  rw [outerSpec, hopen, hunsatisfied, hmissing, hc.extra_root] at h2
  simp [isStartable, h1, h2, hp, hc.wf.cluster_root]

/-! ### Single increments and decrements -/

lemma incUses_eq (c : Core) (s : ServiceId) :
    c.incUses s = c.addUses fun v => if s = v then 1 else 0 := by
  have hfold := foldl_incUses c [s]
  simp only [List.foldl_cons, List.foldl_nil, List.count_singleton, beq_eq_decide] at hfold
  rw [hfold]
  congr 1
  funext v
  exact if_congr decide_eq_true_iff rfl rfl

lemma incOuter_eq (c : Core) (s : ServiceId) :
    c.incOuter s = c.addOuter fun h => if c.cluster s = h then 1 else 0 := by
  have hfold := foldl_incOuter c [s]
  simp only [List.foldl_cons, List.foldl_nil, List.map_cons, List.map_nil, List.count_singleton,
    beq_eq_decide] at hfold
  rw [hfold]
  congr 1
  funext v
  exact if_congr decide_eq_true_iff rfl rfl

lemma decUses_eq (h : 1 < (c.uses s).toNat) :
    c.decUses s = c.subUses fun v => if s = v then 1 else 0 := by
  have hfold : [s].foldl decUses c = c.subUses fun v => [s].count v :=
    foldl_decUses (by simpa using h)
  simp only [List.foldl_cons, List.foldl_nil, List.count_singleton, beq_eq_decide] at hfold
  rw [hfold]
  congr 1
  funext v
  exact if_congr decide_eq_true_iff rfl rfl

lemma decOuter_eq (h : 1 ≤ (c.outerDepsMissing (c.cluster s)).toNat) :
    c.decOuter s = c.subOuter fun h => if c.cluster s = h then 1 else 0 := by
  have hfold : [s].foldl decOuter c = c.subOuter fun v => ([s].map c.cluster).count v :=
    foldl_decOuter (by simpa using h)
  simp only [List.foldl_cons, List.foldl_nil, List.map_cons, List.map_nil, List.count_singleton,
    beq_eq_decide] at hfold
  rw [hfold]
  congr 1
  funext v
  exact if_congr decide_eq_true_iff rfl rfl

@[simp] lemma addUses_zero (c : Core) : (c.addUses fun _ => 0) = c := by
  simp [addUses]

@[simp] lemma addOuter_zero (c : Core) : (c.addOuter fun _ => 0) = c := by
  simp [addOuter]

@[simp] lemma subUses_zero (c : Core) : (c.subUses fun _ => 0) = c := by
  simp [subUses]

@[simp] lemma subOuter_zero (c : Core) : (c.subOuter fun _ => 0) = c := by
  simp [subOuter]

lemma addOuter_addOuter (c : Core) (m n : ServiceId → Nat) :
    (c.addOuter m).addOuter n = c.addOuter fun h => m h + n h := by
  simp only [addOuter, UInt16.ofNat_add]
  congr 1
  funext h
  exact UInt16.add_assoc _ _ _

lemma ite_incOuter (c : Core) (s : ServiceId) (b : Bool) :
    (if b then c.incOuter s else c) =
      c.addOuter fun h => if c.cluster s = h then (if b then 1 else 0) else 0 := by
  cases b
  · simp
  · simpa using c.incOuter_eq s

lemma isRunning_eq (p : Phase) : p.isRunning = decide (p = .running) := by
  rw [Bool.eq_iff_iff, Phase.isRunning_iff, decide_eq_true_iff]

lemma useOf_eq (c : Core) (u : Usage) : c.useOf u =
    if (c.phase u.used.owner).isRunning && (c.phase u.user.owner).isLocked then
      fun v => if u.used.owner = v then 1 else 0
    else fun _ => 0 := by
  funext v
  unfold useOf
  rw [isRunning_eq]
  by_cases hv : u.used.owner = v
  · subst hv
    by_cases hr : c.phase u.used.owner = .running
    · by_cases hl : (c.phase u.user.owner).isLocked = true
      · simp [hr, hl]
      · simp [hr, hl]
    · simp [hr]
  · rw [if_neg fun h => hv h.1]
    split
    · exact (if_neg hv).symm
    · rfl

lemma waitOf_eq (c : Core) (u : Usage) : c.waitOf u =
    if !(c.phase u.used.owner).isRunning && !u.weak then
      fun h => if c.cluster u.user.owner = h then 1 else 0
    else fun _ => 0 := by
  funext h
  unfold waitOf
  rw [isRunning_eq]
  by_cases hr : c.phase u.used.owner = .running
  · simp [hr]
  · cases hw : u.weak
    · simp [hr]
    · simp

lemma use_incUses (c : Core) (u : Usage) :
    (if (c.phase u.used.owner).isRunning && (c.phase u.user.owner).isLocked then
      c.incUses u.used.owner else c) = c.addUses (c.useOf u) := by
  rw [useOf_eq]
  split
  · exact c.incUses_eq _
  · exact c.addUses_zero.symm

lemma wait_incOuter (c : Core) (u : Usage) :
    (if !(c.phase u.used.owner).isRunning && !u.weak then c.incOuter u.user.owner else c) =
      c.addOuter (c.waitOf u) := by
  rw [waitOf_eq]
  split
  · exact c.incOuter_eq _
  · exact c.addOuter_zero.symm

lemma use_decUses (h : c.useOf u u.used.owner < (c.uses u.used.owner).toNat ∨
    c.useOf u u.used.owner = 0) :
    (if (c.phase u.used.owner).isRunning && (c.phase u.user.owner).isLocked then
      c.decUses u.used.owner else c) = c.subUses (c.useOf u) := by
  rw [useOf_eq] at h ⊢
  split
  · rename_i hb
    simp only [hb, if_true] at h
    exact decUses_eq (h.resolve_right Nat.one_ne_zero)
  · exact c.subUses_zero.symm

lemma wait_decOuter (h : c.waitOf u (c.cluster u.user.owner) ≤
    (c.outerDepsMissing (c.cluster u.user.owner)).toNat) :
    (if !(c.phase u.used.owner).isRunning && !u.weak then c.decOuter u.user.owner else c) =
      c.subOuter (c.waitOf u) := by
  rw [waitOf_eq] at h ⊢
  split
  · rename_i hb
    simp only [hb, if_true] at h
    exact decOuter_eq h
  · exact c.subOuter_zero.symm

/-! ### Locking and unlocking a cluster -/

lemma lockMember_topology (c : Core) (s : ServiceId) :
    (c.lockMember s).toTopology = c.toTopology := (c.lockMember_moved s).topology

/-- Locking the stopped members of a cluster that misses nothing. -/
lemma Balanced.foldl_lockMember (hc : c.Balanced extra) (hms : ms.Nodup)
    (hm : ∀ m ∈ ms, m ∈ c.services ∧ c.phase m = .stopped ∧
      c.outerDepsMissing (c.cluster m) = 0) :
    (ms.foldl Core.lockMember c).Balanced extra ∧
      (∀ s, (ms.foldl Core.lockMember c).phase s = if s ∈ ms then .locked else c.phase s) ∧
      (ms.foldl Core.lockMember c).innerDepsMissing = c.innerDepsMissing ∧
      (ms.foldl Core.lockMember c).toTopology = c.toTopology := by
  induction ms generalizing c with
  | nil => exact ⟨hc, fun s => by simp, rfl, rfl⟩
  | cons m ms ih =>
    obtain ⟨hmm, hms⟩ := List.nodup_cons.1 hms
    obtain ⟨hs, hp, h0⟩ := hm m List.mem_cons_self
    have hm' : ∀ x ∈ ms, x ∈ (c.lockMember m).services ∧ (c.lockMember m).phase x = .stopped ∧
        (c.lockMember m).outerDepsMissing ((c.lockMember m).cluster x) = 0 := by
      intro x hx
      have hne : x ≠ m := fun heq => hmm (heq ▸ hx)
      rw [lockMember_topology, lockMember_outer, lockMember_phase, Function.update_of_ne hne]
      exact hm x (List.mem_cons_of_mem _ hx)
    -- the counter of the cluster is not touched, so the other members still miss nothing
    obtain ⟨hb, hphase, hinner, htop⟩ := ih (hc.lockMember hs hp h0) hms hm'
    refine ⟨hb, fun s => ?_, hinner.trans (c.lockMember_inner m),
      htop.trans (c.lockMember_topology m)⟩
    rw [List.foldl_cons, hphase, lockMember_phase]
    by_cases hsm : s = m
    · subst hsm
      simp
    · simp [hsm]

/-- Unlocking the members of a cluster, all of which are pending. -/
lemma Balanced.foldl_unlockMember (hc : c.Balanced extra) (hms : ms.Nodup)
    (hm : ∀ m ∈ ms, m ∈ c.services ∧ c.phase m = .pending) :
    (ms.foldl Core.unlockMember c).Balanced extra := by
  induction ms generalizing c with
  | nil => exact hc
  | cons m ms ih =>
    obtain ⟨hmm, hms⟩ := List.nodup_cons.1 hms
    obtain ⟨hs, hp⟩ := hm m List.mem_cons_self
    -- the others are pending until it is their turn
    refine ih (hc.unlockMember hs hp) hms fun x hx => ?_
    have hne : x ≠ m := fun heq => hmm (heq ▸ hx)
    rw [(hc.unlockMember_moved hs hp).topology, (hc.unlockMember_moved hs hp).phase x hne]
    exact hm x (List.mem_cons_of_mem _ hx)

/-- The counters do not depend on what is counted about whole clusters. -/
lemma Balanced.of_clusters (hc : c.Balanced extra) (running : ServiceId → BitVec 26)
    (epoch : ServiceId → Nat) :
    { c with running := running, epoch := epoch }.Balanced extra :=
  ⟨⟨hc.root_running, hc.held_running, hc.members_running⟩,
    ⟨hc.inner_eq, hc.outer_eq, hc.uses_eq, hc.usesRanOut_eq, hc.outerRanOut_eq⟩,
    hc.wf, hc.initialized, hc.handles_eq, hc.fits, hc.extra_root⟩

end Core

namespace State

variable {st : State} {me s h : ServiceId} {u : Usage} {extra : ServiceId → Nat} {small : Prop}

/-! ### Starting -/

lemma lockMember_core (st : State) (s : ServiceId) :
    (st.lockMember s).toCore = st.toCore.lockMember s :=
  callOnOuterOutgoingIncrement_core _ _

lemma foldl_lockMember_core (ms : List ServiceId) (st : State) :
    (ms.foldl lockMember st).toCore = ms.foldl Core.lockMember st.toCore := by
  induction ms generalizing st with
  | nil => rfl
  | cons m ms ih => rw [List.foldl_cons, ih, lockMember_core, List.foldl_cons]

lemma foldl_runningIncrement_core (ms : List ServiceId) (st : State) : ∃ running,
    (ms.foldl callOnClusterRunningIncrement st).toCore = { st.toCore with running := running } := by
  induction ms generalizing st with
  | nil => exact ⟨_, rfl⟩
  | cons m ms ih =>
    obtain ⟨running, h⟩ := ih (st.callOnClusterRunningIncrement m)
    exact ⟨running, h⟩

/-- `do_lock_cluster` of a cluster that is stopped and misses nothing. -/
lemma doLockCluster_balanced (hc : st.toCore.Balanced extra) (hh : h ∈ st.services)
    (hhh : st.cluster h = h) (hp : ∀ s ∈ st.services, st.cluster s = h → st.phase s = .stopped)
    (h0 : st.outerDepsMissing h = 0) :
    (st.doLockCluster h).toCore.Balanced extra ∧
      (st.doLockCluster h).toTopology = st.toTopology ∧
      (st.doLockCluster h).innerDepsMissing = st.innerDepsMissing ∧
      ∀ s, (st.doLockCluster h).phase s =
        if s ∈ st.services ∧ st.cluster s = h then .locked else st.phase s := by
  have hmem := fun s => hc.wf.mem_clusterMembers (t := s) hh hhh
  obtain ⟨hb, hphase, hinner, htop⟩ := hc.foldl_lockMember (hc.wf.nodup_clusterMembers h)
    fun m hm => by
      obtain ⟨hms, hmh⟩ := (hmem m).1 hm
      exact ⟨hms, hp m hms hmh, by rw [hmh]; exact h0⟩
  obtain ⟨running, hcore⟩ :=
    foldl_runningIncrement_core (st.clusterMembers h) ((st.clusterMembers h).foldl lockMember st)
  rw [foldl_lockMember_core] at hcore
  -- counting the running members comes last and is no concern of the balance
  have hlock : (st.doLockCluster h).toCore =
    { (st.clusterMembers h).foldl Core.lockMember st.toCore with running := running } := hcore
  rw [hlock]
  refine ⟨hb.of_clusters running _, htop, hinner, fun s => (hphase s).trans ?_⟩
  exact if_congr (hmem s) rfl rfl

/-- `do_start_eager` of a service that is startable. -/
lemma doStartEager_balanced (hc : st.toCore.Balanced extra) (hg : st.life.Good small)
    (hs : st.isStartable me = true) :
    (st.doStartEager me).toCore.Balanced extra ∧
      (st.doStartEager me).toTopology = st.toTopology ∧
        (st.doStartEager me).phase me = .starting := by
  simp only [Core.isStartable, Bool.and_eq_true, Bool.or_eq_true, beq_iff_eq] at hs
  obtain ⟨hinner, hphase⟩ := hs
  have hmem : me ∈ st.services := by
    rw [hc.initialized]
    rcases hphase with hp | hp
    · rw [hp]
      rfl
    · rw [hp.1]
      rfl
  -- after the first step the service is locked in any case
  obtain ⟨st', heq, hb, htop, hinner', hlocked⟩ : ∃ st' : State,
      (if (st.phase me).isLocked then st else st.doLockCluster (st.cluster me)) = st' ∧
      st'.toCore.Balanced extra ∧ st'.toTopology = st.toTopology ∧
      st'.innerDepsMissing me = 0 ∧ st'.phase me = .locked := by
    rcases hphase with hp | ⟨hp, h0⟩
    · exact ⟨st, by rw [hp]; rfl, hc, rfl, hinner, hp⟩
    · obtain ⟨hh, -⟩ := hc.wf.cluster_mem hmem
      obtain ⟨hb, htop, hin, hph⟩ := doLockCluster_balanced hc hh (hc.wf.cluster_cluster hmem)
        (hg.stopped hmem hp).2 h0
      refine ⟨_, by rw [hp]; rfl, hb, htop, by rw [hin]; exact hinner, ?_⟩
      rw [hph, if_pos ⟨hmem, rfl⟩]
  have hcore : (st.doStartEager me).toCore = st'.toCore.startMember me := by
    unfold doStartEager
    simp only [heq]
    exact callOnInnerOutgoingIncrement_core _ _
  rw [hcore]
  have hmem' : me ∈ st'.services := by rw [htop]; exact hmem
  refine ⟨hb.startMember hmem' hlocked hinner',
    (st'.toCore.startMember_moved me).topology.trans htop, ?_⟩
  rw [Core.startMember_phase, Function.update_self]

/-- Whatever is reported as running first leaves the counters alone afterwards. -/
lemma postStartActions_tail_core (st : State) (s : ServiceId) :
    (if !st.shallClusterStop s then
      if st.layout.isClusterHead s then st.doFinalizeCluster s else st
    else st.pushDown s).toCore = st.toCore := by
  split
  · split
    · exact doFinalizeCluster_core _ _
    · rfl
  · rfl

lemma postStartActions_core (hme : me ≠ st.layout.root)
    (hr : st.phase st.layout.root = .running) :
    (st.postStartActions onServiceStartable me).toCore = st.toCore.finishStart me := by
  simp only [postStartActions]
  rw [postStartActions_tail_core, callOnRequiredDecrement_core,
    callOnOuterDelayedOutgoingIncrement_core]
  · rfl
  -- the uses that were taken change neither the layout nor the phase of the root
  · rw [callOnOuterDelayedOutgoingIncrement_core,
      Core.foldl_proj (F := Core.incUses) (fun c => c.layout) fun _ _ => rfl]
    exact hme
  · rw [callOnOuterDelayedOutgoingIncrement_core,
      Core.foldl_proj (F := Core.incUses) (fun c => c.layout) fun _ _ => rfl,
      Core.foldl_proj (F := Core.incUses) (fun c => c.phase) fun _ _ => rfl]
    simpa [Core.transition, Ne.symm hme] using hr

lemma postStartActions_root_core (st : State) :
    (st.postStartActions onServiceStartable st.layout.root).toCore =
      st.toCore.finishStartRoot := by
  simp only [postStartActions]
  rw [postStartActions_tail_core]
  have hcore := callOnOuterDelayedOutgoingIncrement_core
    { st with toCore := st.toCore.transition st.layout.root .starting .running } st.layout.root
  have hlayout : (({ st with toCore := st.toCore.transition st.layout.root .starting .running } :
      State).callOnOuterDelayedOutgoingIncrement st.layout.root).layout = st.layout := by
    rw [hcore, Core.foldl_proj (F := Core.incUses) (fun c => c.layout) fun _ _ => rfl]
    rfl
  generalize State.callOnOuterDelayedOutgoingIncrement _ _ = st' at hcore hlayout
  -- the root is running when it reports, so it is not started a second time
  have hrun : st'.phase st'.layout.root = .running := by
    rw [hlayout, hcore, Core.foldl_proj (F := Core.incUses) (fun c => c.phase) fun _ _ => rfl]
    simp [Core.transition]
  have hdec := callOnRequiredDecrement_root_core hrun
  rw [hlayout] at hdec
  rw [hdec, hcore]
  rfl

/-- The edges of a service are enumerated as they should be when it starts or stops. -/
def Enumerable (t : Topology) (s : ServiceId) : Prop :=
  if s = t.layout.root then Core.RootUsedWeakly t
  else ∀ p ∈ t.layout.exports s, t.FirstUsageStrong p

lemma Enumerable.root {t : Topology} (h : Enumerable t t.layout.root) : Core.RootUsedWeakly t := by
  unfold Enumerable at h
  rwa [if_pos rfl] at h

lemma Enumerable.first {t : Topology} (h : Enumerable t s) (hs : s ≠ t.layout.root) :
    ∀ p ∈ t.layout.exports s, t.FirstUsageStrong p := by
  unfold Enumerable at h
  rwa [if_neg hs] at h

/-- `post_start_actions` -/
lemma postStartActions_balanced (hc : st.toCore.Balanced extra) (hs : me ∈ st.services)
    (hp : st.phase me = .starting) (hen : Enumerable st.toTopology me) :
    (st.postStartActions onServiceStartable me).toCore.Balanced extra := by
  by_cases hr : me = st.layout.root
  · subst hr
    rw [postStartActions_root_core]
    exact hc.finishStartRoot hp hen.root
  -- a service that is starting has the root running
  · have hrun := hc.root_running me hs hr (by rw [hp]; rfl)
    rw [postStartActions_core hr hrun]
    exact hc.finishStart hs hr hp (hen.first hr)

/-! ### Stopping -/

lemma trySetServiceStopping_eq {st' : State} (h : st.trySetServiceStopping me = some st') :
    st.uses me = 1 ∧ st' = { st with toCore := st.toCore.setStopping me } := by
  unfold trySetServiceStopping at h
  split at h
  · rename_i hu
    exact ⟨beq_iff_eq.1 hu, (Option.some.inj h).symm⟩
  · cases h

/-- `try_set_service_stopping` and `do_stop_eager` -/
lemma doStopEager_balanced (hc : st.toCore.Balanced extra) (hp : st.phase me = .running)
    (hu : st.uses me = 1) (hen : Enumerable st.toTopology me) :
    ({ st with toCore := st.toCore.setStopping me }.doStopEager me).toCore.Balanced extra := by
  have hs : me ∈ st.services := by
    rw [hc.initialized, hp]
    rfl
  unfold doStopEager
  by_cases hr : me = st.layout.root
  · subst hr
    have hcore := callOnRequiredIncrement_root_core
      { st with toCore := st.toCore.setStopping st.layout.root }
    have heq : ({ st with toCore := st.toCore.setStopping st.layout.root }.callOnRequiredIncrement
        st.layout.root).toCore = st.toCore.beginStopRoot := hcore
    rw [heq]
    exact hc.beginStopRoot hp hu hen.root
  · have heq : ({ st with toCore := st.toCore.setStopping me }.callOnRequiredIncrement me).toCore =
        st.toCore.beginStop me := callOnRequiredIncrement_core hr
    rw [heq]
    exact hc.beginStop hs hr hp hu (hen.first hr)

lemma unlockMember_core (st : State) (s : ServiceId) :
    (st.unlockMember s).toCore = st.toCore.unlockMember s := by
  unfold unlockMember Core.unlockMember
  simp only
  rw [callOnOuterOutgoingDecrement_core]

lemma foldl_unlockMember_core (ms : List ServiceId) (st : State) :
    (ms.foldl unlockMember st).toCore = ms.foldl Core.unlockMember st.toCore := by
  induction ms generalizing st with
  | nil => rfl
  | cons m ms ih => rw [List.foldl_cons, ih, unlockMember_core, List.foldl_cons]

/-- `do_unlock_cluster` of a cluster whose members are pending. -/
lemma doUnlockCluster_balanced (hc : st.toCore.Balanced extra) (hh : h ∈ st.services)
    (hhh : st.cluster h = h) (hp : ∀ s ∈ st.services, st.cluster s = h → st.phase s = .pending) :
    (st.doUnlockCluster onServiceStartable h).toCore.Balanced extra := by
  have hmem := fun s => hc.wf.mem_clusterMembers (t := s) hh hhh
  have hb := hc.foldl_unlockMember (hc.wf.nodup_clusterMembers h) fun m hm =>
    ⟨((hmem m).1 hm).1, hp m ((hmem m).1 hm).1 ((hmem m).1 hm).2⟩
  rw [← foldl_unlockMember_core] at hb
  simp only [doUnlockCluster]
  generalize (st.clusterMembers h).foldl unlockMember st = st₁ at hb
  have hb₂ : (st₁.transitionTargetCompleteIf h .stop).toCore.Balanced extra := by
    rwa [transitionTargetCompleteIf_core]
  -- neither the promises nor the marks are counted
  have hb₃ : ((st₁.transitionTargetCompleteIf h .stop).doMarkClusterForStop onServiceStartable h
      false).toCore.Balanced extra := by
    rwa [doMarkClusterForStop_core hb₂.rootGate]
  split
  · exact hb₃
  · exact hb₃

/-- `post_stop_actions` -/
lemma postStopActions_balanced (hc : st.toCore.Balanced extra) (hg : st.life.Good True)
    (hs : me ∈ st.services) (hp : st.phase me = .stopping) :
    (st.postStopActions onServiceStartable me).toCore.Balanced extra := by
  have hcore := callOnInnerOutgoingDecrement_core st me
  have hlife := callOnInnerOutgoingDecrement_life st me
  have hb := hc.pendMember hs hp
  unfold postStopActions
  simp only
  generalize st.callOnInnerOutgoingDecrement me = st₁ at hcore hlife
  -- the uses of the members below are given back before the phase changes
  have hpend : st₁.toCore.transition me .stopping .pending = st.toCore.pendMember me := by
    rw [hcore]
    rfl
  unfold callOnClusterRunningDecrement
  simp only [hpend]
  have hm := hc.pendMember_moved hp
  have hrun : (st.toCore.pendMember me).running = st.running := by
    rw [hc.pendMember_eq hp]
    rfl
  split
  · rename_i h0
    simp only [Function.update_self, hm.topology, hrun, beq_iff_eq] at h0
    refine doUnlockCluster_balanced (hb.of_clusters _ _) ?_ ?_ ?_
    · rw [hm.topology]
      exact (hc.wf.cluster_mem hs).1
    · rw [hm.topology]
      exact hc.wf.cluster_cluster hs
    · -- nobody in the cluster is left to be counted as running
      intro t ht htc
      rw [hm.topology] at ht htc
      have hpending := hg.all_pending hs hp (.inl trivial)
        (by simpa [Phases.pend, life] using h0) ht htc
      rw [hc.pendMember_phase hp]
      exact hpending
  · exact hb.of_clusters _ _

/-! ### Processing the queue -/

/-- Whether `Scheduler::process` completes the start of a popped service or begins its stop. -/
def processMoves (st : State) (changing : ServiceId) (ready : Bool) : Bool :=
  if st.shallClusterStop changing then st.isStoppable changing && st.uses changing == 1
  else ready && st.shallClusterStart changing && st.isStartable changing

lemma tryStartServiceInplace_balanced {ready : Bool} (hc : st.toCore.Balanced extra)
    (hg : st.life.Good small) (hs : st.isStartable me = true)
    (hen : ready = true → Enumerable st.toTopology me) :
    (st.tryStartServiceInplace me ready).toCore.Balanced extra := by
  obtain ⟨hb, htop, hp⟩ := doStartEager_balanced hc hg hs
  unfold tryStartServiceInplace
  simp only
  split
  · rename_i hready
    have hmem : me ∈ (st.doStartEager me).services := by
      rw [hb.initialized, hp]
      rfl
    exact postStartActions_balanced hb hmem hp (htop ▸ hen hready)
  · exact hb

lemma tryStopServiceInplace_balanced {ready : Bool} (hc : st.toCore.Balanced extra)
    (hg : st.life.Good True) (hp : st.phase me = .running) (hu : st.uses me = 1)
    (hen : Enumerable st.toTopology me) :
    ({ st with toCore := st.toCore.setStopping me }.tryStopServiceInplace me
      ready).toCore.Balanced extra := by
  have hs : me ∈ st.services := by
    rw [hc.initialized, hp]
    rfl
  have hb := doStopEager_balanced hc hp hu hen
  have hlife : ({ st with toCore := st.toCore.setStopping me }.doStopEager me).life =
      st.life.mapPhases (·.transition me .running .stopping) := doStopEager_life _ me
  have hg' := hg.advance hs hp (q := .stopping) rfl (by decide) (by decide) (by decide)
  unfold tryStopServiceInplace
  simp only
  generalize ({ st with toCore := st.toCore.setStopping me } : State).doStopEager me = st₁
    at hb hlife
  split
  · refine postStopActions_balanced hb (by rw [hlife]; exact hg') ?_ ?_
    · have : st₁.services = st.services := congrArg (fun l => l.services) hlife
      rwa [this]
    · have : st₁.phase me = Function.update st.phase me .stopping me :=
        congrArg (fun l => l.phase me) hlife
      rw [this, Function.update_self]
  · exact hb

lemma processService_balanced {ready : Bool} (hc : st.toCore.Balanced extra)
    (hg : st.life.Good True)
    (hen : st.processMoves me ready = true → Enumerable st.toTopology me) :
    (st.processService me ready).toCore.Balanced extra := by
  unfold processMoves at hen
  unfold processService
  split
  · rename_i hstop
    rw [if_pos hstop] at hen
    split
    · rename_i hst
      split
      · rename_i st' hset
        obtain ⟨hu, rfl⟩ := trySetServiceStopping_eq hset
        have hp : st.phase me = .running := by
          simp only [Core.isStoppable, Bool.and_eq_true, Phase.isRunning_iff] at hst
          exact hst.1
        exact tryStopServiceInplace_balanced hc hg hp hu (hen (by simp [hst, hu]))
      · exact hc
    · exact hc
  · rename_i hstop
    rw [if_neg hstop] at hen
    split
    · rename_i hstart
      split
      · rename_i hs
        exact tryStartServiceInplace_balanced hc hg hs fun hready =>
            hen (by simp [hready, hstart, hs])
      · exact hc
    · exact hc

lemma pop_core {st' : State} (h : st.pop = some (s, st')) : st'.toCore = st.toCore := by
  unfold pop at h
  split at h
  · cases h
    rfl
  · split at h
    · cases h
      rfl
    · cases h

lemma process_balanced {ready : Bool} (hc : st.toCore.Balanced extra) (hg : st.life.Good True)
    (hen : ∀ s st', st.pop = some (s, st') → st'.processMoves s ready = true →
      Enumerable st.toTopology s) : (st.process ready).toCore.Balanced extra := by
  unfold process
  split
  · rename_i changing st' hpop
    have hcore := pop_core hpop
    refine processService_balanced (by rwa [hcore]) (by rw [pop_life hpop]; exact hg) fun hm => ?_
    rw [hcore]
    exact hen changing st' hpop hm
  · exact hc

/-- The handler posted by `Context::run`. -/
lemma run_balanced (hc : st.toCore.Balanced extra) (hg : st.life.Good small)
    (hr : st.life.RootRests)
    (hen : (st.phase st.layout.root).isRunning = false → Core.RootUsedWeakly st.toTopology) :
    st.run.toCore.Balanced extra := by
  unfold run
  split
  · exact hc
  · -- between two handlers the root is either stopped or running
    rename_i hnot
    have hweak := hen (Bool.eq_false_iff.2 hnot)
    have hp : st.phase st.layout.root = .stopped := by
      refine hr.resolve_right fun hrun => hnot ?_
      change st.phase st.layout.root = .running at hrun
      simp [hrun]
    have hcore := setOverride_core st st.layout.root .start
    have hlife := setOverride_life st st.layout.root .start
    unfold startRoot
    simp only
    generalize st.setOverride st.layout.root .start = st₁ at hcore hlife
    have hc₁ : st₁.toCore.Balanced extra := by rwa [hcore]
    obtain ⟨hb, htop, hp₁⟩ := doStartEager_balanced hc₁ (hlife ▸ hg)
      (hc₁.root_startable (by rw [hcore]; exact hp))
    have hroot : (st₁.doStartEager st₁.layout.root).layout.root = st₁.layout.root := by rw [htop]
    rw [hroot]
    refine postStartActions_balanced hb ?_ hp₁ ?_
    · rw [hb.initialized, hp₁]
      rfl
    · unfold Enumerable
      rw [htop, if_pos rfl, hcore]
      exact hweak

/-! ### Usages -/

lemma onUsageConnected_core (st : State) (u : Usage) : (st.onUsageConnected u).toCore =
    (st.toCore.addUses (st.toCore.useOf u)).addOuter (st.toCore.waitOf u) := by
  -- each of the four steps touches one counter; the last two are not part of the core
  have huse : ∀ st : State,
      (if (st.phase u.used.owner).isRunning && (st.phase u.user.owner).isLocked then
        st.onOutgoingIncrement u.used.owner else st).toCore =
      st.toCore.addUses (st.toCore.useOf u) := by
    intro st
    rw [← Core.use_incUses]
    split <;> rfl
  have hwait : ∀ st : State, (if !(st.phase u.used.owner).isRunning && !u.weak then
      st.onOuterRequiredIncrement u.user.owner else st).toCore =
      st.toCore.addOuter (st.toCore.waitOf u) := by
    intro st
    rw [← Core.wait_incOuter]
    split <;> rfl
  have hpushes : ∀ st : State, (if st.isClusterPushed u.user.owner then
      st.callOnClusterPushesIncrement u.used.owner (some u.user.owner) else st).toCore =
      st.toCore := by
    intro st
    split
    · exact (callOnClusterPushesIncrement_frame _ _ _).core
    · rfl
  have hpulls : ∀ st : State, (if st.isClusterMarkedForStop u.used.owner then
      st.onClusterPullsIncrement (st.cluster u.user.owner) else st).toCore = st.toCore := by
    intro st
    split <;> rfl
  unfold onUsageConnected
  simp only
  rw [hpulls, hpushes, hwait, huse]
  rfl

lemma connect_core (st : State) (u : Usage) : (st.connect u).toCore = st.toCore.plug u :=
  onUsageConnected_core _ u

/-- The functions of `on_usage_disconnect` report nothing that starts the root. -/
lemma onUsageDisconnect_core (hc : st.toCore.Balanced extra) (hu : u ∈ st.usages) :
    (st.onUsageDisconnect onServiceStartable u).toCore =
      (st.toCore.subOuter (st.toCore.waitOf u)).subUses (st.toCore.useOf u) := by
  obtain ⟨huses, houter⟩ := hc.unplug_le hu
  have hgate := hc.rootGate
  have hgate' := (hc.unplug hu).rootGate
  have hpulls : (if st.isClusterMarkedForStop u.used.owner then
      st.onClusterPullsDecrement onServiceStartable (st.cluster u.user.owner) else st).toCore =
      st.toCore := by
    split
    · exact onClusterPullsDecrement_core hgate _
    · rfl
  have hpushes : ∀ st : State, (if st.isClusterPushed u.user.owner then
      st.callOnClusterPushesDecrement u.used.owner (some u.user.owner) else st).toCore =
      st.toCore := by
    intro st
    split
    · exact (callOnClusterPushesDecrement_frame _ _ _).core
    · rfl
  -- the usage is still connected here, so that the counters hold at least what it counts
  have hwait : ∀ st' : State, st'.toCore = st.toCore →
      (if !(st'.phase u.used.owner).isRunning && !u.weak then
        st'.onOuterRequiredDecrement onServiceStartable u.user.owner else st').toCore =
      st.toCore.subOuter (st.toCore.waitOf u) := by
    intro st' heq
    rw [← Core.wait_decOuter houter, heq]
    split
    · -- the cluster counts as it will without the usage
      rename_i hw
      rw [onOuterRequiredDecrement_core, heq]
      rw [heq]
      have hdec := Core.wait_decOuter houter
      rw [if_pos hw] at hdec
      rw [hdec]
      exact hgate'
    · exact heq
  have huse : ∀ st' : State, st'.toCore = st.toCore.subOuter (st.toCore.waitOf u) →
      (if (st'.phase u.used.owner).isRunning && (st'.phase u.user.owner).isLocked then
        st'.onOutgoingDecrement u.used.owner else st').toCore =
      (st.toCore.subOuter (st.toCore.waitOf u)).subUses (st.toCore.useOf u) := by
    intro st' heq
    have hdec := Core.use_decUses (c := st.toCore.subOuter (st.toCore.waitOf u)) (u := u) huses
    rw [← show (st.toCore.subOuter (st.toCore.waitOf u)).useOf u = st.toCore.useOf u from rfl,
      ← hdec, heq]
    split
    · rw [onOutgoingDecrement_core, heq]
    · exact heq
  unfold onUsageDisconnect
  simp only
  exact huse _ (hwait _ ((hpushes _).trans hpulls))

lemma disconnect_core (hc : st.toCore.Balanced extra) (hu : u ∈ st.usages) :
    (st.disconnect onServiceStartable u).toCore = st.toCore.unplug u := by
  have hcore := onUsageDisconnect_core hc hu
  unfold disconnect
  simp only
  rw [hcore]
  rfl

/-! ### Imports and handles -/

lemma setSatisfied_core {imp : Part} {satisfied : Bool} (hc : st.toCore.Balanced extra)
    (hs : imp.owner ∈ st.services) (hi : imp ∈ st.layout.imports imp.owner) :
    (st.setSatisfied onServiceStartable imp satisfied).toCore =
      st.toCore.setSatisfied imp satisfied := by
  unfold setSatisfied Core.setSatisfied
  cases hb : st.satisfied imp <;> cases satisfied
  · rfl
  · simp only [Bool.bne_false, if_true]
    have hsup : st.toCore.Supplied
        ({ st.toCore with satisfied := Function.update st.satisfied imp true }.subOuter
          (st.toCore.countsFor imp)) imp := ⟨rfl, rfl, rfl, hb, rfl⟩
    have hspec := hsup.outerSpec_add hc.wf hs hi (st.cluster imp.owner)
    -- the import that was not satisfied is one of those that the counter counts
    have hone : st.toCore.countsFor imp (st.cluster imp.owner) = 1 := if_pos rfl
    have hpos : 1 ≤ (st.outerDepsMissing (st.cluster imp.owner)).toNat := by
      rw [hc.outer_toNat (hc.wf.cluster_mem hs).1 (hc.wf.cluster_cluster hs), hspec, hone]
      omega
    have hdec : ({ st.toCore with satisfied := Function.update st.satisfied imp true } :
        Core).decOuter imp.owner = { st.toCore with
          satisfied := Function.update st.satisfied imp true }.subOuter (st.toCore.countsFor imp) :=
      Core.decOuter_eq hpos
    rw [onOuterRequiredDecrement_core]
    · exact hdec
    · rw [hdec]
      exact (hc.supply hs hi hb).rootGate
  · exact Core.incOuter_eq _ _
  · rfl

lemma tryUse_balanced (hc : st.toCore.Balanced extra) (hroom : st.toCore.Fits extra 1) :
    (st.tryUse s).1.toCore.Balanced extra := by
  unfold tryUse
  split
  · exact hc
  · -- a service that is not usable has no use, and `try_use` fails on zero
    rename_i hu
    refine hc.lend ?_ hroom
    by_contra hp
    refine hu ?_
    have hspec : st.toCore.usesSpec s = 0 := by
      refine Core.usesSpec_eq_zero ?_ ?_
      · intro h
        rw [h] at hp
        exact hp rfl
      · intro h
        rw [h] at hp
        exact hp rfl
    rw [hc.uses_eq s, hspec]
    rfl

lemma incUse_balanced (hc : st.toCore.Balanced extra) (hh : st.handles s ≠ 0)
    (hroom : st.toCore.Fits extra 1) : (st.incUse s).toCore.Balanced extra := by
  refine hc.lend ?_ hroom
  by_contra hp
  exact hh (hc.handles_eq s (Bool.eq_false_iff.2 hp))

lemma decUse_balanced {onEventLoop : Bool} (hc : st.toCore.Balanced extra) (hs : s ∈ st.services)
    (hh : st.handles s ≠ 0) : (st.decUse s onEventLoop).toCore.Balanced extra := by
  have hb := hc.recover hs hh
  unfold decUse
  simp only
  split
  · split
    · rw [onOutgoingReachedNoExternalUse_core]
      exact hb
    · exact hb
  · exact hb

/-! ### Services -/

/-- The edges of a service without children and usages. -/
lemma edges_of_unused {t : Topology}
    (hchild : ∀ x ∈ t.services, x ≠ t.layout.root → (t.layout.parent x).owner ≠ s)
    (husages : ∀ u ∈ t.usages, u.used.owner ≠ s ∧ u.user.owner ≠ s) (f : GraphFlags) :
    t.outEdges f s = (if t.layout.isMember s && f.hasChildImporterEdge && s != t.layout.root
      then [.inner s] else []) ∧
    t.inEdges f s = (if t.layout.isClusterHead s && f.hasExporterChildEdge && s != t.layout.root
      then [.child s] else []) := by
  -- no part of the service has an edge, so only those to its parent are left
  have hchildren : ∀ p ∈ t.layout.parts s, t.children p = [] := by
    intro p hp
    refine List.filter_eq_nil_iff.2 fun x hx => ?_
    simp only [Bool.and_eq_true, bne_iff_ne, beq_iff_eq, not_and]
    intro hxr heq
    exact hchild x hx hxr (heq ▸ t.layout.parts_owner hp)
  have hdependent : ∀ p ∈ t.layout.parts s, t.dependentUsers p = [] := by
    intro p hp
    refine List.filter_eq_nil_iff.2 fun u hu => ?_
    rw [beq_iff_eq]
    exact fun heq => (husages u hu).1 (heq ▸ t.layout.parts_owner hp)
  have himported : ∀ p ∈ t.layout.parts s, t.importedUsages p = [] := by
    intro p hp
    refine List.filter_eq_nil_iff.2 fun u hu => ?_
    rw [beq_iff_eq]
    exact fun heq => (husages u hu).2 (heq ▸ t.layout.parts_owner hp)
  have hexport : ∀ p ∈ t.layout.exports s, t.exportOutEdges f p = [] := by
    intro p hp
    have hp := (List.mem_filter.1 hp).1
    simp [Topology.exportOutEdges, hchildren p hp, hdependent p hp]
  have himport : ∀ p ∈ t.layout.imports s, t.importInEdges f p = [] := by
    intro p hp
    have hp := (List.mem_filter.1 hp).1
    simp [Topology.importInEdges, hchildren p hp, himported p hp]
  unfold Topology.outEdges Topology.inEdges
  rw [List.flatMap_eq_nil_iff.2 hexport, List.flatMap_eq_nil_iff.2 himport, List.append_nil,
    List.append_nil]
  exact ⟨rfl, rfl⟩

/-- `on_service_add` of a service without children and usages. -/
lemma onServiceAdd_core (hne : s ≠ st.layout.root)
    (hchild : ∀ x ∈ st.services, x ≠ st.layout.root → (st.layout.parent x).owner ≠ s)
    (husages : ∀ u ∈ st.usages, u.used.owner ≠ s ∧ u.user.owner ≠ s)
    (howner : (st.phase (st.layout.parent s).owner).isInitializedUnsafe = true)
    (hroot : (st.phase st.layout.root).isInitializedUnsafe = true) :
    (st.onServiceAdd s).toCore = (st.toCore.addInner fun p =>
      if st.layout.isMember s = true ∧ (st.layout.parent s).owner = p then 1 else 0).addOuter
        fun h => if st.cluster s = h then st.toCore.arrivalMissing s else 0 := by
  have hbne : (s != st.layout.root) = true := bne_iff_ne.2 hne
  have hedges := edges_of_unused (t := st.toTopology) hchild husages
  -- a new service only makes the service above it wait, and only if it is a member
  have hreq : (st.callOnRequiredIncrement s).toCore = st.toCore.addInner fun p =>
      if st.layout.isMember s = true ∧ (st.layout.parent s).owner = p then 1 else 0 := by
    have hwaiting : waiting st.toCore s = [] := by
      have hflag : (GraphFlags.union .externalGraph .strongUsageGraph).hasChildImporterEdge =
        false := rfl
      simp [waiting, (hedges _).1, hflag]
    have hinner : innerWaiting st.toCore s =
        if st.layout.isMember s = true then [(st.layout.parent s).owner] else [] := by
      unfold innerWaiting
      rw [Topology.outEdges_cluster]
      split <;> rfl
    rw [callOnRequiredIncrement_core hne, hwaiting, hinner, List.foldl_nil, Core.foldl_incInner]
    congr 1
    funext p
    by_cases hm : st.layout.isMember s = true
    · simp [hm, List.count_singleton, beq_eq_decide]
    · simp [hm]
  unfold onServiceAdd
  simp only
  generalize st.callOnRequiredIncrement s = st₁ at hreq
  have htop : st₁.toTopology = st.toTopology := by
    rw [hreq]
    rfl
  have hphase : st₁.phase = st.phase := by
    rw [hreq]
    rfl
  -- the edge to the owner of the parent export
  have hfold : ((st₁.inEdges .strongUsageGraph s).foldl (fun st e =>
      if !(st.phase (e.source st.layout)).isRunning &&
          (st.phase (e.source st.layout)).isInitializedUnsafe then
        st.onOuterRequiredIncrement s
      else st) st₁).toCore = st₁.toCore.addOuter fun h => if st.cluster s = h then
        (if st.layout.isClusterHead s = true ∧ st.phase (st.layout.parent s).owner ≠ .running
          then 1 else 0) else 0 := by
    have hflag : GraphFlags.strongUsageGraph.hasExporterChildEdge = true := rfl
    rw [htop, (hedges _).2, hflag, hbne, Bool.and_true, Bool.and_true]
    cases hhead : st.layout.isClusterHead s
    · simp
    · simp only [if_true, List.foldl_cons, List.foldl_nil]
      have hsource : (Edge.child s).source st₁.layout = (st.layout.parent s).owner := by
        rw [htop]
        rfl
      have hite := Core.ite_incOuter st₁.toCore s
        (!(st.phase (st.layout.parent s).owner).isRunning)
      rw [hsource, hphase, howner, Bool.and_true]
      have hcore : (if !(st.phase (st.layout.parent s).owner).isRunning then
          st₁.onOuterRequiredIncrement s else st₁).toCore =
          if !(st.phase (st.layout.parent s).owner).isRunning then st₁.toCore.incOuter s
          else st₁.toCore := by
        split <;> rfl
      rw [hcore, hite, htop]
      congr 1
      funext h
      by_cases hr : st.phase (st.layout.parent s).owner = .running
      · simp [hr]
      · simp [hr, Core.isRunning_eq]
  generalize List.foldl _ st₁ (st₁.inEdges .strongUsageGraph s) = st₂ at hfold
  have htop₂ : st₂.toTopology = st.toTopology := by
    rw [hfold]
    exact htop
  have hphase₂ : st₂.phase = st.phase := by
    rw [hfold]
    exact hphase
  -- the implicit edge from the root
  have hlast : (if st₂.layout.hasImplicitRootEdge s then
      if !(st₂.phase st₂.layout.root).isRunning && (st₂.phase st₂.layout.root).isInitializedUnsafe
      then st₂.onOuterRequiredIncrement s else st₂ else st₂).toCore =
      st₂.toCore.addOuter fun h => if st.cluster s = h then
        (if st.layout.hasImplicitRootEdge s = true ∧ st.phase st.layout.root ≠ .running then 1
          else 0) else 0 := by
    have hite := Core.ite_incOuter st₂.toCore s
      (st.layout.hasImplicitRootEdge s && !(st.phase st.layout.root).isRunning)
    rw [htop₂, hphase₂, hroot, Bool.and_true]
    rw [htop₂] at hite
    cases hi : st.layout.hasImplicitRootEdge s
    · simp
    · cases hr : (st.phase st.layout.root).isRunning
      · have hr' : st.phase st.layout.root ≠ .running := by
          intro h
          rw [h] at hr
          exact absurd hr (by decide)
        rw [hi, hr] at hite
        simpa [hr', onOuterRequiredIncrement] using hite
      · have hr' : st.phase st.layout.root = .running := (Phase.isRunning_iff _).1 hr
        simp [hr']
  rw [hlast, hfold, hreq, Core.addOuter_addOuter]
  congr 1
  funext h
  unfold Core.arrivalMissing
  split <;> rfl

lemma isInitializedUnsafe_of_mem (hc : st.toCore.Balanced extra) (hs : s ∈ st.services) :
    (st.phase s).isInitializedUnsafe = true := by
  have := (hc.initialized s).1 hs
  cases hp : st.phase s <;> rw [hp] at this <;> first | rfl | exact absurd this (by decide)

lemma init_core (hc : st.toCore.Balanced extra) (hs : st.CanInit s) :
    (st.init s).toCore = st.toCore.arrive s := by
  obtain ⟨hphase, ho, hp, -⟩ := hs
  have hns := hc.not_mem hphase
  have hroot : s ≠ st.layout.root := fun h => hns (h ▸ hc.wf.root_mem)
  have hos : (st.layout.parent s).owner ≠ s := fun h => hns (h ▸ ho)
  -- the service as it is before `on_service_add`
  obtain ⟨st₁, hinit, hcore⟩ : ∃ st₁ : State, st.init s = st₁.onServiceAdd s ∧ st₁.toCore =
      { st.toCore with
        services := st.services ++ [s]
        cluster := Function.update st.cluster s
          (if st.layout.isMember s then st.cluster (st.layout.parent s).owner else s)
        phase := Function.update st.phase s .stopped
        uses := Function.update st.uses s 0
        handles := Function.update st.handles s 0
        satisfied := fun i => if i.owner = s then true else st.satisfied i
        innerDepsMissing := Function.update st.innerDepsMissing s 0
        outerDepsMissing := if st.layout.isClusterHead s then
          Function.update st.outerDepsMissing s 0 else st.outerDepsMissing
        running := if st.layout.isClusterHead s then Function.update st.running s 0 else st.running
        epoch :=
          if st.layout.isClusterHead s then Function.update st.epoch s 0 else st.epoch } := by
    refine ⟨_, rfl, ?_⟩
    unfold construct
    cases hh : st.layout.isClusterHead s <;> simp [hh]
  have hroot₁ : s ≠ st₁.layout.root := by
    rw [hcore]
    exact hroot
  have hadd := onServiceAdd_core hroot₁ ?_ ?_ ?_ ?_
  · rw [hinit, hadd, hcore]
    have hmissing : ∀ c : Core, c.layout = st.layout →
        c.phase = Function.update st.phase s .stopped →
        c.arrivalMissing s = st.toCore.arrivalMissing s := by
      intro c hl hph
      unfold Core.arrivalMissing
      rw [hl, hph, Function.update_of_ne hos, Function.update_of_ne (Ne.symm hroot)]
    simp only [Core.addInner, Core.addOuter, Core.arrive, Function.update_self]
    congr 1
    funext h
    congr 2
    exact if_congr Iff.rfl (hmissing _ rfl rfl) rfl
  · rw [hcore]
    intro x hx hxr
    rcases List.mem_append.1 hx with hx | hx
    · exact fun h => hns (h ▸ hc.wf.parent_mem hx)
    · rw [List.mem_singleton.1 hx]
      exact hos
  · rw [hcore]
    intro u hu
    exact ⟨fun h => hns (h ▸ hc.wf.used_mem u hu), fun h => hns (h ▸ hc.wf.user_mem u hu)⟩
  · rw [hcore]
    simp only [Function.update_of_ne hos]
    exact isInitializedUnsafe_of_mem hc ho
  · rw [hcore]
    simp only [Function.update_of_ne (Ne.symm hroot)]
    exact isInitializedUnsafe_of_mem hc hc.wf.root_mem

/-- Reports about a service that nothing uses do not start the root. -/
lemma callOnRequiredDecrement_unused_core (hg : st.RootGate) (hne : s ≠ st.layout.root)
    (hchild : ∀ x ∈ st.services, x ≠ st.layout.root → (st.layout.parent x).owner ≠ s)
    (husages : ∀ u ∈ st.usages, u.used.owner ≠ s ∧ u.user.owner ≠ s) :
    (st.callOnRequiredDecrement onServiceStartable s).toCore = st.toCore.subInner fun p =>
      if st.layout.isMember s = true ∧ (st.layout.parent s).owner = p then 1 else 0 := by
  have hedges := edges_of_unused (t := st.toTopology) hchild husages
  have hinner : ((st.outEdges .clusterGraph s).foldl (fun st e =>
      st.onInnerRequiredDecrement onServiceStartable (e.target st.layout)) st).toCore =
      st.toCore.subInner fun p =>
        if st.layout.isMember s = true ∧ (st.layout.parent s).owner = p then 1 else 0 := by
    rw [Topology.outEdges_cluster]
    by_cases hm : st.layout.isMember s = true
    · rw [if_pos hm, List.foldl_cons, List.foldl_nil, onInnerRequiredDecrement_core hg]
      have hfold := Core.foldl_decInner st.toCore [(Edge.inner s).target st.layout]
      rw [List.foldl_cons, List.foldl_nil] at hfold
      rw [hfold]
      congr 1
      funext p
      simp [hm, Edge.target, List.count_singleton, beq_eq_decide]
    · rw [if_neg hm, List.foldl_nil]
      simp [hm, Core.subInner]
  unfold callOnRequiredDecrement
  simp only [if_pos hne]
  generalize (st.outEdges .clusterGraph s).foldl _ st = st₁ at hinner ⊢
  have htop : st₁.toTopology = st.toTopology := by
    rw [hinner]
    rfl
  -- an unused service has no external out edges, so nothing else is told
  have hflag : (GraphFlags.union .externalGraph .strongUsageGraph).hasChildImporterEdge = false :=
    rfl
  rw [htop, (hedges _).1, hflag, Bool.and_false, Bool.false_and]
  exact hinner

lemma onServiceDel_core (hg : st.RootGate) (hne : s ≠ st.layout.root)
    (hchild : ∀ x ∈ st.services, x ≠ st.layout.root → (st.layout.parent x).owner ≠ s)
    (husages : ∀ u ∈ st.usages, u.used.owner ≠ s ∧ u.user.owner ≠ s) :
    (st.onServiceDel onServiceStartable s).toCore = st.toCore.subInner fun p =>
      if st.layout.isMember s = true ∧ (st.layout.parent s).owner = p then 1 else 0 := by
  -- the marks and the pushes are not part of the core
  have hfirst : (if st.layout.isClusterHead s then
      (st.setOverride s .none).doMarkClusterForStop onServiceStartable s false
    else
      let st := if st.isClusterPushed s then
        (st.inEdges .externalGraph s).foldl
          (fun st e => st.callOnClusterPushesDecrement (e.source st.layout) (some s)) st
        else st
      if st.isClusterMarkedForStop s then
        (st.outEdges .externalGraph s).foldl
          (fun st e => st.onClusterPullsDecrement onServiceStartable (e.target st.layout)) st
      else st).toCore = st.toCore := by
    split
    · rw [doMarkClusterForStop_core, setOverride_core]
      rw [setOverride_core]
      exact hg
    · have hpushes : (if st.isClusterPushed s then
          (st.inEdges .externalGraph s).foldl
            (fun st e => st.callOnClusterPushesDecrement (e.source st.layout) (some s)) st
          else st).toCore = st.toCore := by
        split
        · exact foldl_core_eq (P := fun _ => True)
            (fun _ _ _ => (callOnClusterPushesDecrement_frame _ _ _).core) _ trivial
        · rfl
      simp only
      generalize (if st.isClusterPushed s then
        (st.inEdges .externalGraph s).foldl
          (fun st e => st.callOnClusterPushesDecrement (e.source st.layout) (some s)) st
        else st) = st₁ at hpushes ⊢
      split
      · rw [foldl_core_eq (P := Core.RootGate) (fun _ _ h => onClusterPullsDecrement_core h _) _
          (by rw [hpushes]; exact hg), hpushes]
      · exact hpushes
  unfold onServiceDel
  simp only at hfirst ⊢
  generalize (if st.layout.isClusterHead s then _ else _ : State) = st₁ at hfirst ⊢
  have hne₁ : s ≠ st₁.layout.root := by
    rw [hfirst]
    exact hne
  have heq := callOnRequiredDecrement_unused_core (by rw [hfirst]; exact hg) hne₁
    (by rw [hfirst]; exact hchild) (by rw [hfirst]; exact husages)
  rw [heq, hfirst]

lemma destroy_core (hc : st.toCore.Balanced extra) (hs : st.CanDestroy s) :
    (st.destroy onServiceStartable s).toCore = st.toCore.depart s := by
  obtain ⟨hmem, hne, hp, hchild, husages⟩ := hs
  have hfirst : (if st.layout.isClusterHead s then st.transitionTargetSet s .none
      else st).toCore = st.toCore := by
    split
    · exact transitionTargetSet_core _ _ _
    · rfl
  unfold destroy
  simp only
  generalize (if st.layout.isClusterHead s then st.transitionTargetSet s .none else st) = st₁
    at hfirst
  have hne₁ : s ≠ st₁.layout.root := by
    rw [hfirst]
    exact hne
  have hdel := onServiceDel_core (by rw [hfirst]; exact hc.rootGate) hne₁
    (by rw [hfirst]; exact hchild) (by rw [hfirst]; exact husages)
  generalize st₁.onServiceDel onServiceStartable s = st₂ at hdel
  have hcore : ({ ({ st₂ with services := st₂.services.erase s } : State).eraseFromQueue s with
      phase := Function.update st₂.phase s .destroyed } : State).toCore = st.toCore.depart s := by
    simp only [eraseFromQueue]
    rw [hdel, hfirst]
    rfl
  split
  · exact hcore
  · exact hcore

/-! ### Stop requests -/

variable {replies : UsageId → ReleaseReply}

/-- `Usage::requestRelease` of a connected usage. -/
lemma requestRelease_balanced (replies : UsageId → ReleaseReply) (hc : st.toCore.Balanced extra)
    (hu : u ∈ st.usages) :
    (st.requestRelease replies u).2.toCore.Balanced extra ∧
      (st.requestRelease replies u).2.toServiceTree = st.toServiceTree ∧
      ∀ w ∈ st.usages, w ≠ u → w ∈ (st.requestRelease replies u).2.usages := by
  unfold requestRelease
  split
  · exact ⟨hc, rfl, fun w hw _ => hw⟩
  · -- only a release that is granted at once takes the usage away
    split
    · exact ⟨hc, rfl, fun w hw _ => hw⟩
    · have hcore := disconnect_core hc hu
      refine ⟨by rw [hcore]; exact hc.unplug hu, by rw [hcore]; rfl, fun w hw hne => ?_⟩
      rw [hcore]
      exact (List.mem_erase_of_ne hne).2 hw
    · exact ⟨hc, rfl, fun w hw _ => hw⟩

/-- The edges that a search still has to follow are there. -/
structure Pending (extra : ServiceId → Nat) (t : ServiceTree) (es : List Edge) (st : State) : Prop
    where
  balanced : st.toCore.Balanced extra
  tree : st.toServiceTree = t
  nodup : es.Nodup
  mem : ∀ e ∈ es, e ∈ st.edges

lemma stopFilter_pending {t : ServiceTree} {e : Edge} {es : List Edge}
    (h : Pending extra t (e :: es) st) : Pending extra t es (st.stopFilter replies e).2 := by
  obtain ⟨hc, htree, hnodup, hmem⟩ := h
  obtain ⟨hne, hes⟩ := List.nodup_cons.1 hnodup
  have hrest : Pending extra t es st :=
    ⟨hc, htree, hes, fun e he => hmem e (List.mem_cons_of_mem _ he)⟩
  unfold stopFilter
  cases e with
  | inner s => exact hrest
  | child s => exact hrest
  | usage u =>
    have hu : u ∈ st.usages := Topology.mem_edges_usage.1 (hmem _ List.mem_cons_self)
    obtain ⟨hb, htree', husages⟩ := requestRelease_balanced replies hc hu
    have hrel : Pending extra t es (st.requestRelease replies u).2 := by
      refine ⟨hb, htree'.trans htree, hes, fun e he => ?_⟩
      have heo := hmem e (List.mem_cons_of_mem _ he)
      cases e with
      | inner s => exact absurd heo Topology.not_mem_edges_inner
      | child s =>
        rw [Topology.mem_edges_child] at heo ⊢
        rwa [htree']
      | usage w =>
        rw [Topology.mem_edges_usage] at heo ⊢
        exact husages w heo fun heq => hne (heq ▸ he)
    simp only
    split
    · split
      all_goals
        rename_i heq
        rw [heq] at hrel
        exact hrel
    · exact hrest

lemma stopSearch_balanced (hc : st.toCore.Balanced extra) (hs : s ∈ st.services)
    (hh : st.cluster s = s) (fuel : Nat) :
    ((stopSearch replies).dfs fuel s {} st).2.toCore.Balanced extra := by
  suffices h : Pending extra st.toServiceTree [] ((stopSearch replies).dfs fuel s {} st).2 from
    h.balanced
  -- the filter may disconnect the usage of the edge that it looks at, but of no edge to come
  refine Search.dfs_keeps_pending (R := fun v => v ∈ st.services ∧ st.cluster v = v) rfl
    ?_ ?_ ?_ ?_ ⟨hs, hh⟩ rfl ⟨hc, rfl, List.nodup_nil, by simp⟩
  · intro e es x hx
    have hrest : Pending extra st.toServiceTree es ((stopSearch replies).filter x e).2 :=
      stopFilter_pending hx
    refine ⟨hrest, ?_⟩
    have htarget : e.target x.layout ∈ x.services := hx.balanced.wf.target_mem (hx.mem e (by simp))
    have hcluster : (stopSearch replies).target ((stopSearch replies).filter x e).2 e =
        x.cluster (e.target x.layout) := by
      simp only [stopSearch, Topology.clusterTarget]
      rw [show (x.stopFilter replies e).2.toServiceTree = x.toServiceTree from
        hrest.tree.trans hx.tree.symm]
    rw [hcluster, ← hx.tree]
    exact ⟨(hx.balanced.wf.cluster_mem htarget).1, hx.balanced.wf.cluster_cluster htarget⟩
  · exact fun es x hx => ⟨hx.balanced, hx.tree, List.nodup_nil, by simp⟩
  · intro x v _ hx
    simp only [stopSearch]
    have hcore : ((x.doMarkClusterForStop onServiceStartable v true).insertIntoQueueIfStoppable
        v).toCore = x.toCore := by
      rw [insertIntoQueueIfStoppable_core, doMarkClusterForStop_core hx.balanced.rootGate]
    refine ⟨by rw [hcore]; exact hx.balanced, ?_, List.nodup_nil, by simp⟩
    rw [hcore]
    exact hx.tree
  · intro x v hv hx
    rw [← hx.tree] at hv
    have hperm := hx.balanced.wf.clusterOutEdges_perm hv.1 hv.2
    refine ⟨hx.balanced, hx.tree, ?_, fun e he => ?_⟩
    · exact hperm.nodup_iff.2 (hx.balanced.wf.nodup_edges.filter _)
    · exact (List.mem_filter.1 (hperm.mem_iff.1 he)).1

lemma releaseWeakUsages_balanced (hc : st.toCore.Balanced extra) (h : ServiceId) :
    (st.releaseWeakUsages replies h).toCore.Balanced extra ∧
      (st.releaseWeakUsages replies h).toServiceTree = st.toServiceTree := by
  have hperm := hc.wf.dependentUsers_perm h
  -- by induction on the usages: a release takes none of those that are still to come
  have hfold : ∀ (us : List Usage) (x : State), us.Nodup → (∀ u ∈ us, u ∈ x.usages) →
      x.toCore.Balanced extra →
      (us.foldl (fun st use => if use.weak then (st.requestRelease replies use).2 else st)
        x).toCore.Balanced extra ∧
      (us.foldl (fun st use => if use.weak then (st.requestRelease replies use).2 else st)
        x).toServiceTree = x.toServiceTree := by
    intro us
    induction us with
    | nil => exact fun x _ _ hx => ⟨hx, rfl⟩
    | cons u us ih =>
      intro x hnodup hmem hx
      obtain ⟨hne, hnodup⟩ := List.nodup_cons.1 hnodup
      rw [List.foldl_cons]
      split
      · obtain ⟨hb, htree, husages⟩ :=
          requestRelease_balanced replies hx (hmem u List.mem_cons_self)
        obtain ⟨hb', htree'⟩ := ih _ hnodup (fun w hw =>
          husages w (hmem w (List.mem_cons_of_mem _ hw)) fun heq => hne (heq ▸ hw)) hb
        exact ⟨hb', htree'.trans htree⟩
      · exact ih x hnodup (fun w hw => hmem w (List.mem_cons_of_mem _ hw)) hx
  refine hfold _ st ?_ ?_ hc
  · exact hperm.nodup_iff.2 (hc.wf.usages_nodup'.filter _)
  · exact fun u hu => (List.mem_filter.1 (hperm.mem_iff.1 hu)).1

lemma stopRootCluster_balanced (hc : st.toCore.Balanced extra) (h : ServiceId) :
    (st.stopRootCluster replies h).toCore.Balanced extra := by
  have hrel : (if (st.phase h).isLocked then st.releaseWeakUsages replies h else st).toCore.Balanced
      extra := by
    split
    · exact (releaseWeakUsages_balanced hc h).1
    · exact hc
  unfold stopRootCluster
  simp only
  generalize (if (st.phase h).isLocked then st.releaseWeakUsages replies h else st) = st₁ at hrel
  have hmid : (((st₁.setOverride h .none).transitionTargetSet h .none).doMarkClusterForStart h
      false).toCore.Balanced extra := by
    rw [doMarkClusterForStart_core, transitionTargetSet_core, setOverride_core]
    exact hrel
  generalize ((st₁.setOverride h .none).transitionTargetSet h .none).doMarkClusterForStart h false =
    st₂ at hmid
  split
  · have hmark : (st₂.doMarkClusterForStop onServiceStartable h true).toCore.Balanced extra := by
      rwa [doMarkClusterForStop_core hmid.rootGate]
    split
    · exact hmark
    · exact hmark
  · exact hmid

/-- `Scheduler::on_service_stop_request` of the head of a cluster. -/
lemma onServiceStopRequest_balanced (replies : UsageId → ReleaseReply)
    (hc : st.toCore.Balanced extra) (hs : s ∈ st.services)
    (hh : st.cluster s = s) : (st.onServiceStopRequest replies s).toCore.Balanced extra := by
  unfold onServiceStopRequest
  split
  · unfold stopRoot
    split
    · exact hc
    · split
      · exact hc
      · exact List.foldlRecOn (motive := fun st' : State => st'.toCore.Balanced extra) st.clusters
          (stopRootCluster replies) hc fun _ hb h _ => stopRootCluster_balanced hb h
  · exact stopSearch_balanced hc hs hh _

/-! ### Requests -/

lemma requestStart_balanced {reason : Reason} {p : Promise} (hc : st.toCore.Balanced extra) :
    (st.requestStart s reason p).toCore.Balanced extra := by
  have hcore : (st.requestStart s reason p).toCore = st.toCore := by
    unfold requestStart
    simp only
    split
    · rfl
    · split
      all_goals
        split
        · simp [completeNow]
        · simp [chainPromise]
  rwa [hcore]

lemma requestObserve_balanced {p : Promise} (hc : st.toCore.Balanced extra) :
    (st.requestObserve s p).toCore.Balanced extra := by
  unfold requestObserve
  simp only
  split
  · exact hc
  · exact hc

lemma requestStop_balanced {p : Promise} (hc : st.toCore.Balanced extra)
    (hh : st.layout.isClusterHead s = true) :
    (st.requestStop replies s p).toCore.Balanced extra := by
  unfold requestStop
  simp only
  split
  · exact hc
  · rename_i hs
    have hs : s ∈ st.services := not_not.1 hs
    have hcore := setOverride_core { st with reached := st.reached ++ [p] } s .none
    generalize ({ st with reached := st.reached ++ [p] } : State).setOverride s .none = st₁
      at hcore ⊢
    have hc₁ : st₁.toCore.Balanced extra := by
      rw [hcore]
      exact hc
    split
    · exact hc₁
    · have hs₁ : s ∈ st₁.services := by
        rw [hcore]
        exact hs
      have hstop := onServiceStopRequest_balanced replies hc₁ hs₁
        (by rw [hcore]; exact hc.wf.cluster_of_isClusterHead hs hh)
      rw [← transitionTargetSet_core _ s .stop] at hstop
      exact hstop

lemma immediateStop_balanced (hc : st.toCore.Balanced extra) (hs : s ∈ st.services) :
    (st.immediateStop replies s).toCore.Balanced extra := by
  unfold immediateStop
  split
  · have hcore := setOverride_core st s .none
    refine onServiceStopRequest_balanced replies (by rw [hcore]; exact hc) ?_ ?_
    · rw [hcore]
      exact (hc.wf.cluster_mem hs).1
    · rw [hcore]
      exact hc.wf.cluster_cluster hs
  · exact hc

lemma runPosted_balanced {work : Posted} (hc : st.toCore.Balanced extra) :
    (st.runPosted work).toCore.Balanced extra := by
  have hc' : ({ st with posted := st.posted.erase work } : State).toCore.Balanced extra := hc
  cases work with
  | restart h =>
    simp only [runPosted]
    split
    · rw [checkAnyInClusterStartable_core hc'.rootGate]
      exact hc
    · exact hc
  | reachedNoExternalUse s n =>
    simp only [runPosted]
    split
    · rw [onOutgoingReachedNoExternalUse_core]
      exact hc
    · exact hc

end State

end Idle
