import Idle.Core.Inner
import Idle.Core.Marked
import Idle.Core.StartTraversal

/-!
# Coherent phases

The members of a cluster are locked and unlocked together, and `running_` says when. It shares its
word with the flags of the cluster and is 26 bits wide, and its assertion compares it with what 32
bits can hold. As long as every cluster has fewer than `2 ^ 26` members the phases are coherent; a
cluster with just as many is locked and counted as stopped.
-/

namespace Idle

/-- Every cluster is completely stopped or completely locked, with `running_` the number of its
members that are not pending. The phase of every service is what its phase changes since `stopped`
lead to, each along the cycle and each called with the phase the service was in. The epoch of a
cluster is the number of its returns to `stopped`. -/
structure State.PhasesCoherent (st : State) : Prop where
  cluster : ∀ h ∈ st.services, st.layout.isClusterHead h = true →
    (st.running h = 0 ∧ ∀ s ∈ st.clusterMembers h, st.phase s = .stopped) ∨
    (st.running h ≠ 0 ∧ (∀ s ∈ st.clusterMembers h, (st.phase s).isLocked = true) ∧
      (st.running h).toNat = (st.clusterMembers h).countP fun s => st.phase s ≠ .pending)
  history : ∀ s ∈ st.services, replay s st.changes = some (st.phase s)
  matching : ∀ ch ∈ st.changes, ch.phase = ch.source ∧ ch.source.next? = some ch.target
  epoch : ∀ h ∈ st.services, st.layout.isClusterHead h = true → st.epoch h = returns h st.changes

/-- The phases are coherent between any two handlers, as long as the members of every cluster can
be counted. -/
theorem phases_coherent {L : Layout} {st : State}
    (hst : (system L).Reachable (fun st op => op.KeepsSmall st) st) : st.PhasesCoherent := by
  have hg := (Reached.sound hst).good
  have hcl : ∀ h ∈ st.services, st.layout.isClusterHead h = true → st.cluster h = h :=
    fun h hh hhead => hg.tree.cluster_of_isClusterHead hh hhead
  refine ⟨fun h hh hhead => ?_, hg.replay_eq trivial, hg.matching trivial,
    fun h hh hhead => hg.epoch_eq h hh (hcl h hh hhead)⟩
  have hmem : ∀ s, s ∈ st.clusterMembers h ↔ s ∈ st.services ∧ st.cluster s = h :=
    fun s => hg.tree.mem_clusterMembers hh (hcl h hh hhead)
  obtain ⟨hr, hall⟩ | ⟨hall, hc⟩ := hg.coherent h hh (hcl h hh hhead)
  · exact .inl ⟨hr, fun s hs => hall s ((hmem s).1 hs).1 ((hmem s).1 hs).2⟩
  · obtain ⟨hr, hc⟩ := hc (.inl trivial)
    refine .inr ⟨hr, fun s hs => hall s ((hmem s).1 hs).1 ((hmem s).1 hs).2, hc.trans ?_⟩
    have hperm : (st.clusterMembers h).Perm (st.services.filter fun s => st.cluster s = h) :=
      hg.tree.clusterMembers_perm hh (hcl h hh hhead)
    rw [hperm.countP_eq, List.countP_filter]
    exact List.countP_congr fun s _ => by simp [State.life, and_comm]

theorem phases_coherent_startingRun :
    (State.after .flat startingRun).phase 1 = .starting ∧
      (State.after .flat startingRun).PhasesCoherent :=
  ⟨by decide, phases_coherent (Machine.Reachable.run (.init rfl) (by decide))⟩

/-! ### A cluster that cannot be counted -/

namespace State

variable {st : State} {me s : ServiceId} {small : Prop}

/-- `do_lock_cluster` counts `2 ^ 26` members as none. -/
lemma doStartEager_running (hg : st.life.Good small) (hs : me ∈ st.services)
    (hp : st.phase me = .stopped) : (st.doStartEager me).cluster me = st.cluster me ∧
      (st.doStartEager me).phase me = .starting ∧
      (st.doStartEager me).running (st.cluster me) = .ofNat 26 (st.members (st.cluster me)) := by
  have hlife := doStartEager_life_stopped hg.tree hs hp
  have hh := hg.tree.cluster_mem hs
  have hlen := Phases.length_clusterMembers hg.tree hh.1 (hg.tree.cluster_cluster hs)
  refine ⟨congrArg (fun l => l.cluster me) hlife, ?_, ?_⟩
  · have hphase := congrArg (fun l => l.phase me) hlife
    exact hphase.trans (Function.update_self ..)
  · have hrun := congrArg (fun l => l.running (st.cluster me)) hlife
    refine hrun.trans ((Function.update_self ..).trans ?_)
    have hzero := (hg.stopped hs hp).1
    have hlen : (st.life.clusterMembers (st.life.cluster me)).length =
        st.members (st.cluster me) := hlen
    rw [hzero, hlen]
    exact BitVec.zero_add _

/-- Locking a cluster whose members `running_` cannot tell from none leaves the phases
incoherent. -/
lemma doStartEager_not_coherent (hg : st.life.Good small) (hs : me ∈ st.services)
    (hp : st.phase me = .stopped) (hmany : 2 ^ 26 ∣ st.members (st.cluster me)) :
    ¬ (st.doStartEager me).PhasesCoherent := by
  intro hco
  obtain ⟨hcl, hstarting, hrun⟩ := doStartEager_running hg hs hp
  have htree : (st.doStartEager me).toServiceTree = st.toServiceTree :=
    congrArg (fun l => l.toServiceTree) (doStartEager_life_stopped hg.tree hs hp)
  have ht : st.IsTree := hg.tree
  obtain ⟨hh, hhead⟩ := ht.cluster_mem hs
  have hzero : (st.doStartEager me).running (st.cluster me) = 0 := by
    obtain ⟨k, hk⟩ := hmany
    rw [hrun, hk]
    refine BitVec.eq_of_toNat_eq ?_
    simp
  have hh' : st.cluster me ∈ (st.doStartEager me).services := by
    rw [htree]
    exact hh
  have hhead' : (st.doStartEager me).layout.isClusterHead (st.cluster me) = true := by
    rw [htree]
    exact hhead
  rcases hco.cluster (st.cluster me) hh' hhead' with ⟨-, hall⟩ | ⟨hne, -⟩
  · have hme : me ∈ (st.doStartEager me).clusterMembers (st.cluster me) := by
      rw [htree]
      exact (ht.mem_clusterMembers hh (ht.cluster_cluster hs)).2 ⟨hs, rfl⟩
    exact absurd (hstarting.symm.trans (hall me hme)) (by decide)
  · exact hne hzero

lemma process_eq_doStartEager {y : State} (hpop : st.pop = some (me, y))
    (hstop : y.shallClusterStop me = false) (hshall : y.shallClusterStart me = true)
    (hs : y.isStartable me = true) : st.process false = y.doStartEager me := by
  simp [process, hpop, processService, hstop, hshall, hs, tryStartServiceInplace]

/-! ### Members that nobody uses -/

lemma edges_of_bare {c : Topology} (hu : c.usages = [])
    (hchild : ∀ p, p.owner = s → c.children p = []) (hm : c.layout.isMember s = true) :
    c.outEdges (.union .externalGraph .strongUsageGraph) s = [] ∧
      c.inEdges .strongUsageGraph s = [] := by
  have hhead : c.layout.isClusterHead s = false := by
    simpa [Layout.isMember, Layout.isClusterHead] using hm
  have hparts : ∀ p ∈ c.layout.parts s, c.children p = [] :=
    fun p hp => hchild p (c.layout.parts_owner hp)
  refine ⟨?_, ?_⟩
  · have hexports : ∀ p ∈ c.layout.exports s,
        c.exportOutEdges (.union .externalGraph .strongUsageGraph) p = [] := fun p hp => by
      simp [Topology.exportOutEdges, Topology.dependentUsers, hu,
        hparts p (List.mem_filter.1 hp).1]
    have hflag : (GraphFlags.union .externalGraph .strongUsageGraph).hasChildImporterEdge = false :=
      rfl
    simpa [Topology.outEdges, hflag] using hexports
  · have himports : ∀ p ∈ c.layout.imports s, c.importInEdges .strongUsageGraph p = [] :=
      fun p hp => by
        simp [Topology.importInEdges, Topology.importedUsages, hu,
          hparts p (List.mem_filter.1 hp).1]
    simpa [Topology.inEdges, hhead] using himports

/-- A member without usages and children has no edges to other clusters. -/
lemma init_outer (hw : st.WellFormed) (hu : st.usages = []) (hs : st.CanInit s)
    (hnew : s ∉ st.services) (hm : st.layout.isMember s = true)
    (hr : (st.phase st.layout.root).isRunning = true) :
    (st.init s).outerDepsMissing = st.outerDepsMissing := by
  have hhead : st.layout.isClusterHead s = false := by
    simpa [Layout.isMember, Layout.isClusterHead] using hm
  obtain ⟨st₁, hst₁⟩ : ∃ st₁, st₁ = ({ st.construct s with
      cluster := Function.update (st.construct s).cluster s
        (if (st.construct s).layout.isMember s then
          (st.construct s).cluster ((st.construct s).layout.parent s).owner else s)
      phase := Function.update (st.construct s).phase s .stopped
      services := (st.construct s).services ++ [s] } : State) := ⟨_, rfl⟩
  have hinit : st.init s = st₁.onServiceAdd s := by
    rw [hst₁]
    rfl
  have hconstruct : (st.construct s).layout = st.layout ∧ (st.construct s).usages = st.usages ∧
      (st.construct s).services = st.services ∧ (st.construct s).phase = st.phase ∧
      (st.construct s).outerDepsMissing = st.outerDepsMissing := by
    unfold construct
    simp [hhead]
  obtain ⟨hlayout, husages, hservices, hphase, houter⟩ := hconstruct
  have hlayout₁ : st₁.layout = st.layout := by rw [hst₁, ← hlayout]
  have hroot : s ≠ st.layout.root := fun h => hnew (h ▸ hw.root_mem)
  have hr₁ : (st₁.phase st₁.layout.root).isRunning = true := by
    rw [hlayout₁, hst₁]
    simp only [hphase, Function.update_of_ne hroot.symm]
    exact hr
  have hchild : ∀ p, p.owner = s → st₁.children p = [] := by
    rintro p rfl
    refine List.eq_nil_iff_forall_not_mem.2 fun t ht => ?_
    obtain ⟨ht, -, hp⟩ := ServiceTree.mem_children.1 ht
    rw [hlayout₁] at hp
    have ht : t ∈ st.services ++ [p.owner] := by
      rw [hst₁] at ht
      simpa [hservices] using ht
    rcases List.mem_append.1 ht with ht | ht
    · exact hnew (hp ▸ hw.parent_mem ht)
    · rw [List.mem_singleton.1 ht] at hp
      exact hnew (by simpa [hp] using hs.2.1)
  obtain ⟨hout, hin⟩ := edges_of_bare (c := st₁.toTopology) (by rw [hst₁]; exact husages.trans hu)
    hchild (hlayout₁ ▸ hm)
  have hm₁ : st₁.layout.isMember s = true := hlayout₁ ▸ hm
  have hne₁ : s ≠ st₁.layout.root := hlayout₁ ▸ hroot
  -- only the owner gains an inner dependency
  have hadd : st₁.onServiceAdd s = st₁.onInnerRequiredIncrement (st₁.layout.parent s).owner := by
    have hout₂ : (st₁.onInnerRequiredIncrement (st₁.layout.parent s).owner).outEdges
        (.union .externalGraph .strongUsageGraph) s = [] := hout
    have hin₂ : (st₁.onInnerRequiredIncrement (st₁.layout.parent s).owner).inEdges
        .strongUsageGraph s = [] := hin
    have hr₂ : ((st₁.onInnerRequiredIncrement (st₁.layout.parent s).owner).phase
        (st₁.onInnerRequiredIncrement (st₁.layout.parent s).owner).layout.root).isRunning = true :=
      hr₁
    unfold onServiceAdd callOnRequiredIncrement
    rw [if_pos hne₁, Topology.outEdges_cluster, if_pos hm₁]
    simp only [List.foldl_cons, List.foldl_nil, Edge.target, hout₂, hin₂]
    simp [hr₂]
  rw [hinit, hadd]
  have hsame : st₁.outerDepsMissing = st.outerDepsMissing := by
    rw [hst₁]
    exact houter
  exact hsame

lemma init_topology (st : State) (s : ServiceId) :
    (st.init s).toTopology = st.toTopology.insert s := congrArg (·.toTopology) (init_wires st s)

/-- A member leaves what is said about its cluster alone. -/
lemma init_kept (st : State) (hh : st.layout.isClusterHead s = false) :
    (st.init s).pushes = st.pushes ∧ (st.init s).isMarkedForStart = st.isMarkedForStart ∧
      (st.init s).isMarkedForStop = st.isMarkedForStop ∧ (st.init s).pulls = st.pulls ∧
      (st.init s).override = st.override := by
  have hwires := init_wires st s
  have hpushes : (st.init s).pushes = if st.layout.isClusterHead s then
      Function.update st.pushes s 0 else st.pushes := congrArg (·.pushes) hwires
  have hstart : (st.init s).isMarkedForStart = if st.layout.isClusterHead s then
      Function.update st.isMarkedForStart s false else st.isMarkedForStart :=
    congrArg (·.isMarkedForStart) hwires
  have hstop : (st.init s).isMarkedForStop = if st.layout.isClusterHead s then
      Function.update st.isMarkedForStop s false else st.isMarkedForStop :=
    congrArg (·.isMarkedForStop) hwires
  have hpulls : (st.init s).pulls = if st.layout.isClusterHead s then
      Function.update st.pulls s 0 else st.pulls := congrArg (·.pulls) hwires
  have hoverride : (st.init s).override = if st.layout.isClusterHead s then
      Function.update st.override s .none else st.override := congrArg (·.override) hwires
  rw [hpushes, hstart, hstop, hpulls, hoverride, hh]
  exact ⟨rfl, rfl, rfl, rfl, rfl⟩

lemma init_reached (st : State) (s : ServiceId) : (st.init s).reached = st.reached := by
  have hlife : (st.init s).life.reached = (st.life.insert s).reached := by rw [init_life]
  simpa only [life, Life.insert, Life.mapPhases] using hlife

end State

/-- Besides the members, service 1 shall start, and only waits for those below it. -/
structure Crowded (n : Nat) (st : State) : Prop extends MembersIn n st where
  usages : st.usages = []
  cluster : ∀ s, s ≠ 0 → s < n + 3 → st.cluster s = 1
  outer : st.outerDepsMissing 1 = 0
  inner : st.innerDepsMissing 2 = 0
  shall : st.pushes 1 = 1 ∧ st.isMarkedForStart 1 = true ∧ st.isMarkedForStop 1 = false ∧
    st.pulls 1 = 0
  override : st.override 1 = .start
  reached : st.reached = [⟨0, .start⟩]
  queue : st.down = [] ∧ st.up = []

lemma Crowded.zero : Crowded 0 (State.after .fan (memberInits 0)) where
  toMembersIn := .zero
  usages := by decide +kernel
  cluster s hs hlt := by
    obtain rfl | rfl : s = 1 ∨ s = 2 := by omega
    · decide +kernel
    · decide +kernel
  outer := by decide +kernel
  inner := by decide +kernel
  shall := by decide +kernel
  override := by decide +kernel
  reached := by decide +kernel
  queue := by decide +kernel

lemma Crowded.succ {n : Nat} {st : State} {small : Prop} (h : Crowded n st) (hw : st.WellFormed)
    (hg : st.life.Good small) : Crowded (n + 1) (st.init (n + 3)) := by
  have htop := State.init_topology st (n + 3)
  have hparent : st.layout.parent (n + 3) = Layout.importOf 1 := by
    rw [h.layout, Layout.fan_parent]
  have hm : st.layout.isMember (n + 3) = true := by
    rw [Layout.isMember, hparent]
    rfl
  have hhead : st.layout.isClusterHead (n + 3) = false := by
    rw [Layout.isClusterHead, hparent]
    rfl
  have hr : (st.phase st.layout.root).isRunning = true := by
    have hroot : st.layout.root = 0 := by rw [h.layout]; rfl
    rw [hroot, h.root]
    rfl
  refine ⟨h.toMembersIn.succ hg, ?_, fun s hs hlt => ?_, ?_, ?_, ?_, ?_, ?_, ?_⟩
  · rw [htop]
    exact h.usages
  · have hcl : (st.toTopology.insert (n + 3)).cluster s = Function.update st.cluster (n + 3)
        (st.cluster (st.layout.parent (n + 3)).owner) s := by
      simp [Topology.insert, hm]
    rw [htop, hcl, hparent]
    by_cases hsn : s = n + 3
    · rw [hsn, Function.update_self]
      exact h.cluster 1 one_ne_zero (by omega)
    · rw [Function.update_of_ne hsn]
      exact h.cluster s hs (by omega)
  · rw [State.init_outer hw h.usages h.canInit (h.canInit.not_mem hg) hm hr, h.outer]
  · have hne : (st.layout.parent (n + 3)).owner ≠ 2 := by
      rw [hparent]
      decide
    have hn : 2 ≠ n + 3 := by omega
    rw [State.init_inner, if_neg fun hcond => hne hcond.2, Function.update_of_ne hn, h.inner]
    rfl
  · obtain ⟨hpushes, hstart, hstop, hpulls, -⟩ := State.init_kept st hhead
    rw [hpushes, hstart, hstop, hpulls]
    exact h.shall
  · rw [(State.init_kept st hhead).2.2.2.2]
    exact h.override
  · rw [State.init_reached, h.reached]
  · obtain ⟨hd, hu⟩ := State.init_queue st (n + 3)
    rw [hd, hu]
    exact h.queue

lemma memberInits_crowded (n : Nat) : Crowded n (State.after .fan (memberInits n)) := by
  induction n with
  | zero => exact .zero
  | succ n ih =>
    have hst : Reachable .fan (State.after .fan (memberInits n)) :=
      Machine.Reachable.run (.init rfl) (memberInits_run n).1
    rw [memberInits_succ, State.after_concat]
    generalize State.after .fan (memberInits n) = st at ih hst
    exact ih.succ hst.wellFormed hst.sound.good

namespace Crowded

variable {n : Nat} {st : State} (h : Crowded n st)
include h

lemma root_eq : st.layout.root = 0 := by
  rw [h.layout]
  rfl

lemma members_eq (hw : st.WellFormed) : st.members 1 = n + 2 := by
  have hroot : st.cluster 0 = 0 := by
    have hcl := hw.cluster_root
    rwa [h.root_eq] at hcl
  have hrest : ∀ t ∈ List.range (n + 2), decide (st.cluster (t + 1) = 1) = true := fun t ht => by
    have ht := List.mem_range.1 ht
    simp [h.cluster (t + 1) (Nat.succ_ne_zero t) (by omega)]
  unfold ServiceTree.members
  rw [h.services, List.range_succ_eq_map, List.countP_cons, List.countP_map]
  simp only [hroot]
  exact (congrArg (· + _) (List.countP_eq_length.2 hrest)).trans (by simp)

/-- The repeated request queues the member 2, and whatever is queued is a member. -/
lemma requestStart_eq (hw : st.WellFormed) :
    ∃ marks up target promise completed, st.requestStart 1 .manual ⟨1, .start⟩ = { st with
        isMarkedForStart := marks, up := up, target := target, promise := promise
        completed := completed, reached := st.reached ++ [⟨1, .start⟩] } ∧
      marks 1 = true ∧ 2 ∈ up ∧ ∀ m ∈ up, m ∈ st.services ∧ st.isStartable m = true := by
  have hone : st.cluster 1 = 1 := h.cluster 1 one_ne_zero (by omega)
  have hmem : 1 ∈ st.services := by
    rw [h.services]
    exact List.mem_range.2 (by omega)
  obtain ⟨hpushes, hstart, hstop, hpulls⟩ := h.shall
  obtain ⟨st₁, hst₁⟩ : ∃ st₁, st₁ = ({ st with reached := st.reached ++ [⟨1, .start⟩] } : State) :=
    ⟨_, rfl⟩
  have hoverride : st₁.setOverride 1 .start = st₁ := by
    have hov : st₁.override (st₁.cluster 1) = .start := by
      rw [hst₁]
      exact (congrArg st.override hone).trans h.override
    unfold State.setOverride
    simp [hov]
  have hrun : (st₁.phase 1).isRunning = false := by
    rw [hst₁]
    have hp : st.phase 1 = .stopped := h.stopped 1 one_ne_zero (by omega)
    simp only [hp]
    rfl
  have hmem₁ : 1 ∈ st₁.services := by rwa [hst₁]
  -- the override is set and nothing runs, so the request marks and chains
  have hrequest : st.requestStart 1 .manual ⟨1, .start⟩ = ((st₁.onServiceStartRequest
      1).transitionTargetSet 1 .start).chainPromise 1 ⟨1, .start⟩ := by
    unfold State.requestStart
    simp only [hmem, ← hst₁, not_true_eq_false, if_false, if_true, hoverride, hrun,
      Bool.false_eq_true]
  have hw₁ : st₁.WellFormed := by rwa [hst₁]
  have hone₁ : st₁.cluster 1 = 1 := by rwa [hst₁]
  obtain ⟨-, -, heq, hmarks, hup⟩ := State.onServiceStartRequest_marks hw₁ hmem₁ hone₁
  have hmark : (st₁.onServiceStartRequest 1).isMarkedForStart 1 = true :=
    (hmarks 1).2 (.inl (by rw [hst₁]; exact hstart))
  have hmembers : ∀ m, m ∈ st₁.clusterMembers 1 ↔ m ∈ st.services ∧ st.cluster m = 1 := by
    rw [hst₁]
    exact fun m => hw.mem_clusterMembers hmem hone
  have hshall : (st₁.onServiceStartRequest 1).shallClusterStart 1 = true := by
    rw [heq]
    simp only [State.shallClusterStart, State.isClusterPushed, State.isClusterMarkedForStart,
      State.isClusterMarkedForStop, State.isClusterPulled, hone₁, hmark]
    rw [hst₁]
    simp [hpushes, hstop, hpulls]
  have htwo : st.isStartable 2 = true := by
    have hp : st.phase 2 = .stopped := h.stopped 2 two_ne_zero (by omega)
    have hc : st.cluster 2 = 1 := h.cluster 2 two_ne_zero (by omega)
    simp [Core.isStartable, h.inner, hp, hc, h.outer]
  obtain ⟨target, promise, completed, htarget⟩ :=
    State.transitionTargetSet_frame (st₁.onServiceStartRequest 1) 1 .start
  refine ⟨(st₁.onServiceStartRequest 1).isMarkedForStart, (st₁.onServiceStartRequest 1).up, target,
    Function.update promise (st.cluster 1) (promise (st.cluster 1) ++ [⟨1, .start⟩]), completed,
    ?_, hmark, (hup 2).2 (.inr ⟨1, .inl .refl, hshall, (hmembers 2).2 ⟨?_, ?_⟩, ?_⟩),
    fun m hm => ?_⟩
  · rw [hrequest, htarget, heq, hst₁]
    rfl
  · rw [h.services]
    exact List.mem_range.2 (by omega)
  · exact h.cluster 2 two_ne_zero (by omega)
  · rw [hst₁]
    exact htwo
  · rcases (hup m).1 hm with hm | ⟨g, -, -, hm, hstart⟩
    · rw [hst₁] at hm
      exact absurd hm (h.queue.2 ▸ List.not_mem_nil)
    · -- what is queued was startable, hence initialised
      have hphase : st.phase m ≠ .uninitialized := fun hp => by
        have hfalse : st₁.isStartable m = false := by
          rw [hst₁]
          simp [Core.isStartable, hp]
        exact absurd (hfalse.symm.trans hstart) Bool.false_ne_true
      have hlt : m < n + 3 := not_le.1 fun hge => hphase (h.fresh m hge)
      rw [hst₁] at hstart
      refine ⟨?_, hstart⟩
      rw [h.services]
      exact List.mem_range.2 hlt

/-- What is popped first is a member that shall start and can. -/
lemma requestStart_pop (hw : st.WellFormed) :
    ∃ m y, (st.requestStart 1 .manual ⟨1, .start⟩).pop = some (m, y) ∧ y.toCore = st.toCore ∧
      m ≠ 0 ∧ m ∈ st.services ∧ st.phase m = .stopped ∧ st.cluster m = 1 ∧
      y.shallClusterStop m = false ∧ y.shallClusterStart m = true ∧ y.isStartable m = true := by
  obtain ⟨marks, up, target, promise, completed, hreq, hmark, htwo, hup⟩ := h.requestStart_eq hw
  rw [hreq]
  obtain ⟨m, hlast⟩ : ∃ m, up.getLast? = some m :=
    Option.ne_none_iff_exists'.1 fun hnone => by
      rw [List.getLast?_eq_none_iff.1 hnone] at htwo
      exact List.not_mem_nil htwo
  obtain ⟨hm, hstart⟩ := hup m (List.mem_of_getLast? hlast)
  obtain ⟨hpushes, -, hstop, hpulls⟩ := h.shall
  have hlt : m < n + 3 := by
    rw [h.services] at hm
    exact List.mem_range.1 hm
  have hzero : m ≠ 0 := by
    rintro rfl
    simp [Core.isStartable, h.root] at hstart
  have hone : st.cluster m = 1 := h.cluster m hzero hlt
  obtain ⟨y, hy⟩ : ∃ y, y = ({ st with
      isMarkedForStart := marks, up := up.dropLast, target := target, promise := promise
      completed := completed, reached := st.reached ++ [⟨1, .start⟩] } : State) := ⟨_, rfl⟩
  refine ⟨m, y, by simp [State.pop, h.queue.1, hlast, hy], by rw [hy], hzero, hm,
    h.stopped m hzero hlt, hone, ?_, ?_, by rwa [hy]⟩
  · rw [hy]
    simp [State.shallClusterStop, State.isClusterPushed, State.isClusterMarkedForStop, hone,
      hpushes, hstop]
  · rw [hy]
    simp [State.shallClusterStart, State.isClusterPushed, State.isClusterMarkedForStart,
      State.isClusterMarkedForStop, State.isClusterPulled, hone, hpushes, hmark, hstop, hpulls]

/-- Whatever is popped first has the whole cluster locked. -/
lemma process_not_coherent {small : Prop} (hw : st.WellFormed) (hg : st.life.Good small)
    (hmany : 2 ^ 26 ∣ n + 2) :
    ¬ ((st.requestStart 1 .manual ⟨1, .start⟩).process false).PhasesCoherent := by
  obtain ⟨m, y, hpop, hcore, -, hm, hphase, hone, hstop, hshall, hs⟩ := h.requestStart_pop hw
  have hmembers : st.members (st.cluster m) = n + 2 := by rw [hone, h.members_eq hw]
  have hlife : y.life.toPhases = st.life.toPhases := by
    simp only [State.life, hcore]
  rw [State.process_eq_doStartEager hpop hstop hshall hs]
  have hgood : y.life.Good small := hlife ▸ hg
  refine State.doStartEager_not_coherent hgood ?_ ?_ ?_
  · rwa [hcore]
  · rwa [hcore]
  · rw [hcore, hmembers]
    exact hmany

lemma requestStart_pre : (Op.requestStart 1 .manual ⟨1, .start⟩).Pre st := by
  refine ⟨?_, ?_, rfl⟩
  · rw [h.layout]
    decide
  · rw [h.reached]
    decide

lemma process_pre (hw : st.WellFormed) :
    (Op.process false).Pre (st.requestStart 1 .manual ⟨1, .start⟩) := by
  obtain ⟨m, y, hpop, -, hzero, -⟩ := h.requestStart_pop hw
  have hroot : (st.requestStart 1 .manual ⟨1, .start⟩).layout.root = 0 := by
    obtain ⟨_, _, _, _, _, hreq, -⟩ := h.requestStart_eq hw
    rw [hreq]
    exact h.root_eq
  intro heq
  rw [hpop, hroot] at heq
  exact absurd (Option.some.inj heq) hzero

end Crowded

/-- `2 ^ 26` members, one of which is started. -/
theorem memberInits_not_coherent :
    ¬ ∀ (L : Layout) (st : State), Reachable L st → st.PhasesCoherent := by
  intro hall
  have hrun := (memberInits_run (2 ^ 26 - 2)).1
  have hin := memberInits_crowded (2 ^ 26 - 2)
  have hst : Reachable .fan (State.after .fan (memberInits (2 ^ 26 - 2))) :=
    Machine.Reachable.run (.init rfl) hrun
  generalize State.after .fan (memberInits (2 ^ 26 - 2)) = st at hin hst
  have hreq : Reachable .fan (st.requestStart 1 .manual ⟨1, .start⟩) :=
    Machine.Reachable.step (M := system .fan) (a := .requestStart 1 .manual ⟨1, .start⟩) hst
      hin.requestStart_pre trivial
  have hprocess : Reachable .fan ((st.requestStart 1 .manual ⟨1, .start⟩).process false) :=
    Machine.Reachable.step (M := system .fan) (a := .process false) hreq
      (hin.process_pre hst.wellFormed) trivial
  exact hin.process_not_coherent hst.wellFormed hst.sound.good (by decide) (hall _ _ hprocess)

end Idle
