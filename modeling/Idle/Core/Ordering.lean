import Idle.Core.Bookkeeping
import Idle.Core.Sample

/-!
# Every run

Three things can unbalance the counters. An export with children hands out its first usage without
asking for its kind when its owner starts or stops. The strong usages of the exports of the root
are skipped when the root starts or stops. A member that is destroyed takes what it is missing with
it only if that is nothing. Runs that stay clear of these, and in which the counters do not
overflow, keep the counters balanced, and with them the order in which services start and stop.
-/

namespace Idle

namespace Core

variable {c : Core} {s h : ServiceId} {extra : ServiceId → Nat}

/-! ### Room for one more -/

/-- The dependencies of a cluster that are not missing now. -/
def outerPresent (c : Core) (h : ServiceId) : Nat :=
  c.edges.countP (fun e => e.isAwaited c.layout = true ∧ c.clusterTarget e = h ∧
    c.phase (e.source c.layout) = .running) +
  if c.phase c.layout.root = .running then
    c.services.countP fun s => s ≠ c.layout.root ∧ c.cluster s = h
  else 0

/-- Every counter can hold one more than everything that it counts or may come to count. -/
def HasRoom (c : Core) : Prop :=
  ∀ s ∈ c.services, c.usesBound s + 1 < 2 ^ 32 ∧
    (c.cluster s = s → (c.outerDepsMissing s).toNat + c.outerPresent s + 1 < 2 ^ 16) ∧
    c.innerBound s + 1 < 2 ^ 16

instance (c : Core) : Decidable c.HasRoom :=
  inferInstanceAs (Decidable (∀ s ∈ c.services, _))

lemma outerBound_eq (c : Core) (h : ServiceId) :
    c.outerBound h = c.outerSpec h + c.outerPresent h := by
  have hedges : c.edges.countP (fun e => e.isAwaited c.layout = true ∧ c.clusterTarget e = h) =
      c.openEdges h + c.edges.countP (fun e => e.isAwaited c.layout = true ∧
        c.clusterTarget e = h ∧ c.phase (e.source c.layout) = .running) := by
    refine List.countP_eq_add_of_disjoint (fun e _ => ?_) (fun e _ => ?_)
    · by_cases hr : c.phase (e.source c.layout) = .running
      · simp [hr]
      · simp [hr]
    · rintro ⟨h1, h2⟩
      simp only [decide_eq_true_eq] at h1 h2
      exact h1.2.2 h2.2.2
  unfold outerBound outerSpec rootMissing outerPresent
  rw [hedges]
  split <;> omega

lemma Balanced.fits_one (hc : c.Balanced extra) (hroom : c.HasRoom) : c.Fits extra 1 := by
  intro s hs
  obtain ⟨huses, houter, hinner⟩ := hroom s hs
  refine ⟨huses, fun hh => ?_, hinner⟩
  have := houter hh
  rw [hc.outer_toNat hs hh] at this
  rw [outerBound_eq]
  omega

end Core

/-! ### The conditions -/

instance (t : Topology) (p : Part) : Decidable (t.FirstUsageStrong p) :=
  inferInstanceAs (Decidable (t.children p ≠ [] → ∀ u ∈ (t.dependentUsers p).head?, _))

instance (t : Topology) : Decidable (Core.RootUsedWeakly t) :=
  inferInstanceAs (Decidable (∀ u ∈ t.usages, _))

instance (t : Topology) (s : ServiceId) : Decidable (State.Enumerable t s) :=
  inferInstanceAs (Decidable (if s = t.layout.root then Core.RootUsedWeakly t
    else ∀ p ∈ t.layout.exports s, t.FirstUsageStrong p))

namespace Op

/-- The service whose start an operation completes, or whose stop it begins. -/
def moves (st : State) : Op → Option ServiceId
  | started s => some s
  | process ready =>
    match st.pop with
    | some (s, st') => if st'.processMoves s ready then some s else none
    | none => none
  | run => if (st.phase st.layout.root).isRunning then none else some st.layout.root
  | _ => none

/-- The operation adds to what a counter may come to count. -/
def raises : Op → Bool
  | init _ | connect _ | setSatisfied _ false | tryUse _ | incUse _ => true
  | _ => false

/-- The counters have room for what is added, and the edges of whatever starts or stops are
enumerated correctly. -/
def KeepsCount (st : State) (op : Op) : Prop :=
  (op.raises = true → st.toCore.HasRoom) ∧ ∀ s ∈ op.moves st, State.Enumerable st.toTopology s

instance (st : State) (op : Op) : Decidable (op.KeepsCount st) :=
  inferInstanceAs (Decidable (_ ∧ ∀ s ∈ op.moves st, _))

/-- A member that is destroyed misses nothing, unless its cluster is one of those that are torn
down: a handler that destroys a head destroys the members with it. -/
def LeavesNothing (torn : ServiceId → Prop) (st : State) : Op → Prop
  | destroy s => st.layout.isMember s = true → torn (st.cluster s) ∨
      st.phase st.layout.root = .running ∧ ∀ i ∈ st.layout.imports s, st.satisfied i = true
  | _ => True

instance (torn : ServiceId → Prop) [DecidablePred torn] (st : State) :
    (op : Op) → Decidable (op.LeavesNothing torn st)
  | .destroy s => inferInstanceAs (Decidable (st.layout.isMember s = true → _ ∨ _ ∧ _))
  | .init _ | .connect _ | .disconnect _ | .setSatisfied _ _ | .requestStart _ _ _
  | .requestStop _ _ _ | .requestObserve _ _ | .immediateStop _ _ | .process _ | .started _
  | .stopped _ | .posted _ | .run | .tryUse _ | .incUse _ | .decUse _ _ => .isTrue trivial

end Op

namespace State

variable {st : State} {s : ServiceId} {extra : ServiceId → Nat}

/-! ### Every handler -/

lemma initial_balanced (L : Layout) : (initial L).toCore.Balanced fun _ => 0 := by
  have hedges : (initial L).edges = [] := by
    simp [Topology.edges, Topology.childHeads, initial]
  have hmem : ∀ {s}, s ∈ (initial L).services → s = L.root := fun hs => List.mem_singleton.1 hs
  have himplicit : L.hasImplicitRootEdge L.root = false := by simp [Layout.hasImplicitRootEdge]
  have houter : ∀ h, (initial L).toCore.outerBound h = 0 := by
    intro h
    unfold Core.outerBound
    rw [hedges]
    simp [Core.unsatisfied, initial]
  have hinner : ∀ p, (initial L).toCore.innerBound p = 0 := by
    intro p
    simp [Core.innerBound, initial]
  refine ⟨⟨?_, ?_, ?_⟩, ⟨?_, ?_, ?_, rfl, rfl⟩, Topology.WellFormed.initial L, ?_, fun s _ => rfl,
    ?_, rfl⟩
  · intro s hs hne
    exact absurd (hmem hs) hne
  · intro e he
    rw [hedges] at he
    exact absurd he List.not_mem_nil
  · intro s hs hm
    rw [hmem hs] at hm
    simp [initial] at hm
  · intro s _
    have := (initial L).toCore.innerSpec_le s
    rw [hinner] at this
    rw [Nat.le_zero.1 this]
    rfl
  · intro h _ _
    have := (initial L).toCore.outerSpec_le h
    rw [houter] at this
    rw [Nat.le_zero.1 this]
    rfl
  · intro s
    by_cases hs : s = L.root <;> simp [Core.usesSpec, initial, hs]
  · intro s
    by_cases hs : s = L.root <;> simp [initial, hs, Phase.next?]
  · intro s hs
    rw [houter, hinner, hmem hs]
    have huses : (initial L).toCore.usesBound L.root = 2 := by
      unfold Core.usesBound
      rw [hedges]
      simp [initial, himplicit]
    rw [huses]
    exact ⟨by decide, fun _ => Nat.two_pow_pos 16, by decide⟩

/-- What is left over after an operation. -/
def leftover (st : State) (extra : ServiceId → Nat) : Op → ServiceId → Nat
  | .init s => Function.update extra s 0
  | .destroy s => st.toCore.leftover extra s
  | _ => extra

theorem exec_balanced {op : Op} (hc : st.toCore.Balanced extra) (hg : st.life.Good True)
    (hr : st.life.RootRests) (hp : op.Pre st) (hk : op.KeepsCount st) :
    (op.exec st).toCore.Balanced (st.leftover extra op) := by
  obtain ⟨hroom, hen⟩ := hk
  have hroom : op.raises = true → st.toCore.Fits extra 1 := fun h => hc.fits_one (hroom h)
  cases op with
  | init s =>
    obtain ⟨hphase, ho, hparts, hm⟩ := hp
    change (st.init s).toCore.Balanced _
    rw [init_core hc ⟨hphase, ho, hparts, hm⟩]
    exact hc.arrive hphase ho hparts hm (hroom rfl)
  | destroy s =>
    obtain ⟨hs, hne, hphase, hchild, husages⟩ := hp
    change (st.destroy onServiceStartable s).toCore.Balanced _
    rw [destroy_core hc ⟨hs, hne, hphase, hchild, husages⟩]
    exact hc.depart hs hne hphase hchild husages
  | connect u =>
    obtain ⟨hid, hused, hexports, huser, himports, hdiff⟩ := hp
    change (st.connect u).toCore.Balanced _
    rw [connect_core]
    exact hc.plug (hc.wf.connect hid hused hexports huser himports hdiff) (hroom rfl)
  | disconnect u =>
    change (st.disconnect onServiceStartable u).toCore.Balanced _
    rw [disconnect_core hc hp]
    exact hc.unplug hp
  | setSatisfied imp satisfied =>
    change (st.setSatisfied onServiceStartable imp satisfied).toCore.Balanced _
    rw [setSatisfied_core hc hp.1 hp.2]
    refine hc.setSatisfied hp.1 hp.2 fun hs => hroom ?_
    rw [hs]
    rfl
  | requestStart s reason promise => exact requestStart_balanced hc
  | requestStop replies s promise => exact requestStop_balanced hc hp.1
  | requestObserve s promise => exact requestObserve_balanced hc
  | immediateStop replies s => exact immediateStop_balanced hc hp
  | process ready =>
    refine process_balanced hc hg fun s st' hpop hm => hen s ?_
    simp only [Op.moves, hpop, hm, if_true]
    rfl
  | started s => exact postStartActions_balanced hc hp.1 hp.2 (hen s rfl)
  | stopped s => exact postStopActions_balanced hc hg hp.1 hp.2
  | posted work => exact runPosted_balanced hc
  | run =>
    refine run_balanced hc hg hr fun hnot => ?_
    have := hen st.layout.root (by simp [Op.moves, hnot])
    exact this.root
  | tryUse s => exact tryUse_balanced hc (hroom rfl)
  | incUse s => exact incUse_balanced hc hp.2 (hroom rfl)
  | decUse s onEventLoop => exact decUse_balanced hc hp.1 hp.2

/-- An operation that leaves nothing behind in a cluster keeps its counter exact. -/
lemma leftover_eq_zero {torn : ServiceId → Prop} {op : Op} {h : ServiceId}
    (hl : op.LeavesNothing torn st) (ht : ¬ torn h) (he : extra h = 0) :
    st.leftover extra op h = 0 := by
  cases op with
  | init s =>
    simp only [leftover, Function.update_apply]
    split
    · rfl
    · exact he
  | destroy s =>
    simp only [leftover, Core.leftover, he, Nat.zero_add]
    split
    · rename_i hm
      obtain ⟨hm, rfl⟩ := hm
      obtain ⟨hrun, hsat⟩ := (hl hm).resolve_left ht
      have hhead : st.layout.isClusterHead s = false := by
        simpa [Layout.isMember, Layout.isClusterHead] using hm
      simpa [Core.ownMissing, hhead, hrun] using hsat
    · rfl
  | _ => exact he

end State

/-! ### Every run -/

variable {L : Layout} {st : State}

/-- Every member but the root is counted as something that its cluster may come to miss, so that
`outer_deps_missing_` overflows long before `running_`. -/
lemma Core.Balanced.keepsSmall {extra : ServiceId → Nat} {op : Op} (hc : st.toCore.Balanced extra)
    (hp : op.Pre st) : op.KeepsSmall st := by
  cases op with
  | init s =>
    intro hm
    obtain ⟨-, ho, -, -⟩ := hp
    have hh := hc.wf.cluster_mem ho
    have hfits := (hc.fits _ hh.1).2.1 (hc.wf.cluster_cluster ho)
    generalize st.cluster (st.layout.parent s).owner = h at hfits
    have hroot := List.nodup_iff_count_le_one.1 hc.wf.nodup st.layout.root
    have hmembers : st.members h = (st.services.countP fun t => t = st.layout.root ∧
        st.cluster t = h) + st.services.countP fun t => t ≠ st.layout.root ∧ st.cluster t = h :=
      List.countP_eq_add_of_disjoint (fun t _ => by by_cases ht : t = st.layout.root <;> simp [ht])
        (by simp +contextual)
    have hcount : (st.services.countP fun t => t = st.layout.root ∧ st.cluster t = h) ≤
        st.services.count st.layout.root :=
      List.countP_mono_left fun t _ ht => beq_iff_eq.2 (of_decide_eq_true ht).1
    unfold Core.outerBound at hfits
    omega
  | _ => trivial

/-- The counters are balanced together with the phases, since counters that do not overflow keep
the clusters small. -/
theorem reachable_balanced (hst : (system L).Reachable (fun st op => op.KeepsCount st) st) :
    (∃ extra, st.toCore.Balanced extra) ∧ st.life.Sound False True [] := by
  refine hst.invariant
    (P := fun st => (∃ extra, st.toCore.Balanced extra) ∧ st.life.Sound False True []) ?_ ?_
  · rintro st rfl
    exact ⟨⟨_, State.initial_balanced L⟩, initial_sound L False True⟩
  · rintro st op - ⟨⟨extra, hc⟩, hl⟩ hp hk
    exact ⟨⟨_, State.exec_balanced hc hl.good hl.rests hp hk⟩,
      exec_sound hl hp False.elim fun _ => hc.keepsSmall hp⟩

/-- Nothing is left over in a cluster whose members left nothing behind. -/
theorem reachable_exact {torn : ServiceId → Prop}
    (hst : (system L).Reachable (fun st op => op.KeepsCount st ∧ op.LeavesNothing torn st) st) :
    ∃ extra, st.toCore.Balanced extra ∧ ∀ h, ¬ torn h → extra h = 0 := by
  refine hst.invariant
    (P := fun st => ∃ extra, st.toCore.Balanced extra ∧ ∀ h, ¬ torn h → extra h = 0) ?_ ?_
  · rintro st rfl
    exact ⟨_, State.initial_balanced L, fun _ _ => rfl⟩
  · rintro st op hr ⟨extra, hc, he⟩ hp ⟨hk, hl⟩
    obtain ⟨-, hsound⟩ := reachable_balanced (hr.mono fun _ _ h => h.1)
    exact ⟨_, State.exec_balanced hc hsound.good hsound.rests hp hk,
      fun h ht => State.leftover_eq_zero hl ht (he h ht)⟩

/-! ### The order of starts and stops -/

/-- Whatever a locked service depends on is running: the owner of its parent export and the owners
of the strong usages it was locked with. Whatever is below the imports of an active service is
running. A service that begins to stop has no dependent that is locked, and the service above it is
not active. -/
structure State.StartStopOrdered (st : State) : Prop where
  parent : ∀ s ∈ st.services, s ≠ st.layout.root → st.layout.isClusterHead s = true →
    (st.phase s).isLocked = true → st.phase (st.layout.parent s).owner = .running
  usage : ∀ u ∈ st.usages, u.weak = false → st.held u.id = true →
    (st.phase u.user.owner).isLocked = true → st.phase u.used.owner = .running
  members : ∀ p ∈ st.services, (st.phase p).isBetween .starting .stopping = true →
    ∀ i ∈ st.layout.imports p, ∀ s ∈ st.children i, st.phase s = .running
  stopping : ∀ s st', st.phase s = .running → st.trySetServiceStopping s = some st' →
    (∀ e ∈ st.outEdges .externalGraph s, (st.phase (e.target st.layout)).isLocked = false) ∧
    (s = st.layout.root → ∀ t ∈ st.services, t ≠ st.layout.root →
      (st.phase t).isLocked = false) ∧
    (st.layout.isMember s = true →
      (st.phase (st.layout.parent s).owner).isBetween .starting .stopping = false)

/-- As long as the counters are kept, services start after and stop before what they depend on. -/
theorem start_stop_ordered (hst : (system L).Reachable (fun st op => op.KeepsCount st) st) :
    st.StartStopOrdered := by
  obtain ⟨⟨extra, hc⟩, -⟩ := reachable_balanced hst
  refine ⟨?_, ?_, ?_, ?_⟩
  · intro s hs hne hhead hl
    exact hc.held_running (.child s) (Topology.mem_edges_child.2 ⟨hs, hhead, hne⟩) rfl hl
  · intro u hu hw hheld hl
    refine hc.held_running (.usage u) (Topology.mem_edges_usage.2 hu) ?_ hl
    simp [Core.isHeld, hw, hheld]
  · intro p _ ha i hi s hs
    obtain ⟨hs, hcond⟩ := List.mem_filter.1 hs
    simp only [Bool.and_eq_true, bne_iff_ne, beq_iff_eq] at hcond
    obtain ⟨hi, himport⟩ := List.mem_filter.1 hi
    refine hc.members_running s hs ?_ ?_
    · rw [Layout.isMember, hcond.2]
      exact himport
    · rw [hcond.2, st.layout.parts_owner hi]
      exact ha
  · intro s st' hp hset
    obtain ⟨hu, -⟩ := State.trySetServiceStopping_eq hset
    have hs : s ∈ st.services := by
      rw [hc.initialized, hp]
      rfl
    refine ⟨fun e he => ?_, ?_, fun hm => hc.unused_parent hs hp hu hm⟩
    · obtain ⟨he, hsource⟩ := List.mem_filter.1 ((hc.wf.outEdges_external_perm s).mem_iff.1 he)
      exact hc.unused_target hs hp hu he (of_decide_eq_true hsource)
    · rintro rfl t ht hne
      exact hc.unused_root hp hu ht hne

/-- A strong usage of service 1 by service 2. -/
def strongUsage12 : Usage := ⟨0, Layout.exportOf 1, Layout.importOf 2, false⟩

/-- A service starts after the one it uses. -/
def orderedRun : List Op :=
  [.init 1, .init 2, .connect strongUsage12, .run, .requestStart 2 .manual ⟨0, .start⟩,
    .process true, .process false]

theorem start_stop_ordered_orderedRun :
    (State.after .flat orderedRun).phase 2 = .starting ∧
      (State.after .flat orderedRun).StartStopOrdered :=
  ⟨by decide +kernel,
    start_stop_ordered (L := .flat) (Machine.Reachable.run (.init rfl) (by decide +kernel))⟩

/-- Service 2 is a child of service 1, all others are children of the root. -/
def Layout.nested : Layout :=
  .small fun s => if s = 2 then Layout.exportOf 1 else Layout.exportOf 0

/-- A weak usage of service 1, whose export has a child. -/
def weakUsage14 : Usage := ⟨0, Layout.exportOf 1, Layout.importOf 4, true⟩

/-- A strong usage of service 3. -/
def strongUsage34 : Usage := ⟨1, Layout.exportOf 3, Layout.importOf 4, false⟩

/-- When service 1 is running, service 4 is taken for startable although service 3 is not running
yet. -/
def prematureRun : List Op :=
  [.init 1, .init 2, .init 3, .init 4, .connect weakUsage14, .connect strongUsage34, .run,
    .requestStart 4 .manual ⟨0, .start⟩, .process true, .process false, .process false]

/-- Service 4 is locked while the service that it uses strongly is still starting. -/
theorem prematureRun_not_ordered :
    Reachable .nested (State.after .nested prematureRun) ∧
      ¬ (State.after .nested prematureRun).StartStopOrdered := by
  refine ⟨Machine.Reachable.run (.init rfl) (by decide +kernel), fun h => ?_⟩
  have hrun := h.usage strongUsage34 (by decide +kernel) rfl (by decide +kernel) (by decide +kernel)
  exact absurd hrun (by decide +kernel)

/-! ### What `uses_` counts -/

/-- The use counter of every service is what the edges and handles of the service say, and no
decrement found less than two. -/
structure State.UsesCounted (st : State) : Prop where
  running : ∀ s ∈ st.services, st.phase s = .running → (st.uses s).toNat = 1 +
    (st.outEdges .clusterGraph s).countP
      (fun e => (st.phase (e.target st.layout)).isBetween .starting .stopping) +
    (st.outEdges .externalGraph s).countP (fun e => (st.phase (e.target st.layout)).isLocked) +
    (if s = st.layout.root then
      st.services.countP fun t => st.layout.hasImplicitRootEdge t && (st.phase t).isLocked
    else 0) + st.handles s
  starting : ∀ s ∈ st.services, st.phase s = .starting → (st.uses s).toNat = 1 + st.handles s
  others : ∀ s ∈ st.services, st.phase s ≠ .running → st.phase s ≠ .starting → st.uses s = 0
  neverOut : st.usesRanOut = false

namespace Core.Balanced

variable {c : Core} {s h : ServiceId} {extra : ServiceId → Nat}

lemma parentUse_eq (c : Core) (s : ServiceId) :
    c.parentUse s = (c.outEdges .clusterGraph s).countP
      fun e => (c.phase (e.target c.layout)).isBetween .starting .stopping := by
  rw [Topology.outEdges_cluster]
  unfold parentUse
  by_cases hm : c.layout.isMember s = true
  · simp only [hm, true_and, if_true, List.countP_singleton, Edge.target]
    rfl
  · simp [hm]

lemma lockedUsers_eq (hc : c.Balanced extra) (s : ServiceId) :
    c.lockedUsers s =
      (c.outEdges .externalGraph s).countP fun e => (c.phase (e.target c.layout)).isLocked := by
  rw [(hc.wf.outEdges_external_perm s).countP_eq, List.countP_filter]
  exact List.countP_congr fun e _ => by simp [Bool.and_comm]

lemma implicitUsers_eq (c : Core) (s : ServiceId) :
    c.implicitUsers s = if s = c.layout.root then
      c.services.countP fun t => c.layout.hasImplicitRootEdge t && (c.phase t).isLocked
    else 0 := by
  unfold implicitUsers
  split
  · rename_i hs
    exact List.countP_congr fun t _ => by simp [hs]
  · rename_i hs
    exact List.countP_eq_zero.2 fun t _ => by simp [hs]

end Core.Balanced

/-- As long as the counters are kept, `uses_` is exact. -/
theorem uses_counted (hst : (system L).Reachable (fun st op => op.KeepsCount st) st) :
    st.UsesCounted := by
  obtain ⟨⟨extra, hc⟩, -⟩ := reachable_balanced hst
  refine ⟨?_, ?_, ?_, hc.usesRanOut_eq⟩
  · intro s hs hp
    rw [hc.uses_toNat hs, Core.usesSpec_running hp, Core.Balanced.parentUse_eq, hc.lockedUsers_eq,
      Core.Balanced.implicitUsers_eq]
    omega
  · intro s hs hp
    rw [hc.uses_toNat hs, Core.usesSpec_starting hp]
  · intro s hs hr hp
    rw [hc.uses_eq s, Core.usesSpec_eq_zero hp hr]
    rfl

theorem uses_counted_orderedRun :
    (State.after .flat orderedRun).uses 1 = 2 ∧ (State.after .flat orderedRun).UsesCounted :=
  ⟨by decide +kernel,
    uses_counted (L := .flat) (Machine.Reachable.run (.init rfl) (by decide +kernel))⟩

/-- Service 3 is starting, without handles, and already has the use of service 4. -/
theorem prematureRun_not_usesCounted :
    Reachable .nested (State.after .nested prematureRun) ∧
      ¬ (State.after .nested prematureRun).UsesCounted := by
  refine ⟨Machine.Reachable.run (.init rfl) (by decide +kernel), fun h => ?_⟩
  have huses := h.starting 3 (by decide +kernel) (by decide +kernel)
  exact absurd huses (by decide +kernel)

/-! ### What `outer_deps_missing_` counts -/

/-- The outer dependencies of a service that are missing: the strong usages of its imports and the
owner of its parent export while that does not run, its imports that are not satisfied, and the
root. -/
def State.missing (st : State) (s : ServiceId) : Nat :=
  ((st.layout.imports s).flatMap st.importedUsages).countP
    (fun u => !u.weak && !(st.phase u.used.owner).isRunning) +
  (if s ≠ st.layout.root ∧ (st.layout.parent s).isExport = true ∧
    (st.layout.parent s).owner ≠ st.layout.root ∧ st.phase (st.layout.parent s).owner ≠ .running
    then 1 else 0) +
  (st.layout.imports s).countP (fun i => !st.satisfied i) +
  if st.phase st.layout.root ≠ .running ∧ (st.layout.hasImplicitRootEdge s = true ∨
    s ≠ st.layout.root ∧ (st.layout.parent s).owner = st.layout.root) then 1 else 0

/-- The counter of every cluster, but of those that are torn down, is what its members are missing,
and no decrement found zero. -/
structure State.OuterDepsCounted (torn : ServiceId → Prop) (st : State) : Prop where
  exact : ∀ h ∈ st.services, st.layout.isClusterHead h = true → ¬ torn h →
    (st.outerDepsMissing h).toNat = ((st.clusterMembers h).map st.missing).sum
  neverOut : st.outerRanOut = false

namespace State

variable {h : ServiceId} (hc : st.WellFormed) (hh : h ∈ st.services) (hhh : st.cluster h = h)
include hc hh hhh

/-- The edges into a cluster, member by member. -/
lemma openEdges_eq_sum : st.toCore.openEdges h = ((st.clusterMembers h).map fun s =>
    ((st.layout.imports s).flatMap st.importedUsages).countP
      (fun u => !u.weak && !(st.phase u.used.owner).isRunning) +
    if s ≠ st.layout.root ∧ (st.layout.parent s).isExport = true ∧
      (st.layout.parent s).owner ≠ st.layout.root ∧ st.phase (st.layout.parent s).owner ≠ .running
      then 1 else 0).sum := by
  have hedges : st.toCore.openEdges h = (st.clusterInEdges h).countP fun e =>
      e.isAwaited st.layout && !(st.phase (e.source st.layout)).isRunning := by
    rw [(hc.clusterInEdges_perm hh hhh).countP_eq, List.countP_filter]
    unfold Core.openEdges
    refine List.countP_congr fun e _ => ?_
    rw [Core.isRunning_eq]
    by_cases ha : e.isAwaited st.layout = true
    · by_cases ht : st.clusterTarget e = h
      · simp [ha, ht]
      · simp [ht]
    · simp [ha]
  rw [hedges, Topology.clusterInEdges, List.countP_flatMap]
  congr 1
  refine List.map_congr_left fun s _ => ?_
  have hflag : GraphFlags.externalGraph.hasExporterChildEdge = true := rfl
  have himports : (st.layout.imports s).flatMap (st.importInEdges .externalGraph) =
      ((st.layout.imports s).flatMap st.importedUsages).map .usage := by
    rw [List.map_flatMap]
    exact List.flatMap_congr fun p _ => Topology.importInEdges_external p
  simp only [Function.comp, Topology.inEdges, hflag, Bool.and_true, List.countP_append, himports,
    List.countP_map]
  rw [Nat.add_comm]
  congr 1
  by_cases hr : s = st.layout.root
  · simp [hr]
  · cases hx : st.layout.isClusterHead s
    · have hx' : (st.layout.parent s).isExport = false := hx
      simp only [Bool.false_and, Bool.false_eq_true, if_false, List.countP_nil]
      exact (if_neg fun hcond => Bool.false_ne_true (hx'.symm.trans hcond.2.1)).symm
    · have hx' : (st.layout.parent s).isExport = true := hx
      have hrne := bne_iff_ne.2 hr
      simp only [hrne, Bool.and_true, if_true, List.countP_singleton, Edge.isAwaited,
        Edge.source, hx', Core.isRunning_eq, Bool.and_eq_true, bne_iff_ne, Bool.not_eq_true',
        decide_eq_false_iff_not]
      exact if_congr (by simp [hr]) rfl rfl

/-- The imports of a cluster, member by member. -/
lemma unsatisfied_eq_sum : st.toCore.unsatisfied h = ((st.clusterMembers h).map fun s =>
    (st.layout.imports s).countP fun i => !st.satisfied i).sum := by
  have hmembers : ((st.clusterMembers h).flatMap st.layout.imports).Perm
      ((st.services.flatMap st.layout.imports).filter fun i => st.cluster i.owner = h) := by
    refine ((hc.clusterMembers_perm hh hhh).flatMap_right _).trans (List.Perm.of_eq ?_)
    refine (List.filter_flatMap_of_forall fun s _ i hi => ?_).symm
    rw [st.layout.parts_owner (List.mem_filter.1 hi).1]
  have hcount := hmembers.countP_eq fun i => !st.satisfied i
  rw [List.countP_flatMap, List.countP_filter] at hcount
  unfold Core.unsatisfied
  refine Eq.trans (List.countP_congr fun i _ => ?_) hcount.symm
  cases hb : st.satisfied i
  · simp
  · simp

/-- What a cluster waits for, member by member. -/
lemma outerSpec_eq_sum :
    st.toCore.outerSpec h = ((st.clusterMembers h).map st.missing).sum := by
  have hroot : st.toCore.rootMissing h = ((st.clusterMembers h).map fun s =>
      if st.phase st.layout.root ≠ .running ∧ (st.layout.hasImplicitRootEdge s = true ∨
        s ≠ st.layout.root ∧ (st.layout.parent s).owner = st.layout.root) then 1 else 0).sum := by
    rw [List.sum_map_ite_eq_countP, (hc.clusterMembers_perm hh hhh).countP_eq, List.countP_filter]
    unfold Core.rootMissing
    split
    · rename_i hr
      exact (List.countP_eq_zero.2 fun s _ => by simp [hr]).symm
    · rename_i hr
      refine List.countP_congr fun s _ => ?_
      by_cases hs : s = st.layout.root
      · simp [hs, Layout.hasImplicitRootEdge]
      · by_cases ho : (st.layout.parent s).owner = st.layout.root
        · simp [hs, ho, hr]
        · simp [hs, ho, hr, Layout.hasImplicitRootEdge]
  unfold Core.outerSpec
  rw [openEdges_eq_sum hc hh hhh, unsatisfied_eq_sum hc hh hhh, hroot, ← List.sum_map_add,
    ← List.sum_map_add]
  rfl

end State

/-- As long as the counters are kept, `outer_deps_missing_` of every cluster whose members left
nothing behind is exact. -/
theorem outer_deps_counted {torn : ServiceId → Prop}
    (hst : (system L).Reachable (fun st op => op.KeepsCount st ∧ op.LeavesNothing torn st) st) :
    st.OuterDepsCounted torn := by
  obtain ⟨extra, hc, hextra⟩ := reachable_exact hst
  refine ⟨fun h hh hhead ht => ?_, hc.outerRanOut_eq⟩
  have hcl := hc.wf.cluster_of_isClusterHead hh hhead
  rw [hc.outer_toNat hh hcl, hextra h ht, Nat.add_zero]
  exact State.outerSpec_eq_sum hc.wf hh hcl

theorem outer_deps_counted_orderedRun :
    (State.after .flat (orderedRun.take 3)).outerDepsMissing 2 = 2 ∧
      (State.after .flat (orderedRun.take 3)).OuterDepsCounted fun _ => False :=
  ⟨by decide +kernel,
    outer_deps_counted (L := .flat) (Machine.Reachable.run (.init rfl) (by decide +kernel))⟩

/-- Service 4 waits for service 3 alone when service 1 takes that from its counter, and service 3
finds nothing left to take. -/
theorem prematureRun_not_outerDepsCounted :
    Reachable .nested (State.after .nested (prematureRun ++ [.started 3])) ∧
      ¬ (State.after .nested (prematureRun ++ [.started 3])).OuterDepsCounted fun _ => False := by
  refine ⟨Machine.Reachable.run (.init rfl) (by decide +kernel), fun h => ?_⟩
  exact absurd h.neverOut (by decide +kernel)

end Idle
