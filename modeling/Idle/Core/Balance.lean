import Idle.Core.Ledger
import Idle.Library.Count

/-!
# What the counters stand for

`uses_`, `inner_deps_missing_` and `outer_deps_missing_` are moved by single steps at both ends of
an edge. Here they are compared with what they are meant to count: the dependents that are locked
and the dependencies that are not running. `Balanced` says that they agree, that what is locked
has its dependencies running, and that no counter ran out so far.
-/

namespace Idle

/-- The phases in which a service needs the members below it. -/
def Phase.isActive (p : Phase) : Bool := p.isBetween starting stopping

/-- The edges that `outer_deps_missing_` counts one by one: all but the weak usages and the edges
from the root to its children, which it counts once for every service. -/
def Edge.isAwaited (L : Layout) : Edge → Bool
  | inner _ => false
  | child s => (L.parent s).owner != L.root
  | usage u => !u.weak

namespace Core

/-! ### Missing dependencies -/

/-- The awaited edges into a cluster that start at a service that is not running. -/
def openEdges (c : Core) (h : ServiceId) : Nat :=
  c.edges.countP fun e => e.isAwaited c.layout = true ∧ c.clusterTarget e = h ∧
    c.phase (e.source c.layout) ≠ .running

/-- The imports of a cluster that are not satisfied. -/
def unsatisfied (c : Core) (h : ServiceId) : Nat :=
  (c.services.flatMap c.layout.imports).countP fun i =>
    c.cluster i.owner = h ∧ c.satisfied i = false

/-- Every service but the root waits for the root. -/
def rootMissing (c : Core) (h : ServiceId) : Nat :=
  if c.phase c.layout.root = .running then 0
  else c.services.countP fun s => s ≠ c.layout.root ∧ c.cluster s = h

/-- What `outer_deps_missing_` stands for. -/
def outerSpec (c : Core) (h : ServiceId) : Nat :=
  c.openEdges h + c.unsatisfied h + c.rootMissing h

/-- What `inner_deps_missing_` stands for. -/
def innerSpec (c : Core) (p : ServiceId) : Nat :=
  c.services.countP fun s => c.layout.isMember s = true ∧ (c.layout.parent s).owner = p ∧
    c.phase s ≠ .running

/-! ### Uses -/

/-- The edges of a service to services that are locked. -/
def lockedUsers (c : Core) (v : ServiceId) : Nat :=
  c.edges.countP fun e => e.source c.layout = v ∧ (c.phase (e.target c.layout)).isLocked = true

/-- The implicit edges of the root to services that are locked. -/
def implicitUsers (c : Core) (v : ServiceId) : Nat :=
  c.services.countP fun s => (c.layout.hasImplicitRootEdge s = true ∧ v = c.layout.root) ∧
    (c.phase s).isLocked = true

/-- The edge of a member to the owner of its parent import, while that service is active. -/
def parentUse (c : Core) (v : ServiceId) : Nat :=
  if c.layout.isMember v = true ∧ (c.phase (c.layout.parent v).owner).isActive = true then 1 else 0

/-- What `uses_` stands for. -/
def usesSpec (c : Core) (v : ServiceId) : Nat :=
  match c.phase v with
  | .running => 1 + c.parentUse v + (c.lockedUsers v + c.implicitUsers v) + c.handles v
  | .starting => 1 + c.handles v
  | _ => 0

/-! ### Capacity -/

/-- What `uses_` can reach in this graph. -/
def usesBound (c : Core) (v : ServiceId) : Nat :=
  2 + c.edges.countP (fun e => e.source c.layout = v) +
    c.services.countP (fun s => c.layout.hasImplicitRootEdge s = true ∧ v = c.layout.root) +
    c.handles v

/-- What `outer_deps_missing_` can reach in this graph. -/
def outerBound (c : Core) (h : ServiceId) : Nat :=
  c.edges.countP (fun e => e.isAwaited c.layout = true ∧ c.clusterTarget e = h) +
    c.unsatisfied h + c.services.countP fun s => s ≠ c.layout.root ∧ c.cluster s = h

/-- What `inner_deps_missing_` can reach in this graph. -/
def innerBound (c : Core) (p : ServiceId) : Nat :=
  c.services.countP fun s => c.layout.isMember s = true ∧ (c.layout.parent s).owner = p

/-- The counters can hold what they stand for, with `room` to spare. A cluster whose members were
destroyed may have `extra` dependencies left over. -/
def Fits (c : Core) (extra : ServiceId → Nat) (room : Nat) : Prop :=
  ∀ s ∈ c.services, c.usesBound s + room < 2 ^ 32 ∧
    (c.cluster s = s → c.outerBound s + extra s + room < 2 ^ 16) ∧ c.innerBound s + room < 2 ^ 16

/-! ### Balance -/

/-- The edges whose source has to run while their target is locked. -/
def isHeld (c : Core) : Edge → Bool
  | .inner _ => false
  | .child _ => true
  | .usage u => !u.weak && c.held u.id

/-- Whatever a service needs is running. -/
structure Ordered (c : Core) : Prop where
  root_running : ∀ s ∈ c.services, s ≠ c.layout.root → (c.phase s).isLocked = true →
    c.phase c.layout.root = .running
  held_running : ∀ e ∈ c.edges, c.isHeld e = true →
    (c.phase (e.target c.layout)).isLocked = true → c.phase (e.source c.layout) = .running
  members_running : ∀ s ∈ c.services, c.layout.isMember s = true →
    (c.phase (c.layout.parent s).owner).isActive = true → c.phase s = .running

/-- The counters agree with what they stand for, and none ran out. -/
structure Counted (c : Core) (extra : ServiceId → Nat) : Prop where
  inner_eq : ∀ s ∈ c.services, c.innerDepsMissing s = .ofNat (c.innerSpec s)
  outer_eq : ∀ h ∈ c.services, c.cluster h = h →
    c.outerDepsMissing h = .ofNat (c.outerSpec h + extra h)
  uses_eq : ∀ s, c.uses s = .ofNat (c.usesSpec s)
  usesRanOut_eq : c.usesRanOut = false
  outerRanOut_eq : c.outerRanOut = false

/-- What holds between any two phase changes. -/
structure Balanced (c : Core) (extra : ServiceId → Nat) : Prop
    extends c.Ordered, c.Counted extra where
  wf : c.WellFormed
  initialized : ∀ s, s ∈ c.services ↔ (c.phase s).next?.isSome
  handles_eq : ∀ s, (c.phase s).isUsable = false → c.handles s = 0
  fits : c.Fits extra 0
  extra_root : extra c.layout.root = 0

variable {c c' : Core} {s v h me : ServiceId} {extra : ServiceId → Nat}

lemma usesSpec_le (c : Core) (v : ServiceId) : c.usesSpec v ≤ c.usesBound v := by
  have hp : c.parentUse v ≤ 1 := by
    unfold parentUse
    split <;> simp
  have hl : c.lockedUsers v ≤ c.edges.countP fun e => e.source c.layout = v :=
    List.countP_mono_left fun e _ h => by simp_all
  have hi : c.implicitUsers v ≤
      c.services.countP fun s => c.layout.hasImplicitRootEdge s = true ∧ v = c.layout.root :=
    List.countP_mono_left fun e _ h => by simp_all
  unfold usesSpec usesBound
  split <;> omega

lemma outerSpec_le (c : Core) (h : ServiceId) : c.outerSpec h ≤ c.outerBound h := by
  have ho : c.openEdges h ≤
      c.edges.countP fun e => e.isAwaited c.layout = true ∧ c.clusterTarget e = h :=
    List.countP_mono_left fun e _ h => by simp_all
  have hr : c.rootMissing h ≤ c.services.countP fun s => s ≠ c.layout.root ∧ c.cluster s = h := by
    unfold rootMissing
    split <;> simp
  unfold outerSpec outerBound
  omega

lemma innerSpec_le (c : Core) (p : ServiceId) : c.innerSpec p ≤ c.innerBound p :=
  List.countP_mono_left fun e _ h => by simp_all

namespace Balanced

variable (hc : c.Balanced extra)
include hc

lemma uses_toNat (hs : s ∈ c.services) : (c.uses s).toNat = c.usesSpec s := by
  have := (hc.fits s hs).1
  have := c.usesSpec_le s
  rw [hc.uses_eq s, UInt32.toNat_ofNat_of_lt' (by simp only [UInt32.size]; omega)]

lemma outer_toNat (hh : h ∈ c.services) (hhh : c.cluster h = h) :
    (c.outerDepsMissing h).toNat = c.outerSpec h + extra h := by
  have := (hc.fits h hh).2.1 hhh
  have := c.outerSpec_le h
  rw [hc.outer_eq h hh hhh, UInt16.toNat_ofNat_of_lt' (by simp only [UInt16.size]; omega)]

lemma inner_toNat (hs : s ∈ c.services) : (c.innerDepsMissing s).toNat = c.innerSpec s := by
  have := (hc.fits s hs).2.2
  have := c.innerSpec_le s
  rw [hc.inner_eq s hs, UInt16.toNat_ofNat_of_lt' (by simp only [UInt16.size]; omega)]

end Balanced

/-! ### A service changes its phase -/

/-- Only the phase of one service changes among what the counters stand for. -/
structure Moved (c c' : Core) (me : ServiceId) : Prop where
  topology : c'.toTopology = c.toTopology
  satisfied : c'.satisfied = c.satisfied
  handles : c'.handles = c.handles
  phase : ∀ s, s ≠ me → c'.phase s = c.phase s

lemma openEdges_congr (ht : c'.toTopology = c.toTopology)
    (hrun : ∀ s, c'.phase s = .running ↔ c.phase s = .running) (h : ServiceId) :
    c'.openEdges h = c.openEdges h := by
  unfold openEdges
  rw [ht]
  simp only [ne_eq, hrun]

lemma unsatisfied_congr (ht : c'.toTopology = c.toTopology) (hs : c'.satisfied = c.satisfied)
    (h : ServiceId) : c'.unsatisfied h = c.unsatisfied h := by
  unfold unsatisfied
  rw [ht, hs]

lemma rootMissing_congr (ht : c'.toTopology = c.toTopology)
    (hrun : ∀ s, c'.phase s = .running ↔ c.phase s = .running) (h : ServiceId) :
    c'.rootMissing h = c.rootMissing h := by
  unfold rootMissing
  rw [ht]
  simp only [hrun]

lemma innerSpec_congr (ht : c'.toTopology = c.toTopology)
    (hrun : ∀ s, c'.phase s = .running ↔ c.phase s = .running) (p : ServiceId) :
    c'.innerSpec p = c.innerSpec p := by
  unfold innerSpec
  rw [ht]
  simp only [ne_eq, hrun]

lemma externalUsers_congr (ht : c'.toTopology = c.toTopology)
    (hlock : ∀ s, (c'.phase s).isLocked = (c.phase s).isLocked) (v : ServiceId) :
    c'.lockedUsers v + c'.implicitUsers v = c.lockedUsers v + c.implicitUsers v := by
  unfold lockedUsers implicitUsers
  rw [ht]
  simp only [hlock]

lemma parentUse_congr (ht : c'.toTopology = c.toTopology)
    (hact : ∀ s, (c'.phase s).isActive = (c.phase s).isActive) (v : ServiceId) :
    c'.parentUse v = c.parentUse v := by
  unfold parentUse
  rw [ht]
  simp only [hact]

/-- The services that a service depends on, once for every edge. -/
def dependencies (c : Core) (me : ServiceId) : List ServiceId :=
  (c.inEdges .externalGraph me).map (Edge.source c.layout) ++ State.implicitSource c.layout me

/-- The members below a service. -/
def innerDependencies (c : Core) (me : ServiceId) : List ServiceId :=
  (c.inEdges .clusterGraph me).map (Edge.source c.layout)

lemma count_dependencies (hc : c.WellFormed) (hme : me ∈ c.services) (v : ServiceId) :
    (c.dependencies me).count v =
      c.edges.countP (fun e => e.source c.layout = v ∧ e.target c.layout = me) +
        if c.layout.hasImplicitRootEdge me = true ∧ v = c.layout.root then 1 else 0 := by
  unfold dependencies
  rw [List.count_append]
  congr 1
  · rw [((hc.inEdges_external_perm hme).map _).count_eq, List.count, List.countP_map,
      List.countP_filter]
    exact List.countP_congr fun e _ => by simp [Function.comp, beq_eq_decide]
  · unfold State.implicitSource
    by_cases hi : c.layout.hasImplicitRootEdge me = true
    · by_cases hv : v = c.layout.root
      · simp [hi, hv]
      · simp [hi, hv, Ne.symm hv]
    · simp [hi]

lemma innerDependencies_perm (hc : c.WellFormed) (me : ServiceId) :
    (c.innerDependencies me).Perm
      (c.services.filter fun s => c.layout.isMember s ∧ (c.layout.parent s).owner = me) := by
  refine ((hc.inEdges_cluster_perm me).map _).trans (List.Perm.of_eq ?_)
  have hid : Edge.source c.layout ∘ Edge.inner = id := rfl
  rw [List.map_map, hid, List.map_id]

lemma count_innerDependencies (hc : c.WellFormed) (hv : v ∈ c.services) :
    (c.innerDependencies me).count v =
      if c.layout.isMember v = true ∧ (c.layout.parent v).owner = me then 1 else 0 := by
  rw [(innerDependencies_perm hc me).count_eq]
  split
  · rename_i h
    exact List.count_eq_one_of_mem (hc.nodup.filter _) (by simp [hv, h])
  · rename_i h
    exact List.count_eq_zero_of_not_mem (by simp [hv, h])

lemma count_innerDependencies_of_not_mem (hc : c.WellFormed) (hv : v ∉ c.services) :
    (c.innerDependencies me).count v = 0 := by
  rw [(innerDependencies_perm hc me).count_eq]
  exact List.count_eq_zero_of_not_mem fun h => hv (List.mem_filter.1 h).1

/-- A member is missed in the service above it. -/
lemma count_innerWaiting (c : Core) (me p : ServiceId) : (State.innerWaiting c me).count p =
    if c.layout.isMember me = true ∧ (c.layout.parent me).owner = p then 1 else 0 := by
  unfold State.innerWaiting
  rw [Topology.outEdges_cluster]
  by_cases hmem : c.layout.isMember me = true
  · by_cases hp : (c.layout.parent me).owner = p
    · simp [hmem, hp, Edge.target]
    · simp [hmem, hp, Edge.target]
  · simp [hmem]

namespace Moved

variable (hm : c.Moved c' me)
include hm

lemma symm : c'.Moved c me :=
  ⟨hm.topology.symm, hm.satisfied.symm, hm.handles.symm, fun s hs => (hm.phase s hs).symm⟩

/-- What is the same for the phases of the moved service is the same for all. -/
lemma all {α : Sort*} {f : Phase → α} (h : f (c'.phase me) = f (c.phase me)) (s : ServiceId) :
    f (c'.phase s) = f (c.phase s) := by
  by_cases hs : s = me
  · rw [hs, h]
  · rw [hm.phase s hs]

/-- A service that is locked uses its dependencies. -/
lemma externalUsers_add (hc : c.WellFormed) (hme : me ∈ c.services)
    (hn : (c.phase me).isLocked = false) (hy : (c'.phase me).isLocked = true) (v : ServiceId) :
    c'.lockedUsers v + c'.implicitUsers v =
      c.lockedUsers v + c.implicitUsers v + (c.dependencies me).count v := by
  have hlocked : c'.lockedUsers v = c.lockedUsers v +
      c.edges.countP (fun e => e.source c.layout = v ∧ e.target c.layout = me) := by
    unfold lockedUsers
    rw [hm.topology]
    refine List.countP_eq_add_of_disjoint (fun e _ => ?_) (fun e _ => ?_)
    · by_cases he : e.target c.layout = me
      · simp [he, hn, hy]
      · simp [he, hm.phase _ he]
    · rintro ⟨h1, h2⟩
      simp only [decide_eq_true_eq] at h1 h2
      rw [h2.2, hn] at h1
      exact absurd h1.2 (by decide)
  have himplicit : c'.implicitUsers v = c.implicitUsers v +
      if c.layout.hasImplicitRootEdge me = true ∧ v = c.layout.root then 1 else 0 := by
    unfold implicitUsers
    rw [hm.topology]
    have hothers : ∀ s ∈ c.services, s ≠ me →
        decide ((c.layout.hasImplicitRootEdge s = true ∧ v = c.layout.root) ∧
          (c'.phase s).isLocked = true) =
        decide ((c.layout.hasImplicitRootEdge s = true ∧ v = c.layout.root) ∧
          (c.phase s).isLocked = true) := fun s _ hs => by rw [hm.phase s hs]
    split
    · rename_i hi
      exact List.countP_eq_succ_of_nodup hc.nodup hme (by simp [hi, hy]) (by simp [hn]) hothers
    · rename_i hi
      refine List.countP_congr fun s hs => ?_
      by_cases hsm : s = me
      · subst hsm
        simp [hi]
      · rw [hothers s hs hsm]
  rw [hlocked, himplicit, count_dependencies hc hme]
  omega

/-- A service that becomes active uses the members below it. -/
lemma parentUse_add (hc : c.WellFormed) (hn : (c.phase me).isActive = false)
    (hy : (c'.phase me).isActive = true) (hv : v ∈ c.services) :
    c'.parentUse v = c.parentUse v + (c.innerDependencies me).count v := by
  rw [count_innerDependencies hc hv]
  unfold parentUse
  rw [hm.topology]
  by_cases ho : (c.layout.parent v).owner = me
  · simp [ho, hn, hy]
  · simp [ho, hm.phase _ ho]

/-- A member that stops running is missed by the service above it. -/
lemma innerSpec_add (hc : c.WellFormed) (hme : me ∈ c.services) (hy : c.phase me = .running)
    (hn : c'.phase me ≠ .running) (p : ServiceId) :
    c'.innerSpec p = c.innerSpec p + (State.innerWaiting c me).count p := by
  unfold innerSpec
  rw [hm.topology, count_innerWaiting]
  have hothers : ∀ s ∈ c.services, s ≠ me →
      decide (c.layout.isMember s = true ∧ (c.layout.parent s).owner = p ∧
        c'.phase s ≠ .running) =
      decide (c.layout.isMember s = true ∧ (c.layout.parent s).owner = p ∧
        c.phase s ≠ .running) := fun s _ hs => by rw [hm.phase s hs]
  split
  · rename_i hi
    exact List.countP_eq_succ_of_nodup hc.nodup hme (by simp [hi, hn]) (by simp [hy]) hothers
  · rename_i hi
    refine List.countP_congr fun s hs => ?_
    by_cases hsm : s = me
    · subst hsm
      simp only [decide_eq_true_eq]
      exact ⟨fun h => absurd ⟨h.1, h.2.1⟩ hi, fun h => absurd ⟨h.1, h.2.1⟩ hi⟩
    · rw [hothers s hs hsm]

/-- A service other than the root that stops running is missed along its awaited edges. -/
lemma outerSpec_add (hc : c.WellFormed) (hr : me ≠ c.layout.root) (hy : c.phase me = .running)
    (hn : c'.phase me ≠ .running) (hfirst : ∀ p ∈ c.layout.exports me, c.FirstUsageStrong p)
    (h : ServiceId) :
    c'.outerSpec h = c.outerSpec h + ((State.waiting c me).map c.cluster).count h := by
  have hcount : ((State.waiting c me).map c.cluster).count h = c.edges.countP fun e =>
      (e.isAwaited c.layout = true ∧ c.clusterTarget e = h) ∧ e.source c.layout = me := by
    unfold State.waiting
    rw [List.map_map, ((hc.outEdges_strong_perm hfirst).map _).count_eq, List.count,
      List.countP_map, List.countP_filter]
    refine List.countP_congr fun e he => ?_
    cases e with
    | inner s => exact absurd he Topology.not_mem_edges_inner
    | child s =>
      by_cases hs : (c.layout.parent s).owner = me
      · simp [Edge.source, Edge.isWeak, Edge.isAwaited, Topology.clusterTarget, hs, hr,
          beq_eq_decide]
      · simp [Edge.source, hs]
    | usage u =>
      by_cases hs : u.used.owner = me
      · simp [Edge.source, Edge.isWeak, Edge.isAwaited, Topology.clusterTarget, hs,
          beq_eq_decide, Bool.and_comm]
      · simp [Edge.source, hs]
  have hopen : c'.openEdges h = c.openEdges h + ((State.waiting c me).map c.cluster).count h := by
    rw [hcount]
    unfold openEdges
    rw [hm.topology]
    refine List.countP_eq_add_of_disjoint (fun e _ => ?_) (fun e _ => ?_)
    · by_cases he : e.source c.layout = me
      · simp [he, hn, hy]
      · simp [he, hm.phase _ he]
    · rintro ⟨h1, h2⟩
      simp only [decide_eq_true_eq] at h1 h2
      exact h1.2.2 (h2.2 ▸ hy)
  have hroot : c'.rootMissing h = c.rootMissing h := by
    unfold rootMissing
    rw [hm.topology, hm.phase _ (Ne.symm hr)]
  unfold outerSpec
  rw [hopen, hroot, unsatisfied_congr hm.topology hm.satisfied]
  omega

/-- When the root stops running, every other service misses it once. -/
lemma outerSpec_add_root (hc : c.WellFormed) (hr : me = c.layout.root) (hy : c.phase me = .running)
    (hn : c'.phase me ≠ .running)
    (hweak : ∀ u ∈ c.usages, u.used.owner = c.layout.root → u.weak = true) (h : ServiceId) :
    c'.outerSpec h = c.outerSpec h + (c.transitiveServices.tail.map c.cluster).count h := by
  subst hr
  have hcount : (c.transitiveServices.tail.map c.cluster).count h =
      c.services.countP fun s => s ≠ c.layout.root ∧ c.cluster s = h := by
    rw [(hc.transitiveServices_tail_perm.map _).count_eq, hc.nodup.erase_eq_filter, List.count,
      List.countP_map, List.countP_filter]
    exact List.countP_congr fun s _ => by simp [beq_eq_decide, bne, Bool.and_comm]
  have hopen : c'.openEdges h = c.openEdges h := by
    unfold openEdges
    rw [hm.topology]
    refine List.countP_congr fun e he => ?_
    by_cases hs : e.source c.layout = c.layout.root
    · have hawait : e.isAwaited c.layout = false := by
        cases e with
        | inner s => rfl
        | child s => simpa [Edge.isAwaited, Edge.source] using hs
        | usage u => simp [Edge.isAwaited, hweak u (Topology.mem_edges_usage.1 he) hs]
      simp [hawait]
    · rw [hm.phase _ hs]
  have hroot : c'.rootMissing h = c.rootMissing h + c.services.countP fun s =>
      s ≠ c.layout.root ∧ c.cluster s = h := by
    unfold rootMissing
    rw [hm.topology, if_neg hn, if_pos hy, Nat.zero_add]
  unfold outerSpec
  rw [hopen, hroot, unsatisfied_congr hm.topology hm.satisfied, hcount]
  omega

end Moved

end Core

end Idle
