import Idle.Core.Connections

/-!
# Services come and go

A service is initialised in phase `stopped`, without children and usages, and it is destroyed in
that state. What the counters stand for with such a service and without it differs by what the
service misses itself. When a member leaves, its cluster keeps waiting for that.
-/

namespace Idle

namespace Core

variable {c c' : Core} {s t v h p : ServiceId} {e : Edge} {extra : ServiceId → Nat}

/-- What a service other than the root misses before it has any usages. -/
def ownMissing (c : Core) (s : ServiceId) : Nat :=
  (if c.layout.isClusterHead s = true ∧ (c.layout.parent s).owner ≠ c.layout.root ∧
    c.phase (c.layout.parent s).owner ≠ .running then 1 else 0) +
  (c.layout.imports s).countP (fun i => c.satisfied i = false) +
  if c.phase c.layout.root = .running then 0 else 1

/-- `c'` has one more service, which is stopped, without children and usages. -/
structure Extended (c c' : Core) (s : ServiceId) : Prop where
  wf : c.WellFormed
  layout : c'.layout = c.layout
  services : c'.services.Perm (s :: c.services)
  edges : c'.edges.Perm (c.ownEdge s ++ c.edges)
  not_mem : s ∉ c.services
  owner_mem : (c.layout.parent s).owner ∈ c.services
  parts : c.layout.parent s ∈ c.layout.parts (c.layout.parent s).owner
  stopped : c'.phase s = .stopped
  phase : ∀ t ∈ c.services, c'.phase t = c.phase t
  cluster : ∀ t ∈ c.services, c'.cluster t = c.cluster t
  cluster_self : c'.cluster s =
    if c.layout.isMember s then c.cluster (c.layout.parent s).owner else s
  handles : ∀ t ∈ c.services, c'.handles t = c.handles t
  satisfied : ∀ i : Part, i.owner ∈ c.services → c'.satisfied i = c.satisfied i

/-- A service that is not running is missed in the service above it, if it is a member. -/
lemma innerSpec_cons (hl : c'.layout = c.layout) (hs : c'.services.Perm (s :: c.services))
    (hp : c'.phase s ≠ .running) (hphase : ∀ t ∈ c.services, c'.phase t = c.phase t)
    (p : ServiceId) : c'.innerSpec p = c.innerSpec p +
    if c.layout.isMember s = true ∧ (c.layout.parent s).owner = p then 1 else 0 := by
  unfold innerSpec
  rw [hs.countP_eq, List.countP_cons, hl]
  congr 1
  · exact List.countP_congr fun t ht => by rw [hphase t ht]
  · exact if_congr (by simp [hp]) rfl rfl

lemma innerBound_cons (hl : c'.layout = c.layout) (hs : c'.services.Perm (s :: c.services))
    (p : ServiceId) : c'.innerBound p = c.innerBound p +
    if c.layout.isMember s = true ∧ (c.layout.parent s).owner = p then 1 else 0 := by
  unfold innerBound
  rw [hs.countP_eq, List.countP_cons, hl]
  congr 1
  exact if_congr (by simp) rfl rfl

namespace Extended

variable (hx : c.Extended c' s)
include hx

lemma ne_of_mem (ht : t ∈ c.services) : t ≠ s := fun h => hx.not_mem (h ▸ ht)

lemma ne_root : s ≠ c.layout.root := Ne.symm (hx.ne_of_mem hx.wf.root_mem)

lemma mem_services : t ∈ c'.services ↔ t = s ∨ t ∈ c.services := by
  rw [hx.services.mem_iff, List.mem_cons]

lemma countP_services (f : ServiceId → Bool) :
    c'.services.countP f = c.services.countP f + if f s = true then 1 else 0 := by
  rw [hx.services.countP_eq, List.countP_cons]

lemma countP_edges (f : Edge → Bool) :
    c'.edges.countP f = c.edges.countP f +
      if c.layout.isClusterHead s = true ∧ f (.child s) = true then 1 else 0 := by
  rw [hx.edges.countP_eq, List.countP_append, Nat.add_comm]
  congr 1
  unfold Topology.ownEdge
  have hr := bne_iff_ne.2 hx.ne_root
  by_cases hhead : c.layout.isClusterHead s = true
  · simp [hhead, hr]
  · simp [hhead]

lemma source_phase (he : e ∈ c.edges) :
    c'.phase (e.source c.layout) = c.phase (e.source c.layout) :=
  hx.phase _ (hx.wf.source_mem he)

lemma target_phase (he : e ∈ c.edges) :
    c'.phase (e.target c.layout) = c.phase (e.target c.layout) :=
  hx.phase _ (hx.wf.target_mem he)

lemma target_cluster (he : e ∈ c.edges) : c'.clusterTarget e = c.clusterTarget e := by
  unfold Topology.clusterTarget
  rw [hx.layout]
  exact hx.cluster _ (hx.wf.target_mem he)

/-- A member does not hang on the root, which has no imports. -/
lemma isClusterHead_of_owner (ho : (c.layout.parent s).owner = c.layout.root) :
    c.layout.isClusterHead s = true := by
  have hpart := hx.parts
  rw [ho] at hpart
  exact c.layout.root_parts hpart

/-! ### Missing dependencies -/

lemma openEdges_add (h : ServiceId) : c'.openEdges h = c.openEdges h +
    if c'.cluster s = h ∧ c.layout.isClusterHead s = true ∧
      (c.layout.parent s).owner ≠ c.layout.root ∧ c.phase (c.layout.parent s).owner ≠ .running
    then 1 else 0 := by
  unfold openEdges
  rw [hx.countP_edges]
  congr 1
  · refine List.countP_congr fun e he => ?_
    rw [decide_eq_true_eq, decide_eq_true_eq, hx.target_cluster he, hx.layout, hx.source_phase he]
  · refine if_congr ?_ rfl rfl
    rw [decide_eq_true_eq, hx.layout]
    simp only [Edge.isAwaited, Topology.clusterTarget, Edge.target, Edge.source, bne_iff_ne,
      hx.phase _ hx.owner_mem]
    tauto

lemma unsatisfied_add (h : ServiceId) : c'.unsatisfied h = c.unsatisfied h +
    if c'.cluster s = h then (c.layout.imports s).countP (fun i => c'.satisfied i = false)
    else 0 := by
  have howner : ∀ {t : ServiceId} {i : Part}, i ∈ c.layout.imports t → i.owner = t :=
    fun hi => c.layout.parts_owner (List.mem_filter.1 hi).1
  unfold unsatisfied
  rw [hx.layout, (hx.services.flatMap_right _).countP_eq, List.flatMap_cons, List.countP_append,
    Nat.add_comm]
  congr 1
  · refine List.countP_congr fun i hi => ?_
    obtain ⟨t, ht, hi⟩ := List.mem_flatMap.1 hi
    have hio : i.owner ∈ c.services := howner hi ▸ ht
    rw [hx.cluster _ hio, hx.satisfied i hio]
  · split
    · rename_i hs
      exact List.countP_congr fun i hi => by simp [howner hi, hs]
    · rename_i hs
      exact List.countP_eq_zero.2 fun i hi => by simp [howner hi, hs]

lemma rootMissing_add (h : ServiceId) : c'.rootMissing h = c.rootMissing h +
    if c'.cluster s = h then (if c.phase c.layout.root = .running then 0 else 1) else 0 := by
  unfold rootMissing
  rw [hx.layout, hx.phase _ hx.wf.root_mem, hx.countP_services]
  have hcount : (c.services.countP fun t => t ≠ c.layout.root ∧ c'.cluster t = h) =
      c.services.countP fun t => t ≠ c.layout.root ∧ c.cluster t = h :=
    List.countP_congr fun t ht => by rw [hx.cluster t ht]
  rw [hcount]
  by_cases hr : c.phase c.layout.root = .running
  · simp [hr]
  · simp [hr, hx.ne_root]

/-- The cluster of the service waits for what the service misses. -/
lemma outerSpec_add (h : ServiceId) : c'.outerSpec h = c.outerSpec h +
    if c'.cluster s = h then c'.ownMissing s else 0 := by
  unfold outerSpec
  rw [hx.openEdges_add, hx.unsatisfied_add, hx.rootMissing_add]
  unfold ownMissing
  rw [hx.layout, hx.phase _ hx.owner_mem, hx.phase _ hx.wf.root_mem]
  by_cases hs : c'.cluster s = h
  · simp only [hs, true_and, if_true]
    omega
  · simp [hs]

lemma innerSpec_add (p : ServiceId) : c'.innerSpec p = c.innerSpec p +
    if c.layout.isMember s = true ∧ (c.layout.parent s).owner = p then 1 else 0 :=
  innerSpec_cons hx.layout hx.services (by simp [hx.stopped]) hx.phase p

/-! ### Uses -/

lemma lockedUsers_eq (v : ServiceId) : c'.lockedUsers v = c.lockedUsers v := by
  unfold lockedUsers
  rw [hx.countP_edges, hx.layout]
  have hnot : ¬ (c.layout.isClusterHead s = true ∧
      decide ((Edge.child s).source c.layout = v ∧
        (c'.phase ((Edge.child s).target c.layout)).isLocked = true) = true) := by
    simp [Edge.target, hx.stopped]
  rw [if_neg hnot, Nat.add_zero]
  exact List.countP_congr fun e he => by rw [hx.target_phase he]

lemma implicitUsers_eq (v : ServiceId) : c'.implicitUsers v = c.implicitUsers v := by
  unfold implicitUsers
  rw [hx.countP_services, hx.layout, if_neg (by simp [hx.stopped]), Nat.add_zero]
  exact List.countP_congr fun t ht => by rw [hx.phase t ht]

lemma usesSpec_eq (hv : v ∈ c.services) : c'.usesSpec v = c.usesSpec v := by
  have hparent : c'.parentUse v = c.parentUse v := by
    unfold parentUse
    rw [hx.layout, hx.phase _ (hx.wf.parent_mem hv)]
  unfold usesSpec
  rw [hx.phase v hv, hparent, hx.lockedUsers_eq, hx.implicitUsers_eq, hx.handles v hv]

lemma usesSpec_self : c'.usesSpec s = 0 :=
  usesSpec_eq_zero (by simp [hx.stopped]) (by simp [hx.stopped])

/-! ### Capacity -/

lemma usesBound_le (hv : v ∈ c.services) :
    c.usesBound v ≤ c'.usesBound v ∧ c'.usesBound v ≤ c.usesBound v + 1 := by
  unfold usesBound
  rw [hx.countP_edges, hx.countP_services, hx.layout, hx.handles v hv]
  -- a child of the root has no implicit edge
  have hone : ¬ ((c.layout.isClusterHead s = true ∧
      decide ((Edge.child s).source c.layout = v) = true) ∧
      decide (c.layout.hasImplicitRootEdge s = true ∧ v = c.layout.root) = true) := by
    rintro ⟨⟨-, ho⟩, hi⟩
    obtain ⟨hi, hvr⟩ := of_decide_eq_true hi
    simp only [Layout.hasImplicitRootEdge, Bool.and_eq_true, bne_iff_ne] at hi
    exact hi.2 ((of_decide_eq_true ho).trans hvr)
  split <;> split
  · rename_i h1 h2
    exact absurd ⟨h1, h2⟩ hone
  · omega
  · omega
  · omega

lemma outerBound_add (h : ServiceId) : c'.outerBound h = c.outerBound h +
    if c'.cluster s = h then
      (if c.layout.isClusterHead s = true ∧ (c.layout.parent s).owner ≠ c.layout.root then 1 else 0)
        + (c.layout.imports s).countP (fun i => c'.satisfied i = false) + 1
    else 0 := by
  have hedges :
      c'.edges.countP (fun e => e.isAwaited c'.layout = true ∧ c'.clusterTarget e = h) =
      c.edges.countP (fun e => e.isAwaited c.layout = true ∧ c.clusterTarget e = h) +
      if c'.cluster s = h ∧ c.layout.isClusterHead s = true ∧
        (c.layout.parent s).owner ≠ c.layout.root then 1 else 0 := by
    rw [hx.countP_edges]
    congr 1
    · refine List.countP_congr fun e he => ?_
      rw [decide_eq_true_eq, decide_eq_true_eq, hx.target_cluster he, hx.layout]
    · refine if_congr ?_ rfl rfl
      rw [decide_eq_true_eq, hx.layout]
      simp only [Edge.isAwaited, Topology.clusterTarget, Edge.target, bne_iff_ne]
      tauto
  have hservices : (c'.services.countP fun t => t ≠ c'.layout.root ∧ c'.cluster t = h) =
      (c.services.countP fun t => t ≠ c.layout.root ∧ c.cluster t = h) +
        if c'.cluster s = h then 1 else 0 := by
    rw [hx.countP_services, hx.layout]
    congr 1
    · exact List.countP_congr fun t ht => by rw [hx.cluster t ht]
    · exact if_congr (by simp [hx.ne_root]) rfl rfl
  unfold outerBound
  rw [hedges, hservices, hx.unsatisfied_add]
  by_cases hs : c'.cluster s = h
  · simp only [hs, true_and, if_true]
    omega
  · simp [hs]

lemma innerBound_add (p : ServiceId) : c'.innerBound p = c.innerBound p +
    if c.layout.isMember s = true ∧ (c.layout.parent s).owner = p then 1 else 0 :=
  innerBound_cons hx.layout hx.services p

end Extended

/-! ### A service arrives -/

/-- What `on_service_add` counts for a service without usages. -/
def arrivalMissing (c : Core) (s : ServiceId) : Nat :=
  (if c.layout.isClusterHead s = true ∧ c.phase (c.layout.parent s).owner ≠ .running then 1
    else 0) +
  if c.layout.hasImplicitRootEdge s = true ∧ c.phase c.layout.root ≠ .running then 1 else 0

/-- `Service::init` with the counters of `on_service_add`. -/
def arrive (c : Core) (s : ServiceId) : Core :=
  { c with
    services := c.services ++ [s]
    cluster := Function.update c.cluster s
      (if c.layout.isMember s then c.cluster (c.layout.parent s).owner else s)
    phase := Function.update c.phase s .stopped
    uses := Function.update c.uses s 0
    handles := Function.update c.handles s 0
    satisfied := fun i => if i.owner = s then true else c.satisfied i
    innerDepsMissing := fun p => Function.update c.innerDepsMissing s 0 p +
      .ofNat (if c.layout.isMember s = true ∧ (c.layout.parent s).owner = p then 1 else 0)
    outerDepsMissing := fun h =>
      (if c.layout.isClusterHead s then Function.update c.outerDepsMissing s 0
        else c.outerDepsMissing) h +
      .ofNat (if (if c.layout.isMember s then c.cluster (c.layout.parent s).owner else s) = h
        then c.arrivalMissing s else 0)
    running := if c.layout.isClusterHead s then Function.update c.running s 0 else c.running
    epoch := if c.layout.isClusterHead s then Function.update c.epoch s 0 else c.epoch }

/-- Nothing waits in a cluster that does not exist. -/
lemma outerBound_eq_zero (hc : c.WellFormed) (hs : s ∉ c.services) : c.outerBound s = 0 := by
  have hcluster : ∀ t ∈ c.services, c.cluster t ≠ s :=
    fun t ht heq => hs (heq ▸ (hc.cluster_mem ht).1)
  have hedges : c.edges.countP
      (fun e => e.isAwaited c.layout = true ∧ c.clusterTarget e = s) = 0 := by
    refine List.countP_eq_zero.2 fun e he => ?_
    have := hcluster _ (hc.target_mem he)
    simp [Topology.clusterTarget, this]
  have hunsatisfied : c.unsatisfied s = 0 := by
    refine List.countP_eq_zero.2 fun i hi => ?_
    obtain ⟨t, ht, hi⟩ := List.mem_flatMap.1 hi
    have := hcluster t ht
    rw [← c.layout.parts_owner (List.mem_filter.1 hi).1] at this
    simp [this]
  have hservices : (c.services.countP fun t => t ≠ c.layout.root ∧ c.cluster t = s) = 0 :=
    List.countP_eq_zero.2 fun t ht => by simp [hcluster t ht]
  unfold outerBound
  rw [hedges, hunsatisfied, hservices]

/-- No member is below a service that does not exist. -/
lemma innerBound_eq_zero (hc : c.WellFormed) (hs : s ∉ c.services) : c.innerBound s = 0 := by
  refine List.countP_eq_zero.2 fun t ht => ?_
  have : (c.layout.parent t).owner ≠ s := fun heq => hs (heq ▸ hc.parent_mem ht)
  simp [this]

section Arrive

variable (hc : c.Balanced extra) (hs : c.phase s = .uninitialized)
  (ho : (c.layout.parent s).owner ∈ c.services)
  (hp : c.layout.parent s ∈ c.layout.parts (c.layout.parent s).owner)
include hc hs

lemma Balanced.not_mem : s ∉ c.services := by
  rw [hc.initialized, hs]
  decide

include ho hp

lemma Balanced.arrive_extended : c.Extended (c.arrive s) s := by
  have hns := hc.not_mem hs
  have hne : ∀ t ∈ c.services, t ≠ s := fun t ht heq => hns (heq ▸ ht)
  refine ⟨hc.wf, rfl, List.perm_append_comm, c.toTopology.insert_edges s, hns, ho, hp,
    by simp [arrive], fun t ht => by simp [arrive, hne t ht],
    fun t ht => by simp [arrive, hne t ht], by simp [arrive],
    fun t ht => by simp [arrive, hne t ht], fun i hi => ?_⟩
  simp [arrive, hne _ hi]

/-- `on_service_add` counts what the service misses. -/
lemma Balanced.arrivalMissing_eq : c.arrivalMissing s = (c.arrive s).ownMissing s := by
  have hx := hc.arrive_extended hs ho hp
  have hunsatisfied : (c.layout.imports s).countP (fun i => (c.arrive s).satisfied i = false) = 0 :=
    List.countP_eq_zero.2 fun i hi => by
      simp [arrive, c.layout.parts_owner (List.mem_filter.1 hi).1]
  unfold arrivalMissing ownMissing
  rw [hx.layout, hx.phase _ ho, hx.phase _ hc.wf.root_mem, hunsatisfied]
  by_cases hor : (c.layout.parent s).owner = c.layout.root
  · -- a child of the root waits for it once
    simp only [hor, Layout.hasImplicitRootEdge, hx.isClusterHead_of_owner hor, bne_self_eq_false,
      Bool.and_false]
    by_cases hr : c.phase c.layout.root = .running <;> simp [hr]
  · have himplicit : c.layout.hasImplicitRootEdge s = true := by
      simp [Layout.hasImplicitRootEdge, hx.ne_root, hor]
    simp only [himplicit, ne_eq, hor, not_false_eq_true, true_and]
    by_cases hr : c.phase c.layout.root = .running <;> simp [hr]

lemma Balanced.arrive_fits (hroom : c.Fits extra 1) :
    (c.arrive s).Fits (Function.update extra s 0) 0 := by
  have hx := hc.arrive_extended hs ho hp
  intro t ht
  rcases hx.mem_services.1 ht with rfl | ht
  · have hsource : ((c.arrive t).edges.countP fun e => e.source (c.arrive t).layout = t) = 0 := by
      rw [hx.countP_edges, if_neg, Nat.add_zero]
      · refine List.countP_eq_zero.2 fun e he => ?_
        rw [hx.layout, decide_eq_true_eq]
        exact hx.ne_of_mem (hc.wf.source_mem he)
      · rintro ⟨-, h⟩
        exact hx.ne_of_mem ho (of_decide_eq_true h)
    have hhandles : (c.arrive t).handles t = 0 := by simp [arrive]
    have himplicit : ((c.arrive t).services.countP fun s =>
        (c.arrive t).layout.hasImplicitRootEdge s = true ∧ t = (c.arrive t).layout.root) = 0 :=
      List.countP_eq_zero.2 fun s _ => by simp [hx.layout, hx.ne_root]
    refine ⟨?_, fun _ => ?_, ?_⟩
    · unfold usesBound
      rw [hsource, himplicit, hhandles]
      decide
    · have hunsatisfied :
          (c.layout.imports t).countP (fun i => (c.arrive t).satisfied i = false) = 0 :=
        List.countP_eq_zero.2 fun i hi => by
          simp [arrive, c.layout.parts_owner (List.mem_filter.1 hi).1]
      rw [hx.outerBound_add, outerBound_eq_zero hc.wf hx.not_mem, hunsatisfied,
        Function.update_self]
      split_ifs <;> omega
    · rw [hx.innerBound_add, innerBound_eq_zero hc.wf hx.not_mem,
        if_neg fun h => hx.ne_of_mem ho h.2]
      decide
  · obtain ⟨huses, houter, hinner⟩ := hroom t ht
    refine ⟨by have := (hx.usesBound_le ht).2; omega, fun hht => ?_, ?_⟩
    · rw [hx.cluster t ht] at hht
      have := houter hht
      rw [Function.update_of_ne (hx.ne_of_mem ht), hx.outerBound_add]
      split
      · -- the service is a member, and its imports are satisfied
        rename_i hcl
        have hmem : c.layout.isClusterHead s = false := by
          by_contra hhead
          have hm : c.layout.isMember s = false := by
            simpa [Layout.isClusterHead, Layout.isMember] using hhead
          rw [hx.cluster_self, hm] at hcl
          exact hx.ne_of_mem ht hcl.symm
        have hunsatisfied :
            (c.layout.imports s).countP (fun i => (c.arrive s).satisfied i = false) = 0 :=
          List.countP_eq_zero.2 fun i hi => by
            simp [arrive, c.layout.parts_owner (List.mem_filter.1 hi).1]
        rw [hunsatisfied, if_neg (by simp [hmem])]
        omega
      · omega
    · rw [hx.innerBound_add]
      split <;> omega

lemma Balanced.arrive_counted : (c.arrive s).Counted (Function.update extra s 0) := by
  have hx := hc.arrive_extended hs ho hp
  refine ⟨?_, ?_, ?_, hc.usesRanOut_eq, hc.outerRanOut_eq⟩
  · intro p hps
    have hinner : (c.arrive s).innerDepsMissing p = Function.update c.innerDepsMissing s 0 p +
      .ofNat (if c.layout.isMember s = true ∧ (c.layout.parent s).owner = p then 1 else 0) := rfl
    rw [hinner, hx.innerSpec_add, UInt16.ofNat_add]
    congr 1
    rcases hx.mem_services.1 hps with rfl | hps
    · -- nothing waited for the service before it was there
      have := c.innerSpec_le p
      rw [innerBound_eq_zero hc.wf hx.not_mem] at this
      rw [Nat.le_zero.1 this, Function.update_self]
      rfl
    · rw [Function.update_of_ne (hx.ne_of_mem hps)]
      exact hc.inner_eq p hps
  · intro h hh hhh
    have houter : (c.arrive s).outerDepsMissing h =
        (if c.layout.isClusterHead s then Function.update c.outerDepsMissing s 0
          else c.outerDepsMissing) h +
        .ofNat (if (c.arrive s).cluster s = h then (c.arrive s).ownMissing s else 0) := by
      rw [← hc.arrivalMissing_eq hs ho hp, hx.cluster_self]
      rfl
    rw [houter, hx.outerSpec_add, Nat.add_right_comm, UInt16.ofNat_add]
    congr 1
    rcases hc.wf.insert_head hx.not_mem ho hh hhh with ⟨rfl, hhead⟩ | ⟨hne, hh, hhh⟩
    · have := c.outerSpec_le h
      rw [outerBound_eq_zero hc.wf hx.not_mem] at this
      rw [Nat.le_zero.1 this, if_pos hhead, Function.update_self, Function.update_self]
      rfl
    · rw [Function.update_of_ne hne, ← hc.outer_eq h hh hhh]
      split
      · exact Function.update_of_ne hne _ _
      · rfl
  · intro v
    by_cases hvs : v = s
    · subst hvs
      rw [hx.usesSpec_self]
      simp [arrive]
    · have huses : (c.arrive s).uses v = c.uses v := by simp [arrive, hvs]
      rw [huses, hc.uses_eq v]
      by_cases hv : v ∈ c.services
      · rw [hx.usesSpec_eq hv]
      · have hphase : (c.arrive s).phase v = c.phase v := by simp [arrive, hvs]
        have hnext : (c.phase v).next?.isSome = false :=
          Bool.eq_false_iff.2 fun hnext => hv ((hc.initialized v).2 hnext)
        rw [hc.usesSpec_of_not_mem hv, usesSpec_eq_zero_of_next? (hphase ▸ hnext)]

/-- A service is initialised. -/
theorem Balanced.arrive
    (hm : c.layout.isMember s = true → c.phase (c.layout.parent s).owner = .stopped)
    (hroom : c.Fits extra 1) : (c.arrive s).Balanced (Function.update extra s 0) := by
  have hx := hc.arrive_extended hs ho hp
  refine ⟨⟨?_, ?_, ?_⟩, hc.arrive_counted hs ho hp, hc.wf.insert hx.not_mem ho hp, ?_, ?_,
    hc.arrive_fits hs ho hp hroom, ?_⟩
  · intro t ht htr hl
    rw [hx.layout] at htr ⊢
    rw [hx.phase _ hc.wf.root_mem]
    rcases hx.mem_services.1 ht with rfl | ht
    · -- the new service is stopped and asks nothing of the root
      rw [hx.stopped] at hl
      exact absurd hl (by decide)
    · rw [hx.phase t ht] at hl
      exact hc.root_running t ht htr hl
  · intro e he hh hl
    rw [hx.layout] at hl ⊢
    rcases List.mem_append.1 (hx.edges.mem_iff.1 he) with he | he
    · -- the new edge ends at the stopped service
      rw [(Topology.mem_ownEdge.1 he).1] at hl
      have : (c.arrive s).phase ((Edge.child s).target c.layout) = .stopped := hx.stopped
      rw [this] at hl
      exact absurd hl (by decide)
    · rw [hx.target_phase he] at hl
      rw [hx.source_phase he]
      refine hc.held_running e he ?_ hl
      cases e with
      | inner s => exact hh
      | child s => exact hh
      | usage u => exact hh
  · intro t ht hmem ha
    rw [hx.layout] at hmem ha
    rcases hx.mem_services.1 ht with rfl | ht
    · rw [hx.phase _ ho, hm hmem] at ha
      exact absurd ha (by decide)
    · rw [hx.phase _ (hc.wf.parent_mem ht)] at ha
      rw [hx.phase t ht]
      exact hc.members_running t ht hmem ha
  · intro t
    by_cases hts : t = s
    · subst hts
      simp [hx.mem_services, hx.stopped, Phase.next?]
    · rw [hx.mem_services]
      have hphase : (c.arrive s).phase t = c.phase t := by simp [Core.arrive, hts]
      simp only [hts, false_or, hphase]
      exact hc.initialized t
  · intro t hu
    by_cases hts : t = s
    · simp [Core.arrive, hts]
    · have hphase : (c.arrive s).phase t = c.phase t := by simp [Core.arrive, hts]
      have hhandles : (c.arrive s).handles t = c.handles t := by simp [Core.arrive, hts]
      rw [hhandles]
      exact hc.handles_eq t (hphase ▸ hu)
  · rw [hx.layout, Function.update_of_ne (Ne.symm hx.ne_root)]
    exact hc.extra_root

end Arrive

/-! ### A service departs -/

/-- `Service::destroy` with the counters of `on_service_del`. -/
def depart (c : Core) (s : ServiceId) : Core :=
  { c.subInner (fun p => if c.layout.isMember s = true ∧ (c.layout.parent s).owner = p then 1
      else 0) with
    services := c.services.erase s
    phase := Function.update c.phase s .destroyed }

/-- What a cluster keeps waiting for after one of its members was destroyed. -/
def leftover (c : Core) (extra : ServiceId → Nat) (s h : ServiceId) : Nat :=
  extra h + if c.layout.isMember s = true ∧ c.cluster s = h then c.ownMissing s else 0

section Depart

variable (hc : c.Balanced extra) (hs : s ∈ c.services) (hr : s ≠ c.layout.root)
  (hp : c.phase s = .stopped)
  (hchild : ∀ t ∈ c.services, t ≠ c.layout.root → (c.layout.parent t).owner ≠ s)
  (husages : ∀ u ∈ c.usages, u.used.owner ≠ s ∧ u.user.owner ≠ s)
include hc hs hr hp hchild husages

lemma Balanced.depart_extended : (c.depart s).Extended c s := by
  have hmem : ∀ t, t ∈ (c.depart s).services ↔ t ≠ s ∧ t ∈ c.services :=
    fun t => hc.wf.nodup.mem_erase_iff
  refine ⟨hc.wf.erase hr hchild husages, rfl, List.perm_cons_erase hs, Topology.erase_edges hs,
    fun h => ((hmem s).1 h).1 rfl, (hmem _).2 ⟨hc.wf.toIsTree.parent_ne hs hr, hc.wf.parent_mem hs⟩,
    hc.wf.parent_parts hs hr, hp, fun t ht => ?_, fun t _ => rfl, hc.wf.cluster_eq hs,
    fun t _ => rfl, fun i _ => rfl⟩
  simp [depart, ((hmem t).1 ht).1]

lemma Balanced.depart_counted : (c.depart s).Counted (c.leftover extra s) := by
  have hx := hc.depart_extended hs hr hp hchild husages
  refine ⟨?_, ?_, ?_, hc.usesRanOut_eq, hc.outerRanOut_eq⟩
  · intro p hps
    have hinner : (c.depart s).innerDepsMissing p = c.innerDepsMissing p -
      .ofNat (if c.layout.isMember s = true ∧ (c.layout.parent s).owner = p then 1 else 0) := rfl
    rw [hinner, hc.inner_eq p (hx.mem_services.2 (.inr hps)), hx.innerSpec_add, UInt16.ofNat_add]
    exact UInt16.add_sub_cancel _ _
  · -- the cluster of a head is gone with it
    intro h hh hhh
    have houter : (c.depart s).outerDepsMissing h = c.outerDepsMissing h := rfl
    rw [houter, hc.outer_eq h (hx.mem_services.2 (.inr hh)) hhh, hx.outerSpec_add]
    congr 1
    have hcl : c.layout.isMember s = true ∨ c.cluster s ≠ h := by
      by_cases hm : c.layout.isMember s = true
      · exact .inl hm
      · refine .inr fun heq => hx.ne_of_mem hh ?_
        rw [hx.cluster_self] at heq
        have hm' : (c.depart s).layout.isMember s = false := Bool.eq_false_iff.2 hm
        rw [hm'] at heq
        exact heq.symm
    unfold leftover
    rcases hcl with hm | hne
    · simp only [hm, true_and]
      omega
    · simp [hne]
  · intro v
    refine (hc.uses_eq v).trans (congrArg UInt32.ofNat ?_)
    by_cases hvs : v = s
    · subst hvs
      have hphase : (c.depart v).phase v = .destroyed := by simp [depart]
      rw [usesSpec_eq_zero (by simp [hp]) (by simp [hp]),
        usesSpec_eq_zero (by simp [hphase]) (by simp [hphase])]
    · by_cases hv : v ∈ (c.depart s).services
      · exact hx.usesSpec_eq hv
      · have hphase : (c.depart s).phase v = c.phase v := by simp [depart, hvs]
        have hmem : v ∉ c.services := fun h => hv ((List.mem_erase_of_ne hvs).2 h)
        have hnext : (c.phase v).next?.isSome = false :=
          Bool.eq_false_iff.2 fun hnext => hmem ((hc.initialized v).2 hnext)
        rw [hc.usesSpec_of_not_mem hmem, usesSpec_eq_zero_of_next? (hphase ▸ hnext)]

lemma Balanced.depart_fits : (c.depart s).Fits (c.leftover extra s) 0 := by
  have hx := hc.depart_extended hs hr hp hchild husages
  intro t ht
  obtain ⟨huses, houter, hinner⟩ := hc.fits t (hx.mem_services.2 (.inr ht))
  have hinnerBound := hx.innerBound_add t
  refine ⟨by have := (hx.usesBound_le ht).1; omega, fun hht => ?_, by omega⟩
  have := houter hht
  have hadd := hx.outerBound_add t
  -- what the member misses was part of the bound
  have hle : c.ownMissing s ≤ (if c.layout.isClusterHead s = true ∧
      (c.layout.parent s).owner ≠ c.layout.root then 1 else 0) +
      (c.layout.imports s).countP (fun i => c.satisfied i = false) + 1 := by
    unfold ownMissing
    have h1 : (if c.layout.isClusterHead s = true ∧ (c.layout.parent s).owner ≠ c.layout.root ∧
        c.phase (c.layout.parent s).owner ≠ .running then 1 else 0) ≤
        if c.layout.isClusterHead s = true ∧ (c.layout.parent s).owner ≠ c.layout.root then 1
        else 0 := by
      split
      · rename_i h
        rw [if_pos ⟨h.1, h.2.1⟩]
      · exact Nat.zero_le _
    have h2 : (if c.phase c.layout.root = .running then 0 else 1) ≤ 1 := by
      split <;> decide
    omega
  unfold leftover
  change c.outerBound t = (c.depart s).outerBound t + if c.cluster s = t then
    (if c.layout.isClusterHead s = true ∧ (c.layout.parent s).owner ≠ c.layout.root then 1 else 0) +
      (c.layout.imports s).countP (fun i => c.satisfied i = false) + 1 else 0 at hadd
  by_cases hst : c.cluster s = t
  · rw [if_pos hst] at hadd
    split <;> omega
  · rw [if_neg hst] at hadd
    rw [if_neg fun h => hst h.2]
    omega

/-- A stopped service without children and usages is destroyed. -/
theorem Balanced.depart : (c.depart s).Balanced (c.leftover extra s) := by
  have hx := hc.depart_extended hs hr hp hchild husages
  have hmem : ∀ {t}, t ∈ (c.depart s).services → t ∈ c.services :=
    fun ht => hx.mem_services.2 (.inr ht)
  refine ⟨⟨?_, ?_, ?_⟩, hc.depart_counted hs hr hp hchild husages, hx.wf, ?_, ?_,
    hc.depart_fits hs hr hp hchild husages, ?_⟩
  · intro t ht htr hl
    rw [← hx.phase t ht] at hl
    have hroot : (c.depart s).layout.root ∈ (c.depart s).services := hx.wf.root_mem
    rw [← hx.phase _ hroot]
    exact hc.root_running t (hmem ht) htr hl
  · intro e he hh hl
    rw [← hx.target_phase he] at hl
    rw [← hx.source_phase he]
    refine hc.held_running e (hx.edges.mem_iff.2 (List.mem_append_right _ he)) ?_ hl
    cases e with
    | inner s => exact hh
    | child s => exact hh
    | usage u => exact hh
  · intro t ht hm ha
    rw [← hx.phase _ (hx.wf.parent_mem ht)] at ha
    rw [← hx.phase t ht]
    exact hc.members_running t (hmem ht) hm ha
  · intro t
    by_cases hts : t = s
    · subst hts
      have hphase : (c.depart t).phase t = .destroyed := by simp [Core.depart]
      simp [hx.not_mem, hphase, Phase.next?]
    · have hphase : (c.depart s).phase t = c.phase t := by simp [Core.depart, hts]
      rw [hphase, ← hc.initialized t, hx.mem_services]
      simp [hts]
  · intro t hu
    by_cases hts : t = s
    · exact hc.handles_eq t (by rw [hts, hp]; rfl)
    · have hphase : (c.depart s).phase t = c.phase t := by simp [Core.depart, hts]
      exact hc.handles_eq t (hphase ▸ hu)
  · have hne : ¬ (c.layout.isMember s = true ∧ c.cluster s = c.layout.root) :=
      fun h => hr ((hc.wf.cluster_eq_root hs).1 h.2)
    change c.leftover extra s c.layout.root = 0
    rw [leftover, if_neg hne, hc.extra_root]

end Depart

end Core

end Idle
