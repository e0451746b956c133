import Idle.Core.Transitions

/-!
# Usages, imports and handles keep the balance

A usage that is connected or disconnected adds or removes one edge of the graph. The counters move
at both ends of it as far as the phases there count it. Satisfying an import and taking or
returning a `Use` handle move one counter each.
-/

namespace Idle

namespace Core

variable {c c' : Core} {s v h p : ServiceId} {u : Usage} {extra : ServiceId → Nat}

/-! ### One edge more -/

/-- The graph of `c'` has the edge of one more usage, and nothing else is different. -/
structure Joined (c c' : Core) (u : Usage) : Prop where
  tree : c'.toServiceTree = c.toServiceTree
  edges : c'.edges.Perm (.usage u :: c.edges)
  phase : c'.phase = c.phase
  satisfied : c'.satisfied = c.satisfied
  handles : c'.handles = c.handles

lemma source_usage (L : Layout) (u : Usage) : (Edge.usage u).source L = u.used.owner := rfl

lemma target_usage (L : Layout) (u : Usage) : (Edge.usage u).target L = u.user.owner := rfl

lemma isAwaited_usage (L : Layout) (u : Usage) :
    (Edge.usage u).isAwaited L = true ↔ u.weak = false := by
  simp [Edge.isAwaited]

/-- The use of its source that a usage stands for: the source runs and the user is locked. -/
def useOf (c : Core) (u : Usage) (v : ServiceId) : Nat :=
  if u.used.owner = v ∧ c.phase v = .running ∧ (c.phase u.user.owner).isLocked = true then 1 else 0

/-- The cluster of the user of a strong usage waits while its source is not running. -/
def waitOf (c : Core) (u : Usage) (h : ServiceId) : Nat :=
  if u.weak = false ∧ c.cluster u.user.owner = h ∧ c.phase u.used.owner ≠ .running then 1 else 0

namespace Joined

variable (hj : c.Joined c' u)
include hj

lemma outerSpec_add (h : ServiceId) : c'.outerSpec h = c.outerSpec h + c.waitOf u h := by
  have hopen : c'.openEdges h = c.openEdges h + c.waitOf u h := by
    unfold openEdges waitOf
    rw [hj.edges.countP_eq, List.countP_cons]
    congr 1
    · refine List.countP_congr fun e _ => ?_
      rw [decide_eq_true_eq, decide_eq_true_eq]
      simp [Topology.clusterTarget, hj.tree, hj.phase]
    · refine if_congr ?_ rfl rfl
      simp [Topology.clusterTarget, hj.tree, hj.phase, isAwaited_usage, target_usage, source_usage]
  have hunsatisfied : c'.unsatisfied h = c.unsatisfied h := by
    unfold unsatisfied
    rw [hj.tree, hj.satisfied]
  have hroot : c'.rootMissing h = c.rootMissing h := by
    unfold rootMissing
    rw [hj.tree, hj.phase]
  unfold outerSpec
  rw [hopen, hunsatisfied, hroot]
  omega

lemma innerSpec_eq (p : ServiceId) : c'.innerSpec p = c.innerSpec p := by
  unfold innerSpec
  rw [hj.tree, hj.phase]

lemma usesSpec_add (v : ServiceId) : c'.usesSpec v = c.usesSpec v + c.useOf u v := by
  have hlocked : c'.lockedUsers v = c.lockedUsers v +
      if u.used.owner = v ∧ (c.phase u.user.owner).isLocked = true then 1 else 0 := by
    unfold lockedUsers
    rw [hj.edges.countP_eq, List.countP_cons]
    congr 1
    · exact List.countP_congr fun e _ => by simp [hj.tree, hj.phase]
    · refine if_congr ?_ rfl rfl
      simp [hj.tree, hj.phase, target_usage, source_usage]
  have himplicit : c'.implicitUsers v = c.implicitUsers v := by
    unfold implicitUsers
    rw [hj.tree, hj.phase]
  have hparent : c'.parentUse v = c.parentUse v := by
    unfold parentUse
    rw [hj.tree, hj.phase]
  by_cases hr : c.phase v = .running
  · rw [usesSpec_running hr, usesSpec_running (by rw [hj.phase, hr]), hlocked, himplicit, hparent,
      hj.handles]
    simp only [useOf, hr, true_and]
    omega
  · rw [usesSpec_congr (by rw [hj.phase]) hr (by rw [hj.handles])]
    simp [useOf, hr]

lemma usesBound_add (v : ServiceId) : c'.usesBound v = c.usesBound v +
    if u.used.owner = v then 1 else 0 := by
  have hedges : c'.edges.countP (fun e => e.source c.layout = v) =
      c.edges.countP (fun e => e.source c.layout = v) + if u.used.owner = v then 1 else 0 := by
    rw [hj.edges.countP_eq, List.countP_cons]
    congr 1
    exact if_congr decide_eq_true_iff rfl rfl
  unfold usesBound
  rw [hj.tree, hj.handles, hedges]
  omega

lemma outerBound_add (h : ServiceId) : c'.outerBound h = c.outerBound h +
    if u.weak = false ∧ c.cluster u.user.owner = h then 1 else 0 := by
  have hunsatisfied : c'.unsatisfied h = c.unsatisfied h := by
    unfold unsatisfied
    rw [hj.tree, hj.satisfied]
  have hedges :
      c'.edges.countP (fun e => e.isAwaited c'.layout = true ∧ c'.clusterTarget e = h) =
      c.edges.countP (fun e => e.isAwaited c.layout = true ∧ c.clusterTarget e = h) +
        if u.weak = false ∧ c.cluster u.user.owner = h then 1 else 0 := by
    rw [hj.edges.countP_eq, List.countP_cons]
    congr 1
    · refine List.countP_congr fun e _ => ?_
      rw [decide_eq_true_eq, decide_eq_true_eq]
      simp [Topology.clusterTarget, hj.tree]
    · refine if_congr ?_ rfl rfl
      simp [Topology.clusterTarget, hj.tree, isAwaited_usage, target_usage]
  unfold outerBound
  rw [hedges, hunsatisfied, hj.tree]
  omega

lemma innerBound_eq (p : ServiceId) : c'.innerBound p = c.innerBound p := by
  unfold innerBound
  rw [hj.tree]

lemma fits (hc : c.Fits extra 1) : c'.Fits extra 0 := by
  intro s hs
  rw [hj.tree] at hs
  obtain ⟨huses, houter, hinner⟩ := hc s hs
  rw [hj.usesBound_add, hj.outerBound_add, hj.innerBound_eq, hj.tree]
  refine ⟨?_, fun hhs => ?_, by omega⟩
  · split <;> omega
  · have := houter hhs
    split <;> omega

lemma fits_symm (hc : c'.Fits extra 0) : c.Fits extra 0 := by
  intro s hs
  obtain ⟨huses, houter, hinner⟩ := hc s (by rwa [hj.tree])
  rw [hj.usesBound_add] at huses
  rw [hj.outerBound_add, hj.tree] at houter
  rw [hj.innerBound_eq] at hinner
  exact ⟨by omega, fun hhs => by have := houter hhs; omega, hinner⟩

lemma mem_edges {e : Edge} : e ∈ c'.edges ↔ e = .usage u ∨ e ∈ c.edges := by
  rw [hj.edges.mem_iff, List.mem_cons]

end Joined

/-! ### Connecting -/

/-- `Usage::connect` with the counters of `on_usage_connected`. -/
def plug (c : Core) (u : Usage) : Core :=
  ({ c with usages := c.usages ++ [u], held := Function.update c.held u.id false }.addUses
    (c.useOf u)).addOuter (c.waitOf u)

lemma plug_joined (c : Core) (u : Usage) : c.Joined (c.plug u) u := by
  refine ⟨rfl, ?_, rfl, rfl, rfl⟩
  change (c.toTopology.connect u).edges.Perm _
  rw [Topology.connect_edges]
  exact List.perm_append_comm

/-- A usage between two clusters is connected. -/
theorem Balanced.plug (hc : c.Balanced extra) (hwf : (c.toTopology.connect u).WellFormed)
    (hroom : c.Fits extra 1) : (c.plug u).Balanced extra := by
  have hj := c.plug_joined u
  refine ⟨⟨hc.root_running, ?_, hc.members_running⟩, ⟨?_, ?_, ?_, hc.usesRanOut_eq,
    hc.outerRanOut_eq⟩, hwf, hc.initialized, hc.handles_eq, hj.fits hroom,
    hc.extra_root⟩
  · intro e he hh hl
    rcases hj.mem_edges.1 he with rfl | he
    · -- the new usage is not held
      simp [isHeld, Core.plug, addUses, addOuter] at hh
    · refine hc.held_running e he ?_ hl
      cases e with
      | inner s => exact hh
      | child s => exact hh
      | usage w =>
        have hw : w ∈ c.usages := Topology.mem_edges_usage.1 he
        have hne : w.id ≠ u.id := by
          have hnodup := hwf.usages_nodup
          simp only [Topology.connect, List.map_append, List.map_cons, List.map_nil] at hnodup
          intro heq
          exact (List.nodup_append.1 hnodup).2.2 w.id (List.mem_map_of_mem hw) u.id
            (List.mem_singleton.2 rfl) heq
        simpa [isHeld, Core.plug, addUses, addOuter, hne] using hh
  · intro s hs
    rw [hj.innerSpec_eq]
    exact hc.inner_eq s hs
  · intro h hh hhh
    rw [hj.outerSpec_add, Nat.add_right_comm, UInt16.ofNat_add, ← hc.outer_eq h hh hhh]
    rfl
  · intro v
    rw [hj.usesSpec_add, UInt32.ofNat_add, ← hc.uses_eq v]
    rfl

/-! ### Disconnecting -/

/-- `Usage::disconnect` with the counters of `on_usage_disconnect`. -/
def unplug (c : Core) (u : Usage) : Core :=
  { (c.subUses (c.useOf u)).subOuter (c.waitOf u) with usages := c.usages.erase u }

lemma unplug_joined (hu : u ∈ c.usages) : (c.unplug u).Joined c u :=
  ⟨rfl, Topology.disconnect_edges hu, rfl, rfl, rfl⟩

/-- A connected usage is disconnected. -/
theorem Balanced.unplug (hc : c.Balanced extra) (hu : u ∈ c.usages) :
    (c.unplug u).Balanced extra := by
  have hj := unplug_joined hu
  refine ⟨⟨hc.root_running, fun e he => hc.held_running e (hj.mem_edges.2 (.inr he)),
    hc.members_running⟩, ⟨?_, ?_, ?_, hc.usesRanOut_eq, hc.outerRanOut_eq⟩,
    hc.wf.disconnect u, hc.initialized, hc.handles_eq, hj.fits_symm hc.fits, hc.extra_root⟩
  · intro s hs
    rw [← hj.innerSpec_eq]
    exact hc.inner_eq s hs
  · intro h hh hhh
    have houter : (c.unplug u).outerDepsMissing h = c.outerDepsMissing h - .ofNat (c.waitOf u h) :=
      rfl
    rw [houter, hc.outer_eq h hh hhh, hj.outerSpec_add, Nat.add_right_comm, UInt16.ofNat_add]
    exact UInt16.add_sub_cancel _ _
  · intro v
    have huses : (c.unplug u).uses v = c.uses v - .ofNat (c.useOf u v) := rfl
    rw [huses, hc.uses_eq v, hj.usesSpec_add, UInt32.ofNat_add]
    exact UInt32.add_sub_cancel _ _

/-- The counters that a disconnected usage moves hold what it takes from them. -/
lemma Balanced.unplug_le (hc : c.Balanced extra) (hu : u ∈ c.usages) :
    (c.useOf u u.used.owner < (c.uses u.used.owner).toNat ∨ c.useOf u u.used.owner = 0) ∧
      c.waitOf u (c.cluster u.user.owner) ≤
        (c.outerDepsMissing (c.cluster u.user.owner)).toNat := by
  have hj := unplug_joined hu
  have husermem := hc.wf.user_mem u hu
  refine ⟨?_, ?_⟩
  · by_cases hr : c.phase u.used.owner = .running
    · left
      have hspec := hj.usesSpec_add u.used.owner
      have hunplugged : (c.unplug u).phase u.used.owner = .running := hr
      rw [usesSpec_running hunplugged] at hspec
      rw [hc.uses_toNat (hc.wf.used_mem u hu), hspec]
      change c.useOf u u.used.owner < _ + c.useOf u u.used.owner
      omega
    · right
      simp [useOf, hr]
  · have hspec := hj.outerSpec_add (c.cluster u.user.owner)
    rw [hc.outer_toNat (hc.wf.cluster_mem husermem).1 (hc.wf.cluster_cluster husermem), hspec]
    change c.waitOf u _ ≤ _ + c.waitOf u _ + _
    omega

/-! ### Satisfying imports -/

variable {imp : Part}

/-- The cluster that an import counts for. -/
def countsFor (c : Core) (imp : Part) (h : ServiceId) : Nat :=
  if c.cluster imp.owner = h then 1 else 0

/-- `Import::setSatisfied` with the counter it moves. -/
def setSatisfied (c : Core) (imp : Part) (satisfied : Bool) : Core :=
  if satisfied != c.satisfied imp then
    let c := { c with satisfied := Function.update c.satisfied imp satisfied }
    if satisfied then c.subOuter (c.countsFor imp) else c.addOuter (c.countsFor imp)
  else c

/-- In `c'` one more import is satisfied, and nothing else is different. -/
structure Supplied (c c' : Core) (imp : Part) : Prop where
  topology : c'.toTopology = c.toTopology
  phase : c'.phase = c.phase
  handles : c'.handles = c.handles
  before : c.satisfied imp = false
  satisfied : c'.satisfied = Function.update c.satisfied imp true

lemma mem_imports (hs : imp.owner ∈ c.services) (hi : imp ∈ c.layout.imports imp.owner) :
    imp ∈ c.services.flatMap c.layout.imports :=
  List.mem_flatMap.2 ⟨imp.owner, hs, hi⟩

lemma nodup_imports (hc : c.WellFormed) : (c.services.flatMap c.layout.imports).Nodup := by
  rw [List.nodup_flatMap]
  refine ⟨fun s _ => (c.layout.parts_nodup s).filter _, hc.nodup.imp fun {s t} hst => ?_⟩
  intro i hs ht
  have hs := c.layout.parts_owner (List.mem_filter.1 hs).1
  have ht := c.layout.parts_owner (List.mem_filter.1 ht).1
  exact hst (hs.symm.trans ht)

namespace Supplied

variable (hsup : c.Supplied c' imp)
include hsup

lemma unsatisfied_add (hc : c.WellFormed) (hs : imp.owner ∈ c.services)
    (hi : imp ∈ c.layout.imports imp.owner) (h : ServiceId) :
    c.unsatisfied h = c'.unsatisfied h + c.countsFor imp h := by
  unfold unsatisfied countsFor
  rw [hsup.topology, hsup.satisfied]
  have hothers : ∀ i ∈ c.services.flatMap c.layout.imports, i ≠ imp →
      decide (c.cluster i.owner = h ∧ c.satisfied i = false) =
        decide (c.cluster i.owner = h ∧ Function.update c.satisfied imp true i = false) :=
    fun i _ hne => by rw [Function.update_of_ne hne]
  split
  · rename_i hcl
    exact List.countP_eq_succ_of_nodup (nodup_imports hc) (mem_imports hs hi)
      (by simp [hcl, hsup.before]) (by simp) hothers
  · rename_i hcl
    refine List.countP_congr fun i hi => ?_
    by_cases hne : i = imp
    · subst hne
      simp [hcl]
    · rw [hothers i hi hne]

lemma outerSpec_add (hc : c.WellFormed) (hs : imp.owner ∈ c.services)
    (hi : imp ∈ c.layout.imports imp.owner) (h : ServiceId) :
    c.outerSpec h = c'.outerSpec h + c.countsFor imp h := by
  have hopen : c'.openEdges h = c.openEdges h := by
    unfold openEdges
    rw [hsup.topology, hsup.phase]
  have hroot : c'.rootMissing h = c.rootMissing h := by
    unfold rootMissing
    rw [hsup.topology, hsup.phase]
  unfold outerSpec
  rw [hopen, hroot, hsup.unsatisfied_add hc hs hi]
  omega

lemma outerBound_add (hc : c.WellFormed) (hs : imp.owner ∈ c.services)
    (hi : imp ∈ c.layout.imports imp.owner) (h : ServiceId) :
    c.outerBound h = c'.outerBound h + c.countsFor imp h := by
  unfold outerBound
  rw [hsup.unsatisfied_add hc hs hi, hsup.topology]
  omega

lemma innerSpec_eq (p : ServiceId) : c'.innerSpec p = c.innerSpec p := by
  unfold innerSpec
  rw [hsup.topology, hsup.phase]

lemma usesSpec_eq (v : ServiceId) : c'.usesSpec v = c.usesSpec v := by
  unfold usesSpec lockedUsers implicitUsers parentUse
  rw [hsup.topology, hsup.phase, hsup.handles]

lemma usesBound_eq (v : ServiceId) : c'.usesBound v = c.usesBound v := by
  unfold usesBound
  rw [hsup.topology, hsup.handles]

lemma innerBound_eq (p : ServiceId) : c'.innerBound p = c.innerBound p := by
  unfold innerBound
  rw [hsup.topology]

end Supplied

section SetSatisfied

variable (hc : c.Balanced extra) (hs : imp.owner ∈ c.services)
  (hi : imp ∈ c.layout.imports imp.owner)
include hc hs hi

/-- An import is satisfied. -/
lemma Balanced.supply (hb : c.satisfied imp = false) :
    ({ c with satisfied := Function.update c.satisfied imp true }.subOuter
      (c.countsFor imp)).Balanced extra := by
  have hsup : c.Supplied ({ c with satisfied := Function.update c.satisfied imp true }.subOuter
    (c.countsFor imp)) imp := ⟨rfl, rfl, rfl, hb, rfl⟩
  refine ⟨⟨hc.root_running, hc.held_running, hc.members_running⟩, ⟨?_, ?_, ?_, hc.usesRanOut_eq,
    hc.outerRanOut_eq⟩, hc.wf, hc.initialized, hc.handles_eq, ?_, hc.extra_root⟩
  · intro s hs
    rw [hsup.innerSpec_eq]
    exact hc.inner_eq s hs
  · intro h hh hhh
    have hspec := hsup.outerSpec_add hc.wf hs hi h
    have houter := hc.outer_eq h hh hhh
    rw [hspec, Nat.add_right_comm, UInt16.ofNat_add] at houter
    change c.outerDepsMissing h - .ofNat (c.countsFor imp h) = _
    rw [houter]
    exact UInt16.add_sub_cancel _ _
  · intro v
    rw [hsup.usesSpec_eq]
    exact hc.uses_eq v
  · intro s hsm
    obtain ⟨huses, houter, hinner⟩ := hc.fits s hsm
    have hbound := hsup.outerBound_add hc.wf hs hi s
    rw [hsup.usesBound_eq, hsup.innerBound_eq]
    exact ⟨huses, fun hhs => by have := houter hhs; omega, hinner⟩

/-- An import is no longer satisfied. -/
lemma Balanced.withdraw (hb : c.satisfied imp = true) (hroom : c.Fits extra 1) :
    ({ c with satisfied := Function.update c.satisfied imp false }.addOuter
      (c.countsFor imp)).Balanced extra := by
  have hback : c.satisfied =
      Function.update (Function.update c.satisfied imp false) imp true := by
    rw [Function.update_idem, ← hb, Function.update_eq_self]
  have hsup : ({ c with satisfied := Function.update c.satisfied imp false }.addOuter
    (c.countsFor imp)).Supplied c imp := ⟨rfl, rfl, rfl, by simp [addOuter], hback⟩
  have hspec := hsup.outerSpec_add hc.wf hs hi
  have hbound := hsup.outerBound_add hc.wf hs hi
  refine ⟨⟨hc.root_running, hc.held_running, hc.members_running⟩, ⟨?_, ?_, ?_, hc.usesRanOut_eq,
    hc.outerRanOut_eq⟩, hc.wf, hc.initialized, hc.handles_eq, ?_, hc.extra_root⟩
  · intro s hs
    rw [← hsup.innerSpec_eq]
    exact hc.inner_eq s hs
  · intro h hh hhh
    rw [hspec h, Nat.add_right_comm, UInt16.ofNat_add, ← hc.outer_eq h hh hhh]
    rfl
  · intro v
    rw [← hsup.usesSpec_eq]
    exact hc.uses_eq v
  · intro s hsm
    obtain ⟨huses, houter, hinner⟩ := hroom s hsm
    have hone : c.countsFor imp s ≤ 1 := by
      unfold countsFor
      split <;> simp
    rw [← hsup.usesBound_eq, ← hsup.innerBound_eq, hbound s]
    refine ⟨by omega, fun hhs => ?_, by omega⟩
    have := houter hhs
    change c.outerBound s + c.countsFor imp s + extra s + 0 < 2 ^ 16
    omega

theorem Balanced.setSatisfied {satisfied : Bool}
    (hroom : satisfied = false → c.Fits extra 1) :
    (c.setSatisfied imp satisfied).Balanced extra := by
  unfold Core.setSatisfied
  cases hb : c.satisfied imp <;> cases satisfied
  · exact hc
  · exact hc.supply hs hi hb
  · exact hc.withdraw hs hi hb (hroom rfl)
  · exact hc

end SetSatisfied

/-! ### Handles -/

/-- A `Use` handle is taken. -/
def lend (c : Core) (s : ServiceId) : Core :=
  { c.incUses s with handles := Function.update c.handles s (c.handles s + 1) }

/-- A `Use` handle is returned. -/
def recover (c : Core) (s : ServiceId) : Core :=
  { c.decUses s with handles := Function.update c.handles s (c.handles s - 1) }

/-- A service that can be used has a use by itself. -/
lemma usesSpec_pos (hs : (c.phase s).isUsable = true) : 1 ≤ c.usesSpec s := by
  unfold usesSpec
  cases hps : c.phase s <;> rw [hps] at hs <;> first | exact absurd hs (by decide) | skip
  all_goals
    simp only
    omega

/-- A handle is one more use of a service that is usable. -/
lemma usesSpec_handles (ht : c'.toTopology = c.toTopology) (hp : c'.phase = c.phase)
    (hs : (c.phase s).isUsable = true)
    (hh : c'.handles = Function.update c.handles s (c.handles s + 1)) (v : ServiceId) :
    c'.usesSpec v = c.usesSpec v + if v = s then 1 else 0 := by
  by_cases hv : v = s
  · subst hv
    rw [if_pos rfl]
    unfold usesSpec lockedUsers implicitUsers parentUse
    rw [ht, hp, hh, Function.update_self]
    cases hpv : c.phase v <;> rw [hpv] at hs <;> first | exact absurd hs (by decide) | skip
    all_goals
      simp only
      omega
  · rw [if_neg hv, Nat.add_zero]
    unfold usesSpec lockedUsers implicitUsers parentUse
    rw [ht, hp, hh, Function.update_of_ne hv]

lemma usesBound_handles (ht : c'.toTopology = c.toTopology)
    (hh : c'.handles = Function.update c.handles s (c.handles s + 1)) (v : ServiceId) :
    c'.usesBound v = c.usesBound v + if v = s then 1 else 0 := by
  unfold usesBound
  rw [ht, hh]
  by_cases hv : v = s
  · subst hv
    rw [if_pos rfl, Function.update_self]
    omega
  · rw [if_neg hv, Function.update_of_ne hv]
    rfl

theorem Balanced.lend (hc : c.Balanced extra) (hp : (c.phase s).isUsable = true)
    (hroom : c.Fits extra 1) : (c.lend s).Balanced extra := by
  have hspec : ∀ v, (c.lend s).usesSpec v = c.usesSpec v + if v = s then 1 else 0 :=
    usesSpec_handles rfl rfl hp rfl
  have hbound : ∀ v, (c.lend s).usesBound v = c.usesBound v + if v = s then 1 else 0 :=
    usesBound_handles rfl rfl
  refine ⟨⟨hc.root_running, hc.held_running, hc.members_running⟩, ⟨hc.inner_eq, hc.outer_eq, ?_,
    hc.usesRanOut_eq, hc.outerRanOut_eq⟩, hc.wf, hc.initialized, ?_, ?_, hc.extra_root⟩
  · intro v
    rw [hspec, UInt32.ofNat_add, ← hc.uses_eq v]
    simp only [Core.lend, incUses]
    by_cases hvs : v = s
    · subst hvs
      simp
    · simp [hvs]
  · intro v hu
    have hvs : v ≠ s := by
      rintro rfl
      have hu' : (c.phase v).isUsable = false := hu
      rw [hp] at hu'
      exact absurd hu' (by decide)
    simpa [Core.lend, hvs] using hc.handles_eq v hu
  · intro v hv
    obtain ⟨huses, houter, hinner⟩ := hroom v hv
    refine ⟨?_, fun hh => ?_, Nat.lt_of_succ_lt hinner⟩
    · rw [hbound]
      split <;> omega
    · exact Nat.lt_of_succ_lt (houter hh)

theorem Balanced.recover (hc : c.Balanced extra) (hs : s ∈ c.services) (hh : c.handles s ≠ 0) :
    (c.recover s).Balanced extra := by
  have hp : (c.phase s).isUsable = true := by
    by_contra hp
    exact hh (hc.handles_eq s (by simpa using hp))
  have hhandles : c.handles =
      Function.update (c.recover s).handles s ((c.recover s).handles s + 1) := by
    have : c.handles s - 1 + 1 = c.handles s := Nat.succ_pred_eq_of_ne_zero hh
    simp [Core.recover, this]
  have hspec : ∀ v, c.usesSpec v = (c.recover s).usesSpec v + if v = s then 1 else 0 :=
    usesSpec_handles rfl rfl hp hhandles
  have hbound : ∀ v, c.usesBound v = (c.recover s).usesBound v + if v = s then 1 else 0 :=
    usesBound_handles rfl hhandles
  refine ⟨⟨hc.root_running, hc.held_running, hc.members_running⟩, ⟨hc.inner_eq, hc.outer_eq, ?_,
    ?_, hc.outerRanOut_eq⟩, hc.wf, hc.initialized, ?_, ?_, hc.extra_root⟩
  · intro v
    have huses := hc.uses_eq v
    rw [hspec v, UInt32.ofNat_add] at huses
    simp only [Core.recover, decUses] at huses ⊢
    by_cases hvs : v = s
    · subst hvs
      rw [Function.update_self, huses, if_pos rfl]
      exact UInt32.add_sub_cancel _ _
    · rw [Function.update_of_ne hvs, huses, if_neg hvs]
      exact UInt32.add_zero _
  · -- besides the handle there is the use the service has by itself
    have hnat := hc.uses_toNat hs
    have hpos : 1 ≤ (c.recover s).usesSpec s := usesSpec_pos hp
    rw [hspec s, if_pos rfl] at hnat
    have hgt : decide (c.uses s ≤ 1) = false := by
      rw [decide_eq_false_iff_not, UInt32.le_iff_toNat_le]
      change ¬ _ ≤ 1
      omega
    change (c.usesRanOut || decide (c.uses s ≤ 1)) = false
    rw [hc.usesRanOut_eq, hgt]
    rfl
  · intro v hu
    have := hc.handles_eq v hu
    by_cases hvs : v = s
    · subst hvs
      exact absurd this hh
    · simpa [Core.recover, hvs] using this
  · intro v hv
    obtain ⟨huses, houter, hinner⟩ := hc.fits v hv
    have := hbound v
    exact ⟨by omega, houter, hinner⟩

end Core

end Idle
