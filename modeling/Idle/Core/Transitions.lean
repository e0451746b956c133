import Idle.Core.Balance

/-!
# Phase changes keep the balance

The six phase changes of a service with the counters that the code moves around each of them. A
service is locked, started and reported as running on its way up, and stopped, pending and
unlocked on its way down; the counters agree after each of these.
-/

namespace Idle

namespace Core

variable {c c' : Core} {s v h me : ServiceId} {extra : ServiceId → Nat}

/-! ### The phase changes with their counters -/

/-- One round of the first loop of `do_lock_cluster`. -/
def lockMember (c : Core) (me : ServiceId) : Core :=
  let c := { c.transition me .stopped .locked with
    held := fun id => c.held id || c.usages.any fun u => u.id == id && u.user.owner == me }
  (State.lockedSources c me).foldl incUses c

/-- The part of `do_start_eager` after the cluster is locked. -/
def startMember (c : Core) (me : ServiceId) : Core :=
  (c.innerDependencies me).foldl incUses ((c.transition me .locked .starting).incUses me)

/-- The targets of the edges of a service that are locked, as uses of that service. -/
def delayedUses (c : Core) (me : ServiceId) : List ServiceId :=
  ((c.outEdges .externalGraph me).filter fun e =>
    (c.phase (e.target c.layout)).isLocked).map fun _ => me

/-- `post_start_actions`, for a service other than the root. -/
def finishStart (c : Core) (me : ServiceId) : Core :=
  let c := c.transition me .starting .running
  let c := (c.delayedUses me).foldl incUses c
  (State.waiting c me).foldl decOuter ((State.innerWaiting c me).foldl decInner c)

/-- `post_start_actions` of the root. -/
def finishStartRoot (c : Core) : Core :=
  let c := c.transition c.layout.root .starting .running
  let c := (c.delayedUses c.layout.root).foldl incUses c
  c.transitiveServices.tail.foldl decOuter c

/-- `try_set_service_stopping` -/
def setStopping (c : Core) (me : ServiceId) : Core :=
  { c.transition me .running .stopping with uses := Function.update c.uses me 0 }

/-- `try_set_service_stopping` and `do_stop_eager`, for a service other than the root. -/
def beginStop (c : Core) (me : ServiceId) : Core :=
  let c := c.setStopping me
  (State.waiting c me).foldl incOuter ((State.innerWaiting c me).foldl incInner c)

/-- `try_set_service_stopping` and `do_stop_eager` of the root. -/
def beginStopRoot (c : Core) : Core :=
  let c := c.setStopping c.layout.root
  c.transitiveServices.tail.foldl incOuter c

/-- The first part of `post_stop_actions`. -/
def pendMember (c : Core) (me : ServiceId) : Core :=
  ((c.innerDependencies me).foldl decUses c).transition me .stopping .pending

/-- One round of the first loop of `do_unlock_cluster`. -/
def unlockMember (c : Core) (me : ServiceId) : Core :=
  ((State.unlockedSources c me).foldl decUses c).transition me .pending .stopped

/-! ### What the counters stand for -/

namespace Moved

variable (hm : c.Moved c' me)
include hm

lemma wf (hc : c.WellFormed) : c'.WellFormed := hm.topology ▸ hc

lemma initialized (hc : ∀ s, s ∈ c.services ↔ (c.phase s).next?.isSome)
    (h : (c'.phase me).next?.isSome = (c.phase me).next?.isSome) (s : ServiceId) :
    s ∈ c'.services ↔ (c'.phase s).next?.isSome := by
  have hs := hm.all (f := fun p => p.next?.isSome) h s
  rw [hm.topology, hs]
  exact hc s

lemma fits (hc : c.Fits extra 0) : c'.Fits extra 0 := by
  have huses : c'.usesBound = c.usesBound := by
    funext v
    unfold usesBound
    rw [hm.topology, hm.handles]
  have houter : c'.outerBound = c.outerBound := by
    funext h
    unfold outerBound
    rw [unsatisfied_congr hm.topology hm.satisfied, hm.topology]
  have hinner : c'.innerBound = c.innerBound := by
    funext p
    unfold innerBound
    rw [hm.topology]
  unfold Fits
  rw [huses, houter, hinner, hm.topology]
  exact hc

lemma outerSpec_eq (hrun : c'.phase me = .running ↔ c.phase me = .running) (h : ServiceId) :
    c'.outerSpec h = c.outerSpec h := by
  have hrun' : ∀ s, c'.phase s = .running ↔ c.phase s = .running := fun s =>
    iff_of_eq (hm.all (f := fun p => p = .running) (propext hrun) s)
  unfold outerSpec
  rw [openEdges_congr hm.topology hrun', unsatisfied_congr hm.topology hm.satisfied,
    rootMissing_congr hm.topology hrun']

lemma innerSpec_eq (hrun : c'.phase me = .running ↔ c.phase me = .running) (p : ServiceId) :
    c'.innerSpec p = c.innerSpec p :=
  innerSpec_congr hm.topology
    (fun s => iff_of_eq (hm.all (f := fun p => p = .running) (propext hrun) s)) p

end Moved

lemma usesSpec_running (hp : c.phase v = .running) : c.usesSpec v =
    1 + c.parentUse v + (c.lockedUsers v + c.implicitUsers v) + c.handles v := by
  simp [usesSpec, hp]

lemma usesSpec_starting (hp : c.phase v = .starting) : c.usesSpec v = 1 + c.handles v := by
  simp [usesSpec, hp]

lemma usesSpec_eq_zero (hs : c.phase v ≠ .starting) (hr : c.phase v ≠ .running) :
    c.usesSpec v = 0 := by
  unfold usesSpec
  split
  · rename_i h
    exact absurd h hr
  · rename_i h
    exact absurd h hs
  · rfl

/-- What is not initialised has no uses. -/
lemma usesSpec_eq_zero_of_next? (hp : (c.phase v).next?.isSome = false) : c.usesSpec v = 0 :=
  usesSpec_eq_zero (fun hs => by simp [hs, Phase.next?] at hp)
    (fun hr => by simp [hr, Phase.next?] at hp)

lemma Balanced.usesSpec_of_not_mem (hc : c.Balanced extra) (hv : v ∉ c.services) :
    c.usesSpec v = 0 :=
  usesSpec_eq_zero_of_next? (Bool.eq_false_iff.2 fun hp => hv ((hc.initialized v).2 hp))

/-- A service that is not running has the same uses as long as its phase stays. -/
lemma usesSpec_congr (hp : c'.phase v = c.phase v) (hr : c.phase v ≠ .running)
    (hh : c'.handles v = c.handles v) : c'.usesSpec v = c.usesSpec v := by
  unfold usesSpec
  rw [hp, hh]
  split
  · rename_i h
    exact absurd h hr
  · rfl
  · rfl

/-- The order and the counters are what a change of phase has to keep. -/
lemma Balanced.move (hc : c.Balanced extra) (hm : c.Moved c' me) (hord : c'.Ordered)
    (hcount : c'.Counted extra) (hnext : (c'.phase me).next?.isSome = (c.phase me).next?.isSome)
    (hhandles : (c'.phase me).isUsable = false → c.handles me = 0) : c'.Balanced extra := by
  refine ⟨hord, hcount, hm.wf hc.wf, hm.initialized hc.initialized hnext, fun s hu => ?_,
    hm.fits hc.fits, by rw [hm.topology]; exact hc.extra_root⟩
  rw [hm.handles]
  by_cases hsm : s = me
  · subst hsm
    exact hhandles hu
  · rw [hm.phase s hsm] at hu
    exact hc.handles_eq s hu

/-- The sources that are found running are counted, and no others. -/
lemma count_unlockedSources
    (hroot : c.layout.hasImplicitRootEdge me = true → c.phase c.layout.root = .running)
    (v : ServiceId) : (State.unlockedSources c me).count v =
      if c.phase v = .running then (c.dependencies me).count v else 0 := by
  have hedges : (((c.inEdges .externalGraph me).filter fun e =>
      (c.phase (e.source c.layout)).isRunning).map (Edge.source c.layout)).count v =
      if c.phase v = .running then
        ((c.inEdges .externalGraph me).map (Edge.source c.layout)).count v else 0 := by
    simp only [List.count, List.countP_map, List.countP_filter]
    split
    · rename_i hv
      refine List.countP_congr fun e _ => ?_
      by_cases he : e.source c.layout = v
      · simp [he, hv]
      · simp [he]
    · rename_i hv
      refine List.countP_eq_zero.2 fun e _ => ?_
      simp only [Function.comp, Bool.and_eq_true, beq_iff_eq, Phase.isRunning_iff, not_and]
      rintro rfl
      exact hv
  have himplicit : (State.implicitSource c.layout me).count v =
      if c.phase v = .running then (State.implicitSource c.layout me).count v else 0 := by
    split
    · rfl
    · rename_i hv
      refine List.count_eq_zero_of_not_mem fun hmem => ?_
      unfold State.implicitSource at hmem
      split at hmem
      · rename_i hi
        rw [List.mem_singleton.1 hmem] at hv
        exact hv (hroot hi)
      · exact absurd hmem (by simp)
  unfold State.unlockedSources dependencies
  rw [List.count_append, List.count_append, hedges, himplicit]
  split <;> rfl

/-- When the sources of the strong edges are running, locking and unlocking count the same. -/
lemma lockedSources_eq (hstrong : ∀ e ∈ c.inEdges .externalGraph me, e.isWeak = false →
    c.phase (e.source c.layout) = .running) :
    State.lockedSources c me = State.unlockedSources c me := by
  unfold State.lockedSources State.unlockedSources
  congr 2
  refine List.filter_congr fun e he => ?_
  have := hstrong e he
  cases hw : e.isWeak with
  | false => simp [this hw]
  | true => simp

namespace Balanced

/-- With no outer dependency missing, everything a cluster depends on is running. -/
lemma running_of_outer_eq_zero (hc : c.Balanced extra) (hme : me ∈ c.services)
    (h0 : c.outerDepsMissing (c.cluster me) = 0) :
    (me ≠ c.layout.root → c.phase c.layout.root = .running) ∧
      ∀ e ∈ c.edges, e.target c.layout = me → e.isWeak = false →
        c.phase (e.source c.layout) = .running := by
  obtain ⟨hh, hhead⟩ := hc.wf.cluster_mem hme
  have hspec := hc.outer_toNat hh (hc.wf.cluster_cluster hme)
  rw [h0] at hspec
  have hopen : c.openEdges (c.cluster me) = 0 := by
    unfold outerSpec at hspec
    change 0 = _ at hspec
    omega
  have hmissing : c.rootMissing (c.cluster me) = 0 := by
    unfold outerSpec at hspec
    change 0 = _ at hspec
    omega
  have hroot : me ≠ c.layout.root → c.phase c.layout.root = .running := by
    intro hne
    by_contra hnot
    unfold rootMissing at hmissing
    rw [if_neg hnot, List.countP_eq_zero] at hmissing
    exact hmissing me hme (by simp [hne])
  refine ⟨hroot, fun e he ht hw => ?_⟩
  by_contra hnot
  unfold openEdges at hopen
  rw [List.countP_eq_zero] at hopen
  have := hopen e he
  simp only [decide_eq_true_eq, Topology.clusterTarget, ht, true_and, not_and, not_not] at this
  cases e with
  | inner s => exact Topology.not_mem_edges_inner he
  | child s =>
    obtain ⟨-, -, hr⟩ := Topology.mem_edges_child.1 he
    simp only [Edge.isAwaited, bne_iff_ne] at this
    by_cases ho : (c.layout.parent s).owner = c.layout.root
    · have ht' : s = me := ht
      rw [ht'] at hr
      exact hnot ((congrArg c.phase ho).trans (hroot hr))
    · exact hnot (this ho)
  | usage u =>
    simp only [Edge.isWeak] at hw
    simp only [Edge.isAwaited, hw, Bool.not_false] at this
    exact hnot (this trivial)

end Balanced

/-! ### Locking -/

/-- A member enters `locked`, and its usages are noted. -/
def hold (c : Core) (me : ServiceId) : Core :=
  { c.transition me .stopped .locked with
    held := fun id => c.held id || c.usages.any fun u => u.id == id && u.user.owner == me }

lemma lockMember_eq (c : Core) (me : ServiceId) : c.lockMember me =
    (c.hold me).addUses fun v => (State.lockedSources (c.hold me) me).count v :=
  foldl_incUses _ _

lemma hold_moved (c : Core) (me : ServiceId) : c.Moved (c.hold me) me :=
  ⟨rfl, rfl, rfl, fun s hs => by simp [hold, transition, hs]⟩

lemma lockMember_moved (c : Core) (me : ServiceId) : c.Moved (c.lockMember me) me := by
  rw [lockMember_eq]
  exact ⟨rfl, rfl, rfl, (c.hold_moved me).phase⟩

lemma lockMember_phase (c : Core) (me : ServiceId) :
    (c.lockMember me).phase = Function.update c.phase me .locked := by
  rw [lockMember_eq]
  rfl

lemma lockMember_outer (c : Core) (me : ServiceId) :
    (c.lockMember me).outerDepsMissing = c.outerDepsMissing := by
  rw [lockMember_eq]
  rfl

lemma lockMember_inner (c : Core) (me : ServiceId) :
    (c.lockMember me).innerDepsMissing = c.innerDepsMissing := by
  rw [lockMember_eq]
  rfl

/-- The sources of edges are in other clusters than their targets. -/
lemma Balanced.source_ne (hc : c.Balanced extra) {e : Edge} (he : e ∈ c.edges) :
    e.source c.layout ≠ e.target c.layout := fun heq =>
  hc.wf.clusterSource_ne he (congrArg c.cluster heq)

lemma mem_inEdges (hc : c.WellFormed) (hme : me ∈ c.services) {e : Edge} :
    e ∈ c.inEdges .externalGraph me ↔ e ∈ c.edges ∧ e.target c.layout = me := by
  rw [(hc.inEdges_external_perm hme).mem_iff]
  simp

/-- What a service that is locked needs is running. -/
lemma Balanced.lockMember_ordered (hc : c.Balanced extra) (hme : me ∈ c.services)
    (hp : c.phase me = .stopped) (h0 : c.outerDepsMissing (c.cluster me) = 0) :
    (c.lockMember me).Ordered := by
  have hm := c.lockMember_moved me
  obtain ⟨hroot, hstrong⟩ := hc.running_of_outer_eq_zero hme h0
  have hme' : (c.lockMember me).phase me = .locked := by simp [lockMember_phase]
  refine ⟨?_, ?_, ?_⟩
  · intro s hs hsr hl
    rw [hm.topology] at hs hsr ⊢
    by_cases hsm : s = me
    · subst hsm
      rw [hm.phase _ (Ne.symm hsr)]
      exact hroot hsr
    · rw [hm.phase s hsm] at hl
      have := hc.root_running s hs hsr hl
      by_cases hrm : c.layout.root = me
      · rw [hrm, hp] at this
        exact absurd this (by decide)
      · rwa [hm.phase _ hrm]
  · -- the ends of an edge differ, and only the target is locked
    intro e he hh hl
    rw [hm.topology] at he hl ⊢
    have hne := hc.source_ne he
    by_cases ht : e.target c.layout = me
    · rw [ht] at hne
      rw [hm.phase _ hne]
      refine hstrong e he ht ?_
      cases e with
      | inner s => rfl
      | child s => rfl
      | usage u =>
        simp only [isHeld, Bool.and_eq_true, Bool.not_eq_true'] at hh
        exact hh.1
    · rw [hm.phase _ ht] at hl
      have hh' : c.isHeld e = true := by
        cases e with
        | inner s => exact hh
        | child s => exact hh
        | usage u =>
          -- the edge is held as before, since the usages of another service are kept
          have hany : (c.usages.any fun w => w.id == u.id && w.user.owner == me) = false := by
            rw [List.any_eq_false]
            intro w hw
            simp only [Bool.and_eq_true, beq_iff_eq, not_and]
            intro hid
            have : w = u := List.inj_on_of_nodup_map hc.wf.usages_nodup hw
              (Topology.mem_edges_usage.1 he) hid
            rw [this]
            exact ht
          rw [lockMember_eq] at hh
          simpa [isHeld, addUses, hold, hany] using hh
      have := hc.held_running e he hh' hl
      have hsm : e.source c.layout ≠ me := by
        intro heq
        rw [heq, hp] at this
        exact absurd this (by decide)
      rwa [hm.phase _ hsm]
  · -- a member above would have to run, and the service was stopped
    intro s hs hmem ha
    rw [hm.topology] at hs hmem ha
    rw [hm.all (f := Phase.isActive) (by rw [hme', hp]; rfl)] at ha
    have := hc.members_running s hs hmem ha
    have hsm : s ≠ me := by
      rintro rfl
      rw [hp] at this
      exact absurd this (by decide)
    rwa [hm.phase s hsm]

/-- The dependencies of a service that is locked count it as a user. -/
lemma Balanced.lockMember_counted (hc : c.Balanced extra) (hme : me ∈ c.services)
    (hp : c.phase me = .stopped) (h0 : c.outerDepsMissing (c.cluster me) = 0) :
    (c.lockMember me).Counted extra := by
  have hm := c.lockMember_moved me
  obtain ⟨hroot, hstrong⟩ := hc.running_of_outer_eq_zero hme h0
  have hme' : (c.lockMember me).phase me = .locked := by simp [lockMember_phase]
  have hrun : (c.lockMember me).phase me = .running ↔ c.phase me = .running := by
    simp [hme', hp]
  have himplicit : c.layout.hasImplicitRootEdge me = true →
      (c.hold me).phase c.layout.root = .running := by
    intro hi
    have hne : me ≠ c.layout.root := by
      rintro rfl
      simp [Layout.hasImplicitRootEdge] at hi
    rw [(c.hold_moved me).phase _ (Ne.symm hne), hroot hne]
  -- the uses are taken on what runs; a strong dependency does
  have hsources : ∀ v, (State.lockedSources (c.hold me) me).count v =
      if (c.hold me).phase v = .running then (c.dependencies me).count v else 0 := by
    intro v
    rw [lockedSources_eq, count_unlockedSources himplicit]
    · rfl
    · intro e he hw
      obtain ⟨he, ht⟩ := (mem_inEdges hc.wf hme).1 he
      have hne : e.source c.layout ≠ me := fun heq => hc.source_ne he (heq.trans ht.symm)
      exact ((c.hold_moved me).phase _ hne).trans (hstrong e he ht hw)
  have huses : ∀ v, (c.lockMember me).uses v = c.uses v + .ofNat
      (if (c.lockMember me).phase v = .running then (c.dependencies me).count v else 0) := by
    intro v
    rw [lockMember_eq]
    simp only [addUses, hsources]
    rfl
  refine ⟨?_, ?_, ?_, ?_, ?_⟩
  · intro s hs
    rw [lockMember_inner, hm.innerSpec_eq hrun]
    exact hc.inner_eq s (hm.topology ▸ hs)
  · intro h hh hhh
    rw [lockMember_outer, hm.outerSpec_eq hrun]
    rw [hm.topology] at hh hhh
    exact hc.outer_eq h hh hhh
  · intro v
    rw [huses, hc.uses_eq v, ← UInt32.ofNat_add]
    refine congrArg UInt32.ofNat ?_
    split
    · -- a running service gains the service that is locked as a user
      rename_i hr
      have hvm : v ≠ me := by
        rintro rfl
        rw [hme'] at hr
        exact absurd hr (by decide)
      have hr' : c.phase v = .running := (hm.phase v hvm).symm.trans hr
      have hact := hm.all (f := Phase.isActive) (by rw [hme', hp]; rfl)
      rw [usesSpec_running hr, usesSpec_running hr', parentUse_congr hm.topology hact,
        hm.externalUsers_add hc.wf hme (by rw [hp]; rfl) (by rw [hme']; rfl), hm.handles]
      omega
    · -- what does not run is not used by others
      rename_i hr
      by_cases hvm : v = me
      · subst hvm
        rw [usesSpec_eq_zero (by simp [hp]) (by simp [hp]),
          usesSpec_eq_zero (by simp [hme']) (by simp [hme'])]
      · rw [hm.phase v hvm] at hr
        rw [usesSpec_congr (hm.phase v hvm) hr (by rw [hm.handles]), Nat.add_zero]
  · rw [lockMember_eq]
    exact hc.usesRanOut_eq
  · rw [lockMember_eq]
    exact hc.outerRanOut_eq

/-- Locking a member of a cluster whose dependencies are running. -/
theorem Balanced.lockMember (hc : c.Balanced extra) (hme : me ∈ c.services)
    (hp : c.phase me = .stopped) (h0 : c.outerDepsMissing (c.cluster me) = 0) :
    (c.lockMember me).Balanced extra := by
  have hme' : (c.lockMember me).phase me = .locked := by simp [lockMember_phase]
  refine hc.move (c.lockMember_moved me) (hc.lockMember_ordered hme hp h0)
    (hc.lockMember_counted hme hp h0) (by rw [hme', hp]; rfl) fun _ => ?_
  exact hc.handles_eq me (by rw [hp]; rfl)

/-! ### Leaving the phase `running` -/

namespace Balanced

/-- The use that a running service has by itself is the only one. -/
lemma unused (hc : c.Balanced extra) (hme : me ∈ c.services) (hp : c.phase me = .running)
    (hu : c.uses me = 1) :
    c.parentUse me = 0 ∧ c.lockedUsers me = 0 ∧ c.implicitUsers me = 0 ∧ c.handles me = 0 := by
  have hspec := hc.uses_toNat hme
  rw [hu, usesSpec_running hp] at hspec
  change 1 = _ at hspec
  omega

/-- No edge leads from an unused service to a locked one. -/
lemma unused_target (hc : c.Balanced extra) (hme : me ∈ c.services) (hp : c.phase me = .running)
    (hu : c.uses me = 1) {e : Edge} (he : e ∈ c.edges) (hs : e.source c.layout = me) :
    (c.phase (e.target c.layout)).isLocked = false := by
  obtain ⟨-, hlocked, -, -⟩ := hc.unused hme hp hu
  simp only [lockedUsers, List.countP_eq_zero] at hlocked
  have := hlocked e he
  simpa [hs] using this

/-- A member is not the service above it. -/
lemma parent_ne (hc : c.Balanced extra) (hs : s ∈ c.services) (hmem : c.layout.isMember s = true) :
    (c.layout.parent s).owner ≠ s := by
  refine hc.wf.toIsTree.parent_ne hs ?_
  rintro rfl
  simp at hmem

/-- The service above an unused member is not active. -/
lemma unused_parent (hc : c.Balanced extra) (hme : me ∈ c.services) (hp : c.phase me = .running)
    (hu : c.uses me = 1) (hmem : c.layout.isMember me = true) :
    (c.phase (c.layout.parent me).owner).isActive = false := by
  obtain ⟨hparent, -, -, -⟩ := hc.unused hme hp hu
  simpa [parentUse, hmem] using hparent

/-- Nothing is locked while the root is unused. -/
lemma unused_root (hc : c.Balanced extra) (hp : c.phase c.layout.root = .running)
    (hu : c.uses c.layout.root = 1) (hs : s ∈ c.services) (hsr : s ≠ c.layout.root) :
    (c.phase s).isLocked = false := by
  by_cases ho : (c.layout.parent s).owner = c.layout.root
  · -- children of the root hang on an export
    have hhead : c.layout.isClusterHead s = true := by
      have hpart := hc.wf.parent_parts hs hsr
      rw [ho] at hpart
      exact c.layout.root_parts hpart
    have he : .child s ∈ c.edges := Topology.mem_edges_child.2 ⟨hs, hhead, hsr⟩
    exact hc.unused_target hc.wf.root_mem hp hu he ho
  · obtain ⟨-, -, himplicit, -⟩ := hc.unused hc.wf.root_mem hp hu
    simp only [implicitUsers, List.countP_eq_zero] at himplicit
    have := himplicit s hs
    simpa [Layout.hasImplicitRootEdge, hsr, ho] using this

/-- A service that is locked already moves on. It may start when the members below it run, and
stop when it has no use left. -/
theorem ordered_move (hc : c.Balanced extra) (hm : c.Moved c' me) (hme : me ∈ c.services)
    (hheld : c'.held = c.held)
    (hlock : (c'.phase me).isLocked = true → (c.phase me).isLocked = true)
    (hactive : (c'.phase me).isActive = true → (c.phase me).isActive = true ∨ c.innerSpec me = 0)
    (hstop : c.phase me = .running → c'.phase me = .running ∨ c.uses me = 1) : c'.Ordered := by
  have hlocked : ∀ s, (c'.phase s).isLocked = true → (c.phase s).isLocked = true := by
    intro s hs
    by_cases hsm : s = me
    · subst hsm
      exact hlock hs
    · rwa [← hm.phase s hsm]
  -- whoever ran before still runs, unless it is `me` and has no use left
  have hrunning : ∀ s, c.phase s = .running → (s = me → c.uses me = 1 → False) →
      c'.phase s = .running := by
    intro s hs hne
    by_cases hsm : s = me
    · subst hsm
      exact (hstop hs).resolve_right (hne rfl)
    · rwa [hm.phase s hsm]
  refine ⟨?_, ?_, ?_⟩
  · intro s hs hsr hl
    rw [hm.topology] at hs hsr ⊢
    have hr := hc.root_running s hs hsr (hlocked s hl)
    refine hrunning _ hr fun hrm hu => ?_
    subst hrm
    have := hc.unused_root hr hu hs hsr
    rw [hlocked s hl] at this
    exact absurd this (by decide)
  · intro e he hh hl
    rw [hm.topology] at he hl ⊢
    have hh' : c.isHeld e = true := by
      cases e with
      | inner s => exact hh
      | child s => exact hh
      | usage u => simpa [isHeld, hheld] using hh
    have hr := hc.held_running e he hh' (hlocked _ hl)
    refine hrunning _ hr fun hsm hu => ?_
    have := hc.unused_target hme (hsm ▸ hr) hu he hsm
    rw [hlocked _ hl] at this
    exact absurd this (by decide)
  · intro s hs hmem ha
    rw [hm.topology] at hs hmem ha
    have hr : c.phase s = .running := by
      by_cases hpm : (c.layout.parent s).owner = me
      · rw [hpm] at ha
        refine (hactive ha).elim (fun ha => hc.members_running s hs hmem (hpm ▸ ha)) fun h0 => ?_
        simp only [innerSpec, List.countP_eq_zero] at h0
        simpa [hmem, hpm] using h0 s hs
      · rw [hm.phase _ hpm] at ha
        exact hc.members_running s hs hmem ha
    refine hrunning _ hr fun hsm hu => ?_
    subst hsm
    have := hc.unused_parent hs hr hu hmem
    rw [hm.phase _ (hc.parent_ne hs hmem), this] at ha
    exact absurd ha (by decide)

end Balanced

/-! ### Starting -/

lemma startMember_eq (c : Core) (me : ServiceId) : c.startMember me =
    ((c.transition me .locked .starting).incUses me).addUses
      fun v => (c.innerDependencies me).count v :=
  foldl_incUses _ _

lemma startMember_moved (c : Core) (me : ServiceId) : c.Moved (c.startMember me) me := by
  rw [startMember_eq]
  exact ⟨rfl, rfl, rfl, fun s hs => by simp [addUses, incUses, transition, hs]⟩

lemma startMember_phase (c : Core) (me : ServiceId) :
    (c.startMember me).phase = Function.update c.phase me .starting := by
  rw [startMember_eq]
  rfl

lemma Balanced.startMember_counted (hc : c.Balanced extra) (hme : me ∈ c.services)
    (hp : c.phase me = .locked) (h0 : c.innerSpec me = 0) : (c.startMember me).Counted extra := by
  have hm := c.startMember_moved me
  have hme' : (c.startMember me).phase me = .starting := by simp [startMember_phase]
  have hrun : (c.startMember me).phase me = .running ↔ c.phase me = .running := by
    simp [hme', hp]
  have hlock := hm.all (f := Phase.isLocked) (by rw [hme', hp]; rfl)
  have huses : ∀ v, (c.startMember me).uses v =
      Function.update c.uses me (c.uses me + 1) v + .ofNat ((c.innerDependencies me).count v) := by
    intro v
    rw [startMember_eq]
    rfl
  refine ⟨?_, ?_, ?_, ?_, ?_⟩
  · intro s hs
    rw [hm.innerSpec_eq hrun, startMember_eq]
    exact hc.inner_eq s (hm.topology ▸ hs)
  · intro h hh hhh
    rw [hm.topology] at hh hhh
    rw [hm.outerSpec_eq hrun, startMember_eq]
    exact hc.outer_eq h hh hhh
  · intro v
    rw [huses]
    by_cases hvm : v = me
    · -- the service gets its own use, and is not below itself
      subst hvm
      have hcount : (c.innerDependencies v).count v = 0 := by
        rw [count_innerDependencies hc.wf hme, if_neg fun h => hc.parent_ne hme h.1 h.2]
      have hhandles : c.handles v = 0 := hc.handles_eq v (by rw [hp]; rfl)
      rw [Function.update_self, hcount, hc.uses_eq v, usesSpec_starting hme', hm.handles,
        hhandles, usesSpec_eq_zero (by simp [hp]) (by simp [hp])]
      rfl
    · rw [Function.update_of_ne hvm, hc.uses_eq v, ← UInt32.ofNat_add]
      refine congrArg UInt32.ofNat ?_
      have hphase := hm.phase v hvm
      by_cases hr : c.phase v = .running
      · have hv : v ∈ c.services := (hc.initialized v).2 (by rw [hr]; rfl)
        rw [usesSpec_running hr, usesSpec_running (hphase.trans hr),
          externalUsers_congr hm.topology hlock, hm.handles,
          hm.parentUse_add hc.wf (by rw [hp]; rfl) (by rw [hme']; rfl) hv]
        omega
      · -- the members below are running
        have hcount : (c.innerDependencies me).count v = 0 := by
          by_cases hv : v ∈ c.services
          · rw [count_innerDependencies hc.wf hv, if_neg]
            rintro ⟨hmem, ho⟩
            simp only [innerSpec, List.countP_eq_zero] at h0
            exact hr (by simpa [hmem, ho] using h0 v hv)
          · exact count_innerDependencies_of_not_mem hc.wf hv
        rw [usesSpec_congr hphase hr (by rw [hm.handles]), hcount, Nat.add_zero]
  · rw [startMember_eq]
    exact hc.usesRanOut_eq
  · rw [startMember_eq]
    exact hc.outerRanOut_eq

/-- Starting a member, once the members below it are running. -/
theorem Balanced.startMember (hc : c.Balanced extra) (hme : me ∈ c.services)
    (hp : c.phase me = .locked) (h0 : c.innerDepsMissing me = 0) :
    (c.startMember me).Balanced extra := by
  have hme' : (c.startMember me).phase me = .starting := by simp [startMember_phase]
  have hspec : c.innerSpec me = 0 := by
    have := hc.inner_toNat hme
    rw [h0] at this
    exact this.symm
  refine hc.move (c.startMember_moved me) ?_ (hc.startMember_counted hme hp hspec)
    (by rw [hme', hp]; rfl) fun hu => by rw [hme'] at hu; exact absurd hu (by decide)
  refine hc.ordered_move (c.startMember_moved me) hme (by rw [startMember_eq]; rfl)
    (fun _ => by rw [hp]; rfl) (fun _ => .inr hspec) fun hr => ?_
  rw [hp] at hr
  exact absurd hr (by decide)

/-! ### Running -/

/-- Who is locked uses a service once it runs. -/
lemma count_delayedUses (hc : c.WellFormed) (me v : ServiceId) :
    (c.delayedUses me).count v = if v = me then c.lockedUsers me else 0 := by
  have hlength : (c.delayedUses me).length = c.lockedUsers me := by
    rw [delayedUses, List.length_map, ← List.countP_eq_length_filter,
      (hc.outEdges_external_perm me).countP_eq, List.countP_filter, lockedUsers]
    refine List.countP_congr fun e _ => ?_
    by_cases he : e.source c.layout = me
    · simp [he]
    · simp [he]
  split
  · rename_i hv
    subst hv
    rw [← hlength, List.count_eq_length]
    intro x hx
    obtain ⟨-, -, rfl⟩ := List.mem_map.1 hx
    rfl
  · rename_i hv
    refine List.count_eq_zero_of_not_mem fun hmem => ?_
    obtain ⟨-, -, rfl⟩ := List.mem_map.1 hmem
    exact hv rfl

/-- What the other services are used for does not depend on a change from one locked and active
phase to an other. -/
lemma Moved.usesSpec_eq (hm : c.Moved c' me)
    (hlock : (c'.phase me).isLocked = (c.phase me).isLocked)
    (hactive : (c'.phase me).isActive = (c.phase me).isActive) (hv : v ≠ me) :
    c'.usesSpec v = c.usesSpec v := by
  unfold usesSpec
  rw [hm.phase v hv, parentUse_congr hm.topology (hm.all hactive),
    externalUsers_congr hm.topology (hm.all hlock), hm.handles]

/-- The counters after a service other than the root is running. -/
lemma finishStart_eq
    (hle : ∀ v ∈ (State.waiting c me).map c.cluster,
      ((State.waiting c me).map c.cluster).count v ≤ (c.outerDepsMissing v).toNat) :
    c.finishStart me = (((c.transition me .starting .running).addUses fun v =>
      ((c.transition me .starting .running).delayedUses me).count v).subInner fun v =>
        (State.innerWaiting c me).count v).subOuter fun v =>
          ((State.waiting c me).map c.cluster).count v := by
  unfold finishStart
  simp only [foldl_incUses, foldl_decInner]
  rw [foldl_decOuter]
  · rfl
  · exact hle

/-- A service that is about to run is counted as missing along its awaited edges. -/
lemma Balanced.outerSpec_eq_add_waiting (hc : c.Balanced extra) (hm : c.Moved c' me)
    (hr : me ≠ c.layout.root)
    (hn : c.phase me ≠ .running) (hy : c'.phase me = .running)
    (hfirst : ∀ p ∈ c.layout.exports me, c.FirstUsageStrong p) (h : ServiceId) :
    c.outerSpec h = c'.outerSpec h + ((State.waiting c me).map c.cluster).count h := by
  have hadd := hm.symm.outerSpec_add (hm.wf hc.wf) (by rwa [hm.topology]) hy hn
    (by rw [hm.topology]; exact hfirst) h
  unfold State.waiting at hadd ⊢
  rwa [hm.topology] at hadd

lemma transition_moved (c : Core) (me : ServiceId) (source target : Phase) :
    c.Moved (c.transition me source target) me :=
  ⟨rfl, rfl, rfl, fun s hs => by simp [transition, hs]⟩

@[simp] lemma transition_phase_self (c : Core) (me : ServiceId) (source target : Phase) :
    (c.transition me source target).phase me = target := by
  simp [transition]

/-- The clusters that wait for a service are those of initialised services. -/
lemma Balanced.mem_waiting (hc : c.Balanced extra) (hv : v ∈ (State.waiting c me).map c.cluster)
    (hfirst : ∀ p ∈ c.layout.exports me, c.FirstUsageStrong p) :
    v ∈ c.services ∧ c.cluster v = v := by
  obtain ⟨t, ht, rfl⟩ := List.mem_map.1 hv
  obtain ⟨e, he, rfl⟩ := List.mem_map.1 ht
  have he := (hc.wf.outEdges_strong_perm hfirst).mem_iff.1 he
  have htarget := hc.wf.target_mem (List.mem_filter.1 he).1
  exact ⟨(hc.wf.cluster_mem htarget).1, hc.wf.cluster_cluster htarget⟩

section FinishStart

variable (hc : c.Balanced extra) (hme : me ∈ c.services) (hr : me ≠ c.layout.root)
  (hp : c.phase me = .starting) (hfirst : ∀ p ∈ c.layout.exports me, c.FirstUsageStrong p)
include hc hr hp hfirst

lemma Balanced.finishStart_eq : c.finishStart me =
    (((c.transition me .starting .running).addUses fun v =>
      ((c.transition me .starting .running).delayedUses me).count v).subInner fun v =>
        (State.innerWaiting c me).count v).subOuter fun v =>
          ((State.waiting c me).map c.cluster).count v := by
  refine Core.finishStart_eq fun v hv => ?_
  obtain ⟨hvs, hvv⟩ := hc.mem_waiting hv hfirst
  have hspec := hc.outerSpec_eq_add_waiting (c.transition_moved me .starting .running) hr
    (by simp [hp]) (by simp) hfirst v
  rw [hc.outer_toNat hvs hvv]
  omega

lemma Balanced.finishStart_moved : c.Moved (c.finishStart me) me := by
  rw [hc.finishStart_eq hr hp hfirst]
  exact ⟨rfl, rfl, rfl, (c.transition_moved me .starting .running).phase⟩

lemma Balanced.finishStart_phase :
    (c.finishStart me).phase = Function.update c.phase me .running := by
  rw [hc.finishStart_eq hr hp hfirst]
  rfl

include hme

lemma Balanced.finishStart_uses (v : ServiceId) :
    (c.finishStart me).uses v = .ofNat ((c.finishStart me).usesSpec v) := by
  have hm := hc.finishStart_moved hr hp hfirst
  have hme' : (c.finishStart me).phase me = .running := by
    simp [hc.finishStart_phase hr hp hfirst]
  have huses : (c.finishStart me).uses v =
      c.uses v + .ofNat (if v = me then (c.finishStart me).lockedUsers me else 0) := by
    have hcount := count_delayedUses (c := c.transition me .starting .running) hc.wf me v
    rw [hc.finishStart_eq hr hp hfirst]
    simp only [subOuter, subInner, addUses, hcount]
    rfl
  rw [huses, hc.uses_eq v, ← UInt32.ofNat_add]
  refine congrArg UInt32.ofNat ?_
  by_cases hvm : v = me
  · subst hvm
    have hparent : (c.finishStart v).parentUse v = 0 := by
      unfold parentUse
      rw [if_neg]
      rintro ⟨hmem, ha⟩
      rw [hm.topology] at hmem ha
      rw [hm.phase _ (hc.parent_ne hme hmem)] at ha
      have := hc.members_running v hme hmem ha
      rw [hp] at this
      exact absurd this (by decide)
    have himplicit : (c.finishStart v).implicitUsers v = 0 := by
      unfold implicitUsers
      rw [hm.topology, List.countP_eq_zero]
      simp [hr]
    rw [if_pos rfl, usesSpec_starting hp, usesSpec_running hme', hparent, himplicit, hm.handles]
    omega
  · rw [if_neg hvm, Nat.add_zero]
    exact (hm.usesSpec_eq (by rw [hme', hp]; rfl) (by rw [hme', hp]; rfl) hvm).symm

lemma Balanced.finishStart_counted : (c.finishStart me).Counted extra := by
  have hm := hc.finishStart_moved hr hp hfirst
  have hme' : (c.finishStart me).phase me = .running := by
    simp [hc.finishStart_phase hr hp hfirst]
  have hinner : ∀ v, (c.finishStart me).innerDepsMissing v =
      c.innerDepsMissing v - .ofNat ((State.innerWaiting c me).count v) := by
    intro v
    rw [hc.finishStart_eq hr hp hfirst]
    rfl
  have houter : ∀ v, (c.finishStart me).outerDepsMissing v =
      c.outerDepsMissing v - .ofNat (((State.waiting c me).map c.cluster).count v) := by
    intro v
    rw [hc.finishStart_eq hr hp hfirst]
    rfl
  refine ⟨?_, ?_, ?_, ?_, ?_⟩
  · intro s hs
    rw [hm.topology] at hs
    have hspec := hm.symm.innerSpec_add (hm.wf hc.wf) (by rwa [hm.topology]) hme' (by simp [hp]) s
    unfold State.innerWaiting at hspec hinner
    rw [hm.topology] at hspec
    rw [hinner, hc.inner_eq s hs, hspec, UInt16.ofNat_add, UInt16.add_sub_cancel]
  · intro h hh hhh
    rw [hm.topology] at hh hhh
    have hspec := hc.outerSpec_eq_add_waiting hm hr (by simp [hp]) hme' hfirst h
    rw [houter, hc.outer_eq h hh hhh, hspec, Nat.add_right_comm, UInt16.ofNat_add,
      UInt16.add_sub_cancel]
  · exact hc.finishStart_uses hme hr hp hfirst
  · rw [hc.finishStart_eq hr hp hfirst]
    exact hc.usesRanOut_eq
  · rw [hc.finishStart_eq hr hp hfirst]
    exact hc.outerRanOut_eq

/-- A service other than the root is running. -/
theorem Balanced.finishStart : (c.finishStart me).Balanced extra := by
  have hm := hc.finishStart_moved hr hp hfirst
  have hme' : (c.finishStart me).phase me = .running := by
    simp [hc.finishStart_phase hr hp hfirst]
  refine hc.move hm ?_ (hc.finishStart_counted hme hr hp hfirst) (by rw [hme', hp]; rfl)
    fun hu => by rw [hme'] at hu; exact absurd hu (by decide)
  refine hc.ordered_move hm hme ?_ (fun _ => by rw [hp]; rfl) (fun _ => .inl (by rw [hp]; rfl))
    fun _ => .inl hme'
  rw [hc.finishStart_eq hr hp hfirst]
  rfl

end FinishStart

/-! ### The root is running -/

/-- The strong usages of the exports of the root are not counted when the root starts or stops. -/
def RootUsedWeakly (c : Topology) : Prop :=
  ∀ u ∈ c.usages, u.used.owner = c.layout.root → u.weak = true

section FinishStartRoot

variable (hc : c.Balanced extra) (hp : c.phase c.layout.root = .starting)
  (hweak : RootUsedWeakly c.toTopology)
include hc hp hweak

lemma Balanced.outerSpec_eq_add_services (hm : c.Moved c' c.layout.root)
    (hy : c'.phase c.layout.root = .running) (h : ServiceId) :
    c.outerSpec h = c'.outerSpec h + (c.transitiveServices.tail.map c.cluster).count h := by
  have hadd := hm.symm.outerSpec_add_root (hm.wf hc.wf) (by rw [hm.topology]) hy (by simp [hp])
    (by rw [hm.topology]; exact hweak) h
  rwa [hm.topology] at hadd

lemma Balanced.finishStartRoot_eq : c.finishStartRoot =
    ((c.transition c.layout.root .starting .running).addUses fun v =>
      ((c.transition c.layout.root .starting .running).delayedUses c.layout.root).count v).subOuter
        fun v => (c.transitiveServices.tail.map c.cluster).count v := by
  unfold finishStartRoot
  simp only [foldl_incUses]
  rw [foldl_decOuter]
  · rfl
  · intro v hv
    obtain ⟨s, hs, rfl⟩ := List.mem_map.1 hv
    have hs := List.mem_of_mem_erase (hc.wf.transitiveServices_tail_perm.mem_iff.1 hs)
    have hspec := hc.outerSpec_eq_add_services hp hweak
      (c.transition_moved c.layout.root .starting .running) (by simp) (c.cluster s)
    have hnat := hc.outer_toNat (hc.wf.cluster_mem hs).1 (hc.wf.cluster_cluster hs)
    change (c.transitiveServices.tail.map c.cluster).count (c.cluster s) ≤
      (c.outerDepsMissing (c.cluster s)).toNat
    omega

lemma Balanced.finishStartRoot_moved : c.Moved c.finishStartRoot c.layout.root := by
  rw [hc.finishStartRoot_eq hp hweak]
  exact ⟨rfl, rfl, rfl, (c.transition_moved c.layout.root .starting .running).phase⟩

lemma Balanced.finishStartRoot_phase :
    c.finishStartRoot.phase = Function.update c.phase c.layout.root .running := by
  rw [hc.finishStartRoot_eq hp hweak]
  rfl

lemma Balanced.finishStartRoot_counted : c.finishStartRoot.Counted extra := by
  have hm := hc.finishStartRoot_moved hp hweak
  have hme' : c.finishStartRoot.phase c.layout.root = .running := by
    simp [hc.finishStartRoot_phase hp hweak]
  have houter : ∀ v, c.finishStartRoot.outerDepsMissing v =
      c.outerDepsMissing v - .ofNat ((c.transitiveServices.tail.map c.cluster).count v) := by
    intro v
    rw [hc.finishStartRoot_eq hp hweak]
    rfl
  have huses : ∀ v, c.finishStartRoot.uses v = c.uses v +
      .ofNat (if v = c.layout.root then c.finishStartRoot.lockedUsers c.layout.root else 0) := by
    intro v
    have hcount := count_delayedUses (c := c.transition c.layout.root .starting .running) hc.wf
      c.layout.root v
    rw [hc.finishStartRoot_eq hp hweak]
    simp only [subOuter, addUses, hcount]
    rfl
  refine ⟨?_, ?_, ?_, ?_, ?_⟩
  · -- no member waits for the head of its cluster
    intro s hs
    rw [hm.topology] at hs
    have hspec := hm.symm.innerSpec_add (hm.wf hc.wf) (by rw [hm.topology]; exact hc.wf.root_mem)
      hme' (by simp [hp]) s
    have hnone : (State.innerWaiting c.finishStartRoot c.layout.root).count s = 0 := by
      unfold State.innerWaiting
      rw [Topology.outEdges_cluster, hm.topology]
      simp
    have hinner : c.finishStartRoot.innerDepsMissing s = c.innerDepsMissing s := by
      rw [hc.finishStartRoot_eq hp hweak]
      rfl
    rw [hinner, hc.inner_eq s hs, hspec, hnone, Nat.add_zero]
  · -- each head below waited for the root once per service of its cluster
    intro h hh hhh
    rw [hm.topology] at hh hhh
    have hspec := hc.outerSpec_eq_add_services hp hweak hm hme' h
    rw [houter, hc.outer_eq h hh hhh, hspec, Nat.add_right_comm, UInt16.ofNat_add,
      UInt16.add_sub_cancel]
  · intro v
    rw [huses, hc.uses_eq v, ← UInt32.ofNat_add]
    refine congrArg UInt32.ofNat ?_
    by_cases hvr : v = c.layout.root
    · -- nothing else was locked while the root was not running
      subst hvr
      have hparent : c.finishStartRoot.parentUse c.layout.root = 0 := by
        simp [parentUse, hm.topology]
      have himplicit : c.finishStartRoot.implicitUsers c.layout.root = 0 := by
        unfold implicitUsers
        rw [hm.topology, List.countP_eq_zero]
        intro s hs
        simp only [decide_eq_true_eq]
        rintro ⟨⟨hi, -⟩, hl⟩
        have hsr : s ≠ c.layout.root := by
          rintro rfl
          simp [Layout.hasImplicitRootEdge] at hi
        rw [hm.phase s hsr] at hl
        have := hc.root_running s hs hsr hl
        rw [hp] at this
        exact absurd this (by decide)
      rw [if_pos rfl, usesSpec_starting hp, usesSpec_running hme', hparent, himplicit, hm.handles]
      omega
    · -- what the others use does not change
      rw [if_neg hvr, Nat.add_zero]
      exact (hm.usesSpec_eq (by rw [hme', hp]; rfl) (by rw [hme', hp]; rfl) hvr).symm
  · rw [hc.finishStartRoot_eq hp hweak]
    exact hc.usesRanOut_eq
  · rw [hc.finishStartRoot_eq hp hweak]
    exact hc.outerRanOut_eq

/-- The root is running. -/
theorem Balanced.finishStartRoot : c.finishStartRoot.Balanced extra := by
  have hm := hc.finishStartRoot_moved hp hweak
  have hme' : c.finishStartRoot.phase c.layout.root = .running := by
    simp [hc.finishStartRoot_phase hp hweak]
  refine hc.move hm ?_ (hc.finishStartRoot_counted hp hweak) (by rw [hme', hp]; rfl)
    fun hu => by rw [hme'] at hu; exact absurd hu (by decide)
  refine hc.ordered_move hm hc.wf.root_mem ?_ (fun _ => by rw [hp]; rfl)
    (fun _ => .inl (by rw [hp]; rfl)) fun _ => .inl hme'
  rw [hc.finishStartRoot_eq hp hweak]
  rfl

end FinishStartRoot

/-! ### Stopping -/

lemma setStopping_moved (c : Core) (me : ServiceId) : c.Moved (c.setStopping me) me :=
  ⟨rfl, rfl, rfl, (c.transition_moved me .running .stopping).phase⟩

lemma beginStop_eq (c : Core) (me : ServiceId) : c.beginStop me =
    ((c.setStopping me).addInner fun v => (State.innerWaiting c me).count v).addOuter fun v =>
      ((State.waiting c me).map c.cluster).count v := by
  unfold beginStop
  simp only [foldl_incInner, foldl_incOuter]
  rfl

lemma beginStopRoot_eq (c : Core) : c.beginStopRoot =
    (c.setStopping c.layout.root).addOuter fun v =>
      (c.transitiveServices.tail.map c.cluster).count v := by
  unfold beginStopRoot
  simp only [foldl_incOuter]
  rfl

lemma beginStop_moved (c : Core) (me : ServiceId) : c.Moved (c.beginStop me) me := by
  rw [beginStop_eq]
  exact ⟨rfl, rfl, rfl, (c.setStopping_moved me).phase⟩

lemma beginStopRoot_moved (c : Core) : c.Moved c.beginStopRoot c.layout.root := by
  rw [beginStopRoot_eq]
  exact ⟨rfl, rfl, rfl, (c.setStopping_moved c.layout.root).phase⟩

/-- Whoever stops loses its own use, which was the only one. -/
lemma Balanced.stopping_uses (hc : c.Balanced extra) (hm : c.Moved c' me)
    (hp : c.phase me = .running) (hme' : c'.phase me = .stopping)
    (huses : c'.uses = Function.update c.uses me 0) (v : ServiceId) :
    c'.uses v = .ofNat (c'.usesSpec v) := by
  rw [huses]
  by_cases hvm : v = me
  · subst hvm
    rw [Function.update_self, usesSpec_eq_zero (by simp [hme']) (by simp [hme'])]
    rfl
  · rw [Function.update_of_ne hvm, hc.uses_eq v]
    rw [hm.usesSpec_eq (by rw [hme', hp]; rfl) (by rw [hme', hp]; rfl) hvm]

/-- A service without uses is stopping. -/
lemma Balanced.stopping (hc : c.Balanced extra) (hm : c.Moved c' me) (hme : me ∈ c.services)
    (hp : c.phase me = .running) (hu : c.uses me = 1) (hme' : c'.phase me = .stopping)
    (hheld : c'.held = c.held) (hcount : c'.Counted extra) : c'.Balanced extra := by
  refine hc.move hm ?_ hcount (by rw [hme', hp]; rfl) fun _ => (hc.unused hme hp hu).2.2.2
  exact hc.ordered_move hm hme hheld (fun _ => by rw [hp]; rfl) (fun _ => .inl (by rw [hp]; rfl))
    fun _ => .inr hu

/-- A service other than the root is stopping. -/
theorem Balanced.beginStop (hc : c.Balanced extra) (hme : me ∈ c.services)
    (hr : me ≠ c.layout.root) (hp : c.phase me = .running) (hu : c.uses me = 1)
    (hfirst : ∀ p ∈ c.layout.exports me, c.FirstUsageStrong p) :
    (c.beginStop me).Balanced extra := by
  have hm := c.beginStop_moved me
  have hme' : (c.beginStop me).phase me = .stopping := by
    rw [beginStop_eq]
    exact c.transition_phase_self me .running .stopping
  refine hc.stopping hm hme hp hu hme' (by rw [beginStop_eq]; rfl) ⟨?_, ?_, ?_, ?_, ?_⟩
  · intro s hs
    rw [hm.topology] at hs
    rw [hm.innerSpec_add hc.wf hme hp (by simp [hme']), UInt16.ofNat_add, ← hc.inner_eq s hs,
      beginStop_eq]
    rfl
  · intro h hh hhh
    rw [hm.topology] at hh hhh
    rw [hm.outerSpec_add hc.wf hr hp (by simp [hme']) hfirst, Nat.add_right_comm,
      UInt16.ofNat_add, ← hc.outer_eq h hh hhh, beginStop_eq]
    rfl
  · exact hc.stopping_uses hm hp hme' (by rw [beginStop_eq]; rfl)
  · rw [beginStop_eq]
    exact hc.usesRanOut_eq
  · rw [beginStop_eq]
    exact hc.outerRanOut_eq

/-- The root is stopping. -/
theorem Balanced.beginStopRoot (hc : c.Balanced extra) (hp : c.phase c.layout.root = .running)
    (hu : c.uses c.layout.root = 1) (hweak : RootUsedWeakly c.toTopology) :
    c.beginStopRoot.Balanced extra := by
  have hm := c.beginStopRoot_moved
  have hme' : c.beginStopRoot.phase c.layout.root = .stopping := by
    rw [beginStopRoot_eq]
    exact c.transition_phase_self c.layout.root .running .stopping
  refine hc.stopping hm hc.wf.root_mem hp hu hme' (by rw [beginStopRoot_eq]; rfl)
    ⟨?_, ?_, ?_, ?_, ?_⟩
  · intro s hs
    rw [hm.topology] at hs
    have hnone : (State.innerWaiting c c.layout.root).count s = 0 := by
      unfold State.innerWaiting
      rw [Topology.outEdges_cluster]
      simp
    rw [hm.innerSpec_add hc.wf hc.wf.root_mem hp (by simp [hme']), hnone, Nat.add_zero,
      ← hc.inner_eq s hs, beginStopRoot_eq]
    rfl
  · intro h hh hhh
    rw [hm.topology] at hh hhh
    rw [hm.outerSpec_add_root hc.wf rfl hp (by simp [hme']) hweak, Nat.add_right_comm,
      UInt16.ofNat_add, ← hc.outer_eq h hh hhh, beginStopRoot_eq]
    rfl
  · exact hc.stopping_uses hm hp hme' (by rw [beginStopRoot_eq]; rfl)
  · rw [beginStopRoot_eq]
    exact hc.usesRanOut_eq
  · rw [beginStopRoot_eq]
    exact hc.outerRanOut_eq

/-! ### Pending -/

section PendMember

variable (hc : c.Balanced extra) (hme : me ∈ c.services) (hp : c.phase me = .stopping)
include hc hp

lemma Balanced.pendMember_eq : c.pendMember me =
    (c.subUses fun v => (c.innerDependencies me).count v).transition me .stopping .pending := by
  unfold pendMember
  rw [foldl_decUses]
  intro v hv
  have hv' : v ∈ c.services ∧ c.layout.isMember v = true ∧ (c.layout.parent v).owner = me := by
    unfold innerDependencies at hv
    rw [((hc.wf.inEdges_cluster_perm me).map _).mem_iff] at hv
    simpa [Edge.source] using hv
  -- a member below has its own use and that of the service above it
  have hr : c.phase v = .running :=
    hc.members_running v hv'.1 hv'.2.1 (by rw [hv'.2.2, hp]; rfl)
  have hparent : c.parentUse v = 1 := by
    unfold parentUse
    rw [if_pos ⟨hv'.2.1, by rw [hv'.2.2, hp]; rfl⟩]
  rw [count_innerDependencies hc.wf hv'.1, if_pos hv'.2, hc.uses_toNat hv'.1, usesSpec_running hr,
    hparent]
  omega

lemma Balanced.pendMember_moved : c.Moved (c.pendMember me) me := by
  rw [hc.pendMember_eq hp]
  exact ⟨rfl, rfl, rfl, (c.transition_moved me .stopping .pending).phase⟩

lemma Balanced.pendMember_phase :
    (c.pendMember me).phase = Function.update c.phase me .pending := by
  rw [hc.pendMember_eq hp]
  rfl

include hme

/-- A member has stopped and returns its uses of the members below it. -/
theorem Balanced.pendMember : (c.pendMember me).Balanced extra := by
  have hm := hc.pendMember_moved hp
  have hme' : (c.pendMember me).phase me = .pending := by simp [hc.pendMember_phase hp]
  have hrun : (c.pendMember me).phase me = .running ↔ c.phase me = .running := by
    simp [hme', hp]
  refine hc.move hm ?_ ⟨?_, ?_, ?_, ?_, ?_⟩ (by rw [hme', hp]; rfl)
    fun _ => hc.handles_eq me (by rw [hp]; rfl)
  · refine hc.ordered_move hm hme (by rw [hc.pendMember_eq hp]; rfl) (fun _ => by rw [hp]; rfl)
      (fun _ => .inl (by rw [hp]; rfl)) fun hr => ?_
    rw [hp] at hr
    exact absurd hr (by decide)
  · intro s hs
    rw [hm.innerSpec_eq hrun, hc.pendMember_eq hp]
    exact hc.inner_eq s (hm.topology ▸ hs)
  · intro h hh hhh
    rw [hm.topology] at hh hhh
    rw [hm.outerSpec_eq hrun, hc.pendMember_eq hp]
    exact hc.outer_eq h hh hhh
  · -- the uses that are returned are those that the specification loses
    intro v
    have huses : (c.pendMember me).uses v =
        c.uses v - .ofNat ((c.innerDependencies me).count v) := by
      rw [hc.pendMember_eq hp]
      rfl
    have hspec : c.usesSpec v =
        (c.pendMember me).usesSpec v + (c.innerDependencies me).count v := by
      by_cases hvm : v = me
      · -- the service itself had no use left
        subst hvm
        rw [usesSpec_eq_zero (by simp [hp]) (by simp [hp]),
          usesSpec_eq_zero (by simp [hme']) (by simp [hme']), count_innerDependencies hc.wf hme,
          if_neg fun h => hc.parent_ne hme h.1 h.2]
      · have hphase := hm.phase v hvm
        by_cases hr : c.phase v = .running
        · -- a running member below loses its parent as a user
          have hv : v ∈ c.services := (hc.initialized v).2 (by rw [hr]; rfl)
          have hadd := hm.symm.parentUse_add (v := v) (hm.wf hc.wf) (by rw [hme']; rfl)
            (by rw [hp]; rfl) (by rwa [hm.topology])
          have hdeps : (c.pendMember me).innerDependencies me = c.innerDependencies me := by
            unfold innerDependencies
            rw [hm.topology]
          rw [usesSpec_running hr, usesSpec_running (hphase.trans hr),
            externalUsers_congr hm.topology (hm.all (by rw [hme', hp]; rfl)), hm.handles, hadd,
            hdeps]
          omega
        · -- what does not run was no member below
          have hcount : (c.innerDependencies me).count v = 0 := by
            by_cases hv : v ∈ c.services
            · rw [count_innerDependencies hc.wf hv, if_neg]
              rintro ⟨hmem, ho⟩
              exact hr (hc.members_running v hv hmem (by rw [ho, hp]; rfl))
            · exact count_innerDependencies_of_not_mem hc.wf hv
          rw [usesSpec_congr hphase hr (by rw [hm.handles]), hcount, Nat.add_zero]
    rw [huses, hc.uses_eq v, hspec, UInt32.ofNat_add, UInt32.add_sub_cancel]
  · rw [hc.pendMember_eq hp]
    exact hc.usesRanOut_eq
  · rw [hc.pendMember_eq hp]
    exact hc.outerRanOut_eq

end PendMember

/-! ### Unlocking -/

section UnlockMember

variable (hc : c.Balanced extra) (hme : me ∈ c.services) (hp : c.phase me = .pending)
include hc hme hp

/-- The uses that a locked service returns were counted. -/
lemma Balanced.usesSpec_eq_add_unlocked (hm : c.Moved c' me) (hme' : c'.phase me = .stopped)
    (v : ServiceId) : c.usesSpec v = c'.usesSpec v + (State.unlockedSources c me).count v := by
  have hroot : c.layout.hasImplicitRootEdge me = true → c.phase c.layout.root = .running := by
    intro hi
    refine hc.root_running me hme ?_ (by rw [hp]; rfl)
    rintro rfl
    simp [Layout.hasImplicitRootEdge] at hi
  rw [count_unlockedSources hroot]
  by_cases hvm : v = me
  · subst hvm
    rw [usesSpec_eq_zero (by simp [hp]) (by simp [hp]),
      usesSpec_eq_zero (by simp [hme']) (by simp [hme']), if_neg (by simp [hp])]
  · have hphase := hm.phase v hvm
    split
    · rename_i hr
      have hadd := hm.symm.externalUsers_add (hm.wf hc.wf) (by rwa [hm.topology])
        (by rw [hme']; rfl) (by rw [hp]; rfl) v
      have hdeps : c'.dependencies me = c.dependencies me := by
        unfold dependencies
        rw [hm.topology]
      rw [usesSpec_running hr, usesSpec_running (hphase.trans hr),
        parentUse_congr hm.topology (hm.all (by rw [hme', hp]; rfl)), hm.handles, hadd, hdeps]
      omega
    · rename_i hr
      rw [usesSpec_congr hphase hr (by rw [hm.handles]), Nat.add_zero]

lemma Balanced.unlockMember_eq : c.unlockMember me =
    (c.subUses fun v => (State.unlockedSources c me).count v).transition me .pending .stopped := by
  unfold Core.unlockMember
  rw [foldl_decUses]
  intro v hv
  have hroot : c.layout.hasImplicitRootEdge me = true → c.phase c.layout.root = .running := by
    intro hi
    refine hc.root_running me hme ?_ (by rw [hp]; rfl)
    rintro rfl
    simp [Layout.hasImplicitRootEdge] at hi
  have hpos := List.count_pos_iff.2 hv
  have hr : c.phase v = .running := by
    rw [count_unlockedSources hroot] at hpos
    by_contra hr
    rw [if_neg hr] at hpos
    exact absurd hpos (by decide)
  have hvs : v ∈ c.services := by
    rw [hc.initialized, hr]
    rfl
  have hne : v ≠ me := by
    rintro rfl
    rw [hp] at hr
    exact absurd hr (by decide)
  have hm := c.transition_moved me .pending .stopped
  have hspec := hc.usesSpec_eq_add_unlocked hme hp hm (by simp) v
  rw [usesSpec_running ((hm.phase v hne).trans hr)] at hspec
  rw [hc.uses_toNat hvs]
  omega

lemma Balanced.unlockMember_moved : c.Moved (c.unlockMember me) me := by
  rw [hc.unlockMember_eq hme hp]
  exact ⟨rfl, rfl, rfl, (c.transition_moved me .pending .stopped).phase⟩

lemma Balanced.unlockMember_phase :
    (c.unlockMember me).phase = Function.update c.phase me .stopped := by
  rw [hc.unlockMember_eq hme hp]
  rfl

/-- A member is unlocked and returns its uses of other clusters. -/
theorem Balanced.unlockMember : (c.unlockMember me).Balanced extra := by
  have hm := hc.unlockMember_moved hme hp
  have hme' : (c.unlockMember me).phase me = .stopped := by simp [hc.unlockMember_phase hme hp]
  have hrun : (c.unlockMember me).phase me = .running ↔ c.phase me = .running := by
    simp [hme', hp]
  refine hc.move hm ?_ ⟨?_, ?_, ?_, ?_, ?_⟩ (by rw [hme', hp]; rfl)
    fun _ => hc.handles_eq me (by rw [hp]; rfl)
  · refine hc.ordered_move hm hme (by rw [hc.unlockMember_eq hme hp]; rfl)
      (fun _ => by rw [hp]; rfl) (fun ha => ?_) fun hr => ?_
    · rw [hme'] at ha
      exact absurd ha (by decide)
    · rw [hp] at hr
      exact absurd hr (by decide)
  · intro s hs
    rw [hm.innerSpec_eq hrun, hc.unlockMember_eq hme hp]
    exact hc.inner_eq s (hm.topology ▸ hs)
  · intro h hh hhh
    rw [hm.topology] at hh hhh
    rw [hm.outerSpec_eq hrun, hc.unlockMember_eq hme hp]
    exact hc.outer_eq h hh hhh
  · intro v
    have huses : (c.unlockMember me).uses v =
        c.uses v - .ofNat ((State.unlockedSources c me).count v) := by
      rw [hc.unlockMember_eq hme hp]
      rfl
    rw [huses, hc.uses_eq v, hc.usesSpec_eq_add_unlocked hme hp hm hme', UInt32.ofNat_add,
      UInt32.add_sub_cancel]
  · rw [hc.unlockMember_eq hme hp]
    exact hc.usesRanOut_eq
  · rw [hc.unlockMember_eq hme hp]
    exact hc.outerRanOut_eq

end UnlockMember

end Core

end Idle
