import Idle.Core.Handlers
import Idle.Core.StartTraversal

/-!
# Reporting startable services

A counter that reaches zero reports the services that become startable, and the first report may
start the root, which reports further services. `Reports` collects what such a report may change,
so that the invariants of the queue need not look into it again.
-/

namespace Idle

/-- What a report leaves alone, up to the root. -/
structure AwayView extends Topology where
  phase : ServiceId → Phase
  innerDepsMissing : ServiceId → UInt16
  uses : ServiceId → UInt32
  isMarkedForStop : ServiceId → Bool
  isMarkedForStart : ServiceId → Bool
  pushes : ServiceId → UInt16
  posted : List Posted

/-- What a change of the root alone leaves alone. -/
structure QuietView extends AwayView where
  outerDepsMissing : ServiceId → UInt16
  pulls : ServiceId → UInt16
  up : List ServiceId
  down : List ServiceId

/-- The root has exports only. -/
lemma Layout.imports_root (L : Layout) : L.imports L.root = [] := by
  refine List.filter_eq_nil_iff.2 fun p hp => ?_
  have hexport := L.root_parts hp
  rw [Part.isExport_eq_not, Bool.not_eq_true'] at hexport
  rw [hexport]
  exact Bool.false_ne_true

/-- No edge ends at the root. -/
lemma Topology.inEdges_root (t : Topology) (f : GraphFlags) : t.inEdges f t.layout.root = [] := by
  rw [inEdges, Layout.imports_root, List.flatMap_nil, List.append_nil]
  simp

namespace State

/-- The fields with one value for the root. -/
def awayView (st : State) : AwayView where
  toTopology := st.toTopology
  phase := Function.update st.phase st.layout.root .stopped
  innerDepsMissing := st.innerDepsMissing
  uses := Function.update st.uses st.layout.root 0
  isMarkedForStop := st.isMarkedForStop
  isMarkedForStart := Function.update st.isMarkedForStart st.layout.root false
  pushes := Function.update st.pushes st.layout.root 0
  posted := st.posted

/-- A service that can be started and whose cluster shall start. -/
def Due (st : State) (s : ServiceId) : Prop :=
  st.isStartable s = true ∧ st.shallClusterStart s = true

/-- A service other than the root, with none of the members of its cluster below it. -/
structure IsLeaf (t : Topology) (s : ServiceId) : Prop where
  mem : s ∈ t.services
  ne_root : s ≠ t.layout.root
  inEdges : t.inEdges .clusterGraph s = []

variable {st st' st'' : State} {s h me : ServiceId}

/-! ### The view -/

lemma topology_of_away (hv : st'.awayView = st.awayView) : st'.toTopology = st.toTopology :=
  congrArg AwayView.toTopology hv

lemma tree_of_away (hv : st'.awayView = st.awayView) : st'.toServiceTree = st.toServiceTree :=
  congrArg (fun v => v.toTopology.toServiceTree) hv

lemma root_of_away (hv : st'.awayView = st.awayView) : st'.layout.root = st.layout.root :=
  congrArg (fun v => v.layout.root) hv

lemma phase_of_away (hv : st'.awayView = st.awayView) (hs : s ≠ st.layout.root) :
    st'.phase s = st.phase s := by
  have h : Function.update st'.phase st'.layout.root Phase.stopped s =
      Function.update st.phase st.layout.root .stopped s := congrArg (fun v => v.phase s) hv
  rwa [root_of_away hv, Function.update_of_ne hs, Function.update_of_ne hs] at h

lemma pushes_of_away (hv : st'.awayView = st.awayView) (hs : s ≠ st.layout.root) :
    st'.pushes s = st.pushes s := by
  have h : Function.update st'.pushes st'.layout.root 0 s =
      Function.update st.pushes st.layout.root 0 s := congrArg (fun v => v.pushes s) hv
  rwa [root_of_away hv, Function.update_of_ne hs, Function.update_of_ne hs] at h

lemma isMarkedForStart_of_away (hv : st'.awayView = st.awayView) (hs : s ≠ st.layout.root) :
    st'.isMarkedForStart s = st.isMarkedForStart s := by
  have h : Function.update st'.isMarkedForStart st'.layout.root false s =
      Function.update st.isMarkedForStart st.layout.root false s :=
    congrArg (fun v => v.isMarkedForStart s) hv
  rwa [root_of_away hv, Function.update_of_ne hs, Function.update_of_ne hs] at h

lemma isMarkedForStop_of_away (hv : st'.awayView = st.awayView) :
    st'.isMarkedForStop = st.isMarkedForStop :=
  congrArg AwayView.isMarkedForStop hv

lemma inner_of_away (hv : st'.awayView = st.awayView) :
    st'.innerDepsMissing = st.innerDepsMissing :=
  congrArg AwayView.innerDepsMissing hv

/-- Whether the cluster of a service shall stop does not depend on the counters of what is
missing. -/
lemma shallClusterStop_of_away (hv : st'.awayView = st.awayView)
    (hs : st.cluster s ≠ st.layout.root) : st'.shallClusterStop s = st.shallClusterStop s := by
  have hcl : st'.cluster s = st.cluster s := by rw [tree_of_away hv]
  simp only [shallClusterStop, isClusterPushed, isClusterMarkedForStop, hcl,
    isMarkedForStop_of_away hv, pushes_of_away hv hs]

lemma shallClusterStart_of_away (hv : st'.awayView = st.awayView) (hp : st'.pulls = st.pulls)
    (hs : st.cluster s ≠ st.layout.root) : st'.shallClusterStart s = st.shallClusterStart s := by
  have hcl : st'.cluster s = st.cluster s := by rw [tree_of_away hv]
  simp only [shallClusterStart, isClusterPushed, isClusterMarkedForStart, isClusterMarkedForStop,
    isClusterPulled, hcl, isMarkedForStop_of_away hv, pushes_of_away hv hs,
    isMarkedForStart_of_away hv hs, hp]

lemma shallClusterStart_congr (h : st.cluster s = st.cluster me) :
    st.shallClusterStart s = st.shallClusterStart me := by
  simp only [shallClusterStart, isClusterPushed, isClusterMarkedForStart, isClusterMarkedForStop,
    isClusterPulled, h]

/-! ### What a report changes -/

/-- Nothing happens to the root. -/
structure RootSame (st st' : State) : Prop where
  phase : st'.phase st.layout.root = st.phase st.layout.root
  uses : st'.uses st.layout.root = st.uses st.layout.root
  pushes : st'.pushes st.layout.root = st.pushes st.layout.root
  down : st'.down = st.down

/-- The root is started outside of the queue. -/
structure RootStarts (st st' : State) : Prop where
  before : st.phase st.layout.root ≠ .running
  after : st'.phase st.layout.root = .running
  down_mono : ∀ s ∈ st.down, s ∈ st'.down
  down_new : ∀ s ∈ st'.down, s ∈ st.down ∨ s = st.layout.root
  down_nodup : st.down.Nodup → st'.down.Nodup
  stoppable : st'.shallClusterStop st.layout.root = true → st.layout.root ∈ st'.down

/-- What may change when the counters of missing dependencies and of pulls fall: services enter
`up_`, and the root may be started. -/
structure Stirs (st st' : State) : Prop where
  away : st'.awayView = st.awayView
  root : RootSame st st' ∨ RootStarts st st'
  up_mono : ∀ s ∈ st.up, s ∈ st'.up
  up_new : ∀ s ∈ st'.up, s ∈ st.up ∨ s = st.layout.root ∨ st'.phase s = .locked ∨
    st'.phase s = .stopped
  up_nodup : st.up.Nodup → st'.up.Nodup

/-- Every leaf that can be started after that is among them. -/
structure Frees (st st' : State) : Prop extends Stirs st st' where
  due : ∀ s, IsLeaf st.toTopology s → st'.Due s → st.Due s ∨ s ∈ st'.up

/-- What may change when services are reported as startable. -/
structure Reports (st st' : State) : Prop extends Frees st st' where
  pulls : st'.pulls = st.pulls

lemma RootSame.refl (st : State) : RootSame st st := ⟨rfl, rfl, rfl, rfl⟩

lemma RootSame.shallClusterStop (h : RootSame st st') (hv : st'.awayView = st.awayView) :
    st'.shallClusterStop st.layout.root = st.shallClusterStop st.layout.root := by
  by_cases hcl : st.cluster st.layout.root = st.layout.root
  · have hcl' : st'.cluster st.layout.root = st.layout.root := by
      rw [tree_of_away hv]
      exact hcl
    simp only [State.shallClusterStop, isClusterPushed, isClusterMarkedForStop, hcl, hcl',
      isMarkedForStop_of_away hv, h.pushes]
  · exact shallClusterStop_of_away hv hcl

lemma Stirs.refl (st : State) : Stirs st st where
  away := rfl
  root := .inl (.refl st)
  up_mono _ hs := hs
  up_new _ hs := .inl hs
  up_nodup h := h

lemma Frees.refl (st : State) : Frees st st := ⟨.refl st, fun _ _ h => .inl h⟩

lemma Reports.refl (st : State) : Reports st st := ⟨.refl st, rfl⟩

lemma Stirs.phase_eq (h : Stirs st st') (hs : s ≠ st.layout.root) : st'.phase s = st.phase s :=
  phase_of_away h.away hs

/-- A running root keeps running. -/
lemma Stirs.running (h : Stirs st st') (hr : st.phase st.layout.root = .running) :
    st'.phase st.layout.root = .running := by
  rcases h.root with hroot | hroot
  · rw [hroot.phase, hr]
  · exact hroot.after

lemma Stirs.rootSame (h : Stirs st st') (hr : st.phase st.layout.root = .running) :
    RootSame st st' :=
  h.root.resolve_right fun hroot => hroot.before hr

/-- The root is started at most once. -/
lemma Stirs.root_trans (hv : st'.awayView = st.awayView)
    (h₁ : RootSame st st' ∨ RootStarts st st') (h₂ : Stirs st' st'') :
    RootSame st st'' ∨ RootStarts st st'' := by
  have hroot : st'.layout.root = st.layout.root := root_of_away hv
  rcases h₁ with hr₁ | hr₁
  · rcases h₂.root with hr₂ | hr₂
    · refine .inl ⟨?_, ?_, ?_, hr₂.down.trans hr₁.down⟩
      · exact hroot ▸ (hr₂.phase.trans (hroot ▸ hr₁.phase))
      · exact hroot ▸ (hr₂.uses.trans (hroot ▸ hr₁.uses))
      · exact hroot ▸ (hr₂.pushes.trans (hroot ▸ hr₁.pushes))
    · refine .inr ⟨?_, ?_, ?_, ?_, ?_, ?_⟩
      · exact hr₁.phase ▸ hroot ▸ hr₂.before
      · exact hroot ▸ hr₂.after
      · exact hr₁.down ▸ hr₂.down_mono
      · exact hr₁.down ▸ hroot ▸ hr₂.down_new
      · exact hr₁.down ▸ hr₂.down_nodup
      · exact hroot ▸ hr₂.stoppable
  · have hr₂ : RootSame st' st'' := h₂.rootSame (hroot ▸ hr₁.after)
    refine .inr ⟨hr₁.before, ?_, ?_, ?_, ?_, ?_⟩
    · exact (hroot ▸ hr₂.phase).trans hr₁.after
    · exact hr₂.down ▸ hr₁.down_mono
    · exact hr₂.down ▸ hr₁.down_new
    · exact hr₂.down ▸ hr₁.down_nodup
    · intro hstop
      rw [hr₂.down]
      refine hr₁.stoppable ?_
      rw [← hroot] at hstop ⊢
      rwa [← hr₂.shallClusterStop h₂.away]

lemma Stirs.trans (h₁ : Stirs st st') (h₂ : Stirs st' st'') : Stirs st st'' where
  away := h₂.away.trans h₁.away
  root := Stirs.root_trans h₁.away h₁.root h₂
  up_mono s hs := h₂.up_mono s (h₁.up_mono s hs)
  up_new := by
    intro s hs
    have hroot : st'.layout.root = st.layout.root := root_of_away h₁.away
    rcases h₂.up_new s hs with hs | hs | hp
    · rcases h₁.up_new s hs with hs | hs | hp
      · exact .inl hs
      · exact .inr (.inl hs)
      · by_cases hr : s = st.layout.root
        · exact .inr (.inl hr)
        · rw [h₂.phase_eq (hroot ▸ hr)]
          exact .inr (.inr hp)
    · exact .inr (.inl (hroot ▸ hs))
    · exact .inr (.inr hp)
  up_nodup h := h₂.up_nodup (h₁.up_nodup h)

lemma Frees.trans (h₁ : Frees st st') (h₂ : Frees st' st'') : Frees st st'' where
  toStirs := h₁.toStirs.trans h₂.toStirs
  due := by
    intro s hs hdue
    rcases h₂.due s (topology_of_away h₁.away ▸ hs) hdue with hdue | hmem
    · exact (h₁.due s hs hdue).imp_right (h₂.up_mono s)
    · exact .inr hmem

lemma Reports.trans (h₁ : Reports st st') (h₂ : Reports st' st'') : Reports st st'' :=
  ⟨h₁.toFrees.trans h₂.toFrees, h₂.pulls.trans h₁.pulls⟩

/-! ### Checks and counters -/

lemma nodup_insertSorted {q : List ServiceId} (hq : q.Nodup) (s : ServiceId) :
    (insertSorted q s).Nodup := by
  unfold insertSorted
  split
  · exact hq
  · rename_i hs
    exact (List.perm_orderedInsert _ _ _).nodup_iff.2 (List.nodup_cons.2 ⟨hs, hq⟩)

lemma pushUp_reports (h : st.phase s = .locked ∨ st.phase s = .stopped) :
    Reports st (st.pushUp s) ∧ s ∈ (st.pushUp s).up := by
  refine ⟨⟨⟨⟨rfl, .inl ⟨rfl, rfl, rfl, rfl⟩, fun t ht => ?_, fun t ht => ?_, fun hq => ?_⟩,
    fun t _ ht => .inl ht⟩, rfl⟩, ?_⟩
  · exact mem_insertSorted.2 (.inr ht)
  · rcases mem_insertSorted.1 ht with rfl | ht
    · exact .inr (.inr h)
    · exact .inl ht
  · exact nodup_insertSorted hq s
  · exact mem_insertSorted.2 (.inl rfl)

section Startable

variable {k : State → ServiceId → State}
variable (hk : ∀ (st : State) s, st.IsTree → st.isStartable s = true →
  Reports st (k st s) ∧ s ∈ (k st s).up)
include hk

/-- By induction on the members; a leaf that can be started when its turn comes is reported. -/
lemma foldl_check_reports (l : List ServiceId) (ht : st.IsTree) :
    Reports st (l.foldl (fun st m => if st.inEdges .clusterGraph m = [] && st.isStartable m then
      k st m else st) st) ∧ ∀ s ∈ l, IsLeaf st.toTopology s →
      (l.foldl (fun st m => if st.inEdges .clusterGraph m = [] && st.isStartable m then
        k st m else st) st).Due s →
      s ∈ (l.foldl (fun st m => if st.inEdges .clusterGraph m = [] && st.isStartable m then
        k st m else st) st).up := by
  induction l generalizing st with
  | nil => exact ⟨.refl st, fun s hs => absurd hs List.not_mem_nil⟩
  | cons m l ih =>
    rw [List.foldl_cons]
    have hm : Reports st (if st.inEdges .clusterGraph m = [] && st.isStartable m then k st m
        else st) ∧ (st.inEdges .clusterGraph m = [] → st.isStartable m = true →
        m ∈ (if st.inEdges .clusterGraph m = [] && st.isStartable m then k st m else st).up) := by
      by_cases hc : (st.inEdges .clusterGraph m = [] && st.isStartable m) = true
      · rw [if_pos hc]
        have hstart : st.isStartable m = true := (Bool.and_eq_true _ _ ▸ hc).2
        obtain ⟨hrep, hmem⟩ := hk st m ht hstart
        exact ⟨hrep, fun _ _ => hmem⟩
      · rw [if_neg hc]
        refine ⟨.refl st, fun he hstart => absurd ?_ hc⟩
        simp [he, hstart]
    generalize (if st.inEdges .clusterGraph m = [] && st.isStartable m then k st m else st) = st₁
      at hm
    obtain ⟨hrep₁, hmem₁⟩ := hm
    have ht₁ : st₁.IsTree := tree_of_away hrep₁.away ▸ ht
    obtain ⟨hrep, hrest⟩ := ih ht₁
    refine ⟨hrep₁.trans hrep, fun s hs hleaf hdue => ?_⟩
    rcases List.mem_cons.1 hs with rfl | hs
    · rcases (hrep₁.trans hrep).due s hleaf hdue with hdue | hmem
      · exact hrep.up_mono s (hmem₁ hleaf.inEdges hdue.1)
      · exact hmem
    · exact hrest s hs (topology_of_away hrep₁.away ▸ hleaf) hdue

lemma checkAnyInClusterStartable_reports (ht : st.IsTree) :
    Reports st (st.checkAnyInClusterStartable k h) ∧
      (h ∈ st.services → st.cluster h = h → ∀ s, IsLeaf st.toTopology s → st.cluster s = h →
        (st.checkAnyInClusterStartable k h).Due s
          → s ∈ (st.checkAnyInClusterStartable k h).up) := by
  unfold checkAnyInClusterStartable
  by_cases hshall : st.shallClusterStart h = true
  · rw [if_pos hshall]
    obtain ⟨hrep, hmem⟩ := foldl_check_reports hk (st.clusterMembers h) ht
    refine ⟨hrep, fun hh hhh s hleaf hcl => hmem s ?_ hleaf⟩
    exact (ht.mem_clusterMembers hh hhh).2 ⟨hleaf.mem, hcl⟩
  · rw [if_neg hshall]
    refine ⟨.refl st, fun _ hhh s _ hcl hdue => absurd hdue.2 ?_⟩
    rwa [shallClusterStart_congr (hcl.trans hhh.symm)]

lemma checkInnerStartable_reports (ht : st.IsTree) :
    Reports st (st.checkInnerStartable k s) ∧
      (st.Due s → s ∈ (st.checkInnerStartable k s).up) := by
  unfold checkInnerStartable
  by_cases hdue : (st.isStartable s && st.shallClusterStart s) = true
  · rw [if_pos hdue]
    obtain ⟨hstart, hshall⟩ : st.isStartable s = true ∧ st.shallClusterStart s = true :=
      Bool.and_eq_true _ _ ▸ hdue
    obtain ⟨hrep, hmem⟩ := hk st s ht hstart
    exact ⟨hrep, fun _ => hmem⟩
  · rw [if_neg hdue]
    exact ⟨.refl st, fun h => absurd (by rw [h.1, h.2]; rfl) hdue⟩

end Startable

lemma isStartable_iff : st.isStartable s = true ↔ st.innerDepsMissing s = 0 ∧
    (st.phase s = .locked ∨ st.phase s = .stopped ∧ st.outerDepsMissing (st.cluster s) = 0) := by
  simp only [Core.isStartable, Bool.and_eq_true, Bool.or_eq_true, beq_iff_eq]

/-- A change that only moves counters, and the reports that follow it. -/
lemma Stirs.of_counters (hv : st'.awayView = st.awayView) (hr : RootSame st st')
    (hup : st'.up = st.up) (h : Stirs st' st'') : Stirs st st'' := by
  have hroot : st'.layout.root = st.layout.root := root_of_away hv
  exact ⟨h.away.trans hv, Stirs.root_trans hv (.inl hr) h, hup ▸ h.up_mono,
    hup ▸ hroot ▸ h.up_new, hup ▸ h.up_nodup⟩

lemma Frees.of_counters (hv : st'.awayView = st.awayView) (hr : RootSame st st')
    (hup : st'.up = st.up) (h : Frees st' st'')
    (hdue : ∀ s, IsLeaf st.toTopology s → st''.Due s → st'.Due s → st.Due s ∨ s ∈ st''.up) :
    Frees st st'' := by
  refine ⟨.of_counters hv hr hup h.toStirs, ?_⟩
  intro s hs hd
  rcases h.due s (topology_of_away hv ▸ hs) hd with hd' | hmem
  · exact hdue s hs hd hd'
  · exact .inr hmem

/-- A cluster is pulled once less. -/
def pullsDecremented (st : State) (h : ServiceId) : State :=
  { st with pulls := Function.update st.pulls (st.cluster h) (st.pulls (st.cluster h) - 1) }

section Startable

variable {k : State → ServiceId → State}
variable (hk : ∀ (st : State) s, st.IsTree → st.isStartable s = true →
  Reports st (k st s) ∧ s ∈ (k st s).up)
include hk

lemma onOuterRequiredDecrement_reports (ht : st.IsTree) :
    Reports st (st.onOuterRequiredDecrement k me) := by
  have hother : ∀ s, ({ st with toCore := st.toCore.decOuter me } : State).Due s →
      st.cluster s ≠ st.cluster me → st.Due s := by
    intro s hdue hcl
    refine ⟨?_, hdue.2⟩
    have hstart := isStartable_iff.1 hdue.1
    rw [isStartable_iff]
    simpa [Core.decOuter, Function.update_of_ne hcl] using hstart
  have heq : st.onOuterRequiredDecrement k me =
      if ({ st with toCore := st.toCore.decOuter me } : State).outerDepsMissing
          (({ st with toCore := st.toCore.decOuter me } : State).cluster me) == 0 then
        ({ st with toCore := st.toCore.decOuter me } : State).checkAnyInClusterStartable k
          (({ st with toCore := st.toCore.decOuter me } : State).cluster me)
      else { st with toCore := st.toCore.decOuter me } := rfl
  generalize hst₁ : ({ st with toCore := st.toCore.decOuter me } : State) = st₁ at hother heq
  rw [heq]
  have hv : st₁.awayView = st.awayView := by rw [← hst₁]; rfl
  have hsame : RootSame st st₁ := by rw [← hst₁]; exact ⟨rfl, rfl, rfl, rfl⟩
  have hup : st₁.up = st.up := by rw [← hst₁]
  have hpulls : st₁.pulls = st.pulls := by rw [← hst₁]
  have hshall : ∀ s, st₁.shallClusterStart s = st.shallClusterStart s := by
    intro s
    rw [← hst₁]
    rfl
  have htree : st₁.toServiceTree = st.toServiceTree := tree_of_away hv
  have hinner : st₁.innerDepsMissing = st.innerDepsMissing := inner_of_away hv
  have hphase : st₁.phase = st.phase := by rw [← hst₁]; rfl
  split
  · obtain ⟨hrep, hmem⟩ := checkAnyInClusterStartable_reports (h := st.cluster me) hk (htree ▸ ht)
    rw [htree] at hmem
    rw [show st₁.cluster me = st.cluster me by rw [htree]]
    refine ⟨.of_counters hv hsame hup hrep.toFrees fun s hs hd hd' => ?_, hrep.pulls.trans hpulls⟩
    by_cases hcl : st.cluster s = st.cluster me
    · have hh : st.cluster me ∈ st.services := hcl ▸ (ht.cluster_mem hs.mem).1
      have hhh : st.cluster (st.cluster me) = st.cluster me := hcl ▸ ht.cluster_cluster hs.mem
      exact .inr (hmem hh hhh s (topology_of_away hv ▸ hs) hcl hd)
    · exact .inl (hother s hd' hcl)
  · rename_i h0
    refine ⟨.of_counters hv hsame hup (.refl _) fun s hs hd _ => .inl ?_, hpulls⟩
    by_cases hcl : st.cluster s = st.cluster me
    · -- the services that are stopped still miss something
      obtain ⟨hzero, hp⟩ := isStartable_iff.1 hd.1
      refine ⟨isStartable_iff.2 ⟨hinner ▸ hzero, .inl ?_⟩, hshall s ▸ hd.2⟩
      rw [← hphase]
      refine hp.resolve_right fun hp => h0 (beq_iff_eq.2 ?_)
      rw [htree] at hp ⊢
      exact hcl ▸ hp.2
    · exact hother s hd hcl

omit hk in
lemma onClusterPullsDecrement_eq (st : State) (h : ServiceId) :
    st.onClusterPullsDecrement k h =
      if (st.pullsDecremented h).pulls (st.cluster h) == 0 then
        (st.pullsDecremented h).checkAnyInClusterStartable k h
      else st.pullsDecremented h := rfl

lemma onClusterPullsDecrement_stirs (ht : st.IsTree) :
    Stirs st (st.onClusterPullsDecrement k h) := by
  have hv : (st.pullsDecremented h).awayView = st.awayView := rfl
  have hsame : RootSame st (st.pullsDecremented h) := ⟨rfl, rfl, rfl, rfl⟩
  have ht' : (st.pullsDecremented h).IsTree := ht
  rw [onClusterPullsDecrement_eq]
  split
  · exact .of_counters hv hsame rfl (checkAnyInClusterStartable_reports hk ht').1.toStirs
  · exact .of_counters hv hsame rfl (.refl _)

end Startable

/-! ### Starting the root -/

def quietView (st : State) : QuietView where
  toAwayView := st.awayView
  outerDepsMissing := st.outerDepsMissing
  pulls := st.pulls
  up := st.up
  down := st.down

lemma away_of_quiet (hq : st'.quietView = st.quietView) : st'.awayView = st.awayView :=
  congrArg QuietView.toAwayView hq

/-- Only the root changes. -/
lemma due_of_quiet (ht : st.IsTree) (hq : st'.quietView = st.quietView)
    (hs : IsLeaf st.toTopology s) (hdue : st'.Due s) : st.Due s := by
  have hv : st'.awayView = st.awayView := away_of_quiet hq
  have hcl : st.cluster s ≠ st.layout.root := fun h => hs.ne_root ((ht.cluster_eq_root hs.mem).1 h)
  have hcl' : st'.cluster s = st.cluster s := by rw [tree_of_away hv]
  have houter : st'.outerDepsMissing = st.outerDepsMissing :=
    congrArg QuietView.outerDepsMissing hq
  refine ⟨?_, ?_⟩
  · have hstart := isStartable_iff.1 hdue.1
    rw [inner_of_away hv, phase_of_away hv hs.ne_root, houter, hcl'] at hstart
    exact isStartable_iff.2 hstart
  · rw [← shallClusterStart_of_away hv (congrArg QuietView.pulls hq) hcl]
    exact hdue.2

lemma foldl_quiet {α : Type} {f : State → α → State} {l : List α}
    (hf : ∀ st' x, x ∈ l → st'.quietView = st.quietView → (f st' x).quietView = st.quietView)
    (hq : st'.quietView = st.quietView) : (l.foldl f st').quietView = st.quietView :=
  List.foldlRecOn (motive := fun x : State => x.quietView = st.quietView) l f hq
    fun st' h x hx => hf st' x hx h

/-- The root has no in edges, so the search ends there. -/
lemma callOnClusterPushesIncrement_root_quiet (ht : st.IsTree) :
    (st.callOnClusterPushesIncrement st.layout.root none).quietView = st.quietView := by
  have hvisit : ∀ (x : State) v, v = st.layout.root → x.quietView = st.quietView →
      (pushesIncrementVisit x v).2.quietView = st.quietView := by
    rintro x v rfl hx
    have htree : x.toServiceTree = st.toServiceTree := tree_of_away (away_of_quiet hx)
    have hcl : x.cluster st.layout.root = x.layout.root := by
      rw [htree]
      exact ht.cluster_root
    rw [← hx]
    simp only [pushesIncrementVisit, quietView, awayView, hcl, Function.update_idem]
  have hedges : ∀ x : State, x.quietView = st.quietView →
      x.clusterInEdges st.layout.root = [] := by
    intro x hx
    rw [topology_of_away (away_of_quiet hx)]
    refine List.flatMap_eq_nil_iff.2 fun m hm => ?_
    obtain ⟨hm, hcl⟩ := (ht.mem_clusterMembers ht.root_mem ht.cluster_root).1 hm
    rw [(ht.cluster_eq_root hm).1 hcl]
    exact st.inEdges_root _
  unfold callOnClusterPushesIncrement
  simp only
  split
  · refine Search.dfs_keeps_on (g := pushSearch pushesIncrementVisit)
      (P := fun x : State => x.quietView = st.quietView) (R := fun v => v = st.layout.root)
      hvisit (fun _ _ h => h) ?_ rfl rfl rfl
    rintro x x' v e hx - rfl he
    have he : e ∈ x.clusterInEdges st.layout.root := he
    rw [hedges x hx] at he
    exact absurd he List.not_mem_nil
  · simp only [quietView, awayView, ht.cluster_root, Function.update_idem]

lemma setOverride_root_quiet (ht : st.IsTree) :
    (st.setOverride st.layout.root .start).quietView = st.quietView := by
  unfold setOverride
  simp only
  split
  · have ht' : ({ st with
        override := Function.update st.override (st.cluster st.layout.root) .start } :
        State).IsTree := ht
    exact callOnClusterPushesIncrement_root_quiet ht'
  · rfl

lemma onOutgoingIncrement_root_quiet (st : State) :
    (st.onOutgoingIncrement st.layout.root).quietView = st.quietView := by
  simp only [onOutgoingIncrement, Core.incUses, quietView, awayView, Function.update_idem]

lemma transition_root_quiet (st : State) (source target : Phase) :
    ({ st with toCore := st.toCore.transition st.layout.root source target } :
      State).quietView = st.quietView := by
  simp only [Core.transition, quietView, awayView, Function.update_idem]

lemma lockMember_root_quiet (st : State) :
    (st.lockMember st.layout.root).quietView = st.quietView := by
  have hflag : st.layout.hasImplicitRootEdge st.layout.root = false := by
    simp [Layout.hasImplicitRootEdge]
  unfold lockMember callOnOuterOutgoingIncrement
  simp only [Core.transition, Topology.inEdges_root, List.foldl_nil, hflag, Bool.false_eq_true,
    if_false, quietView, awayView, Function.update_idem]

lemma doStartEager_root_quiet (ht : st.IsTree) :
    (st.doStartEager st.layout.root).quietView = st.quietView := by
  have hmember : ∀ m ∈ st.clusterMembers st.layout.root, m = st.layout.root := by
    intro m hm
    obtain ⟨hm, hcl⟩ := (ht.mem_clusterMembers ht.root_mem ht.cluster_root).1 hm
    exact (ht.cluster_eq_root hm).1 hcl
  have hroot : ∀ x : State, x.quietView = st.quietView → st.layout.root = x.layout.root :=
    fun x hx => (root_of_away (away_of_quiet hx)).symm
  have hlock : (st.doLockCluster st.layout.root).quietView = st.quietView := by
    refine foldl_quiet (fun x m hm hx => ?_) (foldl_quiet (fun x m hm hx => ?_) rfl)
    · exact hx
    · rw [hmember m hm, hroot x hx, lockMember_root_quiet]
      exact hx
  have hif : (if (st.phase st.layout.root).isLocked then st
      else st.doLockCluster (st.cluster st.layout.root)).quietView = st.quietView := by
    rw [ht.cluster_root]
    split
    · rfl
    · exact hlock
  unfold doStartEager
  simp only
  generalize (if (st.phase st.layout.root).isLocked then st
    else st.doLockCluster (st.cluster st.layout.root)) = st₁ at hif
  unfold callOnInnerOutgoingIncrement
  have hnil : Topology.inEdges st₁.toTopology .clusterGraph st.layout.root = [] := by
    rw [hroot st₁ hif]
    exact st₁.inEdges_root _
  have hin : Topology.inEdges ((st₁.toCore.transition st.layout.root .locked .starting).incUses
      st.layout.root).toTopology .clusterGraph st.layout.root = [] := hnil
  rw [hin, List.foldl_nil, ← hif, hroot st₁ hif]
  simp only [Core.transition, Core.incUses, quietView, awayView, Function.update_idem]

lemma callOnOuterDelayedOutgoingIncrement_root_quiet (st : State) :
    (st.callOnOuterDelayedOutgoingIncrement st.layout.root).quietView = st.quietView := by
  refine foldl_quiet (fun x e _ hx => ?_) rfl
  have hroot : st.layout.root = x.layout.root := (root_of_away (away_of_quiet hx)).symm
  split
  · rw [hroot, onOutgoingIncrement_root_quiet]
    exact hx
  · exact hx

lemma doFinalizeCluster_root_quiet (hcl : st.cluster st.layout.root = st.layout.root) :
    (st.doFinalizeCluster st.layout.root).quietView = st.quietView := by
  unfold doFinalizeCluster transitionTargetCompleteIf doMarkClusterForStart
  split <;> simp only [completePromise, quietView, awayView, hcl, Function.update_idem]

/-- The end of `post_start_actions` of the root. -/
def settleRoot (st : State) : State :=
  if !st.shallClusterStop st.layout.root then
    if st.layout.isClusterHead st.layout.root then st.doFinalizeCluster st.layout.root else st
  else st.pushDown st.layout.root

lemma settleRoot_away (ht : st.IsTree) : st.settleRoot.awayView = st.awayView ∧
    st.settleRoot.phase = st.phase ∧ st.settleRoot.pulls = st.pulls ∧ st.settleRoot.up = st.up ∧
    (∀ s, IsLeaf st.toTopology s → st.settleRoot.Due s → st.Due s) := by
  unfold settleRoot
  split
  · split
    · have hq : (st.doFinalizeCluster st.layout.root).quietView = st.quietView :=
        doFinalizeCluster_root_quiet ht.cluster_root
      refine ⟨away_of_quiet hq, ?_, congrArg QuietView.pulls hq, congrArg QuietView.up hq,
        fun s hs => due_of_quiet ht hq hs⟩
      unfold doFinalizeCluster transitionTargetCompleteIf
      split <;> rfl
    · exact ⟨rfl, rfl, rfl, rfl, fun _ _ h => h⟩
  · exact ⟨rfl, rfl, rfl, rfl, fun _ _ h => h⟩

/-- The root is left to be stopped if it shall not run. -/
lemma settleRoot_down (ht : st.IsTree) : (∀ s ∈ st.down, s ∈ st.settleRoot.down) ∧
    (∀ s ∈ st.settleRoot.down, s ∈ st.down ∨ s = st.layout.root) ∧
    (st.down.Nodup → st.settleRoot.down.Nodup) ∧
    (st.settleRoot.shallClusterStop st.layout.root = true →
      st.layout.root ∈ st.settleRoot.down) := by
  unfold settleRoot
  split
  · rename_i hstop
    rw [Bool.not_eq_true'] at hstop
    have hfinal : (st.doFinalizeCluster st.layout.root).down = st.down :=
      congrArg QuietView.down (doFinalizeCluster_root_quiet ht.cluster_root)
    have hshall : (st.doFinalizeCluster st.layout.root).shallClusterStop st.layout.root =
        st.shallClusterStop st.layout.root := by
      unfold doFinalizeCluster transitionTargetCompleteIf
      split <;> rfl
    split
    · refine ⟨hfinal ▸ fun _ h => h, hfinal ▸ fun _ => .inl, hfinal ▸ id, fun h => ?_⟩
      rw [hshall, hstop] at h
      exact absurd h Bool.false_ne_true
    · exact ⟨fun _ h => h, fun _ => .inl, id, fun h => absurd (hstop ▸ h) Bool.false_ne_true⟩
  · refine ⟨fun s h => mem_insertSorted.2 (.inr h), fun s h => ?_, fun h => ?_, fun _ => ?_⟩
    · exact (mem_insertSorted.1 h).symm
    · exact nodup_insertSorted h _
    · exact mem_insertSorted.2 (.inl rfl)

section Startable

variable {k : State → ServiceId → State}
variable (hk : ∀ (st : State) s, st.IsTree → st.isStartable s = true →
  Reports st (k st s) ∧ s ∈ (k st s).up)
include hk

lemma callOnRequiredDecrement_root_reports (ht : st.IsTree) :
    Reports st (st.callOnRequiredDecrement k st.layout.root) := by
  have heq : st.callOnRequiredDecrement k st.layout.root =
      st.transitiveServices.tail.foldl (fun st s => st.onOuterRequiredDecrement k s) st :=
    if_neg (not_not.2 rfl)
  rw [heq]
  refine List.foldlRecOn (motive := fun x : State => Reports st x) _ _ (.refl st) fun x h s hs => ?_
  have htree : x.toServiceTree = st.toServiceTree := tree_of_away h.away
  exact h.trans (onOuterRequiredDecrement_reports hk (htree ▸ ht))

omit hk in
/-- The end of `post_start_actions` for the root. -/
lemma postStartActions_eq_settleRoot {x c : State} {r : ServiceId}
    (hc : (({ x with toCore := x.toCore.transition r .starting .running } :
      State).callOnOuterDelayedOutgoingIncrement r).callOnRequiredDecrement k r = c)
    (hr : c.layout.root = r) : x.postStartActions k r = c.settleRoot := by
  subst hr
  unfold postStartActions settleRoot
  simp only [hc]

/-- `start_root` reports what the running root lets start. -/
lemma startRoot_reports (ht : st.IsTree) (hr : st.phase st.layout.root ≠ .running) :
    Reports st (st.startRoot k) := by
  -- up to the counters of the other services, only the root changes
  have h₁ : (st.setOverride st.layout.root .start).quietView = st.quietView :=
    setOverride_root_quiet ht
  unfold startRoot
  simp only
  generalize st.setOverride st.layout.root .start = st₁ at h₁
  have hroot₁ : st₁.layout.root = st.layout.root := root_of_away (away_of_quiet h₁)
  have ht₁ : st₁.IsTree := tree_of_away (away_of_quiet h₁) ▸ ht
  have h₂ : (st₁.doStartEager st₁.layout.root).quietView = st.quietView :=
    (doStartEager_root_quiet ht₁).trans h₁
  generalize st₁.doStartEager st₁.layout.root = st₂ at h₂
  have hroot₂ : st₂.layout.root = st.layout.root := root_of_away (away_of_quiet h₂)
  have h₃ := (transition_root_quiet st₂ .starting .running).trans h₂
  have hp₃ : ({ st₂ with toCore := st₂.toCore.transition st₂.layout.root .starting .running } :
      State).phase st₂.layout.root = .running := Function.update_self ..
  generalize hst₃ : ({ st₂ with toCore := st₂.toCore.transition st₂.layout.root .starting .running
    } : State) = st₃ at h₃ hp₃
  have hroot₃ : st₃.layout.root = st.layout.root := root_of_away (away_of_quiet h₃)
  have h₄ : (st₃.callOnOuterDelayedOutgoingIncrement st₃.layout.root).quietView = st.quietView :=
    (callOnOuterDelayedOutgoingIncrement_root_quiet st₃).trans h₃
  have hp₄ : (st₃.callOnOuterDelayedOutgoingIncrement st₃.layout.root).phase st.layout.root =
      .running := by
    have hlife := callOnOuterDelayedOutgoingIncrement_life st₃ st₃.layout.root
    have hphase := congrArg (fun l => l.phase st.layout.root) hlife
    rw [hroot₂] at hp₃
    exact hphase.trans hp₃
  generalize hst₄ : st₃.callOnOuterDelayedOutgoingIncrement st₃.layout.root = st₄ at h₄ hp₄
  have hroot₄ : st₄.layout.root = st.layout.root := root_of_away (away_of_quiet h₄)
  have ht₄ : st₄.IsTree := tree_of_away (away_of_quiet h₄) ▸ ht
  have h₅ : Reports st₄ (st₄.callOnRequiredDecrement k st₄.layout.root) :=
    callOnRequiredDecrement_root_reports hk ht₄
  generalize hst₅ : st₄.callOnRequiredDecrement k st₄.layout.root = st₅ at h₅
  have hroot₅ : st₅.layout.root = st.layout.root := (root_of_away h₅.away).trans hroot₄
  have ht₅ : st₅.IsTree := tree_of_away h₅.away ▸ ht₄
  have hp₅ : st₅.phase st.layout.root = .running := by
    rw [← hroot₄] at hp₄ ⊢
    exact h₅.running hp₄
  have heq : st₂.postStartActions k st₂.layout.root = st₅.settleRoot := by
    refine postStartActions_eq_settleRoot ?_ (hroot₅.trans hroot₂.symm)
    rw [hst₃, hroot₂, ← hroot₃, hst₄, hroot₃, ← hroot₄, hst₅]
  rw [heq]
  have hv₄ : st₄.awayView = st.awayView := away_of_quiet h₄
  have hdown₅ : st₅.down = st.down :=
    (h₅.rootSame (hroot₄ ▸ hp₄)).down.trans (congrArg QuietView.down h₄)
  have hup₄ : st₄.up = st.up := congrArg QuietView.up h₄
  obtain ⟨hv₆, hp₆, hpulls₆, hup₆, hdue₆⟩ := settleRoot_away ht₅
  obtain ⟨hmono₆, hnew₆, hnodup₆, hstop₆⟩ := settleRoot_down ht₅
  rw [hdown₅] at hmono₆ hnew₆ hnodup₆
  rw [hroot₅] at hnew₆ hstop₆
  refine ⟨⟨⟨hv₆.trans (h₅.away.trans hv₄), .inr ⟨hr, ?_, hmono₆, hnew₆, hnodup₆, hstop₆⟩,
    fun s hs => ?_, fun s hs => ?_, fun hq => ?_⟩, fun s hs hdue => ?_⟩, ?_⟩
  · rw [hp₆, hp₅]
  · rw [hup₆]
    exact h₅.up_mono s (hup₄ ▸ hs)
  · rw [hup₆] at hs
    rw [hp₆, ← hroot₄, ← hup₄]
    exact h₅.up_new s hs
  · rw [hup₆]
    exact h₅.up_nodup (hup₄ ▸ hq)
  · rw [hup₆]
    have hleaf₄ : IsLeaf st₄.toTopology s := topology_of_away hv₄ ▸ hs
    have hleaf₅ : IsLeaf st₅.toTopology s := topology_of_away h₅.away ▸ hleaf₄
    exact (h₅.due s hleaf₄ (hdue₆ s hleaf₅ hdue)).imp_left (due_of_quiet ht h₄ hs)
  · exact hpulls₆.trans (h₅.pulls.trans (congrArg QuietView.pulls h₄))

end Startable

/-- `on_service_startable` pushes the service. -/
lemma onServiceStartable_reports (ht : st.IsTree) (h : st.isStartable s = true) :
    Reports st (st.onServiceStartable s) ∧ s ∈ (st.onServiceStartable s).up := by
  unfold onServiceStartable
  by_cases hr : s ≠ st.layout.root ∧ (st.phase st.layout.root).isRunning = false
  · rw [if_pos hr]
    have hrun : st.phase st.layout.root ≠ .running := fun hp => by
      rw [hp] at hr
      exact absurd hr.2 (by decide)
    have hroot : Reports st (st.startRoot pushUp) :=
      startRoot_reports (fun st s _ h => pushUp_reports (isStartable_phase h)) ht hrun
    simp only
    generalize st.startRoot pushUp = st₁ at hroot
    have hphase : st₁.phase s = .locked ∨ st₁.phase s = .stopped := by
      rw [hroot.phase_eq hr.1]
      exact isStartable_phase h
    obtain ⟨hpush, hmem⟩ := pushUp_reports hphase
    exact ⟨hroot.trans hpush, hmem⟩
  · rw [if_neg hr]
    exact pushUp_reports (isStartable_phase h)

/-! ### What a started service or a lifted pull reports -/

/-- A member that runs is not missing any more in the service above it. -/
def innerDecremented (st : State) (me : ServiceId) : State :=
  if st.layout.isMember me then
    { st with toCore := st.toCore.decInner (st.layout.parent me).owner }
  else st

/-- A cluster is not marked for stop any more. -/
def unmarked (st : State) (h : ServiceId) : State :=
  { st with isMarkedForStop := Function.update st.isMarkedForStop (st.cluster h) false }

lemma unmarked_eq_self (st : State) (hm : st.isMarkedForStop (st.cluster h) = false) :
    st.unmarked h = st := by
  unfold unmarked
  rw [← hm, Function.update_eq_self]

section Startable

variable {k : State → ServiceId → State}
variable (hk : ∀ (st : State) s, st.IsTree → st.isStartable s = true →
  Reports st (k st s) ∧ s ∈ (k st s).up)
include hk

lemma onInnerRequiredDecrement_reports (ht : st.IsTree) (me : ServiceId) :
    Reports { st with toCore := st.toCore.decInner me } (st.onInnerRequiredDecrement k me) ∧
      (({ st with toCore := st.toCore.decInner me } : State).Due me →
        me ∈ (st.onInnerRequiredDecrement k me).up) := by
  have heq : st.onInnerRequiredDecrement k me =
      if ({ st with toCore := st.toCore.decInner me } : State).innerDepsMissing me == 0 then
        ({ st with toCore := st.toCore.decInner me } : State).checkInnerStartable k me
      else { st with toCore := st.toCore.decInner me } := rfl
  have ht₁ : ({ st with toCore := st.toCore.decInner me } : State).IsTree := ht
  generalize ({ st with toCore := st.toCore.decInner me } : State) = st₁ at heq ht₁ ⊢
  rw [heq]
  split
  · exact checkInnerStartable_reports hk ht₁
  · rename_i h0
    refine ⟨.refl _, fun hdue => absurd ?_ h0⟩
    exact beq_iff_eq.2 (isStartable_iff.1 hdue.1).1

/-- A service that starts is reported within its cluster, then outside. -/
lemma callOnRequiredDecrement_reports (ht : st.IsTree) (me : ServiceId) :
    Reports (st.innerDecremented me) (st.callOnRequiredDecrement k me) ∧
      ∀ s, (st.innerDecremented me).Due s → st.isStartable s = false →
        s ∈ (st.callOnRequiredDecrement k me).up := by
  by_cases hme : me = st.layout.root
  · -- the root is no member, and its own step is a lemma above
    have hmember : st.innerDecremented me = st := by
      have hexport : st.layout.isClusterHead me = true :=
        hme ▸ ServiceTree.IsTree.root_isClusterHead
      refine if_neg fun hm => ?_
      simp only [Layout.isClusterHead, Part.isExport_eq_not, Bool.not_eq_true'] at hexport
      exact absurd (hexport.symm.trans hm) Bool.false_ne_true
    rw [hmember, hme]
    exact ⟨callOnRequiredDecrement_root_reports hk ht,
      fun s hdue hnot => absurd hdue.1 (Bool.eq_false_iff.1 hnot)⟩
  have hinner : Reports (st.innerDecremented me) ((st.outEdges .clusterGraph me).foldl
      (fun st e => st.onInnerRequiredDecrement k (e.target st.layout)) st) ∧
      ∀ s, (st.innerDecremented me).Due s → st.isStartable s = false →
        s ∈ ((st.outEdges .clusterGraph me).foldl
          (fun st e => st.onInnerRequiredDecrement k (e.target st.layout)) st).up := by
    rw [Topology.outEdges_cluster]
    unfold innerDecremented
    by_cases hm : st.layout.isMember me = true
    · rw [if_pos hm, if_pos hm]
      obtain ⟨hrep, hmem⟩ := onInnerRequiredDecrement_reports hk ht (st.layout.parent me).owner
      refine ⟨hrep, fun s hdue hnot => ?_⟩
      by_cases hs : s = (st.layout.parent me).owner
      · exact hs ▸ hmem (hs ▸ hdue)
      · -- nothing else is missing less
        refine absurd ?_ (Bool.eq_false_iff.1 hnot)
        have hstart := isStartable_iff.1 hdue.1
        rw [isStartable_iff]
        simpa [Core.decInner, Function.update_of_ne hs] using hstart
    · rw [if_neg hm, if_neg hm]
      exact ⟨.refl st, fun s hdue hnot => absurd hdue.1 (Bool.eq_false_iff.1 hnot)⟩
  have heq : st.callOnRequiredDecrement k me =
      (((st.outEdges .clusterGraph me).foldl
        (fun st e => st.onInnerRequiredDecrement k (e.target st.layout)) st).outEdges
          (.union .externalGraph .strongUsageGraph) me).foldl
        (fun st e => st.onOuterRequiredDecrement k (e.target st.layout))
        ((st.outEdges .clusterGraph me).foldl
          (fun st e => st.onInnerRequiredDecrement k (e.target st.layout)) st) := if_pos hme
  rw [heq]
  have ht₁ : (st.innerDecremented me).IsTree := by
    unfold innerDecremented
    split <;> exact ht
  generalize (st.outEdges .clusterGraph me).foldl
    (fun st e => st.onInnerRequiredDecrement k (e.target st.layout)) st = st₂ at hinner
  obtain ⟨hrep₂, hmem₂⟩ := hinner
  -- outside, the edges are followed one by one
  have hfold : Reports st₂ ((st₂.outEdges (.union .externalGraph .strongUsageGraph) me).foldl
      (fun st e => st.onOuterRequiredDecrement k (e.target st.layout)) st₂) := by
    refine List.foldlRecOn (motive := fun x : State => Reports st₂ x) _ _ (.refl st₂)
      fun x h e _ => ?_
    have htree : x.toServiceTree = (st.innerDecremented me).toServiceTree :=
      (tree_of_away h.away).trans (tree_of_away hrep₂.away)
    exact h.trans (onOuterRequiredDecrement_reports hk (htree ▸ ht₁))
  exact ⟨hrep₂.trans hfold, fun s hdue hnot => hfold.up_mono s (hmem₂ s hdue hnot)⟩

lemma callOnClusterPullsDecrement_stirs (ht : st.IsTree) :
    Stirs st (st.callOnClusterPullsDecrement k h) := by
  refine List.foldlRecOn (motive := fun x : State => Stirs st x) _ _ (.refl st) fun x hx e _ => ?_
  exact hx.trans (onClusterPullsDecrement_stirs hk (tree_of_away hx.away ▸ ht))

lemma doMarkClusterForStop_stirs (ht : st.IsTree) :
    Stirs (st.unmarked h) (st.doMarkClusterForStop k h false) := by
  have ht' : (st.unmarked h).IsTree := ht
  unfold doMarkClusterForStop
  split
  · exact callOnClusterPullsDecrement_stirs hk ht'
  · rename_i hset
    rw [st.unmarked_eq_self (by simpa using hset)]
    exact .refl st

end Startable

end State

end Idle
