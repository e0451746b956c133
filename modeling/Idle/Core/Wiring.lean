import Idle.Core.Edges
import Idle.Core.Life

/-!
# Wiring

Setting an override, marking a cluster for stop, connecting and disconnecting usages, and the
initialisation and destruction of services change the cluster graph and what is counted along its
edges. They are taken here as a machine of their own: nothing is started by them, because no
cluster is marked for start.
-/

namespace Idle

/-- What the wiring operations look at and change, up to the counters of missing dependencies. -/
structure Wires extends Topology where
  phase : ServiceId → Phase
  isMarkedForStart : ServiceId → Bool
  isMarkedForStop : ServiceId → Bool
  override : ServiceId → Override
  pushes : ServiceId → UInt16
  pulls : ServiceId → UInt16

namespace Wires

def setPushes (w : Wires) (pushes : ServiceId → UInt16) : Wires := { w with pushes := pushes }

def setPulls (w : Wires) (pulls : ServiceId → UInt16) : Wires := { w with pulls := pulls }

@[simp] lemma setPulls_setPulls (w : Wires) (p q : ServiceId → UInt16) :
    (w.setPulls p).setPulls q = w.setPulls q := rfl

end Wires

namespace State

def wires (st : State) : Wires where
  toTopology := st.toTopology
  phase := st.phase
  isMarkedForStart := st.isMarkedForStart
  isMarkedForStop := st.isMarkedForStop
  override := st.override
  pushes := st.pushes
  pulls := st.pulls

/-- No cluster is marked for start. -/
def Unmarked (st : State) : Prop := ∀ h, st.isMarkedForStart h = false

variable {st st' : State} {s me : ServiceId} {k : State → ServiceId → State}

lemma Unmarked.of_wires (hm : st.Unmarked) (h : st'.wires = st.wires) : st'.Unmarked := by
  intro v
  rw [show st'.isMarkedForStart = st.isMarkedForStart from congrArg Wires.isMarkedForStart h]
  exact hm v

/-! ### Nothing is started -/

lemma Unmarked.shallClusterStart (hm : st.Unmarked) (s : ServiceId) :
    st.shallClusterStart s = false := by
  simp [State.shallClusterStart, isClusterMarkedForStart, hm _]

lemma Unmarked.checkAnyInClusterStartable (hm : st.Unmarked) (s : ServiceId) :
    st.checkAnyInClusterStartable k s = st := by
  simp [State.checkAnyInClusterStartable, hm.shallClusterStart]

lemma Unmarked.checkInnerStartable (hm : st.Unmarked) (s : ServiceId) :
    st.checkInnerStartable k s = st := by
  simp [State.checkInnerStartable, hm.shallClusterStart]

lemma Unmarked.foldl_wires {α : Type} {f : State → α → State}
    (hf : ∀ st x, st.Unmarked → (f st x).wires = st.wires) (l : List α) (hm : st.Unmarked) :
    (l.foldl f st).wires = st.wires := by
  induction l generalizing st with
  | nil => rfl
  | cons x l ih => rw [List.foldl_cons, ih (hm.of_wires (hf st x hm)), hf st x hm]

lemma Unmarked.onOuterRequiredDecrement (hm : st.Unmarked) (s : ServiceId) :
    (st.onOuterRequiredDecrement k s).wires = st.wires := by
  have hm' : ({ st with toCore := st.toCore.decOuter s } : State).Unmarked := hm
  simp only [State.onOuterRequiredDecrement, hm'.checkAnyInClusterStartable, ite_self]
  rfl

lemma Unmarked.onInnerRequiredDecrement (hm : st.Unmarked) (s : ServiceId) :
    (st.onInnerRequiredDecrement k s).wires = st.wires := by
  have hm' : ({ st with toCore := st.toCore.decInner s } : State).Unmarked := hm
  simp only [State.onInnerRequiredDecrement, hm'.checkInnerStartable, ite_self]
  rfl

lemma Unmarked.callOnRequiredDecrement (hm : st.Unmarked) (s : ServiceId) :
    (st.callOnRequiredDecrement k s).wires = st.wires := by
  unfold State.callOnRequiredDecrement
  split
  · have hinner := foldl_wires
      (fun st (e : Edge) hm => hm.onInnerRequiredDecrement (k := k) (e.target st.layout))
      (st.outEdges .clusterGraph s) hm
    simp only
    rw [foldl_wires (fun st (e : Edge) hm => hm.onOuterRequiredDecrement _) _
      (hm.of_wires hinner), hinner]
  · exact foldl_wires (fun st s hm => hm.onOuterRequiredDecrement s) _ hm

lemma foldl_wires {α : Type} {f : State → α → State} (hf : ∀ st x, (f st x).wires = st.wires)
    (l : List α) (st : State) : (l.foldl f st).wires = st.wires := by
  induction l generalizing st with
  | nil => rfl
  | cons x l ih => rw [List.foldl_cons, ih, hf]

lemma ite_wires {c : Prop} [Decidable c] (h : st'.wires = st.wires) :
    (if c then st' else st).wires = st.wires := by
  split
  · exact h
  · rfl

lemma callOnRequiredIncrement_wires (st : State) (s : ServiceId) :
    (st.callOnRequiredIncrement s).wires = st.wires := by
  unfold callOnRequiredIncrement
  split
  · simp only
    rw [foldl_wires (fun _ _ => by rfl), foldl_wires (fun _ _ => by rfl)]
  · exact foldl_wires (fun _ _ => by rfl) _ _

lemma onServiceAdd_wires (st : State) (s : ServiceId) : (st.onServiceAdd s).wires = st.wires := by
  unfold onServiceAdd
  simp only
  split
  · rw [ite_wires (by rfl), foldl_wires (fun _ _ => ite_wires (by rfl)),
      callOnRequiredIncrement_wires]
  · rw [foldl_wires (fun _ _ => ite_wires (by rfl)), callOnRequiredIncrement_wires]

lemma transitionTargetSet_wires (st : State) (s : ServiceId) (target : Target) :
    (st.transitionTargetSet s target).wires = st.wires := by
  unfold transitionTargetSet
  simp only
  split
  · split <;> rfl
  · rfl

/-! ### Uses -/

lemma checkStoppable_wires (st : State) (s : ServiceId) :
    (st.checkStoppable s).wires = st.wires := by
  unfold checkStoppable
  split <;> rfl

lemma onOutgoingReachedNoExternalUse_wires (st : State) (s : ServiceId) (n : UInt32) :
    (st.onOutgoingReachedNoExternalUse s n).wires = st.wires := by
  unfold onOutgoingReachedNoExternalUse
  split <;> exact checkStoppable_wires _ _

lemma onOutgoingDecrement_wires (st : State) (s : ServiceId) :
    (st.onOutgoingDecrement s).wires = st.wires := by
  unfold onOutgoingDecrement
  simp only
  split
  · rw [onOutgoingReachedNoExternalUse_wires]
    rfl
  · rfl

/-! ### Pushes and pulls -/

lemma PushFrame.wires (h : PushFrame st st') :
    st'.wires = st.wires.setPushes st'.pushes := by
  obtain ⟨p, d, rfl⟩ := h
  rfl

lemma onClusterPullsIncrement_wires (st : State) (h : ServiceId) :
    (st.onClusterPullsIncrement h).wires = st.wires.setPulls
      (Function.update st.pulls (st.cluster h) (st.pulls (st.cluster h) + 1)) := rfl

lemma Unmarked.onClusterPullsDecrement (hm : st.Unmarked) (h : ServiceId) :
    (st.onClusterPullsDecrement k h).wires = st.wires.setPulls
      (Function.update st.pulls (st.cluster h) (st.pulls (st.cluster h) - 1)) := by
  have hm' : ∀ pulls, ({ st with pulls := pulls } : State).Unmarked := fun _ => hm
  simp only [State.onClusterPullsDecrement, (hm' _).checkAnyInClusterStartable, ite_self]
  rfl

/-- How often the edges of a list end in a cluster. -/
def arrivals (st : State) (es : List Edge) (v : ServiceId) : Nat :=
  es.countP fun e => st.cluster (st.clusterTarget e) = v

lemma arrivals_cons (st : State) (e : Edge) (es : List Edge) (v : ServiceId) :
    st.arrivals (e :: es) v =
      st.arrivals es v + if v = st.cluster (st.clusterTarget e) then 1 else 0 := by
  simp only [arrivals, List.countP_cons, decide_eq_true_eq]
  simp only [eq_comm]

lemma arrivals_of_topology (h : st'.toTopology = st.toTopology) (es : List Edge) :
    st'.arrivals es = st.arrivals es := by
  unfold arrivals
  rw [h]

lemma foldl_onClusterPullsIncrement_wires (es : List Edge) (st : State) :
    (es.foldl (fun st e => st.onClusterPullsIncrement (st.clusterTarget e)) st).wires =
      st.wires.setPulls (fun v => st.pulls v + .ofNat (st.arrivals es v)) := by
  induction es generalizing st with
  | nil => simp [arrivals, wires, Wires.setPulls]
  | cons e es ih =>
    have harr : (st.onClusterPullsIncrement (st.clusterTarget e)).arrivals es = st.arrivals es :=
      arrivals_of_topology rfl es
    rw [List.foldl_cons, ih, harr, onClusterPullsIncrement_wires, Wires.setPulls_setPulls]
    congr 1
    funext v
    rw [arrivals_cons, onClusterPullsIncrement, UInt16.ofNat_add]
    by_cases hv : v = st.cluster (st.clusterTarget e)
    · subst hv
      simp only [Function.update_self, if_true, UInt16.ofNat_one]
      grind
    · simp [hv]

lemma Unmarked.foldl_onClusterPullsDecrement (es : List Edge) (hm : st.Unmarked) :
    (es.foldl (fun st e => st.onClusterPullsDecrement k (st.clusterTarget e)) st).wires =
      st.wires.setPulls (fun v => st.pulls v - .ofNat (st.arrivals es v)) := by
  induction es generalizing st with
  | nil => simp [arrivals, State.wires, Wires.setPulls]
  | cons e es ih =>
    have hw := hm.onClusterPullsDecrement (k := k) (st.clusterTarget e)
    have hmark : (st.onClusterPullsDecrement k (st.clusterTarget e)).isMarkedForStart =
        st.isMarkedForStart := congrArg Wires.isMarkedForStart hw
    have hm' : (st.onClusterPullsDecrement k (st.clusterTarget e)).Unmarked := fun v =>
      (congrFun hmark v).trans (hm v)
    have htop : (st.onClusterPullsDecrement k (st.clusterTarget e)).toTopology = st.toTopology :=
      congrArg Wires.toTopology hw
    have hpulls : (st.onClusterPullsDecrement k (st.clusterTarget e)).pulls = _ :=
      congrArg Wires.pulls hw
    rw [List.foldl_cons, ih hm', arrivals_of_topology htop, hw, Wires.setPulls_setPulls, hpulls]
    congr 1
    funext v
    rw [arrivals_cons, UInt16.ofNat_add]
    by_cases hv : v = st.cluster (st.clusterTarget e)
    · subst hv
      simp only [Wires.setPulls, Function.update_self, if_true, UInt16.ofNat_one]
      grind
    · simp [Wires.setPulls, hv]

lemma callOnClusterPullsIncrement_wires (st : State) (s : ServiceId) :
    (st.callOnClusterPullsIncrement s).wires = st.wires.setPulls
      (fun v => st.pulls v + .ofNat (st.arrivals (st.clusterOutEdges s) v)) :=
  foldl_onClusterPullsIncrement_wires _ st

lemma Unmarked.callOnClusterPullsDecrement (hm : st.Unmarked) (s : ServiceId) :
    (st.callOnClusterPullsDecrement k s).wires = st.wires.setPulls
      (fun v => st.pulls v - .ofNat (st.arrivals (st.clusterOutEdges s) v)) :=
  hm.foldl_onClusterPullsDecrement _

end State

/-! ### The machine -/

/-- An operation that changes the wiring. -/
inductive WireOp where
  | setOverride (s : ServiceId) (mode : Override)
  | markForStop (s : ServiceId) (set : Bool)
  | connect (use : Usage)
  | disconnect (use : Usage)
  | init (s : ServiceId)
  | destroy (s : ServiceId)

namespace WireOp

/-- What the callers guarantee; overrides and marks are set on the head of a cluster. -/
def Pre (st : State) : WireOp → Prop
  | setOverride s _ => s ∈ st.services ∧ st.layout.isClusterHead s = true
  | markForStop s _ => s ∈ st.services ∧ st.layout.isClusterHead s = true
  | connect use => st.CanConnect use
  | disconnect use => use ∈ st.usages
  | init s => st.CanInit s
  | destroy s => st.CanDestroy s

instance (st : State) : (op : WireOp) → Decidable (op.Pre st)
  | setOverride s _ => inferInstanceAs (Decidable (s ∈ st.services ∧ _))
  | markForStop s _ => inferInstanceAs (Decidable (s ∈ st.services ∧ _))
  | connect use => inferInstanceAs (Decidable (st.CanConnect use))
  | disconnect use => inferInstanceAs (Decidable (use ∈ st.usages))
  | init s => inferInstanceAs (Decidable (st.CanInit s))
  | destroy s => inferInstanceAs (Decidable (st.CanDestroy s))

def exec (st : State) : WireOp → State
  | setOverride s mode => st.setOverride s mode
  | markForStop s set => st.doMarkClusterForStop State.onServiceStartable s set
  | connect use => st.connect use
  | disconnect use => st.disconnect State.onServiceStartable use
  | init s => st.init s
  | destroy s => st.destroy State.onServiceStartable s

end WireOp

/-- The wiring of a context, starting from the initialised root. -/
def wiring (L : Layout) : Machine State WireOp where
  init st := st = .initial L
  pre := WireOp.Pre
  step := WireOp.exec

instance (L : Layout) (st : State) (op : WireOp) : Decidable ((wiring L).pre st op) :=
  inferInstanceAs (Decidable (op.Pre st))

namespace State

/-- The state after some wiring operations. -/
def afterWiring (L : Layout) (ops : List WireOp) : State := ops.foldl WireOp.exec (.initial L)

/-- What every wiring operation keeps. -/
structure Wired (st : State) : Prop where
  wellFormed : st.WellFormed
  unmarked : st.Unmarked
  stopped : ∀ s ∈ st.services, st.phase s = .stopped

lemma wired_initial (L : Layout) : (initial L).Wired where
  wellFormed := .initial L
  unmarked _ := rfl
  stopped s hs := by
    obtain rfl := List.mem_singleton.1 hs
    simp [initial]

/-! ### What the operations change -/

variable {st : State} {s : ServiceId} {k : State → ServiceId → State} {u : Usage}

lemma setOverride_wires (st : State) (s : ServiceId) (mode : Override) :
    (st.setOverride s mode).wires = ⟨st.toTopology, st.phase, st.isMarkedForStart,
      st.isMarkedForStop, Function.update st.override (st.cluster s) mode,
      (st.setOverride s mode).pushes, st.pulls⟩ := by
  unfold setOverride
  simp only
  split
  · split
    · exact (callOnClusterPushesIncrement_frame _ _ _).wires
    · exact (callOnClusterPushesDecrement_frame _ _ _).wires
  · rename_i h
    rw [not_not] at h
    rw [← h, Function.update_eq_self]
    rfl

/-- `pulls_` after a cluster is marked or unmarked. -/
def pullsAfterMark (st : State) (s : ServiceId) (set : Bool) (v : ServiceId) : UInt16 :=
  if set = st.isMarkedForStop (st.cluster s) then st.pulls v
  else if set then st.pulls v + .ofNat (st.arrivals (st.clusterOutEdges s) v)
  else st.pulls v - .ofNat (st.arrivals (st.clusterOutEdges s) v)

lemma Unmarked.doMarkClusterForStop (hm : st.Unmarked) (s : ServiceId) (set : Bool) :
    (st.doMarkClusterForStop k s set).wires = ⟨st.toTopology, st.phase, st.isMarkedForStart,
      Function.update st.isMarkedForStop (st.cluster s) set, st.override, st.pushes,
      st.pullsAfterMark s set⟩ := by
  have hm' : ∀ mark, ({ st with isMarkedForStop := mark } : State).Unmarked := fun _ => hm
  have hpulls : st.pullsAfterMark s set = fun v =>
      if set = st.isMarkedForStop (st.cluster s) then st.pulls v
      else if set then st.pulls v + .ofNat (st.arrivals (st.clusterOutEdges s) v)
      else st.pulls v - .ofNat (st.arrivals (st.clusterOutEdges s) v) := rfl
  rw [hpulls]
  unfold State.doMarkClusterForStop
  by_cases h : set = st.isMarkedForStop (st.cluster s)
  · simp only [h, bne_self_eq_false, Bool.false_eq_true, if_false, if_true, Function.update_eq_self]
    rfl
  · simp only [bne_iff_ne.2 h, h, if_true, if_false]
    cases set with
    | true => exact callOnClusterPullsIncrement_wires _ _
    | false => exact (hm' _).callOnClusterPullsDecrement _

/-- `on_usage_connected` first moves the counters of uses and of missing dependencies. -/
lemma onUsageConnected_eq (st : State) (u : Usage) : ∃ st₁ : State, st₁.wires = st.wires ∧
    st.onUsageConnected u =
      let st₂ := if st₁.isClusterPushed u.user.owner then
        st₁.callOnClusterPushesIncrement u.used.owner (some u.user.owner) else st₁
      if st₂.isClusterMarkedForStop u.used.owner then
        st₂.onClusterPullsIncrement (st₂.cluster u.user.owner) else st₂ := by
  refine ⟨_, ?_, rfl⟩
  split <;> split <;> rfl

/-- The pushes after a usage is connected. -/
lemma onUsageConnected_pushes (st : State) (u : Usage) : ∃ st₁ : State, st₁.wires = st.wires ∧
    (st.onUsageConnected u).wires = ⟨st.toTopology, st.phase, st.isMarkedForStart,
      st.isMarkedForStop, st.override,
      if st.isClusterPushed u.user.owner then
        (st₁.callOnClusterPushesIncrement u.used.owner (some u.user.owner)).pushes
      else st.pushes,
      if st.isClusterMarkedForStop u.used.owner then
        Function.update st.pulls (st.cluster (st.cluster u.user.owner))
          (st.pulls (st.cluster (st.cluster u.user.owner)) + 1)
      else st.pulls⟩ := by
  obtain ⟨st₁, h₁, heq⟩ := onUsageConnected_eq st u
  have htop : st₁.toTopology = st.toTopology := congrArg Wires.toTopology h₁
  have hpush : st₁.pushes = st.pushes := congrArg Wires.pushes h₁
  have hpushed : st₁.isClusterPushed u.user.owner = st.isClusterPushed u.user.owner := by
    simp only [isClusterPushed, htop, hpush]
  refine ⟨st₁, h₁, ?_⟩
  rw [heq, hpushed]
  -- the state after the search
  have hst₂ : ∀ st₂ : State, st₂.wires = st.wires.setPushes st₂.pushes →
      (if st₂.isClusterMarkedForStop u.used.owner then
        st₂.onClusterPullsIncrement (st₂.cluster u.user.owner) else st₂).wires =
      ⟨st.toTopology, st.phase, st.isMarkedForStart, st.isMarkedForStop, st.override, st₂.pushes,
        if st.isClusterMarkedForStop u.used.owner then
          Function.update st.pulls (st.cluster (st.cluster u.user.owner))
            (st.pulls (st.cluster (st.cluster u.user.owner)) + 1)
        else st.pulls⟩ := by
    intro st₂ h₂
    have htop₂ : st₂.toTopology = st.toTopology := congrArg Wires.toTopology h₂
    have hmark₂ : st₂.isMarkedForStop = st.isMarkedForStop := congrArg Wires.isMarkedForStop h₂
    have hpull₂ : st₂.pulls = st.pulls := congrArg Wires.pulls h₂
    have hm : st₂.isClusterMarkedForStop u.used.owner = st.isClusterMarkedForStop u.used.owner := by
      simp only [isClusterMarkedForStop, htop₂, hmark₂]
    rw [hm]
    split
    · rw [onClusterPullsIncrement_wires, h₂, htop₂, hpull₂]
      rfl
    · exact h₂
  split
  · refine hst₂ _ ?_
    rw [(callOnClusterPushesIncrement_frame _ _ _).wires, h₁]
  · rw [← hpush]
    refine hst₂ _ ?_
    rw [h₁, hpush]
    rfl

lemma connect_wires (st : State) (u : Usage) : ∃ st₁ : State,
    st₁.toTopology = st.toTopology.connect u ∧ st₁.pushes = st.pushes ∧
    (st.connect u).wires = ⟨st.toTopology.connect u, st.phase, st.isMarkedForStart,
      st.isMarkedForStop, st.override,
      if st.isClusterPushed u.user.owner then
        (st₁.callOnClusterPushesIncrement u.used.owner (some u.user.owner)).pushes
      else st.pushes,
      if st.isClusterMarkedForStop u.used.owner then
        Function.update st.pulls (st.cluster (st.cluster u.user.owner))
          (st.pulls (st.cluster (st.cluster u.user.owner)) + 1)
      else st.pulls⟩ := by
  obtain ⟨st₁, h₁, heq⟩ := onUsageConnected_pushes { st with
    usages := st.usages ++ [u]
    held := Function.update st.held u.id false
    releaseRequested := Function.update st.releaseRequested u.id false } u
  exact ⟨st₁, congrArg Wires.toTopology h₁, congrArg Wires.pushes h₁, heq⟩

/-- The order of `on_usage_disconnect` is the other way round. -/
lemma Unmarked.onUsageDisconnect (hm : st.Unmarked) (u : Usage) : ∃ st₁ : State,
    st₁.toTopology = st.toTopology ∧ st₁.pushes = st.pushes ∧
    (st.onUsageDisconnect k u).wires = ⟨st.toTopology, st.phase, st.isMarkedForStart,
      st.isMarkedForStop, st.override,
      if st.isClusterPushed u.user.owner then
        (st₁.callOnClusterPushesDecrement u.used.owner (some u.user.owner)).pushes
      else st.pushes,
      if st.isClusterMarkedForStop u.used.owner then
        Function.update st.pulls (st.cluster (st.cluster u.user.owner))
          (st.pulls (st.cluster (st.cluster u.user.owner)) - 1)
      else st.pulls⟩ := by
  -- the state after the pulls are counted
  have hpull : ∃ st₁ : State, st₁ = (if st.isClusterMarkedForStop u.used.owner then
        st.onClusterPullsDecrement k (st.cluster u.user.owner) else st) ∧
      st₁.wires = st.wires.setPulls (if st.isClusterMarkedForStop u.used.owner then
        Function.update st.pulls (st.cluster (st.cluster u.user.owner))
          (st.pulls (st.cluster (st.cluster u.user.owner)) - 1)
      else st.pulls) := by
    refine ⟨_, rfl, ?_⟩
    split
    · exact hm.onClusterPullsDecrement _
    · rfl
  obtain ⟨st₁, hst₁, h₁⟩ := hpull
  have htop₁ : st₁.toTopology = st.toTopology := congrArg Wires.toTopology h₁
  have hpush₁ : st₁.pushes = st.pushes := congrArg Wires.pushes h₁
  refine ⟨st₁, htop₁, hpush₁, ?_⟩
  -- the state after the search
  have hpush : ∃ st₂ : State, st₂ = (if st₁.isClusterPushed u.user.owner then
        st₁.callOnClusterPushesDecrement u.used.owner (some u.user.owner) else st₁) ∧
      st₂.wires = st₁.wires.setPushes (if st.isClusterPushed u.user.owner then
        (st₁.callOnClusterPushesDecrement u.used.owner (some u.user.owner)).pushes
      else st.pushes) := by
    refine ⟨_, rfl, ?_⟩
    have hpushed : st₁.isClusterPushed u.user.owner = st.isClusterPushed u.user.owner := by
      simp only [isClusterPushed, htop₁, hpush₁]
    rw [hpushed]
    split
    · exact (callOnClusterPushesDecrement_frame _ _ _).wires
    · rw [← hpush₁]
      rfl
  obtain ⟨st₂, hst₂, h₂⟩ := hpush
  have hm₂ : st₂.Unmarked := by
    have hmark : st₂.isMarkedForStart = st.isMarkedForStart :=
      congrArg Wires.isMarkedForStart (h₂.trans (congrArg (Wires.setPushes · _) h₁))
    exact fun v => (congrFun hmark v).trans (hm v)
  unfold State.onUsageDisconnect
  simp only
  rw [← hst₁, ← hst₂, ite_wires (onOutgoingDecrement_wires _ _),
    ite_wires (hm₂.onOuterRequiredDecrement _), h₂, h₁]
  rfl

lemma Unmarked.disconnect_wires (hm : st.Unmarked) (u : Usage) : ∃ st₁ : State,
    st₁.toTopology = st.toTopology ∧ st₁.pushes = st.pushes ∧
    (st.disconnect k u).wires = ⟨st.toTopology.disconnect u, st.phase, st.isMarkedForStart,
      st.isMarkedForStop, st.override,
      if st.isClusterPushed u.user.owner then
        (st₁.callOnClusterPushesDecrement u.used.owner (some u.user.owner)).pushes
      else st.pushes,
      if st.isClusterMarkedForStop u.used.owner then
        Function.update st.pulls (st.cluster (st.cluster u.user.owner))
          (st.pulls (st.cluster (st.cluster u.user.owner)) - 1)
      else st.pulls⟩ := by
  obtain ⟨st₁, htop, hpush, h⟩ := hm.onUsageDisconnect (k := k) u
  refine ⟨st₁, htop, hpush, ?_⟩
  unfold State.disconnect
  generalize st.onUsageDisconnect k u = st' at h
  have hst' : ∀ usages released, ({ st' with usages := usages, releaseRequested := released } :
      State).wires = { st'.wires with usages := usages } := fun _ _ => rfl
  rw [hst', h, show st'.usages = st.usages from congrArg (fun w : Wires => w.usages) h]
  rfl

lemma construct_wires (st : State) (s : ServiceId) :
    (st.construct s).wires = ⟨st.toTopology, st.phase,
      if st.layout.isClusterHead s then Function.update st.isMarkedForStart s false
        else st.isMarkedForStart,
      if st.layout.isClusterHead s then Function.update st.isMarkedForStop s false
        else st.isMarkedForStop,
      if st.layout.isClusterHead s then Function.update st.override s .none else st.override,
      if st.layout.isClusterHead s then Function.update st.pushes s 0 else st.pushes,
      if st.layout.isClusterHead s then Function.update st.pulls s 0 else st.pulls⟩ := by
  unfold construct
  by_cases h : st.layout.isClusterHead s = true
  · simp only [h, if_true]
    rfl
  · simp only [h]
    rfl

lemma init_wires (st : State) (s : ServiceId) :
    (st.init s).wires = ⟨st.toTopology.insert s, Function.update st.phase s .stopped,
      if st.layout.isClusterHead s then Function.update st.isMarkedForStart s false
        else st.isMarkedForStart,
      if st.layout.isClusterHead s then Function.update st.isMarkedForStop s false
        else st.isMarkedForStop,
      if st.layout.isClusterHead s then Function.update st.override s .none else st.override,
      if st.layout.isClusterHead s then Function.update st.pushes s 0 else st.pushes,
      if st.layout.isClusterHead s then Function.update st.pulls s 0 else st.pulls⟩ := by
  have h := construct_wires st s
  unfold init
  rw [onServiceAdd_wires]
  generalize st.construct s = st' at h
  have htop : st'.toTopology = st.toTopology := congrArg Wires.toTopology h
  have hphase : st'.phase = st.phase := congrArg Wires.phase h
  have hmark : st'.isMarkedForStart = _ := congrArg Wires.isMarkedForStart h
  have hstop : st'.isMarkedForStop = _ := congrArg Wires.isMarkedForStop h
  have hover : st'.override = _ := congrArg Wires.override h
  have hpush : st'.pushes = _ := congrArg Wires.pushes h
  have hpull : st'.pulls = _ := congrArg Wires.pulls h
  simp only [wires, htop, hphase, hmark, hstop, hover, hpush, hpull]
  rfl

/-- A member that nothing uses and that uses nothing has no edge to an other cluster. -/
lemma inEdges_external_of_isMember (hc : st.WellFormed) (hs : s ∈ st.services)
    (hmember : st.layout.isClusterHead s = false)
    (husages : ∀ u ∈ st.usages, u.user.owner ≠ s) : st.inEdges .externalGraph s = [] := by
  refine List.Perm.eq_nil ((hc.inEdges_external_perm hs).trans (List.Perm.of_eq ?_))
  rw [List.filter_eq_nil_iff]
  intro e he
  simp only [decide_eq_true_eq]
  cases e with
  | inner t => exact absurd he Topology.not_mem_edges_inner
  | child t =>
    rintro rfl
    have := (Topology.mem_edges_child.1 he).2.1
    exact absurd (hmember.symm.trans this) Bool.false_ne_true
  | usage u => exact husages u (Topology.mem_edges_usage.1 he)

lemma outEdges_external_of_unused (hc : st.WellFormed)
    (hchild : ∀ t ∈ st.services, t ≠ st.layout.root → (st.layout.parent t).owner ≠ s)
    (husages : ∀ u ∈ st.usages, u.used.owner ≠ s) : st.outEdges .externalGraph s = [] := by
  refine List.Perm.eq_nil ((hc.outEdges_external_perm s).trans (List.Perm.of_eq ?_))
  rw [List.filter_eq_nil_iff]
  intro e he
  simpa using Topology.source_ne hchild husages he

lemma pullsAfterMark_congr {st' : State} (htop : st'.toTopology = st.toTopology)
    (hmark : st'.isMarkedForStop = st.isMarkedForStop) (hpull : st'.pulls = st.pulls)
    (s : ServiceId) (set : Bool) : st'.pullsAfterMark s set = st.pullsAfterMark s set := by
  funext v
  unfold pullsAfterMark
  rw [arrivals_of_topology htop, htop, hmark, hpull]

/-- The last steps of `destroy`. -/
lemma destroy_wires_of_onServiceDel {st₁ : State} {w : Wires}
    (h : (st₁.onServiceDel k s).wires = w)
    (hst₁ : st₁ = if st.layout.isClusterHead s then st.transitionTargetSet s .none else st) :
    (st.destroy k s).wires = ⟨w.toTopology.erase s, Function.update w.phase s .destroyed,
      w.isMarkedForStart, w.isMarkedForStop, w.override, w.pushes, w.pulls⟩ := by
  subst h
  unfold destroy
  simp only
  rw [← hst₁]
  generalize st₁.onServiceDel k s = st₂
  split <;> rfl

lemma Unmarked.onServiceDel_head (hm : st.Unmarked) (hh : st.layout.isClusterHead s = true) :
    (st.onServiceDel k s).wires = ⟨st.toTopology, st.phase, st.isMarkedForStart,
      Function.update st.isMarkedForStop (st.cluster s) false,
      Function.update st.override (st.cluster s) .none, (st.setOverride s .none).pushes,
      st.pullsAfterMark s false⟩ := by
  have h₁ := setOverride_wires st s .none
  generalize hst₁ : st.setOverride s .none = st₁ at h₁
  have hmark₁ : st₁.isMarkedForStart = st.isMarkedForStart := congrArg Wires.isMarkedForStart h₁
  have htop₁ : st₁.toTopology = st.toTopology := congrArg Wires.toTopology h₁
  have hm₁ : st₁.Unmarked := fun v => (congrFun hmark₁ v).trans (hm v)
  have h₂ := hm₁.doMarkClusterForStop (k := k) s false
  generalize hst₂ : st₁.doMarkClusterForStop k s false = st₂ at h₂
  have hmark₂ : st₂.isMarkedForStart = st₁.isMarkedForStart := congrArg Wires.isMarkedForStart h₂
  have hm₂ : st₂.Unmarked := fun v => (congrFun hmark₂ v).trans (hm₁ v)
  have hdel : st.onServiceDel k s = st₂.callOnRequiredDecrement k s := by
    unfold onServiceDel
    simp only [hh, if_true]
    rw [hst₁, hst₂]
  rw [hdel, hm₂.callOnRequiredDecrement, h₂,
    pullsAfterMark_congr htop₁ (congrArg Wires.isMarkedForStop h₁) (congrArg Wires.pulls h₁),
    show st₁.phase = _ from congrArg Wires.phase h₁, hmark₁,
    show st₁.isMarkedForStop = _ from congrArg Wires.isMarkedForStop h₁,
    show st₁.override = _ from congrArg Wires.override h₁, htop₁]

lemma Unmarked.onServiceDel_member (hm : st.Unmarked) (hc : st.WellFormed)
    (hs : st.CanDestroy s) (hh : st.layout.isClusterHead s = false) :
    (st.onServiceDel k s).wires = st.wires := by
  obtain ⟨hmem, -, -, hchild, husages⟩ := hs
  have hin := inEdges_external_of_isMember hc hmem hh fun u hu => (husages u hu).2
  have hout := outEdges_external_of_unused hc hchild fun u hu => (husages u hu).1
  have hdel : st.onServiceDel k s = st.callOnRequiredDecrement k s := by
    unfold onServiceDel
    simp only [hh, Bool.false_eq_true, if_false, hin, hout, List.foldl_nil, ite_self]
  rw [hdel, hm.callOnRequiredDecrement]

lemma Wired.destroy_head (hw : st.Wired) (hs : s ∈ st.services)
    (hh : st.layout.isClusterHead s = true) : ∃ st₁ : State,
    st₁.wires = st.wires ∧ (st.destroy k s).wires = ⟨st.toTopology.erase s,
      Function.update st.phase s .destroyed, st.isMarkedForStart,
      Function.update st.isMarkedForStop s false, Function.update st.override s .none,
      (st₁.setOverride s .none).pushes, st.pullsAfterMark s false⟩ := by
  have hhead : st.cluster s = s := hw.wellFormed.cluster_of_isClusterHead hs hh
  obtain ⟨st₁, hst₁⟩ : ∃ st₁, st₁ = st.transitionTargetSet s .none := ⟨_, rfl⟩
  have h₁ : st₁.wires = st.wires := hst₁ ▸ transitionTargetSet_wires st s .none
  replace hst₁ : st₁ =
      if st.layout.isClusterHead s then st.transitionTargetSet s .none else st := by
    rw [hh, if_pos rfl, hst₁]
  have htop₁ : st₁.toTopology = st.toTopology := congrArg Wires.toTopology h₁
  have hdel := (hw.unmarked.of_wires h₁).onServiceDel_head (s := s) (k := k) (htop₁ ▸ hh)
  refine ⟨st₁, h₁, (destroy_wires_of_onServiceDel hdel hst₁).trans ?_⟩
  rw [pullsAfterMark_congr htop₁ (congrArg Wires.isMarkedForStop h₁) (congrArg Wires.pulls h₁),
    show st₁.phase = _ from congrArg Wires.phase h₁,
    show st₁.isMarkedForStart = _ from congrArg Wires.isMarkedForStart h₁,
    show st₁.isMarkedForStop = _ from congrArg Wires.isMarkedForStop h₁,
    show st₁.override = _ from congrArg Wires.override h₁, htop₁, hhead]
  rfl

lemma Wired.destroy_member (hw : st.Wired) (hs : st.CanDestroy s)
    (hh : st.layout.isClusterHead s = false) :
    (st.destroy k s).wires = ⟨st.toTopology.erase s, Function.update st.phase s .destroyed,
      st.isMarkedForStart, st.isMarkedForStop, st.override, st.pushes, st.pulls⟩ := by
  have hst : st = if st.layout.isClusterHead s then st.transitionTargetSet s .none else st := by
    simp [hh]
  exact destroy_wires_of_onServiceDel (hw.unmarked.onServiceDel_member hw.wellFormed hs hh) hst

/-! ### Every state is wired -/

lemma Wired.not_mem (hw : st.Wired) (hs : st.CanInit s) : s ∉ st.services := fun hmem => by
  have := (hw.stopped s hmem).symm.trans hs.1
  exact absurd this (by decide)

theorem Wired.exec {op : WireOp} (hw : st.Wired) (hp : op.Pre st) : (op.exec st).Wired := by
  have hc := hw.wellFormed
  -- the three parts depend on the wires only
  have hfrom : ∀ {st' : State} {w : Wires}, st'.wires = w → w.toTopology.WellFormed →
      (∀ v, w.isMarkedForStart v = false) → (∀ s ∈ w.services, w.phase s = .stopped) →
      st'.Wired := by
    rintro st' _ rfl h₁ h₂ h₃
    exact ⟨h₁, h₂, h₃⟩
  cases op with
  | setOverride s mode => exact hfrom (setOverride_wires st s mode) hc hw.unmarked hw.stopped
  | markForStop s set =>
    exact hfrom (hw.unmarked.doMarkClusterForStop s set) hc hw.unmarked hw.stopped
  | connect u =>
    obtain ⟨st₁, -, -, h⟩ := connect_wires st u
    obtain ⟨hid, hused, hexports, huser, himports, hdiff⟩ := hp
    exact hfrom h (hc.connect hid hused hexports huser himports hdiff) hw.unmarked hw.stopped
  | disconnect u =>
    obtain ⟨st₁, -, -, h⟩ := hw.unmarked.disconnect_wires (k := onServiceStartable) u
    exact hfrom h (hc.disconnect u) hw.unmarked hw.stopped
  | init s =>
    refine hfrom (init_wires st s) (hc.insert (hw.not_mem hp) hp.2.1 hp.2.2.1) ?_ ?_
    · intro v
      have hv := hw.unmarked v
      simp only
      split
      · by_cases hvs : v = s
        · rw [hvs, Function.update_self]
        · rw [Function.update_of_ne hvs, hv]
      · exact hv
    · intro t ht
      by_cases hts : t = s
      · simp [hts]
      · have : t ∈ st.services := (List.mem_append.1 ht).resolve_right fun h =>
          hts (List.mem_singleton.1 h)
        simp [hts, hw.stopped t this]
  | destroy s =>
    obtain ⟨hmem, hr, -, hchild, husages⟩ := hp
    have hwf := hc.erase hr hchild husages
    have hstopped : ∀ t ∈ (st.toTopology.erase s).services,
        Function.update st.phase s .destroyed t = .stopped := by
      intro t ht
      have hts : t ≠ s := fun h => (hc.nodup.mem_erase_iff.1 ht).1 h
      rw [Function.update_of_ne hts]
      exact hw.stopped t (List.mem_of_mem_erase ht)
    cases hh : st.layout.isClusterHead s with
    | true =>
      obtain ⟨st₁, -, h⟩ := hw.destroy_head (k := onServiceStartable) hmem hh
      exact hfrom h hwf hw.unmarked hstopped
    | false =>
      exact hfrom (hw.destroy_member ⟨hmem, hr, hw.stopped s hmem, hchild, husages⟩ hh) hwf
        hw.unmarked hstopped

theorem wired_of_reachable {L : Layout} {cond : State → WireOp → Prop}
    (h : (wiring L).Reachable cond st) : st.Wired :=
  h.invariant (fun _ h => h ▸ wired_initial L) fun _ _ _ hw hp _ => hw.exec hp

end State

end Idle
