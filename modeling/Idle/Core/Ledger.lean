import Idle.Core.Edges
import Idle.Core.Life

/-!
# What the functions do to the counters

Phases, usages and the counters of uses and missing dependencies are the `Core` of the state. The
functions of `ServiceImpl` change it by lists of increments and decrements, which are given here
in closed form. Reporting a service as startable could start the root; it does not where the root
is running or nothing else is startable.
-/

namespace Idle

namespace Core

variable {c : Core} {ks : List ServiceId} {s v : ServiceId}

/-! ### Lists of increments and decrements -/

def addUses (c : Core) (n : ServiceId → Nat) : Core :=
  { c with uses := fun v => c.uses v + .ofNat (n v) }

def subUses (c : Core) (n : ServiceId → Nat) : Core :=
  { c with uses := fun v => c.uses v - .ofNat (n v) }

def addOuter (c : Core) (n : ServiceId → Nat) : Core :=
  { c with outerDepsMissing := fun v => c.outerDepsMissing v + .ofNat (n v) }

def subOuter (c : Core) (n : ServiceId → Nat) : Core :=
  { c with outerDepsMissing := fun v => c.outerDepsMissing v - .ofNat (n v) }

def addInner (c : Core) (n : ServiceId → Nat) : Core :=
  { c with innerDepsMissing := fun v => c.innerDepsMissing v + .ofNat (n v) }

def subInner (c : Core) (n : ServiceId → Nat) : Core :=
  { c with innerDepsMissing := fun v => c.innerDepsMissing v - .ofNat (n v) }

lemma foldl_incUses (c : Core) (ks : List ServiceId) :
    ks.foldl incUses c = c.addUses fun v => ks.count v := by
  induction ks generalizing c with
  | nil => simp [addUses]
  | cons k ks ih =>
    rw [List.foldl_cons, ih]
    simp only [addUses, incUses]
    congr 1
    funext v
    by_cases hv : v = k
    · subst hv
      simp only [Function.update_self, List.count_cons_self, UInt32.ofNat_add]
      grind
    · simp [hv, List.count_cons_of_ne (Ne.symm hv)]

lemma foldl_incOuter (c : Core) (ks : List ServiceId) :
    ks.foldl incOuter c = c.addOuter fun v => (ks.map c.cluster).count v := by
  induction ks generalizing c with
  | nil => simp [addOuter]
  | cons k ks ih =>
    rw [List.foldl_cons, ih]
    simp only [addOuter, incOuter, List.map_cons]
    congr 1
    funext v
    by_cases hv : v = c.cluster k
    · subst hv
      simp only [Function.update_self, List.count_cons_self, UInt16.ofNat_add]
      grind
    · simp [hv, List.count_cons_of_ne (Ne.symm hv)]

lemma foldl_incInner (c : Core) (ks : List ServiceId) :
    ks.foldl incInner c = c.addInner fun v => ks.count v := by
  induction ks generalizing c with
  | nil => simp [addInner]
  | cons k ks ih =>
    rw [List.foldl_cons, ih]
    simp only [addInner, incInner]
    congr 1
    funext v
    by_cases hv : v = k
    · subst hv
      simp only [Function.update_self, List.count_cons_self, UInt16.ofNat_add]
      grind
    · simp [hv, List.count_cons_of_ne (Ne.symm hv)]

lemma foldl_decInner (c : Core) (ks : List ServiceId) :
    ks.foldl decInner c = c.subInner fun v => ks.count v := by
  induction ks generalizing c with
  | nil => simp [subInner]
  | cons k ks ih =>
    rw [List.foldl_cons, ih]
    simp only [subInner, decInner]
    congr 1
    funext v
    by_cases hv : v = k
    · subst hv
      simp only [Function.update_self, List.count_cons_self, UInt16.ofNat_add]
      grind
    · simp [hv, List.count_cons_of_ne (Ne.symm hv)]

/-- As long as every counter stays positive, none runs out. -/
lemma foldl_decUses (h : ∀ v ∈ ks, ks.count v < (c.uses v).toNat) :
    ks.foldl decUses c = c.subUses fun v => ks.count v := by
  induction ks generalizing c with
  | nil => simp [subUses]
  | cons k ks ih =>
    have hk := h k List.mem_cons_self
    rw [List.count_cons_self] at hk
    have hle : (1 : UInt32) ≤ c.uses k := by
      rw [UInt32.le_iff_toNat_le]
      change 1 ≤ _
      omega
    have hgt : decide (c.uses k ≤ 1) = false := by
      rw [decide_eq_false_iff_not, UInt32.le_iff_toNat_le]
      change ¬ _ ≤ 1
      omega
    rw [List.foldl_cons, ih]
    · simp only [subUses, decUses, hgt, Bool.or_false]
      congr 1
      funext v
      by_cases hv : v = k
      · subst hv
        simp only [Function.update_self, List.count_cons_self, UInt32.ofNat_add]
        grind
      · simp [hv, List.count_cons_of_ne (Ne.symm hv)]
    · intro v hv
      have hv' := h v (List.mem_cons_of_mem _ hv)
      by_cases hvk : v = k
      · subst hvk
        simp only [decUses, Function.update_self, UInt32.toNat_sub_of_le _ _ hle]
        change _ < _ - 1
        omega
      · rw [List.count_cons_of_ne (Ne.symm hvk)] at hv'
        simpa [decUses, hvk] using hv'

lemma foldl_decOuter (h : ∀ v ∈ ks.map c.cluster,
    (ks.map c.cluster).count v ≤ (c.outerDepsMissing v).toNat) :
    ks.foldl decOuter c = c.subOuter fun v => (ks.map c.cluster).count v := by
  induction ks generalizing c with
  | nil => simp [subOuter]
  | cons k ks ih =>
    have hk := h (c.cluster k) (by simp)
    rw [List.map_cons, List.count_cons_self] at hk
    have hle : (1 : UInt16) ≤ c.outerDepsMissing (c.cluster k) := by
      rw [UInt16.le_iff_toNat_le]
      change 1 ≤ _
      omega
    have hne : (c.outerDepsMissing (c.cluster k) == 0) = false := by
      rw [beq_eq_false_iff_ne]
      intro h0
      rw [h0] at hk
      exact absurd hk (by simp)
    rw [List.foldl_cons, ih]
    · simp only [subOuter, decOuter, hne, Bool.or_false, List.map_cons]
      congr 1
      funext v
      by_cases hv : v = c.cluster k
      · subst hv
        simp only [Function.update_self, List.count_cons_self, UInt16.ofNat_add]
        grind
      · simp [hv, List.count_cons_of_ne (Ne.symm hv)]
    · intro v hv
      have hv' := h v (List.mem_cons_of_mem _ hv)
      rw [List.map_cons] at hv'
      by_cases hvk : v = c.cluster k
      · subst hvk
        rw [List.count_cons_self] at hv'
        simp only [decOuter, Function.update_self, UInt16.toNat_sub_of_le _ _ hle]
        change _ ≤ _ - 1
        omega
      · rw [List.count_cons_of_ne (Ne.symm hvk)] at hv'
        simpa [decOuter, hvk] using hv'

lemma foldl_proj {α : Type} {F : Core → ServiceId → Core} (f : Core → α)
    (hF : ∀ c k, f (F c k) = f c) (ks : List ServiceId) (c : Core) : f (ks.foldl F c) = f c := by
  induction ks generalizing c with
  | nil => rfl
  | cons k ks ih => rw [List.foldl_cons, ih, hF]

/-- The root does not have to be started for anything that is startable. -/
def RootGate (c : Core) : Prop :=
  c.phase c.layout.root = .running ∨ ∀ s, s ≠ c.layout.root →
    c.phase s ≠ .locked ∧ (c.phase s = .stopped → c.outerDepsMissing (c.cluster s) ≠ 0)

lemma RootGate.running (hG : c.RootGate) (hs : s ≠ c.layout.root) (h : c.isStartable s = true) :
    c.phase c.layout.root = .running := by
  refine hG.resolve_right fun hnot => ?_
  obtain ⟨hl, ho⟩ := hnot s hs
  simp only [isStartable, Bool.and_eq_true, Bool.or_eq_true, beq_iff_eq] at h
  rcases h.2 with h | ⟨hp, h0⟩
  · exact hl h
  · exact ho hp h0

end Core

namespace State

variable {st st' : State} {me s h : ServiceId} {u : Usage}

/-! ### Functions that leave the core alone -/

lemma PushFrame.core (h : PushFrame st st') : st'.toCore = st.toCore := by
  obtain ⟨p, d, rfl⟩ := h
  rfl

@[simp] lemma pushUp_core (st : State) (s : ServiceId) : (st.pushUp s).toCore = st.toCore := rfl

@[simp] lemma pushDown_core (st : State) (s : ServiceId) : (st.pushDown s).toCore = st.toCore := rfl

@[simp] lemma checkStoppable_core (st : State) (s : ServiceId) :
    (st.checkStoppable s).toCore = st.toCore := (checkStoppable_frame st s).core

@[simp] lemma onOutgoingReachedNoExternalUse_core (st : State) (s : ServiceId) (n : UInt32) :
    (st.onOutgoingReachedNoExternalUse s n).toCore = st.toCore := by
  unfold onOutgoingReachedNoExternalUse
  split <;> simp

@[simp] lemma setOverride_core (st : State) (s : ServiceId) (mode : Override) :
    (st.setOverride s mode).toCore = st.toCore := by
  obtain ⟨o, p, d, h⟩ := setOverride_frame st s mode
  rw [h]

@[simp] lemma completePromise_core (st : State) (s : ServiceId) (o : Outcome) :
    (st.completePromise s o).toCore = st.toCore := rfl

@[simp] lemma transitionTargetSet_core (st : State) (s : ServiceId) (t : Target) :
    (st.transitionTargetSet s t).toCore = st.toCore := by
  unfold transitionTargetSet
  simp only
  split
  · split <;> rfl
  · rfl

@[simp] lemma transitionTargetCompleteIf_core (st : State) (s : ServiceId) (t : Target) :
    (st.transitionTargetCompleteIf s t).toCore = st.toCore := by
  unfold transitionTargetCompleteIf
  split <;> rfl

@[simp] lemma doMarkClusterForStart_core (st : State) (s : ServiceId) (set : Bool) :
    (st.doMarkClusterForStart s set).toCore = st.toCore := rfl

@[simp] lemma doFinalizeCluster_core (st : State) (s : ServiceId) :
    (st.doFinalizeCluster s).toCore = st.toCore := by
  unfold doFinalizeCluster
  simp

lemma foldl_core_eq {α : Type} {f : State → α → State} {P : Core → Prop}
    (hf : ∀ st x, P st.toCore → (f st x).toCore = st.toCore) (l : List α) (h : P st.toCore) :
    (l.foldl f st).toCore = st.toCore := by
  induction l generalizing st with
  | nil => rfl
  | cons x l ih => rw [List.foldl_cons, ih (hf st x h ▸ h), hf st x h]

@[simp] lemma callOnClusterPullsIncrement_core (st : State) (s : ServiceId) :
    (st.callOnClusterPullsIncrement s).toCore = st.toCore :=
  foldl_core_eq (P := fun _ => True) (fun _ _ _ => by rfl) _ trivial

@[simp] lemma insertIntoQueueIfStartable_core (st : State) (s : ServiceId) :
    (st.insertIntoQueueIfStartable s).toCore = st.toCore := by
  unfold insertIntoQueueIfStartable
  split
  · exact foldl_core_eq (P := fun _ => True) (fun _ _ _ => by split <;> rfl) _ trivial
  · rfl

@[simp] lemma onServiceStartRequest_core (st : State) (s : ServiceId) :
    (st.onServiceStartRequest s).toCore = st.toCore := by
  refine Search.dfs_keeps (P := fun x : State => x.toCore = st.toCore) ?_ ?_ rfl
  · intro x v h
    simpa [startSearch] using h
  · intro x e h
    simp only [startSearch]
    split <;> simpa using h

@[simp] lemma insertIntoQueueIfStoppable_core (st : State) (s : ServiceId) :
    (st.insertIntoQueueIfStoppable s).toCore = st.toCore := by
  unfold insertIntoQueueIfStoppable
  split <;> rfl

/-! ### Reporting startable services -/

lemma onServiceStartable_core (hG : st.RootGate) (hs : st.isStartable s = true) :
    (st.onServiceStartable s).toCore = st.toCore := by
  have hno : ¬ (s ≠ st.layout.root ∧ (st.phase st.layout.root).isRunning = false) := by
    rintro ⟨hne, hrun⟩
    rw [hG.running hne hs] at hrun
    exact absurd hrun (by decide)
  unfold onServiceStartable
  simp only [if_neg hno]
  rfl

lemma checkAnyInClusterStartable_core (hG : st.RootGate) (h : ServiceId) :
    (st.checkAnyInClusterStartable onServiceStartable h).toCore = st.toCore := by
  unfold checkAnyInClusterStartable
  split
  · refine foldl_core_eq (P := Core.RootGate) (fun st x hG => ?_) _ hG
    split
    · rename_i hcond
      simp only [Bool.and_eq_true] at hcond
      exact onServiceStartable_core hG hcond.2
    · rfl
  · rfl

lemma checkInnerStartable_core (hG : st.RootGate) (s : ServiceId) :
    (st.checkInnerStartable onServiceStartable s).toCore = st.toCore := by
  unfold checkInnerStartable
  split
  · rename_i hcond
    simp only [Bool.and_eq_true] at hcond
    exact onServiceStartable_core hG hcond.1
  · rfl

lemma onClusterPullsDecrement_core (hG : st.RootGate) (h : ServiceId) :
    (st.onClusterPullsDecrement onServiceStartable h).toCore = st.toCore := by
  unfold onClusterPullsDecrement
  simp only
  split
  · rw [checkAnyInClusterStartable_core]
    exact hG
  · rfl

lemma doMarkClusterForStop_core (hG : st.RootGate) (h : ServiceId) (set : Bool) :
    (st.doMarkClusterForStop onServiceStartable h set).toCore = st.toCore := by
  unfold doMarkClusterForStop
  split
  · split
    · rw [callOnClusterPullsIncrement_core]
    · exact foldl_core_eq (P := Core.RootGate)
        (fun st x hG => onClusterPullsDecrement_core hG _) _ hG
  · rfl

lemma onOuterRequiredDecrement_core (hG : (st.toCore.decOuter s).RootGate) :
    (st.onOuterRequiredDecrement onServiceStartable s).toCore = st.toCore.decOuter s := by
  unfold onOuterRequiredDecrement
  simp only
  split
  · rw [checkAnyInClusterStartable_core]
    exact hG
  · rfl

lemma onInnerRequiredDecrement_core (hG : (st.toCore.decInner s).RootGate) :
    (st.onInnerRequiredDecrement onServiceStartable s).toCore = st.toCore.decInner s := by
  unfold onInnerRequiredDecrement
  simp only
  split
  · rw [checkInnerStartable_core]
    exact hG
  · rfl

/-! ### Lists of increments and decrements -/

lemma foldl_core {α : Type} {a : State} {f : State → α → State} {F : Core → ServiceId → Core}
    {P : Core → Prop} {p : α → Bool} {g : α → ServiceId} (hP : ∀ c k, P c → P (F c k))
    (hf : ∀ st x, P st.toCore →
      (f st x).toCore = if p x = true then F st.toCore (g x) else st.toCore)
    (l : List α) (h : P a.toCore) :
    (l.foldl f a).toCore = ((l.filter p).map g).foldl F a.toCore := by
  induction l generalizing a with
  | nil => rfl
  | cons x l ih =>
    have hx := hf a x h
    rw [List.foldl_cons, List.filter_cons]
    split at hx
    · rename_i hp
      rw [ih (hx ▸ hP _ _ h), hx, if_pos hp]
      rfl
    · rename_i hp
      rw [ih (hx ▸ h), hx, if_neg hp]

lemma foldl_core_all {α : Type} {a : State} {f : State → α → State} {F : Core → ServiceId → Core}
    {P : Core → Prop} {g : α → ServiceId} (hP : ∀ c k, P c → P (F c k))
    (hf : ∀ st x, P st.toCore → (f st x).toCore = F st.toCore (g x)) (l : List α)
    (h : P a.toCore) : (l.foldl f a).toCore = (l.map g).foldl F a.toCore := by
  have := foldl_core (p := fun _ => true) hP (fun st x h => by rw [hf st x h, if_pos rfl]) l h
  rwa [List.filter_true] at this

lemma onOutgoingDecrement_core (st : State) (s : ServiceId) :
    (st.onOutgoingDecrement s).toCore = st.toCore.decUses s := by
  unfold onOutgoingDecrement
  simp only
  split
  · rw [onOutgoingReachedNoExternalUse_core]
  · rfl

/-- The root, for a service with an implicit edge from it. -/
def implicitSource (L : Layout) (me : ServiceId) : List ServiceId :=
  if L.hasImplicitRootEdge me then [L.root] else []

lemma implicitSource_core {F : State → ServiceId → State} {G : Core → ServiceId → Core}
    (hF : ∀ st s, (F st s).toCore = G st.toCore s) (st : State) (me : ServiceId) :
    (if st.layout.hasImplicitRootEdge me then F st st.layout.root else st).toCore =
      (implicitSource st.layout me).foldl G st.toCore := by
  unfold implicitSource
  split
  · exact hF _ _
  · rfl

/-- The owners whose use is counted when a service is locked. -/
def lockedSources (c : Core) (me : ServiceId) : List ServiceId :=
  ((c.inEdges .externalGraph me).filter fun e =>
    !(e.isWeak && !(c.phase (e.source c.layout)).isRunning)).map (Edge.source c.layout) ++
    implicitSource c.layout me

/-- The owners whose use is returned when a service is unlocked. -/
def unlockedSources (c : Core) (me : ServiceId) : List ServiceId :=
  ((c.inEdges .externalGraph me).filter fun e =>
    (c.phase (e.source c.layout)).isRunning).map (Edge.source c.layout) ++
    implicitSource c.layout me

lemma callOnOuterOutgoingIncrement_core (st : State) (me : ServiceId) :
    (st.callOnOuterOutgoingIncrement me).toCore =
      (lockedSources st.toCore me).foldl Core.incUses st.toCore := by
  unfold callOnOuterOutgoingIncrement lockedSources
  simp only
  rw [implicitSource_core (G := Core.incUses) fun _ _ => rfl, List.foldl_append]
  have hfold := foldl_core (a := st) (F := Core.incUses)
    (P := fun c => c.phase = st.phase ∧ c.layout = st.layout)
    (p := fun e => !(e.isWeak && !(st.phase (e.source st.layout)).isRunning))
    (g := Edge.source st.layout) (f := fun st e =>
      if e.isWeak && !(st.phase (e.source st.layout)).isRunning then st
      else st.onOutgoingIncrement (e.source st.layout))
    (fun _ _ h => h)
    (fun x e hx => by
      rw [hx.1, hx.2]
      cases e.isWeak && !(st.phase (e.source st.layout)).isRunning <;> rfl)
    (st.inEdges .externalGraph me) ⟨rfl, rfl⟩
  rw [hfold, Core.foldl_proj (F := Core.incUses) (fun c => c.layout) (fun _ _ => rfl)]

lemma callOnOuterOutgoingDecrement_core (st : State) (me : ServiceId) :
    (st.callOnOuterOutgoingDecrement me).toCore =
      (unlockedSources st.toCore me).foldl Core.decUses st.toCore := by
  unfold callOnOuterOutgoingDecrement unlockedSources
  simp only
  rw [implicitSource_core onOutgoingDecrement_core, List.foldl_append]
  have hfold := foldl_core (a := st) (F := Core.decUses)
    (P := fun c => c.phase = st.phase ∧ c.layout = st.layout)
    (p := fun e => (st.phase (e.source st.layout)).isRunning)
    (g := Edge.source st.layout) (f := fun st e =>
      if (st.phase (e.source st.layout)).isRunning then
        st.onOutgoingDecrement (e.source st.layout)
      else st)
    (fun _ _ h => h)
    (fun x e hx => by
      rw [hx.1, hx.2]
      split
      · exact onOutgoingDecrement_core _ _
      · rfl)
    (st.inEdges .externalGraph me) ⟨rfl, rfl⟩
  rw [hfold, Core.foldl_proj (F := Core.decUses) (fun c => c.layout) (fun _ _ => rfl)]

/-- The uses of a service by those that were locked before it was running. -/
lemma callOnOuterDelayedOutgoingIncrement_core (st : State) (me : ServiceId) :
    (st.callOnOuterDelayedOutgoingIncrement me).toCore =
      (((st.outEdges .externalGraph me).filter fun e =>
        (st.phase (e.target st.layout)).isLocked).map fun _ => me).foldl Core.incUses st.toCore :=
  foldl_core (F := Core.incUses) (P := fun c => c.phase = st.phase ∧ c.layout = st.layout)
    (fun _ _ h => h)
    (fun x e hx => by
      rw [hx.1, hx.2]
      split <;> rfl)
    _ ⟨rfl, rfl⟩

lemma callOnInnerOutgoingIncrement_core (st : State) (me : ServiceId) :
    (st.callOnInnerOutgoingIncrement me).toCore =
      ((st.inEdges .clusterGraph me).map (Edge.source st.layout)).foldl Core.incUses st.toCore :=
  foldl_core_all (F := Core.incUses) (P := fun c => c.layout = st.layout) (fun _ _ h => h)
    (fun x e hx => by rw [hx]; rfl) _ rfl

lemma callOnInnerOutgoingDecrement_core (st : State) (me : ServiceId) :
    (st.callOnInnerOutgoingDecrement me).toCore =
      ((st.inEdges .clusterGraph me).map (Edge.source st.layout)).foldl Core.decUses st.toCore :=
  foldl_core_all (F := Core.decUses) (P := fun c => c.layout = st.layout) (fun _ _ h => h)
    (fun x e hx => by rw [hx]; exact onOutgoingDecrement_core _ _) _ rfl

/-! ### Dependencies that are missing -/

/-- The clusters that wait for a service other than the root. -/
def waiting (c : Core) (me : ServiceId) : List ServiceId :=
  (c.outEdges (.union .externalGraph .strongUsageGraph) me).map (Edge.target c.layout)

/-- The service that waits for a member of its cluster. -/
def innerWaiting (c : Core) (me : ServiceId) : List ServiceId :=
  (c.outEdges .clusterGraph me).map (Edge.target c.layout)

lemma callOnRequiredIncrement_core (hme : me ≠ st.layout.root) :
    (st.callOnRequiredIncrement me).toCore = (waiting st.toCore me).foldl Core.incOuter
      ((innerWaiting st.toCore me).foldl Core.incInner st.toCore) := by
  unfold callOnRequiredIncrement
  simp only [if_pos hme]
  have hinner := foldl_core_all (a := st) (F := Core.incInner)
    (P := fun c => c.toTopology = st.toTopology) (g := Edge.target st.layout)
    (f := fun st e => st.onInnerRequiredIncrement (e.target st.layout)) (fun _ _ h => h)
    (fun x e hx => by rw [show x.layout = st.layout from congrArg (·.layout) hx]; rfl)
    (st.outEdges .clusterGraph me) rfl
  generalize (st.outEdges .clusterGraph me).foldl _ st = st' at hinner ⊢
  have htop : st'.toTopology = st.toTopology := by
    rw [hinner, Core.foldl_proj (F := Core.incInner) (fun c => c.toTopology) (fun _ _ => rfl)]
  rw [foldl_core_all (F := Core.incOuter) (P := fun c => c.toTopology = st.toTopology)
    (g := Edge.target st.layout) (fun _ _ h => h)
    (fun x e hx => by rw [show x.layout = st.layout from congrArg (·.layout) hx]; rfl) _ htop,
    htop, hinner]
  rfl

lemma callOnRequiredIncrement_root_core (st : State) :
    (st.callOnRequiredIncrement st.layout.root).toCore =
      st.transitiveServices.tail.foldl Core.incOuter st.toCore := by
  unfold callOnRequiredIncrement
  simp only [ne_eq, not_true, if_false]
  have hfold := foldl_core_all (a := st) (F := Core.incOuter) (P := fun _ => True) (g := id)
    (f := onOuterRequiredIncrement) (fun _ _ h => h) (fun x e _ => rfl)
    st.transitiveServices.tail trivial
  rwa [List.map_id] at hfold

lemma callOnRequiredDecrement_core (hme : me ≠ st.layout.root)
    (hrun : st.phase st.layout.root = .running) :
    (st.callOnRequiredDecrement onServiceStartable me).toCore =
      (waiting st.toCore me).foldl Core.decOuter
        ((innerWaiting st.toCore me).foldl Core.decInner st.toCore) := by
  unfold callOnRequiredDecrement
  simp only [if_pos hme]
  have hinner := foldl_core_all (a := st) (F := Core.decInner)
    (P := fun c => c.toTopology = st.toTopology ∧ c.phase = st.phase)
    (g := Edge.target st.layout)
    (f := fun st e => st.onInnerRequiredDecrement onServiceStartable (e.target st.layout))
    (fun _ _ h => h)
    (fun x e hx => by
      have hlayout : x.layout = st.layout := congrArg (·.layout) hx.1
      rw [onInnerRequiredDecrement_core (.inl ?_), hlayout]
      change x.phase x.layout.root = .running
      rw [hx.2, hlayout, hrun])
    (st.outEdges .clusterGraph me) ⟨rfl, rfl⟩
  generalize (st.outEdges .clusterGraph me).foldl _ st = st' at hinner ⊢
  have htop : st'.toTopology = st.toTopology := by
    rw [hinner, Core.foldl_proj (F := Core.decInner) (fun c => c.toTopology) (fun _ _ => rfl)]
  have hphase : st'.phase = st.phase := by
    rw [hinner, Core.foldl_proj (F := Core.decInner) (fun c => c.phase) (fun _ _ => rfl)]
  rw [foldl_core_all (F := Core.decOuter)
    (P := fun c => c.toTopology = st.toTopology ∧ c.phase = st.phase)
    (g := Edge.target st.layout) (fun _ _ h => h)
    (fun x e hx => by
      have hlayout : x.layout = st.layout := congrArg (·.layout) hx.1
      rw [onOuterRequiredDecrement_core (.inl ?_), hlayout]
      change x.phase x.layout.root = .running
      rw [hx.2, hlayout, hrun]) _ ⟨htop, hphase⟩,
    htop, hinner]
  rfl

lemma callOnRequiredDecrement_root_core (hrun : st.phase st.layout.root = .running) :
    (st.callOnRequiredDecrement onServiceStartable st.layout.root).toCore =
      st.transitiveServices.tail.foldl Core.decOuter st.toCore := by
  unfold callOnRequiredDecrement
  simp only [ne_eq, not_true, if_false]
  have hfold := foldl_core_all (a := st) (F := Core.decOuter)
    (P := fun c => c.phase c.layout.root = .running) (g := id)
    (f := fun st s => st.onOuterRequiredDecrement onServiceStartable s) (fun _ _ h => h)
    (fun x e hx => onOuterRequiredDecrement_core (.inl hx)) st.transitiveServices.tail hrun
  rwa [List.map_id] at hfold

end State

end Idle
