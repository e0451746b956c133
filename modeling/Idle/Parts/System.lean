import Idle.Library.Machine
import Idle.Parts.DynDependency
import Idle.Parts.DynDependencies

/-!
# The parts around one registry

The services that publish an interface of one id, and the parts that depend on that id. The services
come and go, start and stop; the owners of the parts are locked and unlocked. What the scheduler
ensures is the precondition of an operation: a service is destroyed only while it is stopped, it is
stopped only while no locked part holds a strong usage of it, and the owner of a part is locked only
when what the part strongly uses is running.
-/

namespace Idle

variable {ι : Type*}

structure System (ι : Type*) where
  /-- `RegistryImpl::interfaces_` -/
  interfaces : List ι
  /-- The owner of the interface is initialised. -/
  alive : ι → Bool
  /-- The owner of the interface is running. -/
  running : ι → Bool
  dependency : List (Dependency ι)
  dynDependency : List (DynDependency ι)
  dynDependencies : List (DynDependencies ι)

/-! ### The owners of the parts -/

/-- What happens to the owner of a part; `move` stands for the transitions of a locked service that
leave it locked. -/
inductive OwnerOp where
  | destroy
  | lock
  | move (p : Phase)
  | unlock

def OwnerOp.Pre (phase : Phase) : OwnerOp → Prop
  | destroy => phase = .stopped
  | lock => phase = .stopped
  | move p => phase.isLocked = true ∧ p.isLocked = true
  | unlock => phase = .pending

lemma Phase.isInitializedUnsafe_of_isLocked {p : Phase} (h : p.isLocked = true) :
    p.isInitializedUnsafe = true := by
  cases p <;> first | rfl | cases h

namespace Dependency

variable [DecidableEq ι]

def own (R : Ranking ι) (interfaces : List ι) (op : OwnerOp) (d : Dependency ι) : Dependency ι :=
  match op with
  | .destroy => { d.onPartDestroy with phase := .destroyed }
  | .lock => { d with phase := .locked }
  | .move p => { d with phase := p }
  | .unlock => { d.onImportUnlock R interfaces with phase := .stopped }

/-- A cluster is locked when its imports are satisfied and its strong dependencies are running. -/
def OwnPre (running : ι → Bool) (d : Dependency ι) (op : OwnerOp) : Prop :=
  op.Pre d.phase ∧ match op with
    | .lock => d.satisfied = true ∧ ∀ i ∈ d.ref.connected, running i = true
    | _ => True

/-- The subscriber of a registry is one that is initialised. -/
def isSubscribed (d : Dependency ι) : Bool := d.phase.isInitializedUnsafe

end Dependency

namespace DynDependency

variable [DecidableEq ι]

/-- The epoch ends right before the cluster is unlocked. -/
def own (op : OwnerOp) (d : DynDependency ι) : DynDependency ι :=
  match op with
  | .destroy => { d.onPartDestroy with phase := .destroyed }
  | .lock => onImportLock { d with phase := .locked }
  | .move p => { d with phase := p }
  | .unlock => { onImportUnlock { d with epoch := d.epoch + 1 } with phase := .stopped }

def OwnPre (running : ι → Bool) (d : DynDependency ι) (op : OwnerOp) : Prop :=
  op.Pre d.phase ∧ match op with
    | .lock => d.satisfied = true ∧ ∀ i ∈ d.active.connected, running i = true
    | _ => True

def isSubscribed (d : DynDependency ι) : Bool := d.phase.isInitializedUnsafe

/-- The usages of the part that the interface finds among its `dependent_users_`. -/
def usagesOf (d : DynDependency ι) (i : ι) : List (Link ι) :=
  [d.active, d.pref].filter fun l => l.connected = some i

end DynDependency

namespace DynDependencies

variable [DecidableEq ι]

def own (running : ι → Bool) (op : OwnerOp) (d : DynDependencies ι) : DynDependencies ι :=
  match op with
  | .destroy => { d.onPartDestroy with phase := .destroyed }
  | .lock => onImportLock running { d with phase := .locked }
  | .move p => { d with phase := p }
  | .unlock => { d.onImportUnlock with phase := .stopped }

def OwnPre (running : ι → Bool) (d : DynDependencies ι) (op : OwnerOp) : Prop :=
  op.Pre d.phase ∧ match op with
    | .lock => ∀ i ∈ d.used, (d.usage i).isWeak = false → running i = true
    | _ => True

def isSubscribed (d : DynDependencies ι) : Bool := d.phase.isInitializedUnsafe

/-- The interface finds a usage of the part among its `dependent_users_`. -/
def isUsing (d : DynDependencies ι) (i : ι) : Bool :=
  decide (i ∈ d.keys) && (d.usage i).isConnected

end DynDependencies

/-! ### Operations -/

/-- What happens to a dynamic dependency on its own. -/
inductive DynOp (ι : Type*) where
  | own (op : OwnerOp)
  | setCanSwap (canSwap : Option ι → Option ι → Bool)
  | release (exp : ι)
  | onSwap (k : Nat)
  | apply (k : Nat) (isOnEventLoop : Bool)
  | runFinalizer (k : Nat)

/-- What happens to a set of dependencies on its own. -/
inductive SetOp (ι : Type*) where
  | own (op : OwnerOp)
  | setHooks (hooks : DependenciesHooks ι)
  | release (exp : ι)
  | acquireUsage (dep : ι)
  | releaseUsage (dep : ι)

namespace System

inductive Op (ι : Type*) where
  | create (i : ι)
  | destroy (i : ι)
  | start (i : ι)
  | stop (i : ι)
  | unlocked (i : ι)
  | addDependency
  | dependency (n : Nat) (op : OwnerOp)
  | addDynDependency (canSwap : Option ι → Option ι → Bool)
  | dynDependency (n : Nat) (op : DynOp ι)
  | addDynDependencies (hooks : DependenciesHooks ι)
  | dynDependencies (n : Nat) (op : SetOp ι)

variable [DecidableEq ι] (R : Ranking ι)

/-! ### The registry -/

def onInterfaceCreate (st : System ι) (inter : ι) : System ι :=
  { st with
    interfaces := R.insertSorted inter st.interfaces
    dependency := st.dependency.map fun d =>
      if d.isSubscribed then d.onSubscribedCreated R inter else d
    dynDependency := st.dynDependency.map fun d =>
      if d.isSubscribed then d.onSubscribedCreated R inter (st.running inter) else d
    dynDependencies := st.dynDependencies.map fun d =>
      if d.isSubscribed then d.onSubscribedCreated inter else d }

/-- `RegistryImpl::onInterfaceStart`; a `Dependency` has no hook for it. -/
def onInterfaceStart (st : System ι) (inter : ι) : System ι :=
  { st with
    dynDependency := st.dynDependency.map fun d =>
      (d.usagesOf inter).foldl (fun d _ => if d.isLocked then d.onUsedStarted else d) d
    dynDependencies := st.dynDependencies.map fun d =>
      if d.isUsing inter && d.isLocked then d.onUsedStarted inter else d }

/-- `RegistryImpl::onInterfaceDestroy` among parts that have no default. Each callback takes at most
its own usage out of the list that is gone through, and each part is told of its own usages only;
`endInterface` has the list and the defaults. -/
def onInterfaceDestroy (st : System ι) (inter : ι) : System ι :=
  let interfaces := st.interfaces.erase inter
  { st with
    interfaces
    dependency := st.dependency.map fun d =>
      if d.ref.connected = some inter then d.onUsedDestroy interfaces else d
    dynDependency := st.dynDependency.map fun d =>
      (d.usagesOf inter).foldl (fun d _ => d.onUsedDestroy interfaces) d
    dynDependencies := st.dynDependencies.map fun d =>
      let d := if d.isUsing inter then d.onUsedDestroy inter else d
      if d.isSubscribed then d.onSubscribedDestroy inter else d }

def onInterfaceUnlock (st : System ι) (inter : ι) : System ι :=
  { st with
    dynDependencies := st.dynDependencies.map fun d =>
      if d.isSubscribed then d.onSubscribedUnlocked inter else d }

/-! ### Steps -/

def stepDyn (st : System ι) (op : DynOp ι) (d : DynDependency ι) : DynDependency ι :=
  match op with
  | .own op => d.own op
  | .setCanSwap canSwap => { d with canSwap }
  | .release exp => (d.onReleaseRequest st.interfaces exp).2
  | .onSwap k => d.onSwap k
  | .apply k isOnEventLoop => d.apply st.interfaces k isOnEventLoop
  | .runFinalizer k => d.runFinalizer st.interfaces k

def stepSet (st : System ι) (op : SetOp ι) (d : DynDependencies ι) : DynDependencies ι :=
  match op with
  | .own op => d.own st.running op
  | .setHooks hooks => { d with hooks }
  | .release exp => (d.onReleaseRequest exp).2
  | .acquireUsage dep => d.doAcquireUsage dep
  | .releaseUsage dep => d.doReleaseUsage dep

def step (st : System ι) : Op ι → System ι
  | .create i => onInterfaceCreate R { st with alive := Function.update st.alive i true } i
  | .destroy i => onInterfaceDestroy { st with alive := Function.update st.alive i false } i
  | .start i => onInterfaceStart { st with running := Function.update st.running i true } i
  | .stop i => { st with running := Function.update st.running i false }
  | .unlocked i => st.onInterfaceUnlock i
  | .addDependency => { st with dependency := st.dependency ++ [.onPartInit st.interfaces] }
  | .dependency n op => { st with dependency := st.dependency.modify n (.own R st.interfaces op) }
  | .addDynDependency canSwap =>
    { st with dynDependency := st.dynDependency ++ [.onPartInit st.interfaces canSwap] }
  | .dynDependency n op => { st with dynDependency := st.dynDependency.modify n (st.stepDyn op) }
  | .addDynDependencies hooks =>
    { st with dynDependencies := st.dynDependencies ++ [.onPartInit st.interfaces hooks] }
  | .dynDependencies n op =>
    { st with dynDependencies := st.dynDependencies.modify n (st.stepSet op) }

/-! ### Preconditions -/

/-- No locked part holds a strong usage of `i`. -/
def IsReleased (st : System ι) (i : ι) : Prop :=
  (∀ d ∈ st.dependency, d.isLocked = true → d.ref.connected ≠ some i) ∧
  (∀ d ∈ st.dynDependency, d.isLocked = true → d.usagesOf i = []) ∧
  ∀ d ∈ st.dynDependencies, d.isLocked = true → i ∈ d.used → (d.usage i).isWeak = true

def DynPre (st : System ι) (d : DynDependency ι) : DynOp ι → Prop
  | .own op => d.OwnPre st.running op
  | .setCanSwap _ => True
  | .release exp => d.usagesOf exp ≠ []
  | .onSwap k => k < d.offers.length
  | .apply k _ => k < d.actions.length
  | .runFinalizer k => k < d.finalizers.length

def SetPre (st : System ι) (d : DynDependencies ι) : SetOp ι → Prop
  | .own op => d.OwnPre st.running op
  | .setHooks _ => True
  | .release exp => d.isUsing exp = true
  | .acquireUsage dep => dep ∈ st.interfaces
  | .releaseUsage _ => True

/-- What the callers of an operation ensure. Two objects that exist have two addresses. -/
def Pre (st : System ι) : Op ι → Prop
  | .create i => st.alive i = false ∧ ∀ j ∈ st.interfaces, R.address j ≠ R.address i
  | .destroy i => st.alive i = true ∧ st.running i = false
  | .start i => st.alive i = true ∧ st.running i = false
  | .stop i => st.running i = true ∧ st.IsReleased i
  | .unlocked i => st.alive i = true ∧ st.running i = false
  | .addDependency => True
  | .dependency n op => ∃ d ∈ st.dependency[n]?, d.OwnPre st.running op
  | .addDynDependency _ => True
  | .dynDependency n op => ∃ d ∈ st.dynDependency[n]?, st.DynPre d op
  | .addDynDependencies _ => True
  | .dynDependencies n op => ∃ d ∈ st.dynDependencies[n]?, st.SetPre d op

def empty : System ι :=
  { interfaces := [], alive := fun _ => false, running := fun _ => false, dependency := []
    dynDependency := [], dynDependencies := [] }

omit [DecidableEq ι] in
/-- No part has come to code that is marked as unreachable. -/
def IsUp (st : System ι) : Prop := ∀ d ∈ st.dynDependency, d.aborted = false

/-- The parts and the interfaces of one id over their lives. -/
def machine : Machine (System ι) (Op ι) where
  init st := st = empty
  pre st op := st.IsUp ∧ Pre R st op
  step := step R

section Decidable

instance (phase : Phase) : (op : OwnerOp) → Decidable (op.Pre phase)
  | .destroy => inferInstanceAs (Decidable (_ = _))
  | .lock => inferInstanceAs (Decidable (_ = _))
  | .move _ => inferInstanceAs (Decidable (_ ∧ _))
  | .unlock => inferInstanceAs (Decidable (_ = _))

variable (st : System ι)

instance (d : Dependency ι) : (op : OwnerOp) → Decidable (d.OwnPre st.running op)
  | .destroy => inferInstanceAs (Decidable (_ ∧ True))
  | .lock => inferInstanceAs (Decidable (_ ∧ _ ∧ ∀ i ∈ d.ref.connected, st.running i = true))
  | .move _ => inferInstanceAs (Decidable (_ ∧ True))
  | .unlock => inferInstanceAs (Decidable (_ ∧ True))

instance (d : DynDependency ι) : (op : OwnerOp) → Decidable (d.OwnPre st.running op)
  | .destroy => inferInstanceAs (Decidable (_ ∧ True))
  | .lock => inferInstanceAs (Decidable (_ ∧ _ ∧ ∀ i ∈ d.active.connected, st.running i = true))
  | .move _ => inferInstanceAs (Decidable (_ ∧ True))
  | .unlock => inferInstanceAs (Decidable (_ ∧ True))

instance (d : DynDependencies ι) : (op : OwnerOp) → Decidable (d.OwnPre st.running op)
  | .destroy => inferInstanceAs (Decidable (_ ∧ True))
  | .lock => inferInstanceAs (Decidable
      (_ ∧ ∀ i ∈ d.used, (d.usage i).isWeak = false → st.running i = true))
  | .move _ => inferInstanceAs (Decidable (_ ∧ True))
  | .unlock => inferInstanceAs (Decidable (_ ∧ True))

instance (d : DynDependency ι) : (op : DynOp ι) → Decidable (st.DynPre d op)
  | .own op => inferInstanceAs (Decidable (d.OwnPre st.running op))
  | .setCanSwap _ => .isTrue trivial
  | .release _ => inferInstanceAs (Decidable (_ ≠ _))
  | .onSwap _ => inferInstanceAs (Decidable (_ < _))
  | .apply _ _ => inferInstanceAs (Decidable (_ < _))
  | .runFinalizer _ => inferInstanceAs (Decidable (_ < _))

instance (d : DynDependencies ι) : (op : SetOp ι) → Decidable (st.SetPre d op)
  | .own op => inferInstanceAs (Decidable (d.OwnPre st.running op))
  | .setHooks _ => .isTrue trivial
  | .release _ => inferInstanceAs (Decidable (_ = _))
  | .acquireUsage _ => inferInstanceAs (Decidable (_ ∈ _))
  | .releaseUsage _ => .isTrue trivial

instance (i : ι) : Decidable (st.IsReleased i) := inferInstanceAs (Decidable (_ ∧ _ ∧ _))

instance : (op : Op ι) → Decidable (Pre R st op)
  | .create _ => inferInstanceAs (Decidable (_ ∧ _))
  | .destroy _ => inferInstanceAs (Decidable (_ ∧ _))
  | .start _ => inferInstanceAs (Decidable (_ ∧ _))
  | .stop _ => inferInstanceAs (Decidable (_ ∧ _))
  | .unlocked _ => inferInstanceAs (Decidable (_ ∧ _))
  | .addDependency => .isTrue trivial
  | .dependency n op =>
    inferInstanceAs (Decidable (∃ d ∈ st.dependency[n]?, d.OwnPre st.running op))
  | .addDynDependency _ => .isTrue trivial
  | .dynDependency n op => inferInstanceAs (Decidable (∃ d ∈ st.dynDependency[n]?, st.DynPre d op))
  | .addDynDependencies _ => .isTrue trivial
  | .dynDependencies n op =>
    inferInstanceAs (Decidable (∃ d ∈ st.dynDependencies[n]?, st.SetPre d op))

omit [DecidableEq ι] in
instance : Decidable st.IsUp := inferInstanceAs (Decidable (∀ d ∈ st.dynDependency, _))

instance (op : Op ι) : Decidable ((machine R).pre st op) := inferInstanceAs (Decidable (_ ∧ _))

end Decidable

/-! ### The registry along a run -/

omit [DecidableEq ι] in
lemma mem_modify {α : Type*} {l : List α} {n : Nat} {f : α → α} {b : α} (h : b ∈ l.modify n f) :
    b ∈ l ∨ ∃ a, l[n]? = some a ∧ b = f a := by
  obtain ⟨k, hk⟩ := List.mem_iff_getElem?.1 h
  rw [List.getElem?_modify] at hk
  by_cases hn : n = k
  · subst hn
    simp only [if_true, Option.map_eq_map] at hk
    obtain ⟨a, ha, rfl⟩ := Option.map_eq_some_iff.1 hk
    exact .inr ⟨a, ha, rfl⟩
  · simp only [hn, if_false, Option.map_eq_map] at hk
    exact .inl (List.mem_of_getElem? (by simpa using hk))

/-- The registry holds the published interfaces in their order. -/
structure Registered (st : System ι) : Prop where
  sorted : R.Sorted st.interfaces
  mem_iff : ∀ i, i ∈ st.interfaces ↔ st.alive i = true
  alive : ∀ i, st.running i = true → st.alive i = true

namespace Registered

variable {R} [IsStrictWeakOrder ι R.Greater] {st : System ι}

omit [IsStrictWeakOrder ι R.Greater] in
lemma empty : Registered R (System.empty : System ι) :=
  ⟨List.Pairwise.nil, by simp [System.empty], by simp [System.empty]⟩

/-- Only these three operations concern the registry. -/
lemma step (h : Registered R st) {op : Op ι} (hpre : Pre R st op) :
    Registered R (st.step R op) := by
  cases op with
  | create i =>
    refine ⟨h.sorted.insertSorted hpre.2, fun j => ?_, fun j hj => ?_⟩
    · by_cases hji : j = i
      · simp [System.step, onInterfaceCreate, hji]
      · simpa [System.step, onInterfaceCreate, hji] using h.mem_iff j
    · by_cases hji : j = i
      · simp [System.step, onInterfaceCreate, hji]
      · simpa [System.step, onInterfaceCreate, hji] using h.alive j hj
  | destroy i =>
    refine ⟨h.sorted.erase i, fun j => ?_, fun j hj => ?_⟩
    · have hmem := h.sorted.nodup.mem_erase_iff (a := j) (b := i)
      by_cases hji : j = i
      · subst hji
        simp [System.step, onInterfaceDestroy, hmem]
      · simpa [System.step, onInterfaceDestroy, hmem, hji] using h.mem_iff j
    · by_cases hji : j = i
      · subst hji
        exact absurd (hj.symm.trans hpre.2) (by simp)
      · simpa [System.step, onInterfaceDestroy, hji] using h.alive j hj
  | start i =>
    refine ⟨h.sorted, h.mem_iff, fun j hj => ?_⟩
    by_cases hji : j = i
    · subst hji
      exact hpre.1
    · exact h.alive j (by simpa [System.step, onInterfaceStart, hji] using hj)
  | stop i =>
    refine ⟨h.sorted, h.mem_iff, fun j hj => ?_⟩
    by_cases hji : j = i
    · simp [System.step, hji] at hj
    · exact h.alive j (by simpa [System.step, hji] using hj)
  | unlocked | addDependency | dependency | addDynDependency | dynDependency | addDynDependencies
  | dynDependencies => exact ⟨h.sorted, h.mem_iff, h.alive⟩

lemma of_reachable {cond : System ι → Op ι → Prop} (h : (machine R).Reachable cond st) :
    Registered R st :=
  h.invariant (fun _ hst => hst ▸ .empty) fun _ _ _ hreg hpre _ => hreg.step hpre.2

end Registered

end System

end Idle
