import Idle.Parts.Dependency

/-!
# Dynamic dependencies

A `DynDependency` may change the interface it uses while its owner is locked. It then holds two
usages: the active one and the preferred one that it is about to be swapped for. The swap is offered
to the user on a later turn of the event loop; the user applies it when he likes to, on the event
loop or on another thread.
-/

namespace Idle

variable {ι : Type*}

/-- `SwapAction`, with the epoch that its handle has been created in. -/
structure SwapAction (ι : Type*) where
  epoch : Nat
  source : Option ι
  target : Option ι

/-- `DynDependencyBase`, with what it reads of its owner and with the tasks that refer to it. -/
structure DynDependency (ι : Type*) where
  active : Link ι
  pref : Link ι
  /-- The preferred usage is linked behind the active one in the `ImportList`. -/
  chained : Bool
  /-- `userspace_ptr_` -/
  userspace : Option ι
  pending : Bool
  /-- `Import::satisfied_` -/
  satisfied : Bool
  phase : Phase
  epoch : Nat
  /-- What the hook `canSwap` answers at present. -/
  canSwap : Option ι → Option ι → Bool
  /-- The calls of `onSwap` that are posted to the event loop. -/
  offers : List (SwapAction ι)
  /-- The actions in the hands of the user. -/
  actions : List (SwapAction ι)
  /-- The calls of `finalize` that are posted to the event loop, by the epoch of their handle. -/
  finalizers : List Nat
  /-- `IDLE_DETAIL_UNREACHABLE` has been reached. -/
  aborted : Bool

namespace DynDependency

def isLocked (d : DynDependency ι) : Bool := d.phase.isLocked

/-- `Handle::lock` -/
def isHandleValid (d : DynDependency ι) (epoch : Nat) : Bool :=
  d.phase.isUsable && d.epoch == epoch

/-- The usages that `imports()` enumerates. -/
def imports (d : DynDependency ι) : List (Link ι) :=
  if d.active.ptr.isSome then d.active :: (if d.chained then [d.pref] else []) else []

def setSatisfied (d : DynDependency ι) (satisfied : Bool) : DynDependency ι := { d with satisfied }

/-- `active().ptr() = reference_of(inter); active().connect();` -/
def activate (d : DynDependency ι) (inter : ι) : DynDependency ι :=
  { d with active := (d.active.set inter).connect }

/-- `pref().disconnect(); ImportList::disconnect(pref());` -/
def dropPref (d : DynDependency ι) : DynDependency ι :=
  { d with pref := d.pref.disconnect, chained := false }

/-- `DynDependencyBase::onPartInit` of a new part. -/
def onPartInit (interfaces : List ι) (canSwap : Option ι → Option ι → Bool) : DynDependency ι :=
  let d : DynDependency ι :=
    { active := .empty, pref := .empty, chained := false, userspace := none, pending := false
      satisfied := true, phase := .stopped, epoch := 0, canSwap, offers := [], actions := []
      finalizers := [], aborted := false }
  match interfaces.head? with
  | some front => d.activate front
  | none => d.setSatisfied false

def onPartDestroy (d : DynDependency ι) : DynDependency ι :=
  if d.active.ptr.isSome then { d with active := d.active.disconnect.reset } else d

def store (d : DynDependency ι) (preferred : Option ι) : DynDependency ι :=
  { d with userspace := preferred }

def onImportLock (d : DynDependency ι) : DynDependency ι := d.store d.active.ptr

/-- The active usage takes the interface of the preferred one. -/
def promote (d : DynDependency ι) : DynDependency ι :=
  let d := { d with active := d.active.disconnect }
  let d := { d with active := { d.active with ptr := d.pref.ptr } }
  let d := { d with active := d.active.connect }
  let d := d.dropPref
  { d with pref := d.pref.reset }

def onImportUnlock (d : DynDependency ι) : DynDependency ι :=
  let d := d.store none
  let d := if d.pref.ptr.isSome then d.promote else d
  { d with pending := false }

/-- `DynDependencyBase::offerSwap` posts the call of `onSwap`. -/
def offerSwap (d : DynDependency ι) : DynDependency ι :=
  { d with
    pending := true
    offers := d.offers ++ [⟨d.epoch, d.active.ptr, d.pref.ptr⟩] }

section Events

variable (R : Ranking ι)

/-- The interface that `onSubscribedCreated` compares the new one with. -/
def current (d : DynDependency ι) : Option ι :=
  if d.isLocked && d.pref.ptr.isSome then d.pref.ptr else d.active.ptr

/-- The test that `onSubscribedCreated` begins with. -/
def keeps (d : DynDependency ι) (inter : ι) : Bool :=
  match d.current with
  | some cur => !R.greater inter cur
  | none => false

/-- `isRunning` is the state of the owner of the new interface. -/
def onSubscribedCreated (inter : ι) (isRunning : Bool) (d : DynDependency ι) : DynDependency ι :=
  if d.keeps R inter then d
  else if d.isLocked then
    if d.pending then d
    else if !d.canSwap d.active.ptr (some inter) then d
    else
      let d := if d.pref.ptr.isSome then d.dropPref else d
      let d := { d with pref := d.pref.set inter, chained := true }
      let d := { d with pref := d.pref.connect }
      if isRunning then d.offerSwap else d
  else
    let d := if d.active.ptr.isSome then { d with active := d.active.disconnect } else d
    (d.activate inter).setSatisfied true

def onUsedStarted (d : DynDependency ι) : DynDependency ι :=
  if d.isLocked then d.offerSwap else d

/-- `DynDependencyBase::onUsedDestroy` up to the creation of a default. While the owner is locked
the preferred interface is selected anew, but the result is not used. -/
def onUsedDestroy (interfaces : List ι) (d : DynDependency ι) : DynDependency ι :=
  if d.isLocked then d
  else
    let d := { d with active := d.active.disconnect }
    match interfaces.head? with
    | some front => d.activate front
    | none =>
      let d := d.setSatisfied false
      { d with active := d.active.reset }

end Events

/-! ### Release requests -/

variable [DecidableEq ι]

/-- The loop of `reselect_preferred`. -/
def reselectPreferred (d : DynDependency ι) (exclude : ι) : List ι → Option ι
  | [] => none
  | available :: rest =>
    if available = exclude then d.reselectPreferred exclude rest
    else if some available = d.active.ptr then none
    else some available

def reconnectPreferred (d : DynDependency ι) (replacement : Option ι) : DynDependency ι :=
  let d := { d with pref := d.pref.disconnect }
  match replacement with
  | some inter =>
    let d := { d with pref := d.pref.set inter }
    { d with pref := d.pref.connect }
  | none => { d with pref := d.pref.reset, chained := false }

def getNextPreferred (interfaces : List ι) (d : DynDependency ι) (current : ι) : Option ι :=
  if some current = d.active.ptr then d.pref.ptr else d.reselectPreferred current interfaces

def onReleaseRequest (interfaces : List ι) (exp : ι) (d : DynDependency ι) :
    ReleaseReply × DynDependency ι :=
  if d.pending then (if some exp = d.active.ptr then .later else .never, d)
  else
    let replacement := d.getNextPreferred interfaces exp
    if d.canSwap (some exp) replacement then
      if some exp = d.pref.ptr then (.now, d.reconnectPreferred replacement) else (.later, d)
    else (.never, d)

/-! ### Swaps -/

/-- `DynDependencyBase::finalize`. The last branch is marked as unreachable in the source. -/
def finalize (interfaces : List ι) (d : DynDependency ι) : DynDependency ι :=
  let d := d.promote
  let d := { d with pending := false }
  if interfaces.head? ≠ d.active.ptr then { d with aborted := true } else d

/-- The event loop runs the posted call of `onSwap`, which hands the action to the user. -/
def onSwap (k : Nat) (d : DynDependency ι) : DynDependency ι :=
  match d.offers[k]? with
  | none => d
  | some action =>
    let d := { d with offers := d.offers.eraseIdx k }
    if d.isHandleValid action.epoch then { d with actions := d.actions ++ [action] } else d

/-- `SwapAction::apply`, which uses the action up. -/
def apply (interfaces : List ι) (k : Nat) (isOnEventLoop : Bool) (d : DynDependency ι) :
    DynDependency ι :=
  match d.actions[k]? with
  | none => d
  | some action =>
    let d := { d with actions := d.actions.eraseIdx k }
    if d.isHandleValid action.epoch then
      let d := d.store action.target
      if isOnEventLoop then d.finalize interfaces
      else { d with finalizers := d.finalizers ++ [action.epoch] }
    else d

/-- The event loop runs the posted call of `finalize`. -/
def runFinalizer (interfaces : List ι) (k : Nat) (d : DynDependency ι) : DynDependency ι :=
  match d.finalizers[k]? with
  | none => d
  | some epoch =>
    let d := { d with finalizers := d.finalizers.eraseIdx k }
    if d.isHandleValid epoch then d.finalize interfaces else d

end DynDependency

end Idle
