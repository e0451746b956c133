import Mathlib.Tactic

/-!
# The data model of the core

Services, their parts, the clusters they form, and the state of the scheduler, as
`service.hpp`, `state.inl` and `scheduler.hpp` declare them.

A service is named by the address of its object. A cluster is named by the address of its head:
`Service::cluster_` points to a record that is allocated together with the head. The fields of
that record and of the services are kept as functions of these addresses.

Fields the program does not have are marked as history: they record what happened and are never
read by the operations.
-/

namespace Idle

/-- The address of a service object. -/
abbrev ServiceId := Nat

/-- The address of a usage object. -/
abbrev UsageId := Nat

/-! ### Phases -/

/-- `Service::Phase`, in the order of `state.inl`. -/
inductive Phase where
  | uninitialized
  | onInit
  | stopped
  | locked
  | starting
  | running
  | stopping
  | pending
  | onDestroy
  | destroyed
  deriving DecidableEq, Repr

namespace Phase

/-- The value of the underlying integer of the enumeration. -/
def index : Phase → Nat
  | uninitialized => 0
  | onInit        => 1
  | stopped       => 2
  | locked        => 3
  | starting      => 4
  | running       => 5
  | stopping      => 6
  | pending       => 7
  | onDestroy     => 8
  | destroyed     => 9

/-- `State::isBetween`: both bounds are inclusive. -/
def isBetween (p fromInclusive toInclusive : Phase) : Bool :=
  decide (fromInclusive.index ≤ p.index) && decide (p.index ≤ toInclusive.index)

def isLocked (p : Phase) : Bool := p.isBetween locked pending

def isRunning (p : Phase) : Bool := p == running

def isUsable (p : Phase) : Bool := p.isBetween starting running

def isStopped (p : Phase) : Bool := p == stopped

/-- `State::isInitializedUnsafe` -/
def isInitializedUnsafe : Phase → Bool
  | uninitialized | destroyed | onDestroy => false
  | _ => true

/-- The cycle a member of a cluster runs through. -/
def next? : Phase → Option Phase
  | stopped  => some locked
  | locked   => some starting
  | starting => some running
  | running  => some stopping
  | stopping => some pending
  | pending  => some stopped
  | _        => none

@[simp] lemma isLocked_stopped : isLocked stopped = false := rfl
@[simp] lemma isLocked_locked : isLocked locked = true := rfl
@[simp] lemma isLocked_starting : isLocked starting = true := rfl
@[simp] lemma isLocked_running : isLocked running = true := rfl
@[simp] lemma isLocked_stopping : isLocked stopping = true := rfl
@[simp] lemma isLocked_pending : isLocked pending = true := rfl
@[simp] lemma isRunning_running : isRunning running = true := rfl
@[simp] lemma isRunning_iff (p : Phase) : p.isRunning = true ↔ p = running := by simp [isRunning]

end Phase

/-! ### Parts and usages -/

/-- `Part::Kind`; an interface is an export that is entered into a registry. -/
inductive PartKind where
  | kImport
  | kExport
  deriving DecidableEq, Repr

/-- A part of a service, named by its owner, its kind and its offset. -/
structure Part where
  owner : ServiceId
  kind : PartKind
  offset : Nat
  deriving DecidableEq, Repr

namespace Part

/-- `isa<Import>(part)` -/
def isImport (p : Part) : Bool := p.kind == .kImport

/-- `isa<Export>(part)` -/
def isExport (p : Part) : Bool := p.kind == .kExport

@[simp] lemma isExport_eq_not (p : Part) : p.isExport = !p.isImport := by
  cases p with | mk o k i => cases k <;> rfl

end Part

/-- A connected `Usage` of the export `used` by the import `user`. -/
structure Usage where
  id : UsageId
  used : Part
  user : Part
  weak : Bool
  deriving DecidableEq, Repr

/-- `ReleaseReply` -/
inductive ReleaseReply where
  | never
  | now
  | later
  deriving DecidableEq, Repr

/-- The service objects with their parts. Parts are only added while a service is constructed and
`parent_` never changes, so this is fixed for the whole run. The root is its own parent; the
event loop executor, its only import, has no children and no usages and is left out. -/
structure Layout where
  root : ServiceId
  parent : ServiceId → Part
  parts : ServiceId → List Part
  parts_owner : ∀ {s p}, p ∈ parts s → p.owner = s
  parts_nodup : ∀ s, (parts s).Nodup
  root_owner : (parent root).owner = root
  root_isExport : (parent root).isExport = true
  root_parts : ∀ {p}, p ∈ parts root → p.isExport = true

namespace Layout

def imports (L : Layout) (s : ServiceId) : List Part := (L.parts s).filter Part.isImport

def exports (L : Layout) (s : ServiceId) : List Part := (L.parts s).filter Part.isExport

/-- `isa<Import>(s.parent())` for a service other than the root. -/
def isMember (L : Layout) (s : ServiceId) : Bool := (L.parent s).isImport

/-- `is_cluster_head` -/
def isClusterHead (L : Layout) (s : ServiceId) : Bool := (L.parent s).isExport

/-- `has_implicit_root_edge` -/
def hasImplicitRootEdge (L : Layout) (s : ServiceId) : Bool :=
  s != L.root && (L.parent s).owner != L.root

end Layout

/-! ### Clusters -/

/-- `detail::override_t` -/
inductive Override where
  | none
  | start
  deriving DecidableEq, Repr

/-- `detail::target_t` -/
inductive Target where
  | none
  | start
  | stop
  deriving DecidableEq, Repr

/-- `Reason` -/
inductive Reason where
  | manual
  | implicit
  deriving DecidableEq, Repr

/-- Which request a promise was passed to. -/
inductive PromiseKind where
  | start
  | stop
  | observe
  deriving DecidableEq, Repr

structure Promise where
  id : Nat
  kind : PromiseKind
  deriving DecidableEq, Repr

inductive Outcome where
  | value
  | canceled
  deriving DecidableEq, Repr

/-- A promise that was completed, with the state of its cluster at that moment. -/
structure Completion where
  promise : Promise
  outcome : Outcome
  headRunning : Bool
  running : BitVec 26
  deriving DecidableEq, Repr

/-- A call of `do_transition_phase`; `phase` is the phase the service really was in. -/
structure PhaseChange where
  service : ServiceId
  phase : Phase
  source : Phase
  target : Phase
  deriving DecidableEq, Repr

/-- Work posted to the event loop by the core itself. -/
inductive Posted where
  /-- The self restart posted by `do_unlock_cluster`. -/
  | restart (head : ServiceId)
  /-- The check posted by a `dec_use` that ran outside of the event loop. -/
  | reachedNoExternalUse (s : ServiceId) (current : UInt32)
  deriving DecidableEq, Repr

/-! ### The state -/

/-- Everything the iterators over services look at. -/
structure ServiceTree where
  layout : Layout
  /-- The initialised services, in the order of `onChildInit`. -/
  services : List ServiceId
  /-- `Service::cluster_` -/
  cluster : ServiceId → ServiceId

/-- Everything the graph views look at. -/
structure Topology extends ServiceTree where
  /-- The connected usages, in the order in which they entered `dependent_users_`. -/
  usages : List Usage

/-- The services and what they count about each other. -/
structure Core extends Topology where
  phase : ServiceId → Phase
  innerDepsMissing : ServiceId → UInt16
  uses : ServiceId → UInt32
  /-- `Import::satisfied_` -/
  satisfied : Part → Bool
  outerDepsMissing : ServiceId → UInt16
  /-- `Cluster::running_`, a bit-field of `running_bits` bits. -/
  running : ServiceId → BitVec 26
  epoch : ServiceId → Nat
  /-- History: the `Use` handles alive on a service. -/
  handles : ServiceId → Nat
  /-- History: the usages that were connected when the cluster of their user was locked. -/
  held : UsageId → Bool
  /-- History: what was reported to the listeners. -/
  changes : List PhaseChange
  /-- History: a decrement of `uses_` found at most one use. -/
  usesRanOut : Bool
  /-- History: a decrement of `outer_deps_missing_` found zero. -/
  outerRanOut : Bool

/-- What decides which services are started and stopped, and whom to tell about it. -/
structure Control where
  isMarkedForStop : ServiceId → Bool
  isMarkedForStart : ServiceId → Bool
  override : ServiceId → Override
  target : ServiceId → Target
  pushes : ServiceId → UInt16
  pulls : ServiceId → UInt16
  /-- `Cluster::promise_`, the chained promises in the order of `chain_promise`. -/
  promise : ServiceId → List Promise
  /-- `Usage::Flags::ReleaseRequested` -/
  releaseRequested : UsageId → Bool
  /-- `SchedulingQueue::down_` -/
  down : List ServiceId
  /-- `SchedulingQueue::up_` -/
  up : List ServiceId
  posted : List Posted
  /-- History: the promises whose request reached its event loop handler. -/
  reached : List Promise
  /-- History: the promises that were completed, oldest first. -/
  completed : List Completion

structure State extends Core, Control

namespace State

/-- The context after `Service::init` of the root, before anything else was initialised. -/
def initial (L : Layout) : State where
  layout := L
  services := [L.root]
  usages := []
  phase s := if s = L.root then .stopped else .uninitialized
  cluster s := s
  innerDepsMissing _ := 0
  uses _ := 0
  satisfied _ := true
  outerDepsMissing _ := 0
  running _ := 0
  epoch _ := 0
  handles _ := 0
  held _ := false
  changes := []
  usesRanOut := false
  outerRanOut := false
  isMarkedForStop _ := false
  isMarkedForStart _ := false
  override _ := .none
  target _ := .none
  pushes _ := 0
  pulls _ := 0
  promise _ := []
  releaseRequested _ := false
  down := []
  up := []
  posted := []
  reached := []
  completed := []

end State

end Idle
