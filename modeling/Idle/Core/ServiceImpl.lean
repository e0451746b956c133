import Idle.Core.Graph
import Idle.Core.Dfs

/-!
# `ServiceImpl`: counters, marks and transitions

The functions of `service_impl.cpp` as functions on the state, under the names of the source.
Assertions compile to nothing in a release build and are left out.

`Scheduler::on_service_startable` may start the root, which reports further services as startable
while the root is already running. The functions that report a service therefore take that
function as a parameter `startable`; `Scheduler.lean` ties the knot.
-/

namespace Idle

namespace Core

/-! ### Updates of single fields -/

/-- `do_transition_phase`: the listeners are told before the phase is stored. -/
def transition (c : Core) (s : ServiceId) (source target : Phase) : Core :=
  { c with
    phase := Function.update c.phase s target
    changes := c.changes ++ [⟨s, c.phase s, source, target⟩] }

def incUses (c : Core) (s : ServiceId) : Core :=
  { c with uses := Function.update c.uses s (c.uses s + 1) }

def decUses (c : Core) (s : ServiceId) : Core :=
  { c with
    uses := Function.update c.uses s (c.uses s - 1)
    usesRanOut := c.usesRanOut || decide (c.uses s ≤ 1) }

def incInner (c : Core) (s : ServiceId) : Core :=
  { c with innerDepsMissing := Function.update c.innerDepsMissing s (c.innerDepsMissing s + 1) }

def decInner (c : Core) (s : ServiceId) : Core :=
  { c with innerDepsMissing := Function.update c.innerDepsMissing s (c.innerDepsMissing s - 1) }

def incOuter (c : Core) (s : ServiceId) : Core :=
  { c with outerDepsMissing :=
      Function.update c.outerDepsMissing (c.cluster s) (c.outerDepsMissing (c.cluster s) + 1) }

def decOuter (c : Core) (s : ServiceId) : Core :=
  { c with
    outerDepsMissing :=
      Function.update c.outerDepsMissing (c.cluster s) (c.outerDepsMissing (c.cluster s) - 1)
    outerRanOut := c.outerRanOut || c.outerDepsMissing (c.cluster s) == 0 }

/-! ### Questions about a service -/

/-- `has_no_external_uses` -/
def hasNoExternalUses (c : Core) (me : ServiceId) (current : UInt32) : Bool :=
  current == 1 || (current == 2 && c.layout.isMember me)

/-- `State::isStartable` -/
def isStartable (c : Core) (s : ServiceId) : Bool :=
  c.innerDepsMissing s == 0 &&
    (c.phase s == .locked || (c.phase s == .stopped && c.outerDepsMissing (c.cluster s) == 0))

/-- `State::isStoppable` -/
def isStoppable (c : Core) (s : ServiceId) : Bool :=
  (c.phase s).isRunning && c.hasNoExternalUses s (c.uses s)

/-- `is_cluster_stopped` -/
def isClusterStopped (c : Core) (s : ServiceId) : Bool := c.running (c.cluster s) == 0

/-- `is_cluster_startable` -/
def isClusterStartable (c : Core) (head : ServiceId) : Bool :=
  c.outerDepsMissing (c.cluster head) == 0 && c.isClusterStopped head && !(c.phase head).isLocked

end Core

namespace State

/-! ### Questions about a cluster -/

def isClusterPushed (st : State) (s : ServiceId) : Bool := st.pushes (st.cluster s) != 0

def isClusterPulled (st : State) (s : ServiceId) : Bool := st.pulls (st.cluster s) != 0

def isClusterMarkedForStop (st : State) (s : ServiceId) : Bool := st.isMarkedForStop (st.cluster s)

def isClusterMarkedForStart (st : State) (s : ServiceId) : Bool :=
  st.isMarkedForStart (st.cluster s)

def shallClusterStart (st : State) (s : ServiceId) : Bool :=
  (st.isClusterPushed s && st.isClusterMarkedForStart s) &&
    !st.isClusterMarkedForStop s && !st.isClusterPulled s

def shallClusterStop (st : State) (s : ServiceId) : Bool :=
  !st.isClusterPushed s || st.isClusterMarkedForStop s

/-! ### The scheduling queue -/

/-- Insertion into a `FlatSet<Service*, std::greater<>>`. -/
def insertSorted (q : List ServiceId) (s : ServiceId) : List ServiceId :=
  if s ∈ q then q else q.orderedInsert (· ≥ ·) s

def pushUp (st : State) (s : ServiceId) : State := { st with up := insertSorted st.up s }

def pushDown (st : State) (s : ServiceId) : State := { st with down := insertSorted st.down s }

/-- `SchedulingQueue::erase` -/
def eraseFromQueue (st : State) (s : ServiceId) : State :=
  { st with down := st.down.erase s, up := st.up.erase s }

/-- `SchedulingQueue::pop`: the last element of `down_`, else the last one of `up_`. -/
def pop (st : State) : Option (ServiceId × State) :=
  match st.down.getLast? with
  | some s => some (s, { st with down := st.down.dropLast })
  | none =>
    match st.up.getLast? with
    | some s => some (s, { st with up := st.up.dropLast })
    | none => none

/-- `check_stoppable`; `Scheduler::on_service_stoppable` only pushes the service. -/
def checkStoppable (st : State) (me : ServiceId) : State :=
  if st.isStoppable me && st.shallClusterStop me then st.pushDown me else st

/-! ### Uses -/

def onOutgoingReachedNoExternalUse (st : State) (me : ServiceId) (current : UInt32) : State :=
  if current == 1 then st.checkStoppable me else st.checkStoppable (st.cluster me)

def onOutgoingIncrement (st : State) (me : ServiceId) : State :=
  { st with toCore := st.toCore.incUses me }

def onOutgoingDecrement (st : State) (me : ServiceId) : State :=
  let current := st.uses me - 1
  let st := { st with toCore := st.toCore.decUses me }
  if st.hasNoExternalUses me current then st.onOutgoingReachedNoExternalUse me current else st

def callOnOuterOutgoingIncrement (st : State) (me : ServiceId) : State :=
  let st := (st.inEdges .externalGraph me).foldl
    (fun st e =>
      if e.isWeak && !(st.phase (e.source st.layout)).isRunning then st
      else st.onOutgoingIncrement (e.source st.layout)) st
  if st.layout.hasImplicitRootEdge me then st.onOutgoingIncrement st.layout.root else st

def callOnOuterDelayedOutgoingIncrement (st : State) (me : ServiceId) : State :=
  (st.outEdges .externalGraph me).foldl
    (fun st e =>
      if (st.phase (e.target st.layout)).isLocked then st.onOutgoingIncrement me else st) st

def callOnOuterOutgoingDecrement (st : State) (me : ServiceId) : State :=
  let st := (st.inEdges .externalGraph me).foldl
    (fun st e =>
      if (st.phase (e.source st.layout)).isRunning then
        st.onOutgoingDecrement (e.source st.layout)
      else st) st
  if st.layout.hasImplicitRootEdge me then st.onOutgoingDecrement st.layout.root else st

def callOnInnerOutgoingIncrement (st : State) (me : ServiceId) : State :=
  (st.inEdges .clusterGraph me).foldl (fun st e => st.onOutgoingIncrement (e.source st.layout)) st

def callOnInnerOutgoingDecrement (st : State) (me : ServiceId) : State :=
  (st.inEdges .clusterGraph me).foldl (fun st e => st.onOutgoingDecrement (e.source st.layout)) st

/-- `try_use`: the second component tells whether a `Use` was obtained. -/
def tryUse (st : State) (me : ServiceId) : State × Bool :=
  if st.uses me == 0 then (st, false)
  else
    ({ st with
        toCore := { st.toCore.incUses me with
          handles := Function.update st.handles me (st.handles me + 1) } }, true)

/-- `inc_use` -/
def incUse (st : State) (me : ServiceId) : State :=
  { st with
    toCore := { st.toCore.incUses me with
      handles := Function.update st.handles me (st.handles me + 1) } }

/-- `dec_use`, called on the event loop or on another thread. -/
def decUse (st : State) (me : ServiceId) (onEventLoop : Bool) : State :=
  let current := st.uses me - 1
  let st := { st with
    toCore := { st.toCore.decUses me with
      handles := Function.update st.handles me (st.handles me - 1) } }
  if st.hasNoExternalUses me current then
    if onEventLoop then st.onOutgoingReachedNoExternalUse me current
    else { st with posted := st.posted ++ [.reachedNoExternalUse me current] }
  else st

/-! ### Promises -/

/-- Complete every promise chained in `promise_`, which is moved out of the cluster. -/
def completePromise (st : State) (me : ServiceId) (outcome : Outcome) : State :=
  let head := st.cluster me
  { st with
    promise := Function.update st.promise head []
    completed := st.completed ++ (st.promise head).map fun p =>
      ⟨p, outcome, (st.phase head).isRunning, st.running head⟩ }

/-- Complete a promise that is not chained. -/
def completeNow (st : State) (me : ServiceId) (p : Promise) (outcome : Outcome) : State :=
  let head := st.cluster me
  { st with completed :=
      st.completed ++ [⟨p, outcome, (st.phase head).isRunning, st.running head⟩] }

/-- `chain_promise` -/
def chainPromise (st : State) (me : ServiceId) (p : Promise) : State :=
  { st with promise :=
      Function.update st.promise (st.cluster me) (st.promise (st.cluster me) ++ [p]) }

def transitionTargetSet (st : State) (me : ServiceId) (target : Target) : State :=
  let current := st.target (st.cluster me)
  if current ≠ target then
    let st := { st with target := Function.update st.target (st.cluster me) target }
    if current ≠ .none then st.completePromise me .canceled else st
  else st

def transitionTargetCompleteIf (st : State) (me : ServiceId) (target : Target) : State :=
  if st.target (st.cluster me) = target then
    let st := { st with target := Function.update st.target (st.cluster me) .none }
    st.completePromise me .value
  else st

/-! ### Pushes -/

/-- Rounds that are enough for any search over the cluster graph. -/
def dfsFuel (st : State) : Nat := 2 * (st.services.length + st.usages.length) + 3

/-- The search over the reversed cluster graph shared by the two push functions. -/
def pushSearch (visit : State → ServiceId → Bool × State) : Search State ServiceId Edge where
  outEdges st v := st.clusterInEdges v
  target st e := st.clusterSource e
  visit := visit
  filter st _ := (true, st)
  flags := { traverseAllPaths := true, postCancelCycles := true }

def pushesIncrementVisit (st : State) (v : ServiceId) : Bool × State :=
  let head := st.cluster v
  let st := { st with pushes := Function.update st.pushes head (st.pushes head + 1) }
  (st.pushes head == 1, st)

def pushesDecrementVisit (st : State) (v : ServiceId) : Bool × State :=
  let head := st.cluster v
  let st := { st with pushes := Function.update st.pushes head (st.pushes head - 1) }
  if st.pushes head == 0 then (true, st.checkStoppable v) else (false, st)

/-- `data.ancestors({&ancestor_head})` -/
def ancestorData (st : State) (ancestor : Option ServiceId) : DFSData ServiceId :=
  match ancestor with
  | some a => ({} : DFSData ServiceId).ancestor (st.cluster a)
  | none => {}

def callOnClusterPushesIncrement (st : State) (me : ServiceId) (ancestor : Option ServiceId) :
    State :=
  let head := st.cluster me
  if st.pushes head == 0 then
    ((pushSearch pushesIncrementVisit).dfs st.dfsFuel me (st.ancestorData ancestor) st).2
  else
    { st with pushes := Function.update st.pushes head (st.pushes head + 1) }

def callOnClusterPushesDecrement (st : State) (me : ServiceId) (ancestor : Option ServiceId) :
    State :=
  let head := st.cluster me
  if st.pushes head == 1 then
    ((pushSearch pushesDecrementVisit).dfs st.dfsFuel me (st.ancestorData ancestor) st).2
  else
    { st with pushes := Function.update st.pushes head (st.pushes head - 1) }

def setOverride (st : State) (me : ServiceId) (mode : Override) : State :=
  let head := st.cluster me
  if st.override head ≠ mode then
    let st := { st with override := Function.update st.override head mode }
    if mode = .start then st.callOnClusterPushesIncrement me none
    else st.callOnClusterPushesDecrement me none
  else st

/-! ### Locking -/

/-- One round of the first loop of `do_lock_cluster`. -/
def lockMember (st : State) (current : ServiceId) : State :=
  let st := { st with
    toCore := { st.toCore.transition current .stopped .locked with
      held := fun id =>
        st.held id || st.usages.any fun u => u.id == id && u.user.owner == current } }
  st.callOnOuterOutgoingIncrement current

def callOnClusterRunningIncrement (st : State) (me : ServiceId) : State :=
  { st with running := Function.update st.running (st.cluster me) (st.running (st.cluster me) + 1) }

def doLockCluster (st : State) (head : ServiceId) : State :=
  let members := st.clusterMembers head
  members.foldl callOnClusterRunningIncrement (members.foldl lockMember st)

def doMarkClusterForStart (st : State) (head : ServiceId) (set : Bool) : State :=
  { st with isMarkedForStart := Function.update st.isMarkedForStart (st.cluster head) set }

def doFinalizeCluster (st : State) (head : ServiceId) : State :=
  (st.doMarkClusterForStart head false).transitionTargetCompleteIf head .start

/-! ### Missing dependencies -/

section Startable

variable (startable : State → ServiceId → State)

def checkAnyInClusterStartable (st : State) (head : ServiceId) : State :=
  if st.shallClusterStart head then
    (st.clusterMembers head).foldl
      (fun st member =>
        if st.inEdges .clusterGraph member = [] && st.isStartable member then startable st member
        else st) st
  else st

def checkInnerStartable (st : State) (me : ServiceId) : State :=
  if st.isStartable me && st.shallClusterStart me then startable st me else st

def onOuterRequiredIncrement (st : State) (me : ServiceId) : State :=
  { st with toCore := st.toCore.incOuter me }

def onOuterRequiredDecrement (st : State) (me : ServiceId) : State :=
  let st := { st with toCore := st.toCore.decOuter me }
  if st.outerDepsMissing (st.cluster me) == 0 then
    st.checkAnyInClusterStartable startable (st.cluster me)
  else st

def onInnerRequiredIncrement (st : State) (me : ServiceId) : State :=
  { st with toCore := st.toCore.incInner me }

def onInnerRequiredDecrement (st : State) (me : ServiceId) : State :=
  let st := { st with toCore := st.toCore.decInner me }
  if st.innerDepsMissing me == 0 then st.checkInnerStartable startable me else st

def callOnRequiredDecrement (st : State) (me : ServiceId) : State :=
  if me ≠ st.layout.root then
    let st := (st.outEdges .clusterGraph me).foldl
      (fun st e => st.onInnerRequiredDecrement startable (e.target st.layout)) st
    (st.outEdges (.union .externalGraph .strongUsageGraph) me).foldl
      (fun st e => st.onOuterRequiredDecrement startable (e.target st.layout)) st
  else
    st.transitiveServices.tail.foldl (fun st s => st.onOuterRequiredDecrement startable s) st

def callOnRequiredIncrement (st : State) (me : ServiceId) : State :=
  if me ≠ st.layout.root then
    let st := (st.outEdges .clusterGraph me).foldl
      (fun st e => st.onInnerRequiredIncrement (e.target st.layout)) st
    (st.outEdges (.union .externalGraph .strongUsageGraph) me).foldl
      (fun st e => st.onOuterRequiredIncrement (e.target st.layout)) st
  else
    st.transitiveServices.tail.foldl onOuterRequiredIncrement st

/-! ### Pulls -/

def onClusterPullsIncrement (st : State) (head : ServiceId) : State :=
  { st with pulls := Function.update st.pulls (st.cluster head) (st.pulls (st.cluster head) + 1) }

def onClusterPullsDecrement (st : State) (head : ServiceId) : State :=
  let st := { st with
    pulls := Function.update st.pulls (st.cluster head) (st.pulls (st.cluster head) - 1) }
  if st.pulls (st.cluster head) == 0 then st.checkAnyInClusterStartable startable head else st

def callOnClusterPullsIncrement (st : State) (me : ServiceId) : State :=
  (st.clusterOutEdges me).foldl (fun st e => st.onClusterPullsIncrement (st.clusterTarget e)) st

def callOnClusterPullsDecrement (st : State) (me : ServiceId) : State :=
  (st.clusterOutEdges me).foldl
    (fun st e => st.onClusterPullsDecrement startable (st.clusterTarget e)) st

def doMarkClusterForStop (st : State) (head : ServiceId) (set : Bool) : State :=
  if set != st.isMarkedForStop (st.cluster head) then
    let st := { st with
      isMarkedForStop := Function.update st.isMarkedForStop (st.cluster head) set }
    if set then st.callOnClusterPullsIncrement head
    else st.callOnClusterPullsDecrement startable head
  else st

/-! ### Starting and stopping -/

/-- `do_start_eager` up to the call of `onStart`. -/
def doStartEager (st : State) (me : ServiceId) : State :=
  let st := if (st.phase me).isLocked then st else st.doLockCluster (st.cluster me)
  let st := { st with toCore := (st.toCore.transition me .locked .starting).incUses me }
  st.callOnInnerOutgoingIncrement me

/-- `post_start_actions` -/
def postStartActions (st : State) (me : ServiceId) : State :=
  let st := { st with toCore := st.toCore.transition me .starting .running }
  let st := st.callOnOuterDelayedOutgoingIncrement me
  let st := st.callOnRequiredDecrement startable me
  if !st.shallClusterStop me then
    if st.layout.isClusterHead me then st.doFinalizeCluster me else st
  else
    st.pushDown me

/-- `try_set_service_stopping` -/
def trySetServiceStopping (st : State) (current : ServiceId) : Option State :=
  if st.uses current == 1 then
    some { st with
      toCore := { st.toCore.transition current .running .stopping with
        uses := Function.update st.uses current 0 } }
  else none

/-- One round of the first loop of `do_unlock_cluster`. -/
def unlockMember (st : State) (current : ServiceId) : State :=
  let st := st.callOnOuterOutgoingDecrement current
  { st with toCore := st.toCore.transition current .pending .stopped }

def doUnlockCluster (st : State) (head : ServiceId) : State :=
  let st := (st.clusterMembers head).foldl unlockMember st
  let st := st.transitionTargetCompleteIf head .stop
  let st := st.doMarkClusterForStop startable head false
  if st.isClusterStartable head && st.shallClusterStart head && head != st.layout.root then
    { st with posted := st.posted ++ [.restart head] }
  else st

def callOnClusterRunningDecrement (st : State) (me : ServiceId) : State :=
  let head := st.cluster me
  let st := { st with running := Function.update st.running head (st.running head - 1) }
  if st.running head == 0 then
    let st := { st with epoch := Function.update st.epoch head (st.epoch head + 1) }
    st.doUnlockCluster startable head
  else st

/-- `do_stop_eager` up to the call of `onStop`. -/
def doStopEager (st : State) (me : ServiceId) : State := st.callOnRequiredIncrement me

/-- `post_stop_actions` -/
def postStopActions (st : State) (me : ServiceId) : State :=
  let st := st.callOnInnerOutgoingDecrement me
  let st := { st with toCore := st.toCore.transition me .stopping .pending }
  st.callOnClusterRunningDecrement startable me

/-- `start_root`: the hook of the root is ready at once. -/
def startRoot (st : State) : State :=
  let st := st.setOverride st.layout.root .start
  let st := st.doStartEager st.layout.root
  st.postStartActions startable st.layout.root

/-! ### Usages, imports and services -/

def onUsageConnected (st : State) (use : Usage) : State :=
  let source := use.used.owner
  let target := use.user.owner
  let st := if (st.phase source).isRunning && (st.phase target).isLocked then
    st.onOutgoingIncrement source else st
  let st := if !(st.phase source).isRunning && !use.weak then
    st.onOuterRequiredIncrement target else st
  let st := if st.isClusterPushed target then
    st.callOnClusterPushesIncrement source (some target) else st
  if st.isClusterMarkedForStop source then st.onClusterPullsIncrement (st.cluster target) else st

def onUsageDisconnect (st : State) (use : Usage) : State :=
  let source := use.used.owner
  let target := use.user.owner
  let st := if st.isClusterMarkedForStop source then
    st.onClusterPullsDecrement startable (st.cluster target) else st
  let st := if st.isClusterPushed target then
    st.callOnClusterPushesDecrement source (some target) else st
  let st := if !(st.phase source).isRunning && !use.weak then
    st.onOuterRequiredDecrement startable target else st
  if (st.phase source).isRunning && (st.phase target).isLocked then
    st.onOutgoingDecrement source else st

/-- `Usage::connect` -/
def connect (st : State) (use : Usage) : State :=
  let st := { st with
    usages := st.usages ++ [use]
    held := Function.update st.held use.id false
    releaseRequested := Function.update st.releaseRequested use.id false }
  st.onUsageConnected use

/-- `Usage::disconnect` -/
def disconnect (st : State) (use : Usage) : State :=
  let st := st.onUsageDisconnect startable use
  { st with
    usages := st.usages.erase use
    releaseRequested := Function.update st.releaseRequested use.id false }

/-- `Import::setSatisfied` -/
def setSatisfied (st : State) (imp : Part) (satisfied : Bool) : State :=
  if satisfied != st.satisfied imp then
    let st := { st with satisfied := Function.update st.satisfied imp satisfied }
    if satisfied then st.onOuterRequiredDecrement startable imp.owner
    else st.onOuterRequiredIncrement imp.owner
  else st

def onServiceAdd (st : State) (me : ServiceId) : State :=
  let st := st.callOnRequiredIncrement me
  let st := (st.inEdges .strongUsageGraph me).foldl
    (fun st e =>
      let source := e.source st.layout
      if !(st.phase source).isRunning && (st.phase source).isInitializedUnsafe then
        st.onOuterRequiredIncrement me
      else st) st
  if st.layout.hasImplicitRootEdge me then
    if !(st.phase st.layout.root).isRunning && (st.phase st.layout.root).isInitializedUnsafe then
      st.onOuterRequiredIncrement me
    else st
  else st

def onServiceDel (st : State) (me : ServiceId) : State :=
  let st :=
    if st.layout.isClusterHead me then
      (st.setOverride me .none).doMarkClusterForStop startable me false
    else
      let st := if st.isClusterPushed me then
        (st.inEdges .externalGraph me).foldl
          (fun st e => st.callOnClusterPushesDecrement (e.source st.layout) (some me)) st
        else st
      if st.isClusterMarkedForStop me then
        (st.outEdges .externalGraph me).foldl
          (fun st e => st.onClusterPullsDecrement startable (e.target st.layout)) st
      else st
  st.callOnRequiredDecrement startable me

/-- The fields of a service object, and of its cluster for a head, after their construction. -/
def construct (st : State) (s : ServiceId) : State :=
  let st := { st with
    innerDepsMissing := Function.update st.innerDepsMissing s 0
    uses := Function.update st.uses s 0
    handles := Function.update st.handles s 0
    satisfied := fun p => if p.owner = s then true else st.satisfied p }
  if st.layout.isClusterHead s then
    { st with
      isMarkedForStop := Function.update st.isMarkedForStop s false
      isMarkedForStart := Function.update st.isMarkedForStart s false
      override := Function.update st.override s .none
      target := Function.update st.target s .none
      running := Function.update st.running s 0
      outerDepsMissing := Function.update st.outerDepsMissing s 0
      pushes := Function.update st.pushes s 0
      pulls := Function.update st.pulls s 0
      epoch := Function.update st.epoch s 0
      promise := Function.update st.promise s [] }
  else st

/-- `Service::init` of a newly constructed service, up to `on_service_add`. Connecting the usages
of its imports and initialising the children of its parts are operations of their own. -/
def init (st : State) (s : ServiceId) : State :=
  let st := st.construct s
  let st := { st with
    cluster := Function.update st.cluster s
      (if st.layout.isMember s then st.cluster (st.layout.parent s).owner else s)
    phase := Function.update st.phase s .stopped
    services := st.services ++ [s] }
  st.onServiceAdd s

/-- `Service::destroy`. The parts have disconnected their usages and destroyed their children
before `on_service_del`; these are operations of their own. What is still chained in `promise_`
is gone with the cluster. -/
def destroy (st : State) (s : ServiceId) : State :=
  let st := if st.layout.isClusterHead s then st.transitionTargetSet s .none else st
  let st := st.onServiceDel startable s
  let st := { st with services := st.services.erase s }
  let st := st.eraseFromQueue s
  let st := { st with phase := Function.update st.phase s .destroyed }
  if st.layout.isClusterHead s then { st with promise := Function.update st.promise s [] } else st

end Startable

end State

end Idle
