import Idle.Core.ServiceImpl

/-!
# The scheduler and the request handlers

The functions of `scheduler.cpp`, the event loop handlers of `request_start`, `request_stop` and
`request_observe`, and `immediate_stop` of the garbage collector.

What the code of the user decides is passed in: `replies` answers `onReleaseRequest`, and `ready`
tells whether an `onStart` or `onStop` hook is ready when it returns.
-/

namespace Idle

namespace State

/-- `Scheduler::on_service_startable`. While the root is being started it is running before it
reports anything, so the services it reports are only pushed. -/
def onServiceStartable (st : State) (current : ServiceId) : State :=
  let st :=
    if current ≠ st.layout.root ∧ (st.phase st.layout.root).isRunning = false then
      st.startRoot pushUp
    else st
  st.pushUp current

/-! ### Start traversal -/

def startTraversalProgressesFurther (st : State) (head : ServiceId) : Bool :=
  if (st.phase head).isRunning && !st.isClusterMarkedForStop head then false
  else !st.isClusterMarkedForStart head

def insertIntoQueueIfStartable (st : State) (current : ServiceId) : State :=
  if st.shallClusterStart current then
    (st.clusterMembers current).foldl
      (fun st member => if st.isStartable member then st.pushUp member else st) st
  else st

def startSearch : Search State ServiceId Edge where
  outEdges st v := st.clusterInEdges v
  target st e := st.clusterSource e
  visit st head := (true, (st.doMarkClusterForStart head true).insertIntoQueueIfStartable head)
  filter st e :=
    if st.startTraversalProgressesFurther (st.clusterSource e) then (true, st)
    else (false, st.insertIntoQueueIfStartable (st.clusterSource e))

/-- `Scheduler::on_service_start_request` -/
def onServiceStartRequest (st : State) (current : ServiceId) : State :=
  (startSearch.dfs st.dfsFuel current {} st).2

/-! ### Stop traversal -/

/-- `Usage::requestRelease`; an immediate release disconnects the usage in the hook. -/
def requestRelease (replies : UsageId → ReleaseReply) (st : State) (use : Usage) : Bool × State :=
  if st.releaseRequested use.id then (true, st)
  else
    match replies use.id with
    | .never => (false, st)
    | .now => (true, st.disconnect onServiceStartable use)
    | .later =>
      (true, { st with releaseRequested := Function.update st.releaseRequested use.id true })

def stopTraversalProgressesFurther (st : State) (head : ServiceId) : Bool :=
  if st.isClusterStopped head then false else !st.isClusterMarkedForStop head

def insertIntoQueueIfStoppable (st : State) (current : ServiceId) : State :=
  if st.isStoppable current then st.pushDown current else st

def stopFilter (replies : UsageId → ReleaseReply) (st : State) (e : Edge) : Bool × State :=
  let progressFurther := st.stopTraversalProgressesFurther (st.clusterTarget e)
  match e with
  | .usage use =>
    if progressFurther || use.weak then
      match st.requestRelease replies use with
      | (true, st) => (false, st)
      | (false, st) => (progressFurther, st)
    else (progressFurther, st)
  | _ => (progressFurther, st)

def stopSearch (replies : UsageId → ReleaseReply) : Search State ServiceId Edge where
  outEdges st v := st.clusterOutEdges v
  target st e := st.clusterTarget e
  visit st head :=
    (true, (st.doMarkClusterForStop onServiceStartable head true).insertIntoQueueIfStoppable head)
  filter := stopFilter replies

/-- Dissolve the weak usages of the exports of a head. -/
def releaseWeakUsages (replies : UsageId → ReleaseReply) (st : State) (head : ServiceId) : State :=
  ((st.layout.exports head).flatMap st.dependentUsers).foldl
    (fun st use => if use.weak then (st.requestRelease replies use).2 else st) st

/-- One round of the loop of `stop_root`. -/
def stopRootCluster (replies : UsageId → ReleaseReply) (st : State) (head : ServiceId) : State :=
  let st := if (st.phase head).isLocked then st.releaseWeakUsages replies head else st
  let st := st.setOverride head .none
  let st := st.transitionTargetSet head .none
  let st := st.doMarkClusterForStart head false
  if !st.isClusterStopped head then
    let st := st.doMarkClusterForStop onServiceStartable head true
    if st.isStoppable head then st.pushDown head else st
  else st

/-- `Scheduler::stop_root` -/
def stopRoot (replies : UsageId → ReleaseReply) (st : State) : State :=
  if st.isClusterStopped st.layout.root then st
  else if st.isClusterMarkedForStop st.layout.root then st
  else st.clusters.foldl (stopRootCluster replies) { st with down := [], up := [] }

/-- `Scheduler::on_service_stop_request` -/
def onServiceStopRequest (replies : UsageId → ReleaseReply) (st : State) (current : ServiceId) :
    State :=
  if current = st.layout.root then st.stopRoot replies
  else ((stopSearch replies).dfs st.dfsFuel current {} st).2

/-! ### Requests -/

/-- The handler posted by `request_start`. -/
def requestStart (st : State) (me : ServiceId) (reason : Reason) (promise : Promise) : State :=
  let st := { st with reached := st.reached ++ [promise] }
  if me ∉ st.services then st.completeNow me promise .canceled
  else
    let st := if reason = .manual then st.setOverride me .start else st
    if (st.phase me).isRunning then st.completeNow me promise .value
    else
      ((st.onServiceStartRequest me).transitionTargetSet me .start).chainPromise me promise

/-- The handler posted by `request_stop`. -/
def requestStop (replies : UsageId → ReleaseReply) (st : State) (me : ServiceId)
    (promise : Promise) : State :=
  let st := { st with reached := st.reached ++ [promise] }
  if me ∉ st.services then st.completeNow me promise .canceled
  else
    let st := st.setOverride me .none
    if st.isClusterStopped me then st.completeNow me promise .value
    else
      ((st.onServiceStopRequest replies me).transitionTargetSet me .stop).chainPromise me promise

/-- The handler posted by `request_observe`. -/
def requestObserve (st : State) (me : ServiceId) (promise : Promise) : State :=
  let st := { st with reached := st.reached ++ [promise] }
  if me ∉ st.services then st.completeNow me promise .canceled
  else st.chainPromise me promise

/-- `immediate_stop` of the garbage collector. -/
def immediateStop (replies : UsageId → ReleaseReply) (st : State) (current : ServiceId) : State :=
  if st.phase current = .locked ∨ st.phase current = .starting ∨ st.phase current = .running then
    (st.setOverride current .none).onServiceStopRequest replies (st.cluster current)
  else st

/-! ### Processing the queue -/

/-- `try_start_service_inplace` -/
def tryStartServiceInplace (st : State) (current : ServiceId) (ready : Bool) : State :=
  let st := st.doStartEager current
  if ready then st.postStartActions onServiceStartable current else st

/-- `try_stop_service_inplace` -/
def tryStopServiceInplace (st : State) (current : ServiceId) (ready : Bool) : State :=
  let st := st.doStopEager current
  if ready then st.postStopActions onServiceStartable current else st

/-- The body of the loop of `Scheduler::process` for a popped service. -/
def processService (st : State) (changing : ServiceId) (ready : Bool) : State :=
  if st.shallClusterStop changing then
    if st.isStoppable changing then
      match st.trySetServiceStopping changing with
      | some st => st.tryStopServiceInplace changing ready
      | none => st
    else st
  else if st.shallClusterStart changing then
    if st.isStartable changing then st.tryStartServiceInplace changing ready else st
  else st

/-- One round of the loop of `Scheduler::process`. -/
def process (st : State) (ready : Bool) : State :=
  match st.pop with
  | some (changing, st) => st.processService changing ready
  | none => st

/-! ### Posted work -/

/-- The handlers the core posted itself. -/
def runPosted (st : State) (work : Posted) : State :=
  let st := { st with posted := st.posted.erase work }
  match work with
  | .restart head =>
    if head ∈ st.services then st.checkAnyInClusterStartable onServiceStartable head else st
  | .reachedNoExternalUse s current =>
    if (st.phase s).isRunning then st.onOutgoingReachedNoExternalUse s current else st

/-- The handler posted by `Context::run`. -/
def run (st : State) : State :=
  if (st.phase st.layout.root).isRunning then st else st.startRoot onServiceStartable

end State

end Idle
