import Idle.Core.Scheduler
import Idle.Library.Machine

/-!
# Runs of the core

Everything that reaches the core from outside is an operation: what runs on the event loop one
handler at a time, and the `Use` handles, which are atomic. The preconditions are those that the
source asserts of its callers.
-/

namespace Idle

/-- One handler of the event loop, or one atomic change of a `Use` handle. -/
inductive Op where
  | init (s : ServiceId)
  | destroy (s : ServiceId)
  | connect (use : Usage)
  | disconnect (use : Usage)
  | setSatisfied (imp : Part) (satisfied : Bool)
  | requestStart (s : ServiceId) (reason : Reason) (promise : Promise)
  | requestStop (replies : UsageId → ReleaseReply) (s : ServiceId) (promise : Promise)
  | requestObserve (s : ServiceId) (promise : Promise)
  | immediateStop (replies : UsageId → ReleaseReply) (s : ServiceId)
  /-- One round of `Scheduler::process`; `ready` tells whether the hook it calls is ready. -/
  | process (ready : Bool)
  /-- An asynchronous `onStart` completes. -/
  | started (s : ServiceId)
  /-- An asynchronous `onStop` completes. -/
  | stopped (s : ServiceId)
  | posted (work : Posted)
  | run
  | tryUse (s : ServiceId)
  | incUse (s : ServiceId)
  | decUse (s : ServiceId) (onEventLoop : Bool)

namespace State

/-- A service may be initialised below an initialised service; below an import only while the
owner of it is stopped. -/
abbrev CanInit (st : State) (s : ServiceId) : Prop :=
  st.phase s = .uninitialized ∧ (st.layout.parent s).owner ∈ st.services ∧
    st.layout.parent s ∈ st.layout.parts (st.layout.parent s).owner ∧
    (st.layout.isMember s = true → st.phase (st.layout.parent s).owner = .stopped)

/-- A service may be destroyed while it is stopped; its parts have destroyed their children and
disconnected their usages before. -/
abbrev CanDestroy (st : State) (s : ServiceId) : Prop :=
  s ∈ st.services ∧ s ≠ st.layout.root ∧ st.phase s = .stopped ∧
    (∀ t ∈ st.services, t ≠ st.layout.root → (st.layout.parent t).owner ≠ s) ∧
    ∀ u ∈ st.usages, u.used.owner ≠ s ∧ u.user.owner ≠ s

/-- A usage is connected once, between an export and an import of different clusters. -/
abbrev CanConnect (st : State) (use : Usage) : Prop :=
  (∀ u ∈ st.usages, u.id ≠ use.id) ∧
    use.used.owner ∈ st.services ∧ use.used ∈ st.layout.exports use.used.owner ∧
    use.user.owner ∈ st.services ∧ use.user ∈ st.layout.imports use.user.owner ∧
    st.cluster use.used.owner ≠ st.cluster use.user.owner

/-- The handlers of requests run on the head of the cluster, each with its own promise. -/
abbrev CanRequest (st : State) (s : ServiceId) (promise : Promise) (kind : PromiseKind) : Prop :=
  st.layout.isClusterHead s = true ∧ promise ∉ st.reached ∧ promise.kind = kind

end State

namespace Op

/-- What the callers of the core guarantee. -/
def Pre (st : State) : Op → Prop
  | init s => st.CanInit s
  | destroy s => st.CanDestroy s
  | connect use => st.CanConnect use
  | disconnect use => use ∈ st.usages
  | setSatisfied imp _ => imp.owner ∈ st.services ∧ imp ∈ st.layout.imports imp.owner
  | requestStart s _ promise => st.CanRequest s promise .start
  | requestStop _ s promise => st.CanRequest s promise .stop
  | requestObserve s promise => st.CanRequest s promise .observe
  | immediateStop _ s => s ∈ st.services
  | process ready => st.pop.map Prod.fst = some st.layout.root → ready = true
  | started s => s ∈ st.services ∧ st.phase s = .starting
  | stopped s => s ∈ st.services ∧ st.phase s = .stopping
  | posted work => work ∈ st.posted
  | run => True
  | tryUse s => s ∈ st.services
  | incUse s => s ∈ st.services ∧ st.handles s ≠ 0
  | decUse s _ => s ∈ st.services ∧ st.handles s ≠ 0

instance (st : State) : (op : Op) → Decidable (op.Pre st)
  | init s => inferInstanceAs (Decidable (st.CanInit s))
  | destroy s => inferInstanceAs (Decidable (st.CanDestroy s))
  | connect use => inferInstanceAs (Decidable (st.CanConnect use))
  | disconnect use => inferInstanceAs (Decidable (use ∈ st.usages))
  | setSatisfied imp _ => inferInstanceAs (Decidable (imp.owner ∈ st.services ∧ _))
  | requestStart s _ promise => inferInstanceAs (Decidable (st.CanRequest s promise .start))
  | requestStop _ s promise => inferInstanceAs (Decidable (st.CanRequest s promise .stop))
  | requestObserve s promise => inferInstanceAs (Decidable (st.CanRequest s promise .observe))
  | immediateStop _ s => inferInstanceAs (Decidable (s ∈ st.services))
  | process ready => inferInstanceAs (Decidable (_ → ready = true))
  | started s => inferInstanceAs (Decidable (s ∈ st.services ∧ _))
  | stopped s => inferInstanceAs (Decidable (s ∈ st.services ∧ _))
  | posted work => inferInstanceAs (Decidable (work ∈ st.posted))
  | run => .isTrue trivial
  | tryUse s => inferInstanceAs (Decidable (s ∈ st.services))
  | incUse s => inferInstanceAs (Decidable (s ∈ st.services ∧ _))
  | decUse s _ => inferInstanceAs (Decidable (s ∈ st.services ∧ _))

/-- What an operation does. -/
def exec (st : State) : Op → State
  | init s => st.init s
  | destroy s => st.destroy State.onServiceStartable s
  | connect use => st.connect use
  | disconnect use => st.disconnect State.onServiceStartable use
  | setSatisfied imp satisfied => st.setSatisfied State.onServiceStartable imp satisfied
  | requestStart s reason promise => st.requestStart s reason promise
  | requestStop replies s promise => st.requestStop replies s promise
  | requestObserve s promise => st.requestObserve s promise
  | immediateStop replies s => st.immediateStop replies s
  | process ready => st.process ready
  | started s => st.postStartActions State.onServiceStartable s
  | stopped s => st.postStopActions State.onServiceStartable s
  | posted work => st.runPosted work
  | run => st.run
  | tryUse s => (st.tryUse s).1
  | incUse s => st.incUse s
  | decUse s onEventLoop => st.decUse s onEventLoop

end Op

/-- The core, starting from the initialised context. -/
def system (L : Layout) : Machine State Op where
  init st := st = .initial L
  pre := Op.Pre
  step := Op.exec

instance (L : Layout) (st : State) (op : Op) : Decidable ((system L).pre st op) :=
  inferInstanceAs (Decidable (op.Pre st))

/-- The states between two handlers of any run. -/
def Reachable (L : Layout) (st : State) : Prop := (system L).Reachable (fun _ _ => True) st

end Idle
