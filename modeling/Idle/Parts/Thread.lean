import Idle.Library.Machine

/-!
# Threads

`launch` and `requestStop` share a state, a promise and an exception with the body of the thread. A
step is one access to the state or one section that holds the mutex. The promise that is stored
belongs to one of the two calls. A handler that joins the thread is posted to the event loop when
the promise of `requestStop` is completed, or that of `launch` with an exception.
-/

namespace Idle

/-- `Thread::ThreadState` -/
inductive ThreadState where
  | stopped
  | launching
  | running
  | finished
  | stopRequested
  deriving DecidableEq

/-- `result<>` -/
inductive Result (ε : Type) where
  | value
  | exception (e : ε)
  deriving DecidableEq

/-- The exception of a result, or null. -/
def Result.error {ε : Type} : Result ε → Option ε
  | .value => none
  | .exception e => some e

/-- The result of an exception that may be null. -/
def Result.of {ε : Type} : Option ε → Result ε
  | none => .value
  | some e => .exception e

/-- The calls that hand out a promise. -/
inductive Call where
  | launch
  | requestStop
  deriving DecidableEq

/-- Where the body of the thread stands, and what it holds there. -/
inductive Body (ε : Type) where
  | none
  | created
  | entered
  | onLaunch
  | failed (e : ε)
  | launched
  | checked
  | resolved
  | onRun
  | ran (result : Result ε)
  | aborted (e : ε)
  | ended (result : Result ε)
  deriving DecidableEq

/-- The body has returned. -/
def Body.hasEnded {ε : Type} : Body ε → Bool
  | .aborted _ | .ended _ => true
  | _ => false

/-- Where `requestStop` stands, and what it holds there. -/
inductive Request where
  | none
  | called
  | checkedRunning
  | checkedRequested
  | read (state : ThreadState)
  | stopping
  | done
  deriving DecidableEq

/-- `Thread`, with the promises that were completed and the handlers that are posted. -/
structure Thread (ε : Type) where
  state : ThreadState
  handle : Bool
  exception : Option ε
  thread : Bool
  promise : Option Call
  body : Body ε
  request : Request
  completed : List (Call × Result ε)
  posted : Nat
  joining : Bool
  deriving DecidableEq

/-- The steps of `launch` and of the body, of `requestStop`, and of the posted handlers. -/
inductive ThreadStep (ε : Type) where
  | launch
  | storeHandle
  | storeLaunching
  | onLaunch (result : Result ε)
  | launchFailed
  | checkPromise
  | launched
  | storeRunning
  | onRun (result : Result ε)
  | finish
  | requestStop
  | checkRunning
  | checkRequested
  | readState
  | lock
  | onStopRequested
  | handle
  | join

namespace Thread

variable {ε : Type}

def initial : Thread ε where
  state := .stopped
  handle := false
  exception := none
  thread := false
  promise := none
  body := .none
  request := .none
  completed := []
  posted := 0
  joining := false

def isStopRequested (t : Thread ε) : Bool := t.state = .stopRequested

def isRunning (t : Thread ε) : Bool := t.state ≠ .stopped

/-- `ThreadImpl::set_stopped` -/
def setStopped (t : Thread ε) : Thread ε := { t with state := .stopped, handle := false }

/-- The promise of a call is completed. The handler of `launch` is for exceptions only. -/
def complete (t : Thread ε) : Call → Result ε → Thread ε
  | .launch, .value => { t with completed := t.completed ++ [(.launch, .value)] }
  | call, result => { t with completed := t.completed ++ [(call, result)], posted := t.posted + 1 }

/-- `promise_.set_value()` and `promise_.set_exception(e)` -/
def setResult (t : Thread ε) (result : Result ε) : Thread ε :=
  match t.promise with
  | some call => { t.complete call result with promise := none }
  | none => t

/-- The last section of the body, after `onRun`. -/
def finish (t : Thread ε) (result : Result ε) : Thread ε :=
  if t.isStopRequested then { t.setStopped.setResult result with body := .ended result }
  else
    { t with
      state := .finished, exception := result.error.or t.exception, body := .ended result }

/-- The section of `requestStop`, which goes by the state that was read before it. -/
def stop (t : Thread ε) (state : ThreadState) : Thread ε :=
  if state = .finished then
    { t.setStopped.complete .requestStop (.of t.exception) with
      exception := none, request := .done }
  else { t with promise := some .requestStop, state := .stopRequested, request := .stopping }

/-- `ThreadImpl::join_and_reset` returns. -/
def joinAndReset (t : Thread ε) : Thread ε := { t with thread := false, joining := false }

def step (t : Thread ε) : ThreadStep ε → Thread ε
  | .launch => { t with promise := some .launch, thread := true, body := .created }
  | .storeHandle => { t with handle := true, body := .entered }
  | .storeLaunching => { t with state := .launching, body := .onLaunch }
  | .onLaunch .value => { t with body := .launched }
  | .onLaunch (.exception e) => { t with body := .failed e }
  | .launchFailed =>
    match t.body with
    | .failed e => { t.setStopped.setResult (.exception e) with body := .aborted e }
    | _ => t
  | .checkPromise => { t with body := .checked }
  | .launched => { t.setResult .value with body := .resolved }
  | .storeRunning => { t with state := .running, body := .onRun }
  | .onRun result => { t with body := .ran result }
  | .finish =>
    match t.body with
    | .ran result => t.finish result
    | _ => t
  | .requestStop => { t with request := .called }
  | .checkRunning => { t with request := .checkedRunning }
  | .checkRequested => { t with request := .checkedRequested }
  | .readState => { t with request := .read t.state }
  | .lock =>
    match t.request with
    | .read state => t.stop state
    | _ => t
  | .onStopRequested => { t with request := .done }
  | .handle => { t with posted := t.posted - 1, joining := true }
  | .join => t.joinAndReset

/-- Whose turn it is. `requestStop` is called once, when the promise of `launch` was resolved. -/
def Pre (t : Thread ε) : ThreadStep ε → Prop
  | .launch => t.body = .none
  | .storeHandle => t.body = .created
  | .storeLaunching => t.body = .entered
  | .onLaunch _ => t.body = .onLaunch
  | .launchFailed => ∃ e, t.body = .failed e
  | .checkPromise => t.body = .launched
  | .launched => t.body = .checked
  | .storeRunning => t.body = .resolved
  | .onRun _ => t.body = .onRun
  | .finish => ∃ result, t.body = .ran result
  | .requestStop => t.request = .none ∧ (.launch, .value) ∈ t.completed
  | .checkRunning => t.request = .called
  | .checkRequested => t.request = .checkedRunning
  | .readState => t.request = .checkedRequested
  | .lock => ∃ state, t.request = .read state
  | .onStopRequested => t.request = .stopping
  | .handle => 0 < t.posted ∧ t.joining = false
  | .join => t.joining = true ∧ t.body.hasEnded = true

/-- What is asserted in a step. Those of the hooks hold for a class that does not override them. -/
def Asserts (base : Bool) (t : Thread ε) : ThreadStep ε → Prop
  | .launch => t.isRunning = false ∧ t.promise = none ∧ t.thread = false
  | .onLaunch _ => base = true → t.state = .launching
  | .launchFailed => t.promise ≠ none ∧ t.isRunning = true
  | .checkPromise => t.promise ≠ none
  | .launched => t.state = .launching ∧ (t.setResult .value).promise = none
  | .onRun _ => base = true → t.isRunning = true
  | .finish =>
    (t.isStopRequested = true → t.isRunning = true ∧ t.promise ≠ none) ∧
      (t.isStopRequested = false → ∀ e, t.body = .ran (.exception e) → t.promise = none)
  | .checkRunning => t.isRunning = true
  | .checkRequested => t.isStopRequested = false
  | .lock => ∀ state, t.request = .read state → (state = .running ∨ state = .finished) ∧
      (state = .finished → t.isRunning = true) ∧ (state ≠ .finished → t.promise = none)
  | .onStopRequested => base = true → t.isStopRequested = true
  | .handle => t.thread = true ∧ t.isRunning = false
  | _ => True

/-- Nothing is going to happen any more, but for the calls, and for an `onRun` that was not asked to
return. -/
def Rests (t : Thread ε) : Prop :=
  ∀ a, t.Pre a → a = .launch ∨ a = .requestStop ∨
    ∃ result, a = .onRun result ∧ t.request ≠ .done

/-- What the protocol promises of every state. -/
structure Sound (t : Thread ε) : Prop where
  not_stored : t.promise = some .requestStop → t.body.hasEnded = false
  completed_once : (t.completed.map Prod.fst).Nodup
  result_eq : ∀ result, (.requestStop, result) ∈ t.completed → t.body = .ended result
  completed_launch : t.Rests → t.body ≠ .none → ∃ result, (.launch, result) ∈ t.completed
  completed_stop : t.Rests → t.request ≠ .none → ∃ result, (.requestStop, result) ∈ t.completed

/-- What the protocol promises of a step. -/
structure Keeps (base : Bool) (t : Thread ε) (a : ThreadStep ε) : Prop where
  asserts : t.Asserts base a
  not_overwritten : t.state = .stopRequested →
    (t.step a).state ≠ .running ∧ (t.step a).state ≠ .finished

/-- The state that `requestStop` read is still the state, and the body has stored it after `launch`;
the body has not ended when the hook of the base class is called. -/
def Timely (base : Bool) (t : Thread ε) : ThreadStep ε → Prop
  | .lock => t.request = .read t.state ∧ t.state ≠ .launching
  | .onStopRequested => base = true → t.body.hasEnded = false
  | _ => True

end Thread

/-- The interleavings of a thread, the event loop, and who requests it to stop. -/
def threads (ε : Type) : Machine (Thread ε) (ThreadStep ε) where
  init t := t = .initial
  pre := Thread.Pre
  step := Thread.step

end Idle

namespace Idle

/-! ### The phases of a run -/

/-- How far the handler is that joins the thread. -/
inductive JoinPhase : Nat → Bool → Bool → Prop where
  | posted : JoinPhase 1 false true
  | joining : JoinPhase 0 true true
  | joined : JoinPhase 0 false false

/-- `requestStop` has not entered its section, and the state did not go back since it was read. -/
inductive Request.Before : ThreadState → Request → Prop where
  | none {state : ThreadState} : Before state .none
  | called {state : ThreadState} : Before state .called
  | checkedRunning {state : ThreadState} : Before state .checkedRunning
  | checkedRequested {state : ThreadState} : Before state .checkedRequested
  | launching {state : ThreadState} : Before state (.read .launching)
  | running : Before .running (.read .running)
  | running_finished : Before .finished (.read .running)
  | finished : Before .finished (.read .finished)

lemma Request.Before.running_of_launching {request : Request} (h : request.Before .launching) :
    request.Before .running := by
  cases h <;> constructor

lemma Request.Before.finished_of_running {request : Request} (h : request.Before .running) :
    request.Before .finished := by
  cases h <;> constructor

lemma Request.Before.ne_stopping {state : ThreadState} {request : Request}
    (h : request.Before state) : request ≠ .stopping := by
  rintro rfl
  cases h

/-- If the state is no longer what `requestStop` read, the body has ended since. -/
lemma Request.Before.timely {state actual : ThreadState} (h : Request.Before actual (.read state))
    (hs : state = .running ∨ state = .finished) :
    state = actual ∨ state = .running ∧ actual = .finished := by
  cases h with
  | launching => simp at hs
  | running => exact .inl rfl
  | running_finished => exact .inr ⟨rfl, rfl⟩
  | finished => exact .inl rfl

/-- A bound of the steps of the body and of the handlers that it posts. -/
def Body.rank {ε : Type} : Body ε → Nat
  | .none => 13
  | .created => 12
  | .entered => 11
  | .onLaunch => 10
  | .launched => 9
  | .checked => 8
  | .resolved => 5
  | .onRun => 4
  | .failed _ | .ran _ => 3
  | .aborted _ | .ended _ => 0

def Request.rank : Request → Nat
  | .none => 7
  | .called => 6
  | .checkedRunning => 5
  | .checkedRequested => 4
  | .read _ => 3
  | .stopping => 1
  | .done => 0

/-- The steps of `requestStop` before its section. -/
def ThreadStep.asks {ε : Type} : ThreadStep ε → Bool
  | .requestStop | .checkRunning | .checkRequested | .readState => true
  | _ => false

namespace Thread

variable {ε : Type} {t : Thread ε} {a : ThreadStep ε} {base : Bool}

/-- `launch` was called, and its promise is stored. -/
def launchingAt (state : ThreadState) (handle : Bool) (body : Body ε) : Thread ε :=
  { initial with state, handle, body, thread := true, promise := some .launch }

/-- The promise of `launch` was resolved, and nothing is stored. -/
def launchedAt (state : ThreadState) (body : Body ε) (exception : Option ε) (request : Request) :
    Thread ε where
  state := state
  handle := true
  exception := exception
  thread := true
  promise := none
  body := body
  request := request
  completed := [(.launch, .value)]
  posted := 0
  joining := false

/-- The promise of `requestStop` is stored. -/
def stoppingAt (body : Body ε) (request : Request) : Thread ε :=
  { launchedAt .stopRequested body none request with promise := some .requestStop }

/-- The body has ended, and the last promise is completed. -/
def stoppedAt (body : Body ε) (request : Request) (completed : List (Call × Result ε))
    (posted : Nat) (joining thread : Bool) : Thread ε :=
  { initial with body, request, completed, posted, joining, thread }

/-- The states of the runs in which `requestStop` is in time. -/
inductive Phase : Thread ε → Prop where
  | initial : Phase initial
  | created : Phase (launchingAt .stopped false .created)
  | entered : Phase (launchingAt .stopped true .entered)
  | onLaunch : Phase (launchingAt .launching true .onLaunch)
  | failed (e : ε) : Phase (launchingAt .launching true (.failed e))
  | launched : Phase (launchingAt .launching true .launched)
  | checked : Phase (launchingAt .launching true .checked)
  | aborted (e : ε) {posted : Nat} {joining thread : Bool} :
    JoinPhase posted joining thread →
    Phase (stoppedAt (.aborted e) .none [(.launch, .exception e)] posted joining thread)
  | resolved {request : Request} :
    request.Before .launching → Phase (launchedAt .launching .resolved none request)
  | onRun {request : Request} :
    request.Before .running → Phase (launchedAt .running .onRun none request)
  | ran (result : Result ε) {request : Request} :
    request.Before .running → Phase (launchedAt .running (.ran result) none request)
  | finished (result : Result ε) {request : Request} :
    request.Before .finished → Phase (launchedAt .finished (.ended result) result.error request)
  | stopping {request : Request} :
    request = .stopping ∨ request = .done → Phase (stoppingAt .onRun request)
  | returned (result : Result ε) {request : Request} :
    request = .stopping ∨ request = .done → Phase (stoppingAt (.ran result) request)
  | stopped (result : Result ε) {request : Request} {posted : Nat} {joining thread : Bool} :
    request = .stopping ∨ request = .done → JoinPhase posted joining thread →
    Phase (stoppedAt (.ended result) request [(.launch, .value), (.requestStop, result)] posted
      joining thread)

lemma Phase.asks {state : ThreadState} {body : Body ε} {exception : Option ε} {request : Request}
    (ha : a.asks = true) (hread : Request.Before state (.read state))
    (h : ∀ {request : Request}, request.Before state →
      Phase (launchedAt state body exception request)) :
    Phase ((launchedAt state body exception request).step a) := by
  cases a <;> simp [ThreadStep.asks] at ha
  · exact h .called
  · exact h .checkedRunning
  · exact h .checkedRequested
  · exact h hread

/-- Once the body has ended only the hook and the handler are left. -/
lemma stoppedAt_step {body : Body ε} {request : Request} {completed : List (Call × Result ε)}
    {posted : Nat} {joining thread : Bool} (hbody : body.hasEnded = true)
    (hrequest : request = .none ∧ (.launch, .value) ∉ completed ∨ request = .stopping ∨
      request = .done) (hj : JoinPhase posted joining thread)
    (hpre : (stoppedAt body request completed posted joining thread).Pre a) :
    ∃ request' posted' joining' thread', JoinPhase posted' joining' thread' ∧
      (request' = request ∨ request = .stopping ∧ request' = .done) ∧
      (stoppedAt body request completed posted joining thread).step a =
        stoppedAt body request' completed posted' joining' thread' := by
  cases a with
  | handle =>
    cases hj with
    | posted => exact ⟨_, _, _, _, .joining, .inl rfl, rfl⟩
    | joining => exact absurd hpre.2 (by simp [stoppedAt])
    | joined => exact absurd hpre.1 (by simp [stoppedAt])
  | join =>
    cases hj with
    | posted => exact absurd hpre.1 (by simp [stoppedAt])
    | joining => exact ⟨_, _, _, _, .joined, .inl rfl, rfl⟩
    | joined => exact absurd hpre.1 (by simp [stoppedAt])
  | onStopRequested => exact ⟨_, _, _, _, hj, .inr ⟨hpre, rfl⟩, rfl⟩
  | requestStop =>
    rcases hrequest with ⟨-, hmem⟩ | h | h
    · exact absurd hpre.2 hmem
    · exact absurd (hpre.1.symm.trans h) (by simp)
    · exact absurd (hpre.1.symm.trans h) (by simp)
  | _ =>
    simp only [Pre, stoppedAt] at hpre
    first
      | (rcases hrequest with ⟨h, -⟩ | h | h <;> simp [h] at hpre)
      | (cases body <;> simp [Body.hasEnded] at hbody hpre)

lemma Phase.step (h : Phase t) (hpre : t.Pre a) (hc : t.Timely base a) : Phase (t.step a) := by
  cases h with
  | initial =>
    cases a <;> simp [Pre, Thread.initial] at hpre
    exact .created
  | created =>
    cases a <;> simp [Pre, launchingAt, Thread.initial] at hpre
    exact .entered
  | entered =>
    cases a <;> simp [Pre, launchingAt, Thread.initial] at hpre
    exact .onLaunch
  | onLaunch =>
    cases a <;> simp [Pre, launchingAt, Thread.initial] at hpre
    rename_i result
    cases result with
    | value => exact .launched
    | exception e => exact .failed e
  | failed e =>
    cases a <;> simp [Pre, launchingAt, Thread.initial] at hpre
    exact .aborted e .posted
  | launched =>
    cases a <;> simp [Pre, launchingAt, Thread.initial] at hpre
    exact .checked
  | checked =>
    cases a <;> simp [Pre, launchingAt, Thread.initial] at hpre
    exact .resolved .none
  -- from here on requests run beside the body
  | aborted e hj =>
    obtain ⟨_, _, _, _, hj', hrequest, heq⟩ :=
      stoppedAt_step rfl (.inl ⟨rfl, by simp⟩) hj hpre
    obtain rfl := hrequest.resolve_right nofun
    rw [heq]
    exact .aborted e hj'
  | resolved hq =>
    cases a with
    | storeRunning => exact .onRun hq.running_of_launching
    | requestStop | checkRunning | checkRequested | readState =>
      exact Phase.asks rfl .launching .resolved
    | lock => exact absurd rfl hc.2
    | onStopRequested => exact absurd hpre hq.ne_stopping
    | _ => simp [Pre, launchedAt] at hpre
  | onRun hq =>
    cases a with
    | onRun result => exact .ran result hq
    | requestStop | checkRunning | checkRequested | readState =>
      exact Phase.asks rfl .running .onRun
    | lock =>
      -- the request that locks has read a state that is not stale
      have hread : _ = Request.read .running := hc.1
      subst hread
      exact .stopping (.inl rfl)
    | onStopRequested => exact absurd hpre hq.ne_stopping
    | _ => simp [Pre, launchedAt] at hpre
  | ran result hq =>
    cases a with
    | finish =>
      cases result with
      | value => exact .finished .value hq.finished_of_running
      | exception e => exact .finished (.exception e) hq.finished_of_running
    | requestStop | checkRunning | checkRequested | readState =>
      exact Phase.asks rfl .running (.ran result)
    | lock =>
      have hread : _ = Request.read .running := hc.1
      subst hread
      exact .returned result (.inl rfl)
    | onStopRequested => exact absurd hpre hq.ne_stopping
    | _ => simp [Pre, launchedAt] at hpre
  | finished result hq =>
    cases a with
    | requestStop | checkRunning | checkRequested | readState =>
      exact Phase.asks rfl .finished (.finished result)
    | lock =>
      have hread : _ = Request.read .finished := hc.1
      subst hread
      cases result with
      | value => exact .stopped .value (.inr rfl) .posted
      | exception e => exact .stopped (.exception e) (.inr rfl) .posted
    | onStopRequested => exact absurd hpre hq.ne_stopping
    | _ => simp [Pre, launchedAt, Body.hasEnded] at hpre
  -- the request has stored its state, and only its hook is left
  | stopping hq =>
    cases a with
    | onRun result => exact .returned result hq
    | onStopRequested => exact .stopping (.inr rfl)
    | _ => rcases hq with rfl | rfl <;> simp [Pre, stoppingAt, launchedAt] at hpre
  | returned result hq =>
    cases a with
    | finish => exact .stopped result hq .posted
    | onStopRequested => exact .returned result (.inr rfl)
    | _ => rcases hq with rfl | rfl <;> simp [Pre, stoppingAt, launchedAt] at hpre
  | stopped result hq hj =>
    obtain ⟨_, _, _, _, hj', hrequest, heq⟩ := stoppedAt_step rfl (.inr hq) hj hpre
    rw [heq]
    refine .stopped result ?_ hj'
    rcases hrequest with rfl | ⟨-, rfl⟩
    · exact hq
    · exact .inr rfl

/-! ### What the phases promise -/

/-- A thread that rests has no step that the thread itself or the event loop has to take. -/
lemma Rests.false_of_pre (h : t.Rests) (hpre : t.Pre a)
    (ha : a ≠ .launch ∧ a ≠ .requestStop ∧ ∀ result, a ≠ .onRun result) : False := by
  rcases h a hpre with h | h | ⟨result, h, -⟩
  · exact ha.1 h
  · exact ha.2.1 h
  · exact ha.2.2 result h

/-- Before its section, `requestStop` does not rest once it was called. -/
lemma Rests.request_eq_none {state : ThreadState} {body : Body ε} {exception : Option ε}
    {request : Request} (h : (launchedAt state body exception request).Rests)
    (hq : request.Before state) : request = .none := by
  cases hq with
  | none => rfl
  | called => exact (h.false_of_pre (a := .checkRunning) rfl (by simp)).elim
  | checkedRunning => exact (h.false_of_pre (a := .checkRequested) rfl (by simp)).elim
  | checkedRequested => exact (h.false_of_pre (a := .readState) rfl (by simp)).elim
  | _ => exact (h.false_of_pre (a := .lock) ⟨_, rfl⟩ (by simp)).elim

lemma launchedAt_sound {state : ThreadState} {body : Body ε} {exception : Option ε}
    {request : Request} (hq : request.Before state) :
    (launchedAt state body exception request).Sound where
  not_stored := nofun
  completed_once := by simp [launchedAt]
  result_eq := by simp [launchedAt]
  completed_launch _ _ := ⟨.value, by simp [launchedAt]⟩
  completed_stop h hne := absurd (h.request_eq_none hq) hne

lemma launchingAt_sound {state : ThreadState} {handle : Bool} {body : Body ε}
    (h : ¬ (launchingAt state handle body).Rests) : (launchingAt state handle body).Sound where
  not_stored := nofun
  completed_once := .nil
  result_eq := nofun
  completed_launch hrests := absurd hrests h
  completed_stop hrests := absurd hrests h

/-- While a promise is stored, the thread is about to complete it. -/
lemma stoppingAt_sound {body : Body ε} {request : Request} (hbody : body.hasEnded = false)
    (h : ¬ (stoppingAt body request).Rests) : (stoppingAt body request).Sound where
  not_stored _ := hbody
  completed_once := by simp [stoppingAt, launchedAt]
  result_eq := by simp [stoppingAt, launchedAt]
  completed_launch hrests := absurd hrests h
  completed_stop hrests := absurd hrests h

lemma Phase.sound (h : Phase t) : t.Sound := by
  cases h with
  | initial => exact ⟨nofun, .nil, nofun, fun _ h => absurd rfl h, fun _ h => absurd rfl h⟩
  | created =>
    exact launchingAt_sound fun h => h.false_of_pre (a := .storeHandle) rfl (by simp)
  | entered =>
    exact launchingAt_sound fun h => h.false_of_pre (a := .storeLaunching) rfl (by simp)
  | onLaunch =>
    exact launchingAt_sound fun h => h.false_of_pre (a := .onLaunch .value) rfl (by simp)
  | failed e =>
    exact launchingAt_sound fun h => h.false_of_pre (a := .launchFailed) ⟨e, rfl⟩ (by simp)
  | launched =>
    exact launchingAt_sound fun h => h.false_of_pre (a := .checkPromise) rfl (by simp)
  | checked => exact launchingAt_sound fun h => h.false_of_pre (a := .launched) rfl (by simp)
  | aborted e _ =>
    exact ⟨nofun, by simp [stoppedAt], by simp [stoppedAt],
      fun _ _ => ⟨.exception e, by simp [stoppedAt]⟩, fun _ h => absurd rfl h⟩
  | resolved hq | onRun hq | ran _ hq | finished _ hq => exact launchedAt_sound hq
  | stopping hq =>
    refine stoppingAt_sound rfl fun h => ?_
    rcases hq with rfl | rfl
    · exact h.false_of_pre (a := .onStopRequested) rfl (by simp)
    · rcases h (.onRun .value) rfl with h | h | ⟨_, -, h⟩
      · exact absurd h (by simp)
      · exact absurd h (by simp)
      · exact h rfl
  | returned result _ =>
    exact stoppingAt_sound rfl fun h => h.false_of_pre (a := .finish) ⟨result, rfl⟩ (by simp)
  | stopped result _ _ =>
    exact ⟨nofun, by simp [stoppedAt], by simp [stoppedAt],
      fun _ _ => ⟨.value, by simp [stoppedAt]⟩, fun _ _ => ⟨result, by simp [stoppedAt]⟩⟩

/-- The request to stop is answered by stopping. -/
lemma Phase.not_overwritten (h : Phase t) (hpre : t.Pre a) (hs : t.state = .stopRequested) :
    (t.step a).state ≠ .running ∧ (t.step a).state ≠ .finished := by
  cases h with
  | stopping hq =>
    cases a with
    | onRun result => exact ⟨nofun, nofun⟩
    | onStopRequested => exact ⟨nofun, nofun⟩
    | _ => rcases hq with rfl | rfl <;> simp [Pre, stoppingAt, launchedAt] at hpre
  | returned result hq =>
    cases a with
    | finish => exact ⟨nofun, nofun⟩
    | onStopRequested => exact ⟨nofun, nofun⟩
    | _ => rcases hq with rfl | rfl <;> simp [Pre, stoppingAt, launchedAt] at hpre
  | _ => exact absurd hs nofun

/-- What is asserted while `requestStop` has not entered its section. -/
lemma launchedAt_asserts {state : ThreadState} {body : Body ε} {exception : Option ε}
    {request : Request} (ha : a.asks = true) (h₁ : state ≠ .stopped) (h₂ : state ≠ .stopRequested) :
    (launchedAt state body exception request).Asserts base a := by
  cases a <;> simp [ThreadStep.asks] at ha
  · trivial
  · exact decide_eq_true h₁
  · exact decide_eq_false h₂
  · trivial

/-- What is asserted in a section that is in time. -/
lemma launchedAt_lock_asserts {state : ThreadState} {body : Body ε} {exception : Option ε}
    {request : Request} (hstate : state = .running ∨ state = .finished)
    (hc : (launchedAt state body exception request).Timely base .lock) :
    (launchedAt state body exception request).Asserts base .lock := by
  intro read hread
  obtain rfl : read = state := Request.read.inj (hread.symm.trans hc.1)
  refine ⟨hstate, ?_, fun _ => rfl⟩
  rintro rfl
  rfl

lemma Phase.asserts (h : Phase t) (hpre : t.Pre a) (hc : t.Timely base a) : t.Asserts base a := by
  cases h with
  | initial =>
    cases a <;> simp [Pre, Thread.initial] at hpre
    exact ⟨rfl, rfl, rfl⟩
  | created =>
    cases a <;> simp [Pre, launchingAt, Thread.initial] at hpre
    trivial
  | entered =>
    cases a <;> simp [Pre, launchingAt, Thread.initial] at hpre
    trivial
  | onLaunch =>
    cases a <;> simp [Pre, launchingAt, Thread.initial] at hpre
    exact fun _ => rfl
  | failed e =>
    cases a <;> simp [Pre, launchingAt, Thread.initial] at hpre
    exact ⟨nofun, rfl⟩
  | launched =>
    cases a <;> simp [Pre, launchingAt, Thread.initial] at hpre
    exact nofun
  | checked =>
    cases a <;> simp [Pre, launchingAt, Thread.initial] at hpre
    exact ⟨rfl, rfl⟩
  | aborted e hj =>
    cases a with
    | handle =>
      cases hj with
      | posted => exact ⟨rfl, rfl⟩
      | _ => exact absurd hpre.1 (by simp [stoppedAt])
    | join => trivial
    | _ => simp [Pre, stoppedAt, Thread.initial] at hpre
  -- what a request asserts does not depend on where the body stands
  | resolved hq =>
    cases a with
    | storeRunning => trivial
    | requestStop | checkRunning | checkRequested | readState =>
      exact launchedAt_asserts rfl (by simp) (by simp)
    | lock => exact absurd rfl hc.2
    | onStopRequested => exact absurd hpre hq.ne_stopping
    | _ => simp [Pre, launchedAt] at hpre
  | onRun hq =>
    cases a with
    | onRun result => exact fun _ => rfl
    | requestStop | checkRunning | checkRequested | readState =>
      exact launchedAt_asserts rfl (by simp) (by simp)
    | lock => exact launchedAt_lock_asserts (.inl rfl) hc
    | onStopRequested => exact absurd hpre hq.ne_stopping
    | _ => simp [Pre, launchedAt] at hpre
  | ran result hq =>
    cases a with
    | finish => exact ⟨nofun, fun _ _ _ => rfl⟩
    | requestStop | checkRunning | checkRequested | readState =>
      exact launchedAt_asserts rfl (by simp) (by simp)
    | lock => exact launchedAt_lock_asserts (.inl rfl) hc
    | onStopRequested => exact absurd hpre hq.ne_stopping
    | _ => simp [Pre, launchedAt] at hpre
  | finished result hq =>
    cases a with
    | requestStop | checkRunning | checkRequested | readState =>
      exact launchedAt_asserts rfl (by simp) (by simp)
    | lock => exact launchedAt_lock_asserts (.inr rfl) hc
    | onStopRequested => exact absurd hpre hq.ne_stopping
    | _ => simp [Pre, launchedAt, Body.hasEnded] at hpre
  | stopping hq =>
    cases a with
    | onRun result => exact fun _ => rfl
    | onStopRequested => exact fun _ => rfl
    | _ => rcases hq with rfl | rfl <;> simp [Pre, stoppingAt, launchedAt] at hpre
  | returned result hq =>
    cases a with
    | finish => exact ⟨fun _ => ⟨rfl, nofun⟩, nofun⟩
    | onStopRequested => exact fun _ => rfl
    | _ => rcases hq with rfl | rfl <;> simp [Pre, stoppingAt, launchedAt] at hpre
  | stopped result hq hj =>
    cases a with
    | handle =>
      cases hj with
      | posted => exact ⟨rfl, rfl⟩
      | _ => exact absurd hpre.1 (by simp [stoppedAt])
    | join => trivial
    | onStopRequested => exact fun hbase => absurd (hc hbase) nofun
    | _ => rcases hq with rfl | rfl <;> simp [Pre, stoppedAt, Thread.initial] at hpre

/-- A section that comes too late stores a promise that nobody is going to complete. -/
lemma launchedAt_timely {state read : ThreadState} {body : Body ε} {exception : Option ε}
    (hq : Request.Before state (.read read)) (hread : read = .running ∨ read = .finished)
    (hbody : state = .finished → body.hasEnded = true)
    (hs : ((launchedAt state body exception (.read read)).step .lock).Sound) :
    (launchedAt state body exception (.read read)).Timely base .lock := by
  rcases hq.timely hread with rfl | ⟨rfl, rfl⟩
  · refine ⟨rfl, fun h => ?_⟩
    obtain rfl : read = .launching := h
    simp at hread
  · have hended : body.hasEnded = false := hs.not_stored rfl
    simp [hbody rfl] at hended

/-- What a step has to be in time for is what the promises need. -/
lemma Phase.timely (h : Phase t) (hpre : t.Pre a) (hk : t.Asserts base a)
    (hs : (t.step a).Sound) : t.Timely base a := by
  cases a with
  | lock =>
    obtain ⟨read, hread⟩ := hpre
    have hstate := (hk read hread).1
    cases h with
    | resolved hq | onRun hq | ran _ hq =>
      obtain rfl := hread
      exact launchedAt_timely hq hstate nofun hs
    | finished _ hq =>
      obtain rfl := hread
      exact launchedAt_timely hq hstate (fun _ => rfl) hs
    | stopping hq | returned _ hq | stopped _ hq _ =>
      obtain rfl := hread
      simp at hq
    | _ => simp [Thread.initial, launchingAt, stoppedAt] at hread
  | onStopRequested =>
    cases h with
    | resolved hq | onRun hq | ran _ hq | finished _ hq => exact absurd hpre hq.ne_stopping
    | stopped => exact fun hbase => absurd (hk hbase) nofun
    | aborted => cases hpre
    | _ => exact fun _ => rfl
  | _ => trivial

/-! ### Runs -/

/-- A bound of the steps that are left. -/
def rank (t : Thread ε) : Nat :=
  t.body.rank + t.request.rank + 2 * t.posted + t.joining.toNat

/-- A completed promise posts at most one handler, which has two steps. -/
lemma rank_setResult (t : Thread ε) (result : Result ε) (body : Body ε) :
    ({ t.setResult result with body := body } : Thread ε).rank + t.body.rank ≤
      t.rank + body.rank + 2 := by
  unfold setResult
  cases t.promise with
  | none =>
    simp only [rank]
    omega
  | some call => cases call <;> cases result <;> simp only [complete, rank] <;> omega

lemma rank_finish_lt {result : Result ε} (h : t.body = .ran result) :
    (t.finish result).rank < t.rank := by
  unfold Thread.finish
  split
  · have hrank := rank_setResult t.setStopped result (.ended result)
    have hbody : t.setStopped.body.rank = 3 := congrArg Body.rank h
    have hstopped : t.setStopped.rank = t.rank := rfl
    have hended : (Body.ended result).rank = 0 := rfl
    omega
  · simp only [rank, h, Body.rank]
    omega

lemma rank_stop_lt {state : ThreadState} (h : t.request = .read state) :
    (t.stop state).rank < t.rank := by
  unfold Thread.stop
  split
  · simp only [rank, h, complete, setStopped, Request.rank]
    omega
  · simp only [rank, h, Request.rank]
    omega

lemma rank_step_lt (hpre : t.Pre a) : (t.step a).rank < t.rank := by
  cases a with
  -- the state after the step is given first, as the result alone has a rank of its own
  | launchFailed =>
    obtain ⟨e, he⟩ := hpre
    have hrank := rank_setResult t.setStopped (.exception e) (.aborted e)
    have hbody : t.setStopped.body.rank = 3 := congrArg Body.rank he
    have hstopped : t.setStopped.rank = t.rank := rfl
    have hended : (Body.aborted e).rank = 0 := rfl
    have heq : t.step .launchFailed =
        { t.setStopped.setResult (.exception e) with body := .aborted e } := by
      rw [Thread.step, he]
    rw [heq]
    omega
  | launched =>
    have hrank := rank_setResult t .value .resolved
    have hbody : t.body.rank = 8 := congrArg Body.rank hpre
    have hresolved : (Body.resolved : Body ε).rank = 5 := rfl
    have heq : t.step .launched = { t.setResult .value with body := .resolved } := rfl
    rw [heq]
    omega
  | finish =>
    obtain ⟨result, hr⟩ := hpre
    simpa only [Thread.step, hr] using rank_finish_lt hr
  | lock =>
    obtain ⟨state, hr⟩ := hpre
    simpa only [Thread.step, hr] using rank_stop_lt hr
  | onLaunch result =>
    cases result <;>
      simp [rank, Thread.step, show t.body = .onLaunch from hpre, Body.rank]
  | handle =>
    obtain ⟨hposted, hjoining⟩ := hpre
    simp only [rank, Thread.step, hjoining, Bool.toNat_true, Bool.toNat_false]
    omega
  | join => simp [rank, Thread.step, joinAndReset, hpre.1]
  | requestStop => simp [rank, Thread.step, hpre.1, Request.rank]
  | _ => simp [rank, Thread.step, show _ = _ from hpre, Body.rank, Request.rank]

/-- Every run comes to rest. -/
lemma length_le_rank {as : List (ThreadStep ε)}
    (h : (threads ε).Admissible (fun _ _ => True) t as) : as.length ≤ t.rank := by
  induction as generalizing t with
  | nil => exact Nat.zero_le _
  | cons a as ih =>
    obtain ⟨hpre, -, h⟩ := h
    exact (Nat.succ_le_succ (ih h)).trans (rank_step_lt hpre)

end Thread

/-- The stop protocol holds in exactly the runs in which no state is used that is out of date. -/
theorem thread_upholds_iff {ε : Type} (base : Bool) {as : List (ThreadStep ε)}
    (h : (threads ε).Admissible (fun _ _ => True) .initial as) :
    as.length ≤ 20 ∧ ((threads ε).Always Thread.Sound (Thread.Keeps base) .initial as ↔
      (threads ε).Admissible (Thread.Timely base) .initial as) :=
  ⟨Thread.length_le_rank h, Machine.always_iff .initial h (fun _ => Thread.Phase.sound)
    (fun _ _ ht hpre hc => ⟨ht.asserts hpre hc, ht.not_overwritten hpre⟩)
    (fun _ _ => Thread.Phase.step)
    (fun _ _ ht hpre hkeeps hs => ht.timely hpre hkeeps.asserts hs)⟩

/-- `launch` and the body up to `onRun`. -/
def launchRun : List (ThreadStep Unit) :=
  [.launch, .storeHandle, .storeLaunching, .onLaunch .value, .checkPromise, .launched,
    .storeRunning]

/-- A thread is stopped while it runs. -/
def stopRun : List (ThreadStep Unit) :=
  launchRun ++ [.requestStop, .checkRunning, .checkRequested, .readState, .lock, .onStopRequested,
    .onRun (.exception ()), .finish, .handle, .join]

theorem thread_upholds_stopRun :
    (threads Unit).Always Thread.Sound (Thread.Keeps true) .initial stopRun := by
  have hpre : (threads Unit).Admissible (fun _ _ => True) .initial stopRun := by
    simp [stopRun, launchRun, Machine.Admissible, threads, Thread.initial, Thread.Pre, Thread.step,
      Thread.stop, Thread.finish, Thread.setResult, Thread.complete, Thread.setStopped,
      Thread.isStopRequested, Body.hasEnded]
  have htimely : (threads Unit).Admissible (Thread.Timely true) .initial stopRun := by
    simp [stopRun, launchRun, Machine.Admissible, threads, Thread.initial, Thread.Pre, Thread.step,
      Thread.stop, Thread.finish, Thread.setResult, Thread.complete, Thread.setStopped,
      Thread.isStopRequested, Body.hasEnded, Thread.Timely]
  exact (thread_upholds_iff true hpre).2.2 htimely

/-- `requestStop` reads the state, `onRun` returns, and then its section stores the promise. -/
def lateRun : List (ThreadStep Unit) :=
  launchRun ++ [.requestStop, .checkRunning, .checkRequested, .readState, .onRun .value, .finish,
    .lock]

theorem lateRun_not_upholds :
    ¬ ∀ as : List (ThreadStep Unit), (threads Unit).Admissible (fun _ _ => True) .initial as →
      (threads Unit).Always Thread.Sound (Thread.Keeps false) .initial as := by
  intro h
  have hpre : (threads Unit).Admissible (fun _ _ => True) .initial lateRun := by
    simp [lateRun, launchRun, Machine.Admissible, threads, Thread.initial, Thread.Pre, Thread.step,
      Thread.finish, Thread.setResult, Thread.complete, Thread.isStopRequested]
  have hended := (h lateRun hpre).foldl.not_stored rfl
  cases hended

end Idle
