import Idle.Library.Machine

/-!
# The event loop

`EventLoopExecutorImpl` takes work from any thread and runs it on the thread of the event loop.
Both sides are cut into their single steps: a call of `queue` tests `is_running`, enqueues and sends
a wake-up that reaches nobody unless the loop is waiting, and `run_ev` finds the queue empty, tests
for `stopping` and starts to wait. The lock around the loop is never taken by `queue`.
-/

namespace Idle

/-- A work, which is passed to `queue` once. -/
abbrev Work := Nat

/-- `EventLoopExecutorImpl::state_t` -/
inductive EventLoopState where
  | ready
  | running
  | stopping
  | destroyed
  | stopped
  deriving DecidableEq, Repr

/-- `is_running` -/
def EventLoopState.isRunning : EventLoopState → Bool
  | ready | running | stopping => true
  | destroyed | stopped => false

/-- Where a call of `queue` stands. -/
inductive QueueCall where
  | notCalled
  | entered
  /-- `is_running` was true. -/
  | accepted
  /-- `is_running` was false. -/
  | rejected
  /-- Between `enqueue` and `notify_one`. -/
  | enqueued
  | returned
  deriving DecidableEq, Repr

/-- How many works a call has passed on or cancelled. -/
def QueueCall.passed : QueueCall → Nat
  | enqueued | returned => 1
  | notCalled | entered | accepted | rejected => 0

/-- Where `run_ev` stands. -/
inductive RunEv where
  | notCalled
  /-- In `dispatch_all`. -/
  | dispatching
  /-- `dispatch_all` found the queue empty. -/
  | dispatched
  /-- The state was not `stopping`. -/
  | notStopping
  | waiting
  /-- Out of the loop. -/
  | left
  /-- In the last `dispatch_all`. -/
  | draining
  | drained
  | returned
  deriving DecidableEq, Repr

/-- `EventLoopExecutorImpl`, with the threads that are inside of it. -/
structure EventLoop where
  state : EventLoopState
  loop : RunEv
  /-- `queue_`, of which nothing but its elements is known. -/
  queue : List Work
  calls : Work → QueueCall
  /-- History: the works that were passed to `queue`. -/
  works : List Work
  /-- History: how often a work was run. -/
  runs : Work → Nat
  /-- History: how often a work was cancelled. -/
  cancels : Work → Nat

/-- The steps of the callers of `queue` and of the loop. -/
inductive EventLoopOp where
  /-- `queue` is called. -/
  | call (w : Work)
  /-- `queue` tests `is_running`. -/
  | test (w : Work)
  | enqueue (w : Work)
  | notifyOne (w : Work)
  | setCanceled (w : Work)
  /-- `prepare_ev`, and `run_ev` is called. -/
  | runEv
  /-- `dispatch_all` dequeues and runs a work. -/
  | dispatch (w : Work)
  /-- `dispatch_all` finds the queue empty. -/
  | findEmpty
  | testStopping
  | wait
  /-- Condition variables may wake up on their own. -/
  | wake
  /-- All services are destroyed. -/
  | destroy
  | setStopped
  deriving DecidableEq, Repr

namespace EventLoop

def initial : EventLoop where
  state := .ready
  loop := .notCalled
  queue := []
  calls _ := .notCalled
  works := []
  runs _ := 0
  cancels _ := 0

/-! ### The steps of `queue` -/

def call (st : EventLoop) (w : Work) : EventLoop :=
  { st with calls := Function.update st.calls w .entered, works := w :: st.works }

def test (st : EventLoop) (w : Work) : EventLoop :=
  { st with
    calls := Function.update st.calls w (if st.state.isRunning then .accepted else .rejected) }

def enqueue (st : EventLoop) (w : Work) : EventLoop :=
  { st with calls := Function.update st.calls w .enqueued, queue := w :: st.queue }

/-- The wake-up is lost unless the loop is waiting. -/
def notifyOne (st : EventLoop) (w : Work) : EventLoop :=
  { st with
    calls := Function.update st.calls w .returned
    loop := if st.loop = .waiting then .dispatching else st.loop }

def setCanceled (st : EventLoop) (w : Work) : EventLoop :=
  { st with
    calls := Function.update st.calls w .returned
    cancels := Function.update st.cancels w (st.cancels w + 1) }

/-! ### The steps of `run_ev` -/

/-- Running a work of `onImportUnlock` sets the state. -/
def dispatch (stops : Work → Bool) (st : EventLoop) (w : Work) : EventLoop :=
  { st with
    queue := st.queue.erase w
    runs := Function.update st.runs w (st.runs w + 1)
    state := if stops w then .stopping else st.state }

def findEmpty (st : EventLoop) : EventLoop :=
  { st with loop := if st.loop = .draining then .drained else .dispatched }

def testStopping (st : EventLoop) : EventLoop :=
  { st with loop := if st.state = .stopping then .left else .notStopping }

end EventLoop

namespace EventLoopOp

/-- Every thread does its steps in their order; a work is passed to `queue` once. -/
def Pre (st : EventLoop) : EventLoopOp → Prop
  | call w => st.calls w = .notCalled
  | test w => st.calls w = .entered
  | enqueue w => st.calls w = .accepted
  | notifyOne w => st.calls w = .enqueued
  | setCanceled w => st.calls w = .rejected
  | runEv => st.loop = .notCalled
  | dispatch w => (st.loop = .dispatching ∨ st.loop = .draining) ∧ w ∈ st.queue
  | findEmpty => (st.loop = .dispatching ∨ st.loop = .draining) ∧ st.queue = []
  | testStopping => st.loop = .dispatched
  | wait => st.loop = .notStopping
  | wake => st.loop = .waiting
  | destroy => st.loop = .left
  | setStopped => st.loop = .drained

instance (st : EventLoop) : (op : EventLoopOp) → Decidable (op.Pre st)
  | call w => inferInstanceAs (Decidable (st.calls w = _))
  | test w => inferInstanceAs (Decidable (st.calls w = _))
  | enqueue w => inferInstanceAs (Decidable (st.calls w = _))
  | notifyOne w => inferInstanceAs (Decidable (st.calls w = _))
  | setCanceled w => inferInstanceAs (Decidable (st.calls w = _))
  | dispatch w => inferInstanceAs (Decidable (_ ∧ w ∈ st.queue))
  | findEmpty => inferInstanceAs (Decidable (_ ∧ st.queue = []))
  | runEv => inferInstanceAs (Decidable (st.loop = _))
  | testStopping => inferInstanceAs (Decidable (st.loop = _))
  | wait => inferInstanceAs (Decidable (st.loop = _))
  | wake => inferInstanceAs (Decidable (st.loop = _))
  | destroy => inferInstanceAs (Decidable (st.loop = _))
  | setStopped => inferInstanceAs (Decidable (st.loop = _))

def exec (stops : Work → Bool) (st : EventLoop) : EventLoopOp → EventLoop
  | call w => st.call w
  | test w => st.test w
  | enqueue w => st.enqueue w
  | notifyOne w => st.notifyOne w
  | setCanceled w => st.setCanceled w
  | runEv => { st with state := .running, loop := .dispatching }
  | dispatch w => st.dispatch stops w
  | findEmpty => st.findEmpty
  | testStopping => st.testStopping
  | wait => { st with loop := .waiting }
  | wake => { st with loop := .dispatching }
  | destroy => { st with state := .destroyed, loop := .draining }
  | setStopped => { st with state := .stopped, loop := .returned }

end EventLoopOp

/-- The event loop, where `stops` are the works that set the state to `stopping`. -/
def eventLoop (stops : Work → Bool) : Machine EventLoop EventLoopOp where
  init st := st = .initial
  pre := EventLoopOp.Pre
  step := EventLoopOp.exec stops

instance (stops : Work → Bool) (st : EventLoop) (op : EventLoopOp) :
    Decidable ((eventLoop stops).pre st op) :=
  inferInstanceAs (Decidable (op.Pre st))

namespace EventLoop

variable {st : EventLoop} {op : EventLoopOp} {stops : Work → Bool} {w : Work}

/-- Nothing is left behind: not while the loop waits, and not when it has returned. -/
structure Delivers (st : EventLoop) : Prop where
  waiting : st.loop = .waiting → (∀ w ∈ st.works, st.calls w ≠ .enqueued) → st.queue = []
  atMostOnce : ∀ w, st.runs w + st.cancels w ≤ 1
  exactlyOnce : st.loop = .returned → (∀ w ∈ st.works, st.calls w = .returned) →
    st.queue = [] ∧ ∀ w ∈ st.works, st.runs w + st.cancels w = 1

/-! ### No work is run twice -/

/-- Every work that was passed on is in the queue, or it was run or cancelled, once. -/
structure Accounted (st : EventLoop) : Prop where
  mem_works : ∀ w, w ∈ st.works ↔ st.calls w ≠ .notCalled
  count_eq : ∀ w, st.queue.count w + st.runs w + st.cancels w =
    (st.calls w).passed

lemma accounted_initial : initial.Accounted := by
  refine ⟨fun w => ?_, fun w => ?_⟩
  · simp [initial]
  · simp [initial, QueueCall.passed]

/-- A call that goes on without passing its work on. -/
lemma Accounted.advance {c : QueueCall} (h : st.Accounted) (hw : st.calls w ≠ .notCalled)
    (hc : c ≠ .notCalled) (heq : c.passed = (st.calls w).passed) :
    ({ st with calls := Function.update st.calls w c } : EventLoop).Accounted := by
  refine ⟨fun v => ?_, fun v => ?_⟩
  · by_cases hv : v = w
    · subst hv
      simp only [Function.update_self]
      exact (h.mem_works v).trans ⟨fun _ => hc, fun _ => hw⟩
    · simp only [Function.update_of_ne hv]
      exact h.mem_works v
  · by_cases hv : v = w
    · subst hv
      simp only [Function.update_self, heq]
      exact h.count_eq v
    · simp only [Function.update_of_ne hv]
      exact h.count_eq v

lemma Accounted.call (h : st.Accounted) (hw : st.calls w = .notCalled) :
    (st.call w).Accounted := by
  refine ⟨fun v => ?_, fun v => ?_⟩
  · by_cases hv : v = w
    · simp [EventLoop.call, hv]
    · simp [EventLoop.call, hv, h.mem_works v]
  · have hcount := h.count_eq v
    by_cases hv : v = w
    · subst hv
      simpa [EventLoop.call, hw, QueueCall.passed] using hcount
    · simpa [EventLoop.call, hv] using hcount

lemma Accounted.enqueue (h : st.Accounted) (hw : st.calls w = .accepted) :
    (st.enqueue w).Accounted := by
  refine ⟨fun v => ?_, fun v => ?_⟩
  · by_cases hv : v = w
    · simp [EventLoop.enqueue, hv, h.mem_works w, hw]
    · simp [EventLoop.enqueue, hv, h.mem_works v]
  · have hcount := h.count_eq v
    by_cases hv : v = w
    · subst hv
      rw [hw] at hcount
      simp only [EventLoop.enqueue, Function.update_self, List.count_cons_self]
      simp only [QueueCall.passed] at hcount ⊢
      omega
    · simpa [EventLoop.enqueue, hv, List.count_cons_of_ne (Ne.symm hv)] using hcount

lemma Accounted.notifyOne (h : st.Accounted) (hw : st.calls w = .enqueued) :
    (st.notifyOne w).Accounted := by
  have hadvance : ({ st with calls := Function.update st.calls w .returned } :
      EventLoop).Accounted :=
    h.advance (by simp [hw]) (by simp) (by simp [hw, QueueCall.passed])
  exact ⟨hadvance.mem_works, hadvance.count_eq⟩

lemma Accounted.setCanceled (h : st.Accounted) (hw : st.calls w = .rejected) :
    (st.setCanceled w).Accounted := by
  refine ⟨fun v => ?_, fun v => ?_⟩
  · by_cases hv : v = w
    · simp [EventLoop.setCanceled, hv, h.mem_works w, hw]
    · simp [EventLoop.setCanceled, hv, h.mem_works v]
  · have hcount := h.count_eq v
    by_cases hv : v = w
    · subst hv
      rw [hw] at hcount
      simp only [EventLoop.setCanceled, Function.update_self]
      simp only [QueueCall.passed] at hcount ⊢
      omega
    · simpa [EventLoop.setCanceled, hv] using hcount

lemma Accounted.dispatch (h : st.Accounted) (hw : w ∈ st.queue) :
    (st.dispatch stops w).Accounted := by
  refine ⟨h.mem_works, fun v => ?_⟩
  have hcount := h.count_eq v
  by_cases hv : v = w
  · subst hv
    have hpos : 0 < st.queue.count v := List.count_pos_iff.2 hw
    simp only [EventLoop.dispatch, Function.update_self, List.count_erase_self]
    omega
  · simpa [EventLoop.dispatch, hv, List.count_erase_of_ne hv] using hcount

theorem Accounted.exec (h : st.Accounted) (hpre : op.Pre st) : (op.exec stops st).Accounted := by
  cases op with
  | call w => exact h.call hpre
  | test w =>
    have hw : st.calls w = .entered := hpre
    refine h.advance (by simp [hw]) ?_ ?_
    · split <;> simp
    · rw [hw]
      split <;> rfl
  | enqueue w => exact h.enqueue hpre
  | notifyOne w => exact h.notifyOne hpre
  | setCanceled w => exact h.setCanceled hpre
  | dispatch w => exact h.dispatch hpre.2
  | runEv | findEmpty | testStopping | wait | wake | destroy | setStopped =>
    exact ⟨h.mem_works, h.count_eq⟩

/-! ### No work is forgotten -/

/-- The loop found the queue empty and is going to wait. -/
def AboutToWait (st : EventLoop) : Prop :=
  st.loop = .dispatched ∧ st.state ≠ .stopping ∨ st.loop = .notStopping

/-- A wake-up is not lost while its work is in the queue, unless another one is about to be sent,
and nothing is enqueued when the last `dispatch_all` is over. -/
def WakesUp (st : EventLoop) : EventLoopOp → Prop
  | .notifyOne w => st.AboutToWait →
      st.queue = [] ∨ ∃ v ∈ st.works, v ≠ w ∧ st.calls v = .enqueued
  | .enqueue _ => st.loop ≠ .drained ∧ st.loop ≠ .returned
  | _ => True

/-- Somebody is going to wake the loop up if there is work, and the last `dispatch_all` leaves
none. -/
structure Attended (st : EventLoop) : Prop where
  waking : st.AboutToWait ∨ st.loop = .waiting →
    st.queue = [] ∨ ∃ w ∈ st.works, st.calls w = .enqueued
  drained : st.loop = .drained ∨ st.loop = .returned → st.queue = []

/-- A call that goes on and does not take a wake-up away. -/
lemma Attended.advance {c : QueueCall} {works : List Work} (h : st.Attended)
    (hw : st.calls w ≠ .enqueued) (hworks : st.works ⊆ works) :
    ({ st with calls := Function.update st.calls w c, works := works } : EventLoop).Attended := by
  refine ⟨fun hloop => (h.waking hloop).imp_right ?_, h.drained⟩
  rintro ⟨v, hv, hcall⟩
  have hvw : v ≠ w := fun heq => hw (heq ▸ hcall)
  exact ⟨v, hworks hv, by simpa [hvw] using hcall⟩

lemma Attended.enqueue (hw : w ∈ st.works)
    (hloop : st.loop ≠ .drained ∧ st.loop ≠ .returned) : (st.enqueue w).Attended := by
  refine ⟨fun _ => .inr ⟨w, hw, Function.update_self ..⟩, ?_⟩
  rintro (hd | hd)
  · exact absurd hd hloop.1
  · exact absurd hd hloop.2

lemma Attended.notifyOne (h : st.Attended) (hwakes : st.AboutToWait →
    st.queue = [] ∨ ∃ v ∈ st.works, v ≠ w ∧ st.calls v = .enqueued) :
    (st.notifyOne w).Attended := by
  by_cases hwaiting : st.loop = .waiting
  · -- the loop is woken up
    have hloop : (st.notifyOne w).loop = .dispatching := if_pos hwaiting
    refine ⟨?_, ?_⟩
    · rintro ((⟨hl, -⟩ | hl) | hl) <;> simp [hloop] at hl
    · rintro (hl | hl) <;> simp [hloop] at hl
  · have hloop : (st.notifyOne w).loop = st.loop := if_neg hwaiting
    refine ⟨fun hl => ?_, fun hl => h.drained (hloop ▸ hl)⟩
    have hwait : st.AboutToWait := by
      rcases hl with (⟨hl, hs⟩ | hl) | hl
      · exact .inl ⟨hloop ▸ hl, hs⟩
      · exact .inr (hloop ▸ hl)
      · exact absurd (hloop ▸ hl) hwaiting
    refine (hwakes hwait).imp_right ?_
    rintro ⟨v, hv, hvw, hcall⟩
    exact ⟨v, hv, by simpa [EventLoop.notifyOne, hvw] using hcall⟩

/-- Nothing is said of a loop that is neither going to wait nor done. -/
lemma Attended.of_busy (hloop : st.loop = .dispatching ∨ st.loop = .draining ∨ st.loop = .left) :
    st.Attended := by
  refine ⟨?_, ?_⟩
  · rintro ((⟨hl, -⟩ | hl) | hl) <;> simp [hl] at hloop
  · rintro (hl | hl) <;> simp [hl] at hloop

theorem Attended.exec (h : st.Attended) (ha : st.Accounted) (hpre : op.Pre st)
    (hop : st.WakesUp op) : (op.exec stops st).Attended := by
  cases op with
  | call w =>
    have hw : st.calls w = .notCalled := hpre
    exact h.advance (by simp [hw]) (List.subset_cons_self w st.works)
  | test w =>
    have hw : st.calls w = .entered := hpre
    exact h.advance (by simp [hw]) (List.Subset.refl _)
  | enqueue w =>
    have hw : st.calls w = .accepted := hpre
    exact .enqueue ((ha.mem_works w).2 (by simp [hw])) hop
  | notifyOne w => exact h.notifyOne hop
  | setCanceled w =>
    have hw : st.calls w = .rejected := hpre
    have hne : st.calls w ≠ .enqueued := by simp [hw]
    have hadvance := h.advance (c := .returned) hne (List.Subset.refl _)
    exact ⟨hadvance.waking, hadvance.drained⟩
  | runEv => exact .of_busy (.inl rfl)
  | dispatch w =>
    obtain ⟨hl | hl, -⟩ := hpre
    · exact .of_busy (.inl hl)
    · exact .of_busy (.inr (.inl hl))
  | findEmpty => exact ⟨fun _ => .inl hpre.2, fun _ => hpre.2⟩
  | testStopping =>
    have hloop : st.loop = .dispatched := hpre
    by_cases hs : st.state = .stopping
    · exact .of_busy (.inr (.inr (if_pos hs)))
    · refine ⟨fun _ => h.waking (.inl (.inl ⟨hloop, hs⟩)), ?_⟩
      rintro (hl | hl) <;> simp [EventLoopOp.exec, testStopping, hs] at hl
  | wait =>
    refine ⟨fun _ => h.waking (.inl (.inr hpre)), ?_⟩
    rintro (hl | hl) <;> simp [EventLoopOp.exec] at hl
  | wake => exact .of_busy (.inl rfl)
  | destroy => exact .of_busy (.inr (.inl rfl))
  | setStopped =>
    refine ⟨?_, fun _ => h.drained (.inl hpre)⟩
    rintro ((⟨hl, -⟩ | hl) | hl) <;> simp [EventLoopOp.exec] at hl

lemma Attended.delivers (h : st.Attended) (ha : st.Accounted) : st.Delivers where
  waiting hloop hcalls := by
    refine (h.waking (.inr hloop)).resolve_right ?_
    rintro ⟨w, hw, hcall⟩
    exact hcalls w hw hcall
  atMostOnce w := by
    have hcount := ha.count_eq w
    have hle : (st.calls w).passed ≤ 1 := by cases st.calls w <;> decide
    omega
  exactlyOnce hloop hcalls := by
    have hqueue := h.drained (.inr hloop)
    refine ⟨hqueue, fun w hw => ?_⟩
    have hcount := ha.count_eq w
    rw [hqueue, hcalls w hw] at hcount
    simpa [QueueCall.passed] using hcount

end EventLoop

open EventLoop

/-- Whatever threads do, no work is run or cancelled twice. -/
theorem eventLoop_accounted {stops : Work → Bool} {st : EventLoop}
    {cond : EventLoop → EventLoopOp → Prop} (h : (eventLoop stops).Reachable cond st) :
    st.Accounted := by
  refine h.invariant ?_ fun _ _ _ hst hpre _ => hst.exec hpre
  rintro st rfl
  exact accounted_initial

/-- In every run in which no wake-up is lost and nothing is enqueued too late, all work is
delivered. -/
theorem eventLoop_delivers {stops : Work → Bool} {st : EventLoop}
    (h : (eventLoop stops).Reachable WakesUp st) : st.Delivers := by
  have hattended : st.Attended := by
    refine h.invariant ?_ fun _ _ hr hst hpre hop => hst.exec (eventLoop_accounted hr) hpre hop
    rintro st rfl
    exact ⟨fun _ => .inl rfl, fun _ => rfl⟩
  exact hattended.delivers (eventLoop_accounted h)

instance (st : EventLoop) : Decidable st.AboutToWait :=
  inferInstanceAs (Decidable (_ ∧ _ ∨ _))

instance (st : EventLoop) : (op : EventLoopOp) → Decidable (st.WakesUp op)
  | .notifyOne _ => inferInstanceAs (Decidable (st.AboutToWait → _ ∨ ∃ v ∈ st.works, _))
  | .enqueue _ => inferInstanceAs (Decidable (_ ∧ _))
  | .call _ | .test _ | .setCanceled _ | .runEv | .dispatch _ | .findEmpty | .testStopping | .wait
  | .wake | .destroy | .setStopped => .isTrue trivial

/-- The loop waits, is woken up by a work that stops it, and cancels another one. -/
def stoppedLoopRun : List EventLoopOp :=
  [.runEv, .findEmpty, .testStopping, .wait, .call 0, .test 0, .enqueue 0, .notifyOne 0,
    .dispatch 0, .findEmpty, .testStopping, .destroy, .call 1, .test 1, .setCanceled 1, .findEmpty,
    .setStopped]

/-- A work is enqueued when the loop is going to wait. -/
def lostWakeUpRun : List EventLoopOp :=
  [.runEv, .findEmpty, .testStopping, .call 0, .test 0, .enqueue 0, .notifyOne 0, .wait]

theorem eventLoop_delivers_stoppedLoopRun :
    (stoppedLoopRun.foldl (EventLoopOp.exec (· = 0)) initial).loop = .returned ∧
      (stoppedLoopRun.foldl (EventLoopOp.exec (· = 0)) initial).Delivers := by
  have h : (eventLoop (· = 0)).Reachable WakesUp
      (stoppedLoopRun.foldl (EventLoopOp.exec (· = 0)) initial) :=
    Machine.Reachable.run (.init rfl) (by decide)
  exact ⟨by decide, eventLoop_delivers h⟩

/-- The loop waits although there is work and everybody has sent the wake-up. -/
theorem lostWakeUpRun_not_delivers :
    (eventLoop (· = 0)).Reachable (fun _ _ => True)
        (lostWakeUpRun.foldl (EventLoopOp.exec (· = 0)) initial) ∧
      ¬ (lostWakeUpRun.foldl (EventLoopOp.exec (· = 0)) initial).Delivers := by
  refine ⟨Machine.Reachable.run (.init rfl) (by decide), fun h => ?_⟩
  exact absurd (h.waiting (by decide) (by decide)) (by decide)

end Idle
