import Idle.Library.Machine

/-!
# Timers

`timer_impl` keeps its tasks in a queue ordered by deadline and has one `asio` timer that waits for
the first of them. A wait is delivered once, with success if it expired before it was cancelled; a
delivered success posts a pass over the queue. The queue survives `onStop`, the timer does not.
-/

namespace Idle

/-- `timer_impl::timed_work`, where the task has a name. -/
structure TimedWork where
  deadline : Nat
  task : Nat
  deriving DecidableEq, Repr

namespace TimedWork

/-- The order in which a `priority_queue` of `timed_work` pops, which is open for equal
deadlines. -/
def Before (v w : TimedWork) : Prop := v.deadline ≤ w.deadline

instance : DecidableRel Before := fun v w => inferInstanceAs (Decidable (v.deadline ≤ w.deadline))

instance : Std.Total Before := ⟨fun v w => le_total v.deadline w.deadline⟩

instance : IsTrans TimedWork Before := ⟨fun _ _ _ h h' => le_trans h h'⟩

end TimedWork

/-- What is going to be delivered for an `async_wait`. -/
inductive WaitStatus where
  /-- Nothing yet. -/
  | armed
  /-- Success; cancelling comes too late. -/
  | expired
  /-- `operation_aborted` -/
  | aborted
  deriving DecidableEq, Repr

/-- An `async_wait` that is not delivered yet. -/
structure Wait where
  expiry : Nat
  status : WaitStatus
  deriving DecidableEq, Repr

/-- `basic_waitable_timer::cancel` -/
def Wait.cancel (w : Wait) : Wait :=
  match w.status with
  | .armed => { w with status := .aborted }
  | .expired | .aborted => w

/-- `timer_impl` with what `asio` and its strand still have to do. -/
structure Timer where
  /-- Whether `timer_` and `strand_` are there. -/
  running : Bool
  now : Nat
  /-- `queue_`, the top first. -/
  queue : List TimedWork
  waits : List Wait
  /-- The passes that `ready` has posted. -/
  posted : Nat
  /-- History: the tasks that were deposited. -/
  deposited : List Nat
  /-- History: what was resolved, with the time of each pass. -/
  resolved : List (Nat × List TimedWork)

/-- What happens to a timer. -/
inductive TimerOp where
  | tick (now : Nat)
  | deposit (w : TimedWork)
  /-- The time of a wait has come. -/
  | expire (expiry : Nat)
  /-- A wait that is over calls `ready`. -/
  | deliver (w : Wait)
  /-- The pass that `ready` has posted. -/
  | pass
  | onStart
  | onStop
  deriving DecidableEq, Repr

namespace Timer

def initial : Timer where
  running := false
  now := 0
  queue := []
  waits := []
  posted := 0
  deposited := []
  resolved := []

/-- `timer_->cancel()` -/
def cancel (t : Timer) : Timer := { t with waits := t.waits.map Wait.cancel }

/-- `schedule`, where `expires_at` cancels what is waiting. -/
def schedule (t : Timer) (deadline : Nat) : Timer :=
  let t := t.cancel
  { t with waits := ⟨deadline, .armed⟩ :: t.waits }

/-- `queue_.push` -/
def push (t : Timer) (w : TimedWork) : Timer :=
  { t with queue := t.queue.orderedInsert TimedWork.Before w, deposited := w.task :: t.deposited }

def deposit (t : Timer) (w : TimedWork) : Timer :=
  match t.queue with
  | [] => (t.push w).schedule w.deadline
  | top :: _ =>
    if top.deadline ≤ w.deadline then t.push w
    else (t.push w).cancel.schedule w.deadline

/-- `ready`, which posts a pass unless the wait was cancelled. -/
def ready (t : Timer) (status : WaitStatus) : Timer :=
  if status = .aborted then t else { t with posted := t.posted + 1 }

/-- The loop of the posted pass: what it resolves, and what remains. -/
def resolveDue (now : Nat) : List TimedWork → List TimedWork × List TimedWork
  | [] => ([], [])
  | top :: rest =>
    if top.deadline ≤ now then
      let r := resolveDue now rest
      (top :: r.1, r.2)
    else ([], top :: rest)

/-- The handler that `ready` posts. -/
def pass (t : Timer) : Timer :=
  let r := resolveDue t.now t.queue
  let t := { t with
    posted := t.posted - 1
    queue := r.2
    resolved := (t.now, r.1) :: t.resolved }
  match t.queue with
  | [] => t
  | top :: _ => t.schedule top.deadline

def onStop (t : Timer) : Timer := { t.cancel with running := false }

end Timer

namespace TimerOp

/-- The clock does not go back, every task is deposited once, and `asio` delivers what is over. -/
def Pre (t : Timer) : TimerOp → Prop
  | tick now => t.now ≤ now
  | deposit w => w.task ∉ t.deposited
  | expire expiry => ⟨expiry, .armed⟩ ∈ t.waits ∧ expiry ≤ t.now
  | deliver w => w ∈ t.waits ∧ w.status ≠ .armed
  | pass => 0 < t.posted
  | onStart => t.running = false
  | onStop => t.running = true

instance (t : Timer) : (op : TimerOp) → Decidable (op.Pre t)
  | tick now => inferInstanceAs (Decidable (t.now ≤ now))
  | deposit w => inferInstanceAs (Decidable (w.task ∉ t.deposited))
  | expire _ => inferInstanceAs (Decidable (_ ∧ _))
  | deliver _ => inferInstanceAs (Decidable (_ ∧ _))
  | pass => inferInstanceAs (Decidable (0 < t.posted))
  | onStart => inferInstanceAs (Decidable (t.running = false))
  | onStop => inferInstanceAs (Decidable (t.running = true))

def exec (t : Timer) : TimerOp → Timer
  | tick now => { t with now := now }
  | deposit w => t.deposit w
  | expire expiry =>
    { t with waits := ⟨expiry, .expired⟩ :: t.waits.erase ⟨expiry, .armed⟩ }
  | deliver w => ({ t with waits := t.waits.erase w } : Timer).ready w.status
  | pass => t.pass
  | onStart => { t with running := true }
  | onStop => t.onStop

/-- The operation uses `timer_` or `strand_` although they are empty, which is undefined. -/
def Dangles (t : Timer) : TimerOp → Prop
  | deposit w => t.running = false ∧ ∀ v ∈ t.queue, w.deadline < v.deadline
  | deliver w => t.running = false ∧ w.status = .expired
  | pass => t.running = false ∧ ∃ w ∈ t.queue, t.now < w.deadline
  | _ => False

end TimerOp

/-- A timer from its construction on. -/
def timer : Machine Timer TimerOp where
  init t := t = .initial
  pre := TimerOp.Pre
  step := TimerOp.exec

instance (t : Timer) (op : TimerOp) : Decidable (timer.pre t op) :=
  inferInstanceAs (Decidable (op.Pre t))

namespace Timer

variable {t : Timer} {op : TimerOp} {w : TimedWork}

/-- A wait that is going to be delivered with success, before anything in the queue is late. -/
def Awaited (t : Timer) : Prop :=
  ∃ wait ∈ t.waits, wait.status ≠ .aborted ∧ ∀ w ∈ t.queue, wait.expiry ≤ w.deadline

/-- Nothing is resolved twice, early or out of order, and nothing in the queue is forgotten. -/
structure Complete (t : Timer) : Prop where
  atMostOnce : ∀ task, (t.resolved.flatMap Prod.snd).countP (·.task = task) ≤ 1
  notEarly : ∀ r ∈ t.resolved, ∀ w ∈ r.2, w.deadline ≤ r.1
  inOrder : ∀ r ∈ t.resolved, r.2.Pairwise TimedWork.Before
  notStranded : t.running = true → t.queue ≠ [] → t.Awaited ∨ 0 < t.posted

/-! ### What a pass resolves -/

lemma resolveDue_append (now : Nat) (ws : List TimedWork) :
    (resolveDue now ws).1 ++ (resolveDue now ws).2 = ws := by
  induction ws with
  | nil => rfl
  | cons top rest ih =>
    rw [resolveDue]
    split
    · exact congrArg (top :: ·) ih
    · rfl

lemma deadline_le_of_mem_resolveDue {now : Nat} {ws : List TimedWork}
    (hw : w ∈ (resolveDue now ws).1) : w.deadline ≤ now := by
  induction ws with
  | nil => simp [resolveDue] at hw
  | cons top rest ih =>
    rw [resolveDue] at hw
    split at hw
    · rename_i hdue
      rcases List.mem_cons.1 hw with rfl | hw
      · exact hdue
      · exact ih hw
    · simp at hw

/-- Every task is in the queue or was resolved, once; the queue and every pass are in order. -/
structure Accounted (t : Timer) : Prop where
  sorted : t.queue.Pairwise TimedWork.Before
  count_eq : ∀ task, t.queue.countP (·.task = task) +
    (t.resolved.flatMap Prod.snd).countP (·.task = task) = if task ∈ t.deposited then 1 else 0
  notEarly : ∀ r ∈ t.resolved, ∀ w ∈ r.2, w.deadline ≤ r.1
  inOrder : ∀ r ∈ t.resolved, r.2.Pairwise TimedWork.Before

/-- The waits and the posted passes do not matter. -/
lemma Accounted.congr {t' : Timer} (h : t.Accounted) (hq : t'.queue = t.queue)
    (hr : t'.resolved = t.resolved) (hd : t'.deposited = t.deposited) : t'.Accounted := by
  refine ⟨hq ▸ h.sorted, fun task => ?_, hr ▸ h.notEarly, hr ▸ h.inOrder⟩
  rw [hq, hr, hd]
  exact h.count_eq task

lemma Accounted.push (h : t.Accounted) (hw : w.task ∉ t.deposited) : (t.push w).Accounted := by
  refine ⟨h.sorted.orderedInsert w _, fun task => ?_, h.notEarly, h.inOrder⟩
  have hcount := h.count_eq task
  simp only [Timer.push, (List.perm_orderedInsert _ w t.queue).countP_eq, List.countP_cons,
    List.mem_cons]
  by_cases htask : w.task = task
  · subst htask
    rw [if_neg hw] at hcount
    simp only [decide_true, if_true, true_or]
    omega
  · simpa [htask, Ne.symm htask] using hcount

lemma deposit_eq (t : Timer) (w : TimedWork) :
    (t.deposit w).queue = (t.push w).queue ∧ (t.deposit w).resolved = (t.push w).resolved ∧
      (t.deposit w).deposited = (t.push w).deposited := by
  unfold deposit
  split
  · exact ⟨rfl, rfl, rfl⟩
  · split <;> exact ⟨rfl, rfl, rfl⟩

lemma pass_eq (t : Timer) :
    t.pass.queue = (resolveDue t.now t.queue).2 ∧
      t.pass.resolved = (t.now, (resolveDue t.now t.queue).1) :: t.resolved ∧
      t.pass.deposited = t.deposited := by
  unfold pass
  simp only
  split <;> exact ⟨rfl, rfl, rfl⟩

lemma Accounted.pass (h : t.Accounted) : t.pass.Accounted := by
  obtain ⟨hq, hr, hd⟩ := t.pass_eq
  have happend := resolveDue_append t.now t.queue
  have hdue : ∀ w ∈ (resolveDue t.now t.queue).1, w.deadline ≤ t.now :=
    fun w hw => deadline_le_of_mem_resolveDue hw
  generalize resolveDue t.now t.queue = r at hq hr hdue happend
  have hsorted := h.sorted
  rw [← happend, List.pairwise_append] at hsorted
  refine ⟨hq ▸ hsorted.2.1, fun task => ?_, ?_, ?_⟩
  · have hcount := h.count_eq task
    rw [← happend, List.countP_append] at hcount
    simp only [hq, hr, hd, List.flatMap_cons, List.countP_append]
    omega
  · rw [hr]
    intro r hmem
    rcases List.mem_cons.1 hmem with rfl | hmem
    · exact hdue
    · exact h.notEarly r hmem
  · rw [hr]
    intro r hmem
    rcases List.mem_cons.1 hmem with rfl | hmem
    · exact hsorted.1
    · exact h.inOrder r hmem

theorem Accounted.exec (h : t.Accounted) (hpre : op.Pre t) : (op.exec t).Accounted := by
  cases op with
  | tick now => exact h.congr rfl rfl rfl
  | deposit w =>
    obtain ⟨hq, hr, hd⟩ := t.deposit_eq w
    exact (h.push hpre).congr hq hr hd
  | expire expiry => exact h.congr rfl rfl rfl
  | deliver w =>
    simp only [TimerOp.exec, ready]
    split <;> exact h.congr rfl rfl rfl
  | pass => exact h.pass
  | onStart => exact h.congr rfl rfl rfl
  | onStop => exact h.congr rfl rfl rfl

/-! ### Something is always waiting -/

/-- The timer is not used while it is empty, and it starts again only when nothing waits for it or
a success is still to come. -/
def Resumes (t : Timer) (op : TimerOp) : Prop :=
  ¬ op.Dangles t ∧ (op = .onStart → t.queue = [] ∨ 0 < t.posted ∨
    ∃ wait ∈ t.waits, wait.status = .expired ∧ ∀ w ∈ t.queue, wait.expiry ≤ w.deadline)

/-- A task that the timer was set to is not later than those in the queue. -/
lemma awaited_schedule {deadline : Nat} (h : ∀ v ∈ t.queue, deadline ≤ v.deadline) :
    (t.schedule deadline).Awaited :=
  ⟨⟨deadline, .armed⟩, List.mem_cons_self, by simp, h⟩

lemma Awaited.expire {expiry : Nat} (h : t.Awaited) :
    ({ t with waits := ⟨expiry, .expired⟩ :: t.waits.erase ⟨expiry, .armed⟩ } : Timer).Awaited := by
  obtain ⟨wait, hmem, hstatus, hle⟩ := h
  by_cases heq : wait = ⟨expiry, .armed⟩
  · subst heq
    exact ⟨_, List.mem_cons_self, by simp, hle⟩
  · exact ⟨wait, List.mem_cons_of_mem _ ((List.mem_erase_of_ne heq).2 hmem), hstatus, hle⟩

lemma notStranded_deposit (ha : t.Accounted) (h : t.queue ≠ [] → t.Awaited ∨ 0 < t.posted) :
    (t.deposit w).Awaited ∨ 0 < (t.deposit w).posted := by
  have hmem : ∀ v, v ∈ (t.push w).queue ↔ v = w ∨ v ∈ t.queue :=
    fun v => List.mem_orderedInsert _
  unfold deposit
  cases hq : t.queue with
  | nil =>
    refine .inl (awaited_schedule fun v hv => ?_)
    rw [hmem, hq] at hv
    rw [hv.resolve_right List.not_mem_nil]
  | cons top rest =>
    have htop : ∀ v ∈ t.queue, top.deadline ≤ v.deadline := by
      have hsorted := ha.sorted
      rw [hq, List.pairwise_cons] at hsorted
      rw [hq]
      intro v hv
      rcases List.mem_cons.1 hv with rfl | hv
      · exact le_rfl
      · exact hsorted.1 v hv
    simp only
    split
    · -- the task is later than what is waited for
      rename_i hle
      refine (h (by simp [hq])).imp_left ?_
      rintro ⟨wait, hwait, hstatus, hexpiry⟩
      refine ⟨wait, hwait, hstatus, fun v hv => ?_⟩
      rcases (hmem v).1 hv with rfl | hv
      · exact (hexpiry top (by simp [hq])).trans hle
      · exact hexpiry v hv
    · rename_i hlt
      refine .inl (awaited_schedule fun v hv => ?_)
      rcases (hmem v).1 hv with rfl | hv
      · exact le_rfl
      · exact (not_le.1 hlt).le.trans (htop v hv)

lemma notStranded_pass (ha : t.Accounted) (hne : t.pass.queue ≠ []) : t.pass.Awaited := by
  have hsorted := ha.pass.sorted
  obtain ⟨hq, -⟩ := t.pass_eq
  rw [hq] at hne hsorted
  unfold pass
  simp only
  split
  · rename_i hnil
    exact absurd hnil hne
  · rename_i top rest hcons
    refine awaited_schedule fun v hv => ?_
    rw [hcons, List.pairwise_cons] at hsorted
    rcases List.mem_cons.1 (hcons ▸ hv : v ∈ top :: rest) with rfl | hv
    · exact le_rfl
    · exact hsorted.1 v hv

theorem notStranded_exec (ha : t.Accounted) (hpre : op.Pre t) (hop : t.Resumes op)
    (h : t.running = true → t.queue ≠ [] → t.Awaited ∨ 0 < t.posted) :
    (op.exec t).running = true → (op.exec t).queue ≠ [] →
      (op.exec t).Awaited ∨ 0 < (op.exec t).posted := by
  cases op with
  | tick now => exact h
  | deposit w =>
    intro hrun _
    have hrun' : (t.deposit w).running = t.running := by
      unfold deposit
      split
      · rfl
      · split <;> rfl
    exact notStranded_deposit ha (h (hrun'.symm.trans hrun))
  | expire expiry => exact fun hrun hq => (h hrun hq).imp_left Awaited.expire
  | deliver w =>
    simp only [TimerOp.exec, ready]
    split
    · rename_i haborted
      refine fun hrun hq => (h hrun hq).imp_left ?_
      rintro ⟨wait, hwait, hstatus, hle⟩
      have hne : wait ≠ w := fun heq => hstatus (heq ▸ haborted)
      exact ⟨wait, (List.mem_erase_of_ne hne).2 hwait, hstatus, hle⟩
    · exact fun _ _ => .inr (Nat.succ_pos _)
  | pass => exact fun _ hne => .inl (notStranded_pass ha hne)
  | onStart =>
    intro _ hne
    rcases hop.2 rfl with hnil | hposted | ⟨wait, hwait, hstatus, hle⟩
    · exact absurd hnil hne
    · exact .inr hposted
    · exact .inl ⟨wait, hwait, by simp [hstatus], hle⟩
  | onStop => exact fun hrun => absurd hrun (by simp [TimerOp.exec, onStop])

lemma Accounted.complete (ha : t.Accounted)
    (h : t.running = true → t.queue ≠ [] → t.Awaited ∨ 0 < t.posted) : t.Complete where
  atMostOnce task := by
    have hcount := ha.count_eq task
    split at hcount <;> omega
  notEarly := ha.notEarly
  inOrder := ha.inOrder
  notStranded := h

end Timer

open Timer

/-- Whatever happens, tasks are resolved at most once, in time and in order. -/
theorem timer_accounted {t : Timer} {cond : Timer → TimerOp → Prop}
    (h : timer.Reachable cond t) : t.Accounted := by
  refine h.invariant ?_ fun _ _ _ ht hpre _ => ht.exec hpre
  rintro t rfl
  exact ⟨List.Pairwise.nil, fun task => by simp [initial], by simp [initial], by simp [initial]⟩

/-- In every run that never starts the timer again with tasks that nothing waits for, no task is
stranded. -/
theorem timer_complete {t : Timer} (h : timer.Reachable Resumes t) : t.Complete := by
  refine (timer_accounted h).complete ?_
  refine h.invariant (P := fun t => t.running = true → t.queue ≠ [] → t.Awaited ∨ 0 < t.posted) ?_
    fun _ _ hr ht hpre hop => notStranded_exec (timer_accounted hr) hpre hop ht
  rintro t rfl hrun
  simp [initial] at hrun

instance (t : Timer) : (op : TimerOp) → Decidable (op.Dangles t)
  | .deposit _ => inferInstanceAs (Decidable (_ ∧ ∀ v ∈ t.queue, _))
  | .deliver _ => inferInstanceAs (Decidable (_ ∧ _))
  | .pass => inferInstanceAs (Decidable (_ ∧ ∃ w ∈ t.queue, _))
  | .tick _ | .expire _ | .onStart | .onStop => .isFalse id

instance (t : Timer) (op : TimerOp) : Decidable (t.Resumes op) :=
  inferInstanceAs (Decidable (¬ _ ∧ (_ → _ ∨ _ ∨ ∃ wait ∈ t.waits, _ ∧ ∀ w ∈ t.queue, _)))

/-- An earlier task comes in when the wait for a later one has expired already. -/
def overtakingRun : List TimerOp :=
  [.onStart, .deposit ⟨5, 0⟩, .tick 5, .expire 5, .deposit ⟨3, 1⟩, .deposit ⟨9, 2⟩,
    .deliver ⟨5, .expired⟩, .pass]

/-- The timer is stopped and started while a task is in the queue. -/
def restartRun : List TimerOp := [.onStart, .deposit ⟨5, 0⟩, .onStop, .onStart]

theorem timer_complete_overtakingRun :
    (overtakingRun.foldl TimerOp.exec initial).resolved = [(5, [⟨3, 1⟩, ⟨5, 0⟩])] ∧
      (overtakingRun.foldl TimerOp.exec initial).Complete := by
  have h : timer.Reachable Resumes (overtakingRun.foldl TimerOp.exec initial) :=
    Machine.Reachable.run (.init rfl) (by decide)
  exact ⟨by decide, timer_complete h⟩

/-- Nothing waits for the task any more. -/
theorem restartRun_not_complete :
    timer.Reachable (fun _ _ => True) (restartRun.foldl TimerOp.exec initial) ∧
      ¬ (restartRun.foldl TimerOp.exec initial).Complete := by
  refine ⟨Machine.Reachable.run (.init rfl) (by decide), fun h => ?_⟩
  rcases h.notStranded (by decide) (by decide) with ⟨wait, hwait, hstatus, -⟩ | hposted
  · have hwaits : (restartRun.foldl TimerOp.exec initial).waits = [⟨5, .aborted⟩] := by decide
    rw [hwaits, List.mem_singleton] at hwait
    exact hstatus (hwait ▸ rfl)
  · exact absurd hposted (by decide)

end Idle
