import Idle.Core.Marked
import Idle.Core.Handle
import Idle.Core.StopTraversal

/-!
# The garbage collector

While a cluster is locked the collector holds a strong reference to each of its members. When the
count falls to one, `on_unique` asks the collector, which stops the cluster at once on the event
loop and posts a check elsewhere; with the last reference an `async_deleter` is posted. The
functions of `garbage_collector.cpp` and `service_deleter.cpp`, on top of the core.

References are taken and dropped anywhere between two handlers. The references that are held by
others than the collector are counted as history, and bounded by the width of the counter.
-/

namespace Idle

/-- The core together with the control blocks of its services. -/
structure Collected where
  core : State
  /-- `strong_` of the control block of each service, `atomic_uint_least32_t`. -/
  strong : ServiceId → UInt32
  /-- The checks that `on_service_unique` posted. -/
  checks : List ServiceId
  /-- The services whose `async_deleter` was posted. -/
  deleters : List ServiceId
  /-- History: the references that others than the collector hold. -/
  users : ServiceId → Nat
  /-- History: what `immediate_stop` requested to stop, with the users at that moment. -/
  stops : List (ServiceId × Nat)
  /-- History: the services whose destructor was called. -/
  destructed : List ServiceId

/-- A handler of the core, or something that happens to a reference. -/
inductive CollectorOp where
  | core (op : Op)
  /-- A reference is copied, or a weak one is locked. -/
  | acquire (s : ServiceId)
  | drop (s : ServiceId) (onEventLoop : Bool) (replies : UsageId → ReleaseReply)
  /-- The check posted by `on_service_unique`. -/
  | check (s : ServiceId) (replies : UsageId → ReleaseReply)
  /-- The `async_deleter`. -/
  | delete (s : ServiceId)

/-- Stopping what nobody refers to is left to the collector. -/
def Op.isImmediateStop : Op → Bool
  | immediateStop _ _ => true
  | _ => false

/-- How often a service was locked. -/
def locks (s : ServiceId) (changes : List PhaseChange) : Nat :=
  changes.countP fun ch => ch.service = s ∧ ch.target = .locked

/-- How often a service was unlocked. -/
def unlocks (s : ServiceId) (changes : List PhaseChange) : Nat :=
  changes.countP fun ch => ch.service = s ∧ ch.target = .stopped

namespace Collected

variable (managed : ServiceId → Bool)

/-- `control_block_of`: the other services have a static lifetime; nobody collects the root. -/
def collects (st : Collected) (s : ServiceId) : Bool := managed s && s != st.core.layout.root

/-- The phase changes that a step of the core adds to the history. -/
def added (st : State) (op : Op) : List PhaseChange :=
  (op.exec st).changes.drop st.changes.length

/-- A handler of the core. `on_service_start` is called for every member that is locked, and
`on_service_stop` for every member that is unlocked; the last reference may be the one that
`on_service_stop` drops, then `on_destruct` posts the deleter. When it leaves one reference, the
service is stopped already, and `on_unique` has nothing to do. -/
def exec (st : Collected) (op : Op) : Collected :=
  let changes := added st.core op
  let strong := fun s =>
    if st.collects managed s then
      st.strong s + .ofNat (locks s changes) - .ofNat (unlocks s changes)
    else st.strong s
  { st with
    core := op.exec st.core
    strong := strong
    deleters := st.deleters ++ (changes.filter fun ch =>
      ch.target = .stopped && st.collects managed ch.service && strong ch.service == 0).map
        PhaseChange.service }

/-- `immediate_stop` -/
def immediateStop (st : Collected) (s : ServiceId) (replies : UsageId → ReleaseReply) :
    Collected :=
  if st.core.phase s = .locked ∨ st.core.phase s = .starting ∨ st.core.phase s = .running then
    ({ st with stops := st.stops ++ [(s, st.users s)] }).exec managed (.immediateStop replies s)
  else st

/-- `on_service_unique` -/
def onServiceUnique (st : Collected) (s : ServiceId) (onEventLoop : Bool)
    (replies : UsageId → ReleaseReply) : Collected :=
  if (st.core.phase s).isInitializedUnsafe then
    if onEventLoop then st.immediateStop managed s replies
    else { st with checks := st.checks ++ [s] }
  else st

/-- `on_destruct`: a service that is destroyed already is destructed in place. -/
def onDestruct (st : Collected) (s : ServiceId) : Collected :=
  if st.core.phase s = .destroyed then { st with destructed := st.destructed ++ [s] }
  else { st with deleters := st.deleters ++ [s] }

/-- `decrease(strong_arg_t)` -/
def decrease (st : Collected) (s : ServiceId) (onEventLoop : Bool)
    (replies : UsageId → ReleaseReply) : Collected :=
  let previous := st.strong s
  let st := { st with strong := Function.update st.strong s (previous - 1) }
  if previous = 1 then st.onDestruct s
  else if previous = 2 then st.onServiceUnique managed s onEventLoop replies
  else st

def acquire (st : Collected) (s : ServiceId) : Collected :=
  { st with
    strong := Function.update st.strong s (st.strong s + 1)
    users := Function.update st.users s (st.users s + 1) }

def drop (st : Collected) (s : ServiceId) (onEventLoop : Bool)
    (replies : UsageId → ReleaseReply) : Collected :=
  ({ st with users := Function.update st.users s (st.users s - 1) }).decrease managed s
    onEventLoop replies

/-- The check holds a reference of its own while it runs. -/
def check (st : Collected) (s : ServiceId) (replies : UsageId → ReleaseReply) : Collected :=
  let st := { st with checks := st.checks.erase s }
  if st.strong s = 0 then st
  else
    let st := { st with strong := Function.update st.strong s (st.strong s + 1) }
    let st := if st.strong s = 2 then st.immediateStop managed s replies else st
    st.decrease managed s true replies

/-- The call of `async_deleter` -/
def delete (st : Collected) (s : ServiceId) : Collected :=
  let st := { st with deleters := st.deleters.erase s }
  let st := if st.core.phase s = .destroyed then st else st.exec managed (.destroy s)
  { st with destructed := st.destructed ++ [s] }

end Collected

namespace CollectorOp

variable (managed : ServiceId → Bool)

/-- Only what has a control block is counted; a weak reference cannot be locked any more when the
counter is zero. -/
def Pre (st : Collected) : CollectorOp → Prop
  | core op => op.Pre st.core ∧ op.isImmediateStop = false
  | acquire s => st.collects managed s = true ∧ st.strong s ≠ 0
  | drop s _ _ => st.collects managed s = true ∧ st.users s ≠ 0
  | check s _ => s ∈ st.checks
  | delete s => s ∈ st.deleters ∧ (st.core.phase s = .destroyed ∨ st.core.CanDestroy s)

def exec (st : Collected) : CollectorOp → Collected
  | core op => st.exec managed op
  | acquire s => st.acquire s
  | drop s onEventLoop replies => st.drop managed s onEventLoop replies
  | check s replies => st.check managed s replies
  | delete s => st.delete managed s

/-- What `increase` asserts when `on_service_start` calls it: the count was not zero before. A
service is only locked while somebody refers to it, so what waits for its deletion is not started.
-/
def LocksReferenced (st : Collected) (op : CollectorOp) : Prop :=
  ∀ ch ∈ (op.exec managed st).core.changes.drop st.core.changes.length, ch.target = .locked →
    st.collects managed ch.service = true → (op.exec managed st).users ch.service ≠ 0

/-- The members of every cluster can be counted, and the references to every service, with one of
the collector and one of the check besides. -/
def KeepsBounds (st : Collected) : CollectorOp → Prop
  | core op => op.KeepsSmall st.core
  | acquire s => st.users s + 3 < 2 ^ 32
  | _ => True

/-- The conditions on a run. -/
def Keeps (st : Collected) (op : CollectorOp) : Prop :=
  op.LocksReferenced managed st ∧ op.KeepsBounds st

end CollectorOp

/-- The core with its collector. Every service is created with one reference. -/
def collector (L : Layout) (managed : ServiceId → Bool) : Machine Collected CollectorOp where
  init st := st = ⟨.initial L, fun _ => 1, [], [], fun _ => 1, [], []⟩
  pre := CollectorOp.Pre managed
  step st op := op.exec managed st

/-! ### What the history tells about a step of the core -/

section History

variable {L : Layout} {st : State} {s : ServiceId} {changes : List PhaseChange} {p q : Phase}

lemma locks_cons (s : ServiceId) (ch : PhaseChange) (changes : List PhaseChange) :
    locks s (ch :: changes) =
      locks s changes + if ch.service = s ∧ ch.target = .locked then 1 else 0 := by
  simp [locks, List.countP_cons]

lemma unlocks_cons (s : ServiceId) (ch : PhaseChange) (changes : List PhaseChange) :
    unlocks s (ch :: changes) =
      unlocks s changes + if ch.service = s ∧ ch.target = .stopped then 1 else 0 := by
  simp [unlocks, List.countP_cons]

/-- A step of the cycle is only counted where it enters `locked` or `stopped`. -/
lemma next_isLocked (h : p.next? = some q) :
    p.isLocked.toNat + (if q = .locked then 1 else 0) =
      (if q = .stopped then 1 else 0) + q.isLocked.toNat := by
  cases p <;> cases q <;> first | rfl | exact absurd h (by decide)

/-- A change that is replayed, and the rest of the replay. -/
lemma replay_cons {ch : PhaseChange} (hs : ch.service = s)
    (h : ((ch :: changes).filter fun ch => ch.service = s).foldlM
      (fun p ch => ch.replay? p) p = some q) :
    p.next? = some ch.target ∧ (changes.filter fun ch => ch.service = s).foldlM
      (fun p ch => ch.replay? p) ch.target = some q := by
  rw [List.filter_cons_of_pos (by simpa using hs), List.foldlM_cons] at h
  unfold PhaseChange.replay? at h
  split at h
  · rename_i hch
    exact ⟨hch.2.2, h⟩
  · cases h

/-- A service is locked once more than it was unlocked as long as it is locked. By induction on the
history, along which every change continues the cycle. -/
lemma replay_locks (h : (changes.filter fun ch => ch.service = s).foldlM
    (fun p ch => ch.replay? p) p = some q) :
    p.isLocked.toNat + locks s changes = unlocks s changes + q.isLocked.toNat := by
  induction changes generalizing p with
  | nil =>
    cases h
    exact Nat.add_comm _ _
  | cons ch changes ih =>
    by_cases hs : ch.service = s
    · obtain ⟨hnext, hrest⟩ := replay_cons hs h
      have ih := ih hrest
      have hstep := next_isLocked hnext
      rw [locks_cons, unlocks_cons]
      simp only [hs, true_and]
      omega
    · rw [List.filter_cons_of_neg (by simpa using hs)] at h
      rw [locks_cons, unlocks_cons]
      simp only [hs, false_and, if_false]
      exact ih h

/-- The phases in which the collector may stop a service. -/
def Phase.IsCollectable (p : Phase) : Prop := p = .locked ∨ p = .starting ∨ p = .running

lemma Phase.IsCollectable.isLocked (h : p.IsCollectable) : p.isLocked = true := by
  rcases h with rfl | rfl | rfl <;> rfl

/-- Only through `locked` does a service get where it may be stopped by the collector. -/
lemma replay_collectable (hno : ∀ ch ∈ changes, ch.target = .locked → ch.service ≠ s)
    (h : (changes.filter fun ch => ch.service = s).foldlM (fun p ch => ch.replay? p) p = some q)
    (hq : q.IsCollectable) : p.IsCollectable := by
  induction changes generalizing p with
  | nil =>
    cases h
    exact hq
  | cons ch changes ih =>
    have hrest := fun c hc => hno c (List.mem_cons_of_mem _ hc)
    by_cases hs : ch.service = s
    · obtain ⟨hnext, h⟩ := replay_cons hs h
      have hch := ih hrest h
      have hne : ch.target ≠ .locked := fun ht => hno ch List.mem_cons_self ht hs
      generalize ch.target = t at hnext hch hne
      rcases hch with rfl | rfl | rfl
      · exact absurd rfl hne
      · cases p <;> first | exact .inl rfl | exact absurd hnext (by decide)
      · cases p <;> first | exact .inr (.inl rfl) | exact absurd hnext (by decide)
    · rw [List.filter_cons_of_neg (by simpa using hs)] at h
      exact ih hrest h

/-! ### The history of a step -/

variable {op : Op}

lemma added_eq (hp : op.Pre st) :
    (op.exec st).changes = st.changes ++ Collected.added st op := by
  obtain ⟨rest, hrest⟩ := (State.exec_closed (Life.Follows.closed st.life) hp
    (Life.Follows.refl _)).history
  have hrest : st.changes ++ rest = (op.exec st).changes := hrest
  unfold Collected.added
  rw [← hrest, List.drop_left]

/-- No service comes back. -/
lemma services_of_exec (hp : op.Pre st) (hs : s ∈ (op.exec st).services) :
    s ∈ st.services ∨ st.phase s = .uninitialized := by
  have hclosed : Life.Closed fun l => st.life.Follows l ∧
      ∀ t ∈ l.services, t ∈ st.services ∨ st.phase t = .uninitialized := by
    have hf := Life.Follows.closed st.life
    refine ⟨fun l t p q hq hl => ⟨hf.transition l t p q hq hl.1, hl.2⟩,
      fun l r e hl => ⟨hf.count l r e hl.1, hl.2⟩,
      fun l t p r c hl => ⟨hf.promises l t p r c hl.1, hl.2⟩,
      fun l t ht hl => ⟨hf.insert l t ht hl.1, fun u hu => ?_⟩,
      fun l t hl => ⟨hf.erase l t hl.1, fun u hu => hl.2 u (List.mem_of_mem_erase hu)⟩⟩
    have hu : u ∈ l.services ++ [t] := hu
    rcases List.mem_append.1 hu with hu | hu
    · exact hl.2 u hu
    · rw [List.mem_singleton.1 hu]
      exact .inr (by_contra fun hne => hl.1.initialized t hne ht)
  exact (State.exec_closed (Q := fun l => st.life.Follows l ∧
    ∀ t ∈ l.services, t ∈ st.services ∨ st.phase t = .uninitialized) hclosed hp
    ⟨Life.Follows.refl _, fun _ => .inl⟩).2 s hs

/-- The phase from which a step is replayed: a new service begins with `stopped`. -/
def replayStart (st : State) (s : ServiceId) : Phase :=
  if st.phase s = .uninitialized then .stopped else st.phase s

lemma exec_replay (hst : Reached L st) (hst' : Reached L (op.exec st)) (hp : op.Pre st)
    (hs : s ∈ (op.exec st).services) :
    ((Collected.added st op).filter fun ch => ch.service = s).foldlM
      (fun p ch => ch.replay? p) (replayStart st s) = some ((op.exec st).phase s) := by
  have hreplay' : replay s (op.exec st).changes = some ((op.exec st).phase s) :=
    hst'.sound.good.replay_eq trivial s hs
  have hreplay : replay s st.changes = some (replayStart st s) := by
    unfold replayStart
    rcases services_of_exec hp hs with hs | hun
    · rw [if_neg fun hun => ?_]
      · exact hst.sound.good.replay_eq trivial s hs
      · have hnext := (hst.sound.good.initialized s).1 hs
        have hun : st.life.phase s = .uninitialized := hun
        rw [hun] at hnext
        exact absurd hnext (by decide)
    · rw [if_pos hun]
      exact Phases.replay_eq_stopped (hst.sound.good.fresh s hun)
  exact replay_append hreplay (added_eq hp ▸ hreplay')

lemma exec_layout (hp : op.Pre st) : (op.exec st).layout = st.layout := by
  have hclosed : Life.Closed fun l => l.layout = st.layout :=
    ⟨fun _ _ _ _ _ h => h, fun _ _ _ h => h, fun _ _ _ _ _ h => h, fun _ _ _ h => h,
      fun _ _ h => h⟩
  exact State.exec_closed (Q := fun l => l.layout = st.layout) hclosed hp rfl

/-- What is gone has no further history. -/
lemma exec_gone (hst' : Reached L (op.exec st)) (hp : op.Pre st)
    (hne : st.phase s ≠ .uninitialized) (hnext : (st.phase s).next? = none) :
    ∀ ch ∈ Collected.added st op, ch.service ≠ s := by
  -- the first change that follows would not continue the cycle
  have hclosed : Life.Closed fun l => ∃ rest, l.changes = st.changes ++ rest ∧
      (l.phase s ≠ .uninitialized ∧ (l.phase s).next? = none ∧ (∀ ch ∈ rest, ch.service ≠ s) ∨
        ∃ ch ∈ rest, ch.phase.next? = none) := by
    refine ⟨fun l t p q hq ⟨rest, hrest, h⟩ => ⟨rest ++ [⟨t, l.phase t, p, q⟩], ?_, ?_⟩,
      fun l r e h => h, fun l t p r c h => h, fun l t ht ⟨rest, hrest, h⟩ => ⟨rest, hrest, ?_⟩,
      fun l t ⟨rest, hrest, h⟩ => ⟨rest, hrest, ?_⟩⟩
    · have hch : (l.mapPhases (·.transition t p q)).changes = l.changes ++ [⟨t, l.phase t, p, q⟩] :=
        rfl
      rw [hch, hrest, List.append_assoc]
    · rcases h with ⟨hun, hn, hno⟩ | ⟨ch, hch, hbad⟩
      · by_cases hts : t = s
        · refine .inr ⟨_, List.mem_append_right _ (List.mem_singleton_self _), ?_⟩
          rw [hts]
          exact hn
        · have hphase : (l.mapPhases (·.transition t p q)).phase s = l.phase s :=
            Function.update_of_ne (Ne.symm hts) _ _
          rw [hphase]
          refine .inl ⟨hun, hn, fun ch hch => ?_⟩
          rcases List.mem_append.1 hch with hch | hch
          · exact hno ch hch
          · rw [List.mem_singleton.1 hch]
            exact hts
      · exact .inr ⟨ch, List.mem_append_left _ hch, hbad⟩
    · refine h.imp_left fun ⟨hun, hn, hno⟩ => ?_
      have hts : s ≠ t := fun h => hun (h ▸ ht)
      have hphase : (l.insert t).phase s = l.phase s := Function.update_of_ne hts _ _
      rw [hphase]
      exact ⟨hun, hn, hno⟩
    · refine h.imp_left fun ⟨hun, hn, hno⟩ => ?_
      by_cases hts : s = t
      · have hphase : (l.erase t).phase s = .destroyed := by
          rw [hts]
          exact Function.update_self ..
        rw [hphase]
        exact ⟨by decide, rfl, hno⟩
      · have hphase : (l.erase t).phase s = l.phase s := Function.update_of_ne hts _ _
        rw [hphase]
        exact ⟨hun, hn, hno⟩
  obtain ⟨rest, hrest, h⟩ := State.exec_closed (Q := fun l => ∃ rest,
    l.changes = st.changes ++ rest ∧
      (l.phase s ≠ .uninitialized ∧ (l.phase s).next? = none ∧ (∀ ch ∈ rest, ch.service ≠ s) ∨
      ∃ ch ∈ rest, ch.phase.next? = none)) hclosed hp
    ⟨[], (List.append_nil _).symm, .inl ⟨hne, hnext, fun _ h => absurd h List.not_mem_nil⟩⟩
  have heq : (op.exec st).changes = st.changes ++ rest := hrest
  have hadded : Collected.added st op = rest := by
    unfold Collected.added
    rw [heq, List.drop_left]
  rw [hadded]
  rcases h with ⟨-, -, hno⟩ | ⟨ch, hch, hbad⟩
  · exact hno
  · have hmem : ch ∈ (op.exec st).life.changes := by
      have hlife : (op.exec st).life.changes = (op.exec st).changes := rfl
      rw [hlife, heq]
      exact List.mem_append_right _ hch
    obtain ⟨hsource, hmatch⟩ := hst'.sound.good.matching trivial ch hmem
    rw [hsource, hmatch] at hbad
    cases hbad

lemma locks_eq_zero (h : ∀ ch ∈ changes, ch.service ≠ s) :
    locks s changes = 0 ∧ unlocks s changes = 0 := by
  refine ⟨List.countP_eq_zero.2 fun ch hch => ?_, List.countP_eq_zero.2 fun ch hch => ?_⟩
  all_goals simp [h ch hch]

lemma replayStart_isLocked (st : State) (s : ServiceId) :
    (replayStart st s).isLocked = (st.phase s).isLocked := by
  unfold replayStart
  split
  · rename_i h
    rw [h]
    rfl
  · rfl

lemma isLocked_of_next (h : (st.phase s).next? = none) : (st.phase s).isLocked = false := by
  generalize st.phase s = p at h
  cases p <;> first | rfl | exact absurd h (by decide)

lemma next_eq_none (hst : Reached L st) (hs : s ∉ st.services) : (st.phase s).next? = none := by
  have hiff : ¬(st.phase s).next?.isSome = true := (not_congr (hst.sound.good.initialized s)).1 hs
  simpa using hiff

/-- In every step a service is locked and unlocked in turn, and what was never initialised or is
gone is neither locked nor unlocked. By cases on whether the service existed before the step and
exists after it. -/
lemma exec_locks (hst : Reached L st) (hp : op.Pre st) (hk : op.KeepsSmall st) (s : ServiceId) :
    (st.phase s).isLocked.toNat + locks s (Collected.added st op) =
      unlocks s (Collected.added st op) + ((op.exec st).phase s).isLocked.toNat := by
  have hst' : Reached L (op.exec st) := hst.step hp hk
  have hw := hst.queued.wf
  by_cases hs' : s ∈ (op.exec st).services
  · have h := replay_locks (exec_replay hst hst' hp hs')
    rwa [replayStart_isLocked] at h
  have hnext' := next_eq_none hst' hs'
  by_cases hs : s ∈ st.services
  · by_cases hd : op = .destroy s
    · -- a destroyed service was stopped before, and its last transition led there
      subst hd
      have hfrom : replay s st.changes = some .stopped := by
        have hstopped : st.life.phase s = .stopped := hp.2.2.1
        rw [← hstopped]
        exact hst.sound.good.replay_eq trivial s hs
      have hto : replay s (st.changes ++ Collected.added st (.destroy s)) = some .stopped := by
        rw [← added_eq hp]
        exact State.destroy_replay hst.sound hp
      have h := replay_locks (replay_append hfrom hto)
      rw [isLocked_of_next hnext', hp.2.2.1]
      exact h
    · exact absurd (State.exec_mem_services hw hst.sound hp hs hd) hs'
  · -- it is there neither before nor after, so the step does not name it
    have hnone : ∀ ch ∈ Collected.added st op, ch.service ≠ s := by
      by_cases hun : st.phase s = .uninitialized
      · have hi : op ≠ .init s := fun hi => by
          subst hi
          refine hs' ?_
          have hserv : (st.init s).services = st.services ++ [s] :=
            congrArg (fun w => w.services) (State.init_wires st s)
          have hmem : s ∈ (st.init s).services := by
            rw [hserv]
            exact List.mem_append_right _ (List.mem_singleton_self s)
          exact hmem
        have hun' : (op.exec st).life.phase s = .uninitialized :=
          (State.exec_phase_outside hw hst.sound hp hs hi).trans hun
        intro ch hch
        refine hst'.sound.good.fresh s hun' ch ?_
        have heq : (op.exec st).life.changes = _ := added_eq hp
        rw [heq]
        exact List.mem_append_right _ hch
      · exact exec_gone hst' hp hun (next_eq_none hst hs)
    obtain ⟨hl, hu⟩ := locks_eq_zero hnone
    rw [hl, hu, isLocked_of_next (next_eq_none hst hs), isLocked_of_next hnext']
    rfl

end History

/-- The collector marks the cluster of what it stops. -/
lemma State.immediateStop_marks {st : State} {s : ServiceId} {replies : UsageId → ReleaseReply}
    (hw : st.WellFormed) (hs : s ∈ st.services) (hr : s ≠ st.layout.root)
    (hc : (st.phase s).IsCollectable) :
    (st.immediateStop replies s).isMarkedForStop (st.cluster s) = true := by
  have hov := (Asks.refl hw).setOverride s .none
  have heq : st.immediateStop replies s =
      (st.setOverride s .none).onServiceStopRequest replies (st.cluster s) := if_pos hc
  rw [heq]
  have hcluster : (st.setOverride s .none).cluster = st.cluster := congrArg (·.cluster) hov.tree
  have hserv : (st.setOverride s .none).services = st.services := congrArg (·.services) hov.tree
  have hroot : (st.setOverride s .none).layout.root = st.layout.root :=
    congrArg (·.layout.root) hov.tree
  have ht : st.IsTree := hw.toIsTree
  obtain ⟨-, -, hmarks, -⟩ := State.onServiceStopRequest_marks hov.wf (c := st.cluster s)
    (hserv ▸ (ht.cluster_mem hs).1) (hcluster ▸ ht.cluster_cluster hs)
    (fun h => hr ((ht.cluster_eq_root hs).1 (h.trans hroot))) replies
  exact (hmarks _).2 (.inr .refl)

/-! ### What every step keeps -/

namespace Collected

variable {managed : ServiceId → Bool} {L : Layout} {st st' : Collected} {s t : ServiceId}
variable {extra : Nat} {x : Option ServiceId} {op : Op} {replies : UsageId → ReleaseReply}

/-- What holds between any two steps. Within a step there may be `extra` references to the service
`x`, whose collection is still to be decided. -/
structure Kept (managed : ServiceId → Bool) (L : Layout) (extra : Nat) (x : Option ServiceId)
    (st : Collected) : Prop where
  reached : Reached L st.core
  counted : ∀ s, st.collects managed s = true → (st.strong s).toNat =
    st.users s + (if x = some s then extra else 0) + (st.core.phase s).isLocked.toNat
  stopping : ∀ s ∈ st.core.services, st.collects managed s = true → x ≠ some s →
    st.users s = 0 → (st.core.phase s).IsCollectable →
    st.core.isMarkedForStop (st.core.cluster s) = true ∨ s ∈ st.checks
  deleting : ∀ s, st.collects managed s = true → x ≠ some s → st.strong s = 0 →
    s ∈ st.deleters ++ st.destructed
  deleted : ∀ s ∈ st.deleters ++ st.destructed, st.collects managed s = true ∧ st.strong s = 0
  once : (st.deleters ++ st.destructed).Nodup
  gone : ∀ s ∈ st.destructed, st.core.phase s = .destroyed
  checks_collect : ∀ s ∈ st.checks, st.collects managed s = true
  stops_unused : ∀ c ∈ st.stops, c.2 = 0
  few : ∀ s, st.collects managed s = true → st.users s + 2 < 2 ^ 32
  extra_le : extra ≤ 1

lemma collects_ne (h : st.collects managed s = true) : s ≠ st.core.layout.root := by
  unfold collects at h
  simp only [Bool.and_eq_true, bne_iff_ne] at h
  exact h.2

lemma exec_collects (hp : op.Pre st.core) (s : ServiceId) :
    (st.exec managed op).collects managed s = st.collects managed s := by
  unfold collects
  have h : (st.exec managed op).core.layout = st.core.layout := exec_layout hp
  rw [h]

/-- Nothing that is not referred to was locked. -/
def Referenced (managed : ServiceId → Bool) (st st' : Collected) : Prop :=
  ∀ ch ∈ st'.core.changes.drop st.core.changes.length, ch.target = .locked →
    st.collects managed ch.service = true → st'.users ch.service ≠ 0

lemma Referenced.locks (h : Referenced managed st (st.exec managed op))
    (hs : st.collects managed s = true) (hu : st.users s = 0) :
    locks s (added st.core op) = 0 := by
  refine List.countP_eq_zero.2 fun ch hch hcs => ?_
  obtain ⟨rfl, ht⟩ := of_decide_eq_true hcs
  exact h ch hch ht hs hu

/-- The same for both parts of a step. -/
lemma Referenced.split {st'' : Collected} {a b : List PhaseChange} (h : Referenced managed st st'')
    (ha : st'.core.changes = st.core.changes ++ a) (hb : st''.core.changes = st'.core.changes ++ b)
    (hl : st'.core.layout = st.core.layout) (hu : st''.users = st'.users) :
    Referenced managed st st' ∧ Referenced managed st' st'' := by
  unfold Referenced at *
  rw [hb, ha, List.append_assoc, List.drop_left, hu] at h
  rw [hb, ha, List.drop_left, List.drop_left, hu]
  refine ⟨fun ch hch => h ch (List.mem_append_left _ hch), fun ch hch ht hc => ?_⟩
  refine h ch (List.mem_append_right _ hch) ht ?_
  unfold collects at *
  rwa [hl] at hc

namespace Kept

/-- The count of a service follows its phase. -/
lemma exec_strong (h : st.Kept managed L extra x) (hp : op.Pre st.core)
    (hk : op.KeepsSmall st.core) (hs : st.collects managed s = true) :
    ((st.exec managed op).strong s).toNat = st.users s + (if x = some s then extra else 0) +
      ((st.exec managed op).core.phase s).isLocked.toNat := by
  have hlocks := exec_locks h.reached hp hk s
  have hcount := h.counted s hs
  have hfew := h.few s hs
  have hlocked := Bool.toNat_le ((op.exec st.core).phase s).isLocked
  have hcore : (st.exec managed op).core = op.exec st.core := rfl
  rw [hcore]
  generalize hn : st.users s + (if x = some s then extra else 0) = n at hcount ⊢
  have hle : n ≤ st.users s + 1 := by
    have hextra := h.extra_le
    rw [← hn]
    split <;> omega
  -- the counter wraps neither before nor after the step
  have hbefore : st.strong s = .ofNat (n + (st.core.phase s).isLocked.toNat) := by
    rw [← hcount, UInt32.ofNat_toNat]
  have heq : (st.exec managed op).strong s =
      .ofNat (n + ((op.exec st.core).phase s).isLocked.toNat) :=
    calc (st.exec managed op).strong s
        = st.strong s + .ofNat (locks s (added st.core op)) -
            .ofNat (unlocks s (added st.core op)) := if_pos hs
      _ = .ofNat (n + ((op.exec st.core).phase s).isLocked.toNat + unlocks s (added st.core op)) -
            .ofNat (unlocks s (added st.core op)) := by
          rw [hbefore, ← UInt32.ofNat_add, Nat.add_assoc, hlocks, Nat.add_comm (unlocks _ _),
            ← Nat.add_assoc]
      _ = .ofNat (n + ((op.exec st.core).phase s).isLocked.toNat) := by
          rw [UInt32.ofNat_add, UInt32.add_sub_cancel]
  rw [heq, UInt32.toNat_ofNat_of_lt' (by simp only [UInt32.size]; omega)]

/-- What nobody refers to is not locked, and not unlocked more than once. -/
lemma unlocks_le (h : st.Kept managed L extra x) (hp : op.Pre st.core)
    (hk : op.KeepsSmall st.core) (hrefs : Referenced managed st (st.exec managed op))
    (hs : st.collects managed s = true)
    (hu : st.users s = 0) :
    unlocks s (added st.core op) ≤ (st.core.phase s).isLocked.toNat := by
  have hlocks := exec_locks h.reached hp hk s
  rw [hrefs.locks hs hu] at hlocks
  omega

lemma users_eq_zero (h : st.Kept managed L extra x) (hs : st.collects managed s = true)
    (h0 : st.strong s = 0) : st.users s = 0 ∧ (st.core.phase s).isLocked = false := by
  have hc := h.counted s hs
  rw [h0, UInt32.toNat_zero] at hc
  refine ⟨by omega, ?_⟩
  cases hl : (st.core.phase s).isLocked with
  | false => rfl
  | true =>
    rw [hl, Bool.toNat_true] at hc
    omega

/-- A handler of the core deletes what it unlocks last. -/
lemma mem_exec_deleters (hs : s ∈ (st.exec managed op).deleters) : s ∈ st.deleters ∨
    st.collects managed s = true ∧ (st.exec managed op).strong s = 0 ∧
      unlocks s (added st.core op) ≠ 0 := by
  refine (List.mem_append.1 hs).imp_right fun hs => ?_
  obtain ⟨ch, hch, rfl⟩ := List.mem_map.1 hs
  obtain ⟨hch, hc⟩ := List.mem_filter.1 hch
  simp only [Bool.and_eq_true, decide_eq_true_eq, beq_iff_eq] at hc
  refine ⟨hc.1.2, hc.2, ?_⟩
  exact (List.countP_pos_iff.2 ⟨ch, hch, decide_eq_true ⟨rfl, hc.1.1⟩⟩).ne'

/-- What is deleted already is not deleted by a handler of the core. -/
lemma not_mem_exec_deleters (h : st.Kept managed L extra x) (hp : op.Pre st.core)
    (hk : op.KeepsSmall st.core) (hrefs : Referenced managed st (st.exec managed op))
    (hs : st.collects managed s = true)
    (h0 : st.strong s = 0) (hno : s ∉ st.deleters) : s ∉ (st.exec managed op).deleters := by
  intro hmem
  obtain ⟨-, -, hne⟩ := (mem_exec_deleters hmem).resolve_left hno
  obtain ⟨hu, hl⟩ := h.users_eq_zero hs h0
  have hle := h.unlocks_le hp hk hrefs hs hu
  rw [hl] at hle
  exact hne (Nat.le_zero.1 hle)

lemma count_added_le (changes : List PhaseChange) (s : ServiceId) (f : PhaseChange → Bool)
    (hf : ∀ ch, f ch = true → ch.target = .stopped) :
    ((changes.filter f).map PhaseChange.service).count s ≤ unlocks s changes := by
  rw [List.count, List.countP_map, List.countP_filter]
  refine List.countP_mono_left fun ch _ hch => ?_
  simp only [Function.comp, Bool.and_eq_true, beq_iff_eq] at hch
  exact decide_eq_true ⟨hch.1, hf ch hch.2⟩

lemma exec_once (h : st.Kept managed L extra x) (hp : op.Pre st.core)
    (hk : op.KeepsSmall st.core) (hrefs : Referenced managed st (st.exec managed op)) :
    ((st.exec managed op).deleters ++ (st.exec managed op).destructed).Nodup := by
  have hold := List.nodup_append.1 h.once
  -- what is posted now was not deleted before
  have hnew : ∀ s ∈ ((added st.core op).filter fun ch => ch.target = .stopped &&
      st.collects managed ch.service && (st.exec managed op).strong ch.service == 0).map
        PhaseChange.service,
      (st.collects managed s = true ∧ st.users s = 0) ∧ s ∉ st.deleters ++ st.destructed := by
    intro s hs
    obtain ⟨ch, hch, rfl⟩ := List.mem_map.1 hs
    obtain ⟨hch, hc⟩ := List.mem_filter.1 hch
    simp only [Bool.and_eq_true, decide_eq_true_eq, beq_iff_eq] at hc
    obtain ⟨⟨ht, hc⟩, h0⟩ := hc
    have hu : st.users ch.service = 0 := by
      have hstrong := h.exec_strong hp hk hc
      rw [h0, UInt32.toNat_zero] at hstrong
      omega
    refine ⟨⟨hc, hu⟩, fun hmem => ?_⟩
    have hle := h.unlocks_le hp hk hrefs hc hu
    rw [(h.users_eq_zero hc (h.deleted _ hmem).2).2] at hle
    have hpos : 0 < unlocks ch.service (added st.core op) :=
      List.countP_pos_iff.2 ⟨ch, hch, decide_eq_true ⟨rfl, ht⟩⟩
    exact absurd hpos (Nat.not_lt.2 hle)
  have hnodup : (((added st.core op).filter fun ch => ch.target = .stopped &&
      st.collects managed ch.service && (st.exec managed op).strong ch.service == 0).map
        PhaseChange.service).Nodup := by
    refine List.nodup_iff_count_le_one.2 fun s => ?_
    by_cases hs : s ∈ ((added st.core op).filter fun ch => ch.target = .stopped &&
        st.collects managed ch.service && (st.exec managed op).strong ch.service == 0).map
          PhaseChange.service
    · refine (count_added_le _ s _ fun ch hch => ?_).trans
        ((h.unlocks_le hp hk hrefs (hnew s hs).1.1 (hnew s hs).1.2).trans (Bool.toNat_le _))
      simp only [Bool.and_eq_true, decide_eq_true_eq] at hch
      exact hch.1.1
    · rw [List.count_eq_zero_of_not_mem hs]
      exact Nat.zero_le _
  refine List.nodup_append.2 ⟨List.nodup_append.2 ⟨hold.1, hnodup, fun a ha b hb hab => ?_⟩,
    hold.2.1, fun a ha b hb hab => ?_⟩
  · exact (hnew b hb).2 (List.mem_append_left _ (hab ▸ ha))
  · rcases List.mem_append.1 ha with ha | ha
    · exact hold.2.2 a ha b hb hab
    · exact (hnew a ha).2 (List.mem_append_right _ (hab ▸ hb))

/-- A handler of the core. -/
lemma exec (h : st.Kept managed L extra x) (hp : op.Pre st.core) (hk : op.KeepsSmall st.core)
    (hrefs : Referenced managed st (st.exec managed op)) :
    (st.exec managed op).Kept managed L extra x := by
  have hst' : Reached L (op.exec st.core) := h.reached.step hp hk
  have hcore : (st.exec managed op).core = op.exec st.core := rfl
  -- one case for each clause of what is kept
  refine ⟨hst', fun s hs => ?_, fun s hs hc hx hu hcol => ?_, fun s hs hx h0 => ?_,
    fun s hs => ?_, ?_, fun s hs => ?_, fun s hs => ?_, h.stops_unused, fun s hs => ?_, h.extra_le⟩
  · rw [exec_collects hp] at hs
    exact h.exec_strong hp hk hs
  · -- nothing refers to the service, so this step does not lock it
    rw [exec_collects hp] at hc
    have hno : ∀ ch ∈ added st.core op, ch.target = .locked → ch.service ≠ s := by
      rintro ch hch ht rfl
      exact hrefs ch hch ht hc hu
    have hold := replay_collectable hno (exec_replay h.reached hst' hp hs) hcol
    have hne : st.core.phase s ≠ .uninitialized := by
      intro hun
      rw [replayStart, if_pos hun] at hold
      rcases hold with hold | hold | hold <;> exact absurd hold (by decide)
    rw [replayStart, if_neg hne] at hold
    have hs₀ : s ∈ st.core.services := (services_of_exec hp hs).resolve_right hne
    refine (h.stopping s hs₀ hc hx hu hold).imp_left fun hm => ?_
    have hfollows := State.exec_closed (Life.Follows.closed st.core.life) hp (Life.Follows.refl _)
    have hcl : (op.exec st.core).cluster s = st.core.cluster s := hfollows.cluster s hne
    -- the mark is lost only where the service is unlocked
    have hstay := State.exec_staysMarked h.reached.queued.wf h.reached.sound hp hs₀
      (collects_ne hc) (by rcases hold with hold | hold | hold <;> rw [hold] <;> decide) hm
    have hkeep : (op.exec st.core).isMarkedForStop (st.core.cluster s) = true := by
      refine hstay.resolve_right ?_
      rw [hcore] at hcol
      rcases hcol with hcol | hcol | hcol <;> rw [hcol] <;> decide
    rw [hcore, hcl]
    exact hkeep
  · rw [exec_collects hp] at hs
    by_cases h0' : st.strong s = 0
    · rcases List.mem_append.1 (h.deleting s hs hx h0') with hmem | hmem
      · exact List.mem_append_left _ (List.mem_append_left _ hmem)
      · exact List.mem_append_right _ hmem
    · -- the last reference is the one that is dropped when the service is unlocked
      have hun : unlocks s (added st.core op) ≠ 0 := by
        intro hun
        have hlocks := exec_locks h.reached hp hk s
        have hbefore := h.counted s hs
        have hafter := h.exec_strong hp hk hs
        have hcore : (st.exec managed op).core = op.exec st.core := rfl
        rw [h0, UInt32.toNat_zero, hcore] at hafter
        exact h0' (UInt32.toNat_inj.1 (by rw [UInt32.toNat_zero]; omega))
      obtain ⟨ch, hch, hcs⟩ := List.countP_pos_iff.1 (Nat.pos_of_ne_zero hun)
      obtain ⟨rfl, ht⟩ := of_decide_eq_true hcs
      refine List.mem_append_left _ (List.mem_append_right _ (List.mem_map.2 ⟨ch, ?_, rfl⟩))
      refine List.mem_filter.2 ⟨hch, ?_⟩
      have h0 : (if st.collects managed ch.service then st.strong ch.service +
          .ofNat (locks ch.service (added st.core op)) -
            .ofNat (unlocks ch.service (added st.core op))
          else st.strong ch.service) = 0 := h0
      simpa [ht, hs] using h0
  · -- what waits to be deleted has no user and is not locked again
    rw [exec_collects hp]
    have hkeep : s ∈ st.deleters ++ st.destructed → st.collects managed s = true ∧
        (st.exec managed op).strong s = 0 := fun hmem => by
      obtain ⟨hs, h0⟩ := h.deleted s hmem
      obtain ⟨hu, hl⟩ := h.users_eq_zero hs h0
      refine ⟨hs, ?_⟩
      have hle := h.unlocks_le hp hk hrefs hs hu
      have heq : (st.exec managed op).strong s = st.strong s + .ofNat (locks s (added st.core op)) -
          .ofNat (unlocks s (added st.core op)) := if_pos hs
      rw [hl, Bool.toNat_false, Nat.le_zero] at hle
      rw [heq, h0, hrefs.locks hs hu, hle]
      rfl
    rcases List.mem_append.1 hs with hmem | hmem
    · rcases mem_exec_deleters hmem with hmem | ⟨hc, h0, -⟩
      · exact hkeep (List.mem_append_left _ hmem)
      · exact ⟨hc, h0⟩
    · exact hkeep (List.mem_append_right _ hmem)
  · exact h.exec_once hp hk hrefs
  · -- a service that is gone can neither be handled nor come back
    have hd := h.gone s hs
    have hs' : s ∉ st.core.services := fun hmem => by
      have hnext := (h.reached.sound.good.initialized s).1 hmem
      have hd : st.core.life.phase s = .destroyed := hd
      rw [hd] at hnext
      exact absurd hnext (by decide)
    have hi : op ≠ .init s := by
      rintro rfl
      exact absurd (hd.symm.trans hp.1) (by decide)
    exact (State.exec_phase_outside h.reached.queued.wf h.reached.sound hp hs' hi).trans hd
  · rw [exec_collects hp]
    exact h.checks_collect s hs
  · rw [exec_collects hp] at hs
    exact h.few s hs

lemma immediateStop_pre (hst : Reached L st.core) (hc : (st.core.phase s).IsCollectable) :
    Op.Pre st.core (.immediateStop replies s) := by
  refine (hst.sound.good.initialized s).2 ?_
  have hc : (st.core.life.phase s).IsCollectable := hc
  rcases hc with hc | hc | hc <;> rw [hc] <;> rfl

/-- `immediate_stop`, of a service that nobody refers to. -/
lemma immediateStop (h : st.Kept managed L extra x) (hs : st.collects managed s = true)
    (hu : (st.core.phase s).IsCollectable → st.users s = 0)
    (hrefs : Referenced managed st (st.immediateStop managed s replies)) :
    (st.immediateStop managed s replies).Kept managed L extra x ∧
      (st.immediateStop managed s replies).strong s = st.strong s ∧
      (((st.immediateStop managed s replies).core.phase s).IsCollectable →
        (st.immediateStop managed s replies).core.isMarkedForStop
          ((st.immediateStop managed s replies).core.cluster s) = true) := by
  by_cases hc : (st.core.phase s).IsCollectable
  · have heq : st.immediateStop managed s replies =
        ({ st with stops := st.stops ++ [(s, st.users s)] } : Collected).exec managed
          (.immediateStop replies s) := if_pos hc
    rw [heq] at hrefs ⊢
    have hpre : Op.Pre st.core (.immediateStop replies s) := immediateStop_pre h.reached hc
    have h₁ : ({ st with stops := st.stops ++ [(s, st.users s)] } : Collected).Kept managed L
        extra x := by
      refine ⟨h.reached, h.counted, h.stopping, h.deleting, h.deleted, h.once, h.gone,
        h.checks_collect, fun c hc' => ?_, h.few, h.extra_le⟩
      rcases List.mem_append.1 hc' with hc' | hc'
      · exact h.stops_unused c hc'
      · rw [List.mem_singleton.1 hc']
        exact hu hc
    have hasks : st.core.Asks (st.core.immediateStop replies s) :=
      State.Asks.immediateStop (.refl h.reached.queued.wf) s
    refine ⟨h₁.exec hpre trivial hrefs, ?_, fun _ => ?_⟩
    · have hp : (st.core.immediateStop replies s).phase s = st.core.phase s :=
        hasks.phase s (collects_ne hs)
      refine UInt32.toNat_inj.1 ?_
      rw [h₁.exec_strong hpre trivial hs, h.counted s hs, ← hp]
      rfl
    · have hm : (st.core.immediateStop replies s).isMarkedForStop (st.core.cluster s) = true :=
        State.immediateStop_marks h.reached.queued.wf hpre (collects_ne hs) hc
      have hcl : (st.core.immediateStop replies s).cluster = st.core.cluster :=
        congrArg (·.cluster) hasks.tree
      rw [← hcl] at hm
      exact hm
  · have heq : st.immediateStop managed s replies = st := if_neg hc
    rw [heq]
    exact ⟨h, rfl, fun hcol => absurd hcol hc⟩

/-- The collection of a service is decided. -/
lemma settle (h : st.Kept managed L 0 (some s))
    (hstop : (st.core.phase s).IsCollectable → st.users s = 0 →
      st.core.isMarkedForStop (st.core.cluster s) = true ∨ s ∈ st.checks)
    (hdel : st.strong s = 0 → s ∈ st.deleters ++ st.destructed) :
    st.Kept managed L 0 none := by
  refine ⟨h.reached, fun t ht => ?_, fun t ht hc _ hu hcol => ?_, fun t ht _ h0 => ?_,
    h.deleted, h.once, h.gone, h.checks_collect, h.stops_unused, h.few, h.extra_le⟩
  · simpa using h.counted t ht
  · by_cases hts : s = t
    · subst hts
      exact hstop hcol hu
    · exact h.stopping t ht hc (fun h => hts (Option.some.inj h)) hu hcol
  · by_cases hts : s = t
    · subst hts
      exact hdel h0
    · exact h.deleting t ht (fun h => hts (Option.some.inj h)) h0

/-- One more service is gone, or about to go. -/
lemma delete_one {deleters destructed : List ServiceId} (h : st.Kept managed L 0 (some s))
    (hs : st.collects managed s = true) (h0 : st.strong s = 0)
    (hfree : s ∉ st.deleters ++ st.destructed)
    (hperm : (deleters ++ destructed).Perm (s :: (st.deleters ++ st.destructed)))
    (hgone : ∀ t ∈ destructed, st.core.phase t = .destroyed) :
    ({ st with deleters := deleters, destructed := destructed } : Collected).Kept managed L 0
      none := by
  obtain ⟨hu, hl⟩ := h.users_eq_zero hs h0
  have h₁ : ({ st with deleters := deleters, destructed := destructed } : Collected).Kept managed L
      0 (some s) := by
    refine ⟨h.reached, h.counted, h.stopping, fun t ht hx h0 => ?_, fun t ht => ?_, ?_, hgone,
      h.checks_collect, h.stops_unused, h.few, h.extra_le⟩
    · exact hperm.mem_iff.2 (List.mem_cons_of_mem _ (h.deleting t ht hx h0))
    · rcases List.mem_cons.1 (hperm.mem_iff.1 ht) with rfl | ht
      · exact ⟨hs, h0⟩
      · exact h.deleted t ht
    · exact hperm.nodup_iff.2 (List.nodup_cons.2 ⟨hfree, h.once⟩)
  refine h₁.settle (fun hcol _ => ?_) fun _ => hperm.mem_iff.2 List.mem_cons_self
  exact absurd hcol.isLocked (by rw [hl]; decide)

/-- `on_destruct` -/
lemma onDestruct (h : st.Kept managed L 0 (some s)) (hs : st.collects managed s = true)
    (h0 : st.strong s = 0) (hfree : s ∉ st.deleters ++ st.destructed) :
    (st.onDestruct s).Kept managed L 0 none := by
  unfold Collected.onDestruct
  split
  · rename_i hd
    refine h.delete_one hs h0 hfree ?_ fun t ht => ?_
    · rw [← List.append_assoc]
      exact List.perm_append_singleton _ _
    · rcases List.mem_append.1 ht with ht | ht
      · exact h.gone t ht
      · rw [List.mem_singleton.1 ht]
        exact hd
  · refine h.delete_one hs h0 hfree ?_ h.gone
    rw [List.append_assoc]
    exact List.perm_middle

/-- `on_service_unique`, when one reference is left. -/
lemma onServiceUnique {onEventLoop : Bool} (h : st.Kept managed L 0 (some s))
    (hs : st.collects managed s = true) (h1 : st.strong s = 1)
    (hrefs : Referenced managed st (st.onServiceUnique managed s onEventLoop replies)) :
    (st.onServiceUnique managed s onEventLoop replies).Kept managed L 0 none := by
  have hne : st.strong s ≠ 0 := by
    rw [h1]
    decide
  revert hrefs
  unfold Collected.onServiceUnique
  split
  · split
    · intro hrefs
      have hunused : (st.core.phase s).IsCollectable → st.users s = 0 := fun hcol => by
        -- the reference that is left is the one of the collector
        have hcount := h.counted s hs
        rw [hcol.isLocked, if_pos rfl, h1, Bool.toNat_true, UInt32.toNat_one] at hcount
        omega
      obtain ⟨h₂, hstrong, hm⟩ := h.immediateStop hs hunused hrefs
      have hs₂ : (st.immediateStop managed s replies).strong s ≠ 0 := hstrong ▸ hne
      exact h₂.settle (fun hcol _ => .inl (hm hcol)) fun h0 => absurd h0 hs₂
    · intro _
      have h₁ : ({ st with checks := st.checks ++ [s] } : Collected).Kept managed L 0 (some s) := by
        refine ⟨h.reached, h.counted, fun t ht hc hx hu hcol =>
            (h.stopping t ht hc hx hu hcol).imp_right (List.mem_append_left _), h.deleting,
          h.deleted, h.once, h.gone, fun t ht => ?_, h.stops_unused, h.few, h.extra_le⟩
        rcases List.mem_append.1 ht with ht | ht
        · exact h.checks_collect t ht
        · rw [List.mem_singleton.1 ht]
          exact hs
      exact h₁.settle (fun _ _ => .inr (List.mem_append_right _ (List.mem_singleton_self s)))
        fun h0 => absurd h0 hne
  · rename_i hinit
    intro _
    refine h.settle (fun hcol _ => absurd ?_ hinit) fun h0 => absurd h0 hne
    rcases hcol with hcol | hcol | hcol <;> rw [hcol] <;> rfl

/-- A reference is dropped: it is decided whether the service is stopped or deleted. By cases on
the count before, as in the source. -/
lemma decrease {onEventLoop : Bool} (h : st.Kept managed L 1 (some s))
    (hs : st.collects managed s = true)
    (hrefs : Referenced managed st (st.decrease managed s onEventLoop replies)) :
    (st.decrease managed s onEventLoop replies).Kept managed L 0 none := by
  have hcount := h.counted s hs
  rw [if_pos rfl] at hcount
  -- the count is positive, so the service has not been handed over
  have hfree : s ∉ st.deleters ++ st.destructed := fun hmem => by
    rw [(h.deleted s hmem).2, UInt32.toNat_zero] at hcount
    omega
  obtain ⟨st₁, hst₁⟩ : ∃ st₁, st₁ =
    ({ st with strong := Function.update st.strong s (st.strong s - 1) } : Collected) := ⟨_, rfl⟩
  have hstrong : st₁.strong s = st.strong s - 1 := by
    rw [hst₁]
    exact Function.update_self ..
  have hdown : (st₁.strong s).toNat = (st.strong s).toNat - 1 := by
    rw [hstrong, UInt32.toNat_sub_of_le _ _ (UInt32.le_iff_toNat_le.2 _), UInt32.toNat_one]
    rw [UInt32.toNat_one]
    omega
  have hothers : ∀ t, t ≠ s → st₁.strong t = st.strong t := fun t hts => by
    rw [hst₁]
    exact Function.update_of_ne hts _ _
  -- only the entry of the service itself has changed, and it is the one set aside
  have h₁ : st₁.Kept managed L 0 (some s) := by
    have hcore : st₁.core = st.core := by rw [hst₁]
    subst hst₁
    refine ⟨h.reached, fun t ht => ?_, h.stopping, fun t ht hx h0 => ?_, fun t ht => ?_, h.once,
      h.gone, h.checks_collect, h.stops_unused, h.few, Nat.zero_le 1⟩
    · by_cases hts : t = s
      · subst hts
        rw [hdown, if_pos rfl]
        change _ = st.users t + 0 + (st.core.phase t).isLocked.toNat
        omega
      · have hc := h.counted t ht
        rw [if_neg fun h => hts (Option.some.inj h).symm] at hc ⊢
        rw [hothers t hts]
        exact hc
    · have hts : t ≠ s := fun h => hx (h ▸ rfl)
      exact h.deleting t ht hx (hothers t hts ▸ h0)
    · have hts : t ≠ s := fun h => hfree (h ▸ ht)
      rw [hothers t hts]
      exact h.deleted t ht
  have hfree₁ : s ∉ st₁.deleters ++ st₁.destructed := by rwa [hst₁]
  have heq : st.decrease managed s onEventLoop replies =
      if st.strong s = 1 then st₁.onDestruct s
      else if st.strong s = 2 then st₁.onServiceUnique managed s onEventLoop replies
      else st₁ := by
    rw [hst₁]
    rfl
  have hrefs₁ : Referenced managed st₁ (st.decrease managed s onEventLoop replies) := by
    rwa [hst₁]
  have hcount₁ : (st₁.strong s).toNat = st₁.users s + 0 + (st₁.core.phase s).isLocked.toNat := by
    rw [h₁.counted s (by rwa [hst₁]), if_pos rfl]
  have hs₁ : st₁.collects managed s = true := by rwa [hst₁]
  rw [heq] at hrefs₁ ⊢
  revert hrefs₁
  split
  · rename_i hone
    intro _
    exact h₁.onDestruct hs₁ (by rw [hstrong, hone]; rfl) hfree₁
  · rename_i hone
    split
    · -- the one reference that is left is the lock
      rename_i htwo
      intro hrefs₁
      exact h₁.onServiceUnique hs₁ (by rw [hstrong, htwo]; rfl) hrefs₁
    · -- more than one is left: there is a user, or the service is not locked
      rename_i htwo
      intro _
      have hone : (st.strong s).toNat ≠ 1 := fun h => hone (UInt32.toNat_inj.1 h)
      have htwo : (st.strong s).toNat ≠ 2 := fun h => htwo (UInt32.toNat_inj.1 h)
      refine h₁.settle (fun hcol hu => ?_) fun h0 => ?_
      · rw [hcol.isLocked, hu, Bool.toNat_true] at hcount₁
        omega
      · rw [h0, UInt32.toNat_zero] at hdown
        omega

/-! ### The history of the collector's own steps -/

lemma immediateStop_grows (managed : ServiceId → Bool) (s : ServiceId)
    (replies : UsageId → ReleaseReply) (hst : Reached L st.core) :
    Reached L (st.immediateStop managed s replies).core ∧
      (st.immediateStop managed s replies).users = st.users ∧
      (st.immediateStop managed s replies).core.layout = st.core.layout ∧
      ∃ rest, (st.immediateStop managed s replies).core.changes = st.core.changes ++ rest := by
  unfold Collected.immediateStop
  split
  · rename_i hc
    have hpre : Op.Pre st.core (.immediateStop replies s) := immediateStop_pre hst hc
    exact ⟨hst.step hpre trivial, rfl, exec_layout hpre, _, added_eq hpre⟩
  · exact ⟨hst, rfl, rfl, [], (List.append_nil _).symm⟩

lemma decrease_grows (managed : ServiceId → Bool) (s : ServiceId) (onEventLoop : Bool)
    (replies : UsageId → ReleaseReply) (hst : Reached L st.core) :
    (st.decrease managed s onEventLoop replies).users = st.users ∧
      ∃ rest, (st.decrease managed s onEventLoop replies).core.changes =
        st.core.changes ++ rest := by
  unfold Collected.decrease
  simp only
  split
  · unfold Collected.onDestruct
    split
    · exact ⟨rfl, [], (List.append_nil _).symm⟩
    · exact ⟨rfl, [], (List.append_nil _).symm⟩
  · split
    · unfold Collected.onServiceUnique
      split
      · split
        · have hst₁ : Reached L ({ st with
              strong := Function.update st.strong s (st.strong s - 1) } : Collected).core := hst
          obtain ⟨-, hu, -, hrest⟩ := immediateStop_grows managed s replies hst₁
          exact ⟨hu, hrest⟩
        · exact ⟨rfl, [], (List.append_nil _).symm⟩
      · exact ⟨rfl, [], (List.append_nil _).symm⟩
    · exact ⟨rfl, [], (List.append_nil _).symm⟩

/-! ### The steps -/

lemma acquire (h : st.Kept managed L 0 none) (hs : st.collects managed s = true)
    (h0 : st.strong s ≠ 0) (hfew : st.users s + 3 < 2 ^ 32) :
    (st.acquire s).Kept managed L 0 none := by
  have hothers : ∀ t, t ≠ s → (st.acquire s).strong t = st.strong t ∧
      (st.acquire s).users t = st.users t := fun t hts =>
    ⟨Function.update_of_ne hts _ _, Function.update_of_ne hts _ _⟩
  have hself : (st.acquire s).strong s = st.strong s + 1 ∧
      (st.acquire s).users s = st.users s + 1 :=
    ⟨Function.update_self .., Function.update_self ..⟩
  have hup : ((st.acquire s).strong s).toNat = (st.strong s).toNat + 1 := by
    have hcount := h.counted s hs
    have hlocked := Bool.toNat_le (st.core.phase s).isLocked
    rw [if_neg (Option.some_ne_none s).symm] at hcount
    rw [hself.1, UInt32.toNat_add, UInt32.toNat_one, Nat.mod_eq_of_lt (by omega)]
  refine ⟨h.reached, fun t ht => ?_, fun t ht hc hx hu hcol => ?_, fun t ht hx h0' => ?_,
    fun t ht => ?_, h.once, h.gone, h.checks_collect, h.stops_unused, fun t ht => ?_, h.extra_le⟩
  · have hcount := h.counted t ht
    by_cases hts : t = s
    · subst hts
      rw [hup, hself.2, hcount]
      change _ = st.users t + 1 + _ + (st.core.phase t).isLocked.toNat
      omega
    · rw [(hothers t hts).1, (hothers t hts).2]
      exact hcount
  · have hts : t ≠ s := fun hts => by
      rw [hts, hself.2] at hu
      exact Nat.succ_ne_zero _ hu
    exact h.stopping t ht hc hx ((hothers t hts).2 ▸ hu) hcol
  · have hts : t ≠ s := fun hts => by
      rw [hts] at h0'
      rw [h0', UInt32.toNat_zero] at hup
      exact Nat.succ_ne_zero _ hup.symm
    exact h.deleting t ht hx ((hothers t hts).1 ▸ h0')
  · have hts : t ≠ s := fun hts => h0 (hts ▸ (h.deleted t ht).2)
    rw [(hothers t hts).1]
    exact h.deleted t ht
  · by_cases hts : t = s
    · rw [hts, hself.2]
      exact hfew
    · rw [(hothers t hts).2]
      exact h.few t ht

lemma drop {onEventLoop : Bool} (h : st.Kept managed L 0 none)
    (hs : st.collects managed s = true) (hu : st.users s ≠ 0)
    (hrefs : Referenced managed st (st.drop managed s onEventLoop replies)) :
    (st.drop managed s onEventLoop replies).Kept managed L 0 none := by
  have h₁ : ({ st with users := Function.update st.users s (st.users s - 1) } :
      Collected).Kept managed L 1 (some s) := by
    refine ⟨h.reached, fun t ht => ?_, fun t ht hc hx hu hcol => ?_, fun t ht _ h0 => ?_,
      h.deleted, h.once, h.gone, h.checks_collect, h.stops_unused, fun t ht => ?_, le_rfl⟩
    · have hcount := h.counted t ht
      simp only [reduceCtorEq, if_false, Nat.add_zero] at hcount
      by_cases hts : t = s
      · subst hts
        rw [if_pos rfl]
        change (st.strong t).toNat = Function.update st.users t (st.users t - 1) t + 1 + _
        rw [Function.update_self, hcount, Nat.sub_add_cancel (Nat.pos_of_ne_zero hu)]
      · rw [if_neg fun h => hts (Option.some.inj h).symm]
        change (st.strong t).toNat = Function.update st.users s (st.users s - 1) t + 0 + _
        rw [Function.update_of_ne hts]
        exact hcount
    · have hts : t ≠ s := fun h => hx (h ▸ rfl)
      have hu : Function.update st.users s (st.users s - 1) t = 0 := hu
      rw [Function.update_of_ne hts] at hu
      exact h.stopping t ht hc (Option.some_ne_none _).symm hu hcol
    · exact h.deleting t ht (Option.some_ne_none _).symm h0
    · have hfew := h.few t ht
      change Function.update st.users s (st.users s - 1) t + 2 < 2 ^ 32
      rw [Function.update_apply]
      split
      · rename_i hts
        rw [hts] at hfew
        omega
      · exact hfew
  exact h₁.decrease hs hrefs

/-- The rest of the posted check, with the reference that it holds. -/
lemma checkLocked (h : st.Kept managed L 1 (some s)) (hs : st.collects managed s = true)
    (hrefs : Referenced managed st ((if st.strong s = 2 then st.immediateStop managed s replies
      else st).decrease managed s true replies)) :
    ((if st.strong s = 2 then st.immediateStop managed s replies else st).decrease managed s true
      replies).Kept managed L 0 none := by
  by_cases htwo : st.strong s = 2
  · rw [if_pos htwo] at hrefs ⊢
    have hunused : (st.core.phase s).IsCollectable → st.users s = 0 := fun hcol => by
      have hcount := h.counted s hs
      have h2 : (st.strong s).toNat = 2 := congrArg UInt32.toNat htwo
      rw [h2, hcol.isLocked, if_pos rfl, Bool.toNat_true] at hcount
      omega
    obtain ⟨hst₁, -, hl, a, ha⟩ := immediateStop_grows managed s replies h.reached
    have hs₁ : (st.immediateStop managed s replies).collects managed s = true := by
      unfold collects at hs ⊢
      rwa [hl]
    obtain ⟨hu₂, b, hb⟩ := decrease_grows managed s true replies hst₁
    obtain ⟨hrefs₁, hrefs₂⟩ := hrefs.split ha hb hl hu₂
    exact (h.immediateStop hs hunused hrefs₁).1.decrease hs₁ hrefs₂
  · rw [if_neg htwo] at hrefs ⊢
    exact h.decrease hs hrefs

/-- The posted check. -/
lemma check (h : st.Kept managed L 0 none) (hs : s ∈ st.checks)
    (hrefs : Referenced managed st (st.check managed s replies)) :
    (st.check managed s replies).Kept managed L 0 none := by
  have hc := h.checks_collect s hs
  -- the entry leaves the queue, and the check settles what it stood for
  have h₁ : ({ st with checks := st.checks.erase s } : Collected).Kept managed L 0 (some s) := by
    refine ⟨h.reached, fun t ht => ?_, fun t ht hc hx hu hcol => ?_,
      fun t ht _ h0 => h.deleting t ht (Option.some_ne_none _).symm h0, h.deleted, h.once, h.gone,
      fun t ht => h.checks_collect t (List.mem_of_mem_erase ht), h.stops_unused, h.few, h.extra_le⟩
    · rw [ite_self]
      exact h.counted t ht
    · have hts : t ≠ s := fun h => hx (h ▸ rfl)
      have hstop := h.stopping t ht hc (Option.some_ne_none _).symm hu hcol
      exact hstop.imp_right (List.mem_erase_of_ne hts).2
  by_cases h0 : st.strong s = 0
  · -- `lock` of the weak reference fails: the service was deleted meanwhile
    have heq : st.check managed s replies = { st with checks := st.checks.erase s } := if_pos h0
    have hl := (h.users_eq_zero hc h0).2
    rw [heq]
    refine h₁.settle (fun hcol _ => ?_) fun _ => h.deleting s hc (Option.some_ne_none _).symm h0
    have hcol : (st.core.phase s).IsCollectable := hcol
    exact absurd hcol.isLocked (by rw [hl]; decide)
  · obtain ⟨st₁, hst₁⟩ : ∃ st₁, st₁ = ({ st with
      checks := st.checks.erase s
      strong := Function.update st.strong s (st.strong s + 1) } : Collected) := ⟨_, rfl⟩
    have heq : st.check managed s replies = (if st₁.strong s = 2 then
        st₁.immediateStop managed s replies else st₁).decrease managed s true replies := by
      subst hst₁
      exact if_neg h0
    have hstrong : st₁.strong s = st.strong s + 1 := by
      rw [hst₁]
      exact Function.update_self ..
    -- the bound on the users leaves room for the reference that the check takes
    have hup : (st₁.strong s).toNat = (st.strong s).toNat + 1 := by
      have hcount := h.counted s hc
      have hfew := h.few s hc
      have hlocked := Bool.toNat_le (st.core.phase s).isLocked
      rw [if_neg (Option.some_ne_none s).symm] at hcount
      rw [hstrong, UInt32.toNat_add, UInt32.toNat_one, Nat.mod_eq_of_lt (by omega)]
    have hothers : ∀ t, t ≠ s → st₁.strong t = st.strong t := fun t hts => by
      rw [hst₁]
      exact Function.update_of_ne hts _ _
    have h₂ : st₁.Kept managed L 1 (some s) := by
      subst hst₁
      refine ⟨h₁.reached, fun t ht => ?_, h₁.stopping, fun t ht hx h0 => ?_, fun t ht => ?_,
        h.once, h.gone, h₁.checks_collect, h.stops_unused, h.few, le_rfl⟩
      · have hcount := h₁.counted t ht
        by_cases hts : t = s
        · subst hts
          rw [if_pos rfl] at hcount ⊢
          rw [hup]
          change (st.strong t).toNat + 1 = st.users t + 1 + (st.core.phase t).isLocked.toNat
          change (st.strong t).toNat = st.users t + 0 + (st.core.phase t).isLocked.toNat at hcount
          omega
        · rw [if_neg fun h => hts (Option.some.inj h).symm] at hcount ⊢
          rw [hothers t hts]
          exact hcount
      · have hts : t ≠ s := fun h => hx (h ▸ rfl)
        exact h₁.deleting t ht hx (hothers t hts ▸ h0)
      · have hts : t ≠ s := fun hts => h0 (hts ▸ (h.deleted t ht).2)
        rw [hothers t hts]
        exact h.deleted t ht
    rw [heq] at hrefs ⊢
    refine h₂.checkLocked (by rwa [hst₁]) ?_
    subst hst₁
    exact hrefs

/-- The `async_deleter`. -/
lemma delete (h : st.Kept managed L 0 none) (hs : s ∈ st.deleters)
    (hp : st.core.phase s = .destroyed ∨ st.core.CanDestroy s)
    (hrefs : Referenced managed st (st.delete managed s)) :
    (st.delete managed s).Kept managed L 0 none := by
  obtain ⟨hc, h0⟩ := h.deleted s (List.mem_append_left _ hs)
  have hnodup := List.nodup_append.1 h.once
  obtain ⟨st₁, hst₁⟩ : ∃ st₁, st₁ =
    ({ st with deleters := st.deleters.erase s } : Collected) := ⟨_, rfl⟩
  have h₁ : st₁.Kept managed L 0 (some s) := by
    subst hst₁
    refine ⟨h.reached, fun t ht => ?_, fun t ht hc _ hu hcol =>
        h.stopping t ht hc (Option.some_ne_none _).symm hu hcol, fun t ht hx h0 => ?_,
      fun t ht => ?_, h.once.sublist (List.erase_sublist.append_right _), h.gone, h.checks_collect,
      h.stops_unused, h.few, h.extra_le⟩
    · rw [ite_self]
      exact h.counted t ht
    · have hts : t ≠ s := fun h => hx (h ▸ rfl)
      rcases List.mem_append.1 (h.deleting t ht (Option.some_ne_none _).symm h0) with hmem | hmem
      · exact List.mem_append_left _ ((List.mem_erase_of_ne hts).2 hmem)
      · exact List.mem_append_right _ hmem
    · rcases List.mem_append.1 ht with hmem | hmem
      · exact h.deleted t (List.mem_append_left _ (List.mem_of_mem_erase hmem))
      · exact h.deleted t (List.mem_append_right _ hmem)
  have hfree : s ∉ st₁.deleters ++ st₁.destructed := by
    rw [hst₁]
    refine fun hmem => (List.mem_append.1 hmem).elim (fun hmem => ?_)
      fun hmem => hnodup.2.2 s hs s hmem rfl
    exact (List.Nodup.mem_erase_iff hnodup.1).1 hmem |>.1 rfl
  have h₀ : st₁.strong s = 0 := by rwa [hst₁]
  have hc₁ : st₁.collects managed s = true := by rwa [hst₁]
  -- in both branches the memory is released once the service is destroyed
  have hlast : ∀ st' : Collected, st'.Kept managed L 0 (some s) → st'.collects managed s = true →
      st'.strong s = 0 → s ∉ st'.deleters ++ st'.destructed → st'.core.phase s = .destroyed →
      ({ st' with destructed := st'.destructed ++ [s] } : Collected).Kept managed L 0 none := by
    intro st' h hc h0 hfree hd
    refine h.delete_one hc h0 hfree ?_ fun t ht => ?_
    · rw [← List.append_assoc]
      exact List.perm_append_singleton _ _
    · rcases List.mem_append.1 ht with ht | ht
      · exact h.gone t ht
      · rw [List.mem_singleton.1 ht]
        exact hd
  have hrefs₁ : Referenced managed st₁ (st.delete managed s) := by rwa [hst₁]
  have hcore : st₁.core = st.core := by rw [hst₁]
  by_cases hd : st.core.phase s = .destroyed
  · have heq : st.delete managed s = { st₁ with destructed := st₁.destructed ++ [s] } := by
      subst hst₁
      unfold Collected.delete
      simp only
      rw [if_pos hd]
    rw [heq]
    exact hlast st₁ h₁ hc₁ h₀ hfree (hcore ▸ hd)
  · have heq : st.delete managed s = { st₁.exec managed (.destroy s) with
        destructed := (st₁.exec managed (.destroy s)).destructed ++ [s] } := by
      subst hst₁
      unfold Collected.delete
      simp only
      rw [if_neg hd]
    rw [heq] at hrefs₁ ⊢
    -- the handler destroys the service, without a reference to it
    have hpre : Op.Pre st₁.core (.destroy s) := hcore ▸ hp.resolve_left hd
    have hexec := h₁.exec hpre trivial hrefs₁
    have hd' : ((st₁.exec managed (.destroy s)).core).phase s = .destroyed :=
      (State.destroy_frame h₁.reached.queued.wf hpre).2.1
    have hcnew : (st₁.exec managed (.destroy s)).collects managed s = true :=
      (exec_collects hpre s).trans hc₁
    refine hlast _ hexec hcnew ?_ ?_ hd'
    · have hstrong := h₁.exec_strong hpre trivial hc₁
      rw [hd', (h₁.users_eq_zero hc₁ h₀).1, ite_self] at hstrong
      exact UInt32.toNat_inj.1 hstrong
    · refine fun hmem => hfree ?_
      rcases List.mem_append.1 hmem with hmem | hmem
      · exact absurd hmem (h₁.not_mem_exec_deleters hpre trivial hrefs₁ hc₁ h₀
          fun hmem => hfree (List.mem_append_left _ hmem))
      · exact List.mem_append_right _ hmem

lemma initial (managed : ServiceId → Bool) (L : Layout) {st : Collected}
    (h : (collector L managed).init st) : st.Kept managed L 0 none := by
  subst h
  refine ⟨.init rfl, fun s hs => ?_, fun s _ _ _ hu => absurd hu one_ne_zero,
    fun s _ _ h0 => absurd h0 (by decide : ¬ (1 : UInt32) = 0),
    fun s hs => absurd hs List.not_mem_nil, List.nodup_nil, fun s hs => absurd hs List.not_mem_nil,
    fun s hs => absurd hs List.not_mem_nil, fun c hc => absurd hc List.not_mem_nil,
    fun _ _ => (by decide : 1 + 2 < 2 ^ 32), Nat.zero_le 1⟩
  change 1 = 1 + _ + ((State.initial L).phase s).isLocked.toNat
  have hl : ((State.initial L).phase s).isLocked = false := by
    unfold State.initial
    simp only
    split
    · rfl
    · rfl
  rw [hl, ite_self]
  rfl

lemma step {op : CollectorOp} (h : st.Kept managed L 0 none) (hp : op.Pre managed st)
    (hk : op.Keeps managed st) : (op.exec managed st).Kept managed L 0 none := by
  have hrefs : Referenced managed st (op.exec managed st) := hk.1
  cases op with
  | core op => exact h.exec hp.1 hk.2 hrefs
  | acquire s => exact h.acquire hp.1 hp.2 hk.2
  | drop s onEventLoop replies => exact h.drop hp.1 hp.2 hrefs
  | check s replies => exact h.check hp hrefs
  | delete s => exact h.delete hp.1 hp.2 hrefs

end Kept

end Collected

open Collected

lemma kept_of_reachable {L : Layout} {managed : ServiceId → Bool} {st : Collected}
    (hst : (collector L managed).Reachable (CollectorOp.Keeps managed) st) :
    st.Kept managed L 0 none :=
  hst.invariant (P := fun st => st.Kept managed L 0 none) (fun _ h => Kept.initial managed L h)
    fun _ _ _ h hp hrefs => h.step hp hrefs

/-! ### Every run -/

/-- The references are counted exactly, nothing is stopped by the collector while somebody else
refers to it, and a service that runs although nobody refers to it is about to be stopped: its
cluster is marked, or the check is on its way. -/
theorem unreferenced_collected {L : Layout} {managed : ServiceId → Bool} {st : Collected}
    (hst : (collector L managed).Reachable (CollectorOp.Keeps managed) st) :
    (∀ s, st.collects managed s = true →
      (st.strong s).toNat = st.users s + (st.core.phase s).isLocked.toNat) ∧
    (∀ c ∈ st.stops, c.2 = 0) ∧
    ∀ s ∈ st.core.services, st.collects managed s = true → st.users s = 0 →
      (st.core.phase s).IsCollectable →
        st.core.isMarkedForStop (st.core.cluster s) = true ∨ s ∈ st.checks := by
  have h := kept_of_reachable hst
  refine ⟨fun s hs => ?_, h.stops_unused, fun s hs hc hu hcol => ?_⟩
  · simpa using h.counted s hs
  · exact h.stopping s hs hc (Option.some_ne_none s).symm hu hcol

/-- A service is deleted exactly when its last reference is gone, and only once: it is destructed
or its deleter is posted, not both. What is destructed was destroyed before. -/
theorem destructed_once {L : Layout} {managed : ServiceId → Bool} {st : Collected}
    (hst : (collector L managed).Reachable (CollectorOp.Keeps managed) st) :
    (st.deleters ++ st.destructed).Nodup ∧
    (∀ s, s ∈ st.deleters ++ st.destructed ↔ st.collects managed s = true ∧ st.users s = 0 ∧
      (st.core.phase s).isLocked = false) ∧
    ∀ s ∈ st.destructed, st.core.phase s = .destroyed := by
  have h := kept_of_reachable hst
  refine ⟨h.once, fun s => ⟨fun hs => ?_, fun ⟨hc, hu, hl⟩ => ?_⟩, h.gone⟩
  · obtain ⟨hc, h0⟩ := h.deleted s hs
    exact ⟨hc, h.users_eq_zero hc h0⟩
  · have hcount := h.counted s hc
    rw [hu, hl, if_neg (Option.some_ne_none s).symm] at hcount
    exact h.deleting s hc (Option.some_ne_none s).symm (UInt32.toNat_inj.1 hcount)

/-! ### A run -/

section Runs

instance CollectorOp.decidablePre (managed : ServiceId → Bool) (st : Collected) :
    (op : CollectorOp) → Decidable (op.Pre managed st)
  | .core op => inferInstanceAs (Decidable (op.Pre st.core ∧ _))
  | .acquire s => inferInstanceAs (Decidable (st.collects managed s = true ∧ _))
  | .drop s _ _ => inferInstanceAs (Decidable (st.collects managed s = true ∧ _))
  | .check s _ => inferInstanceAs (Decidable (s ∈ st.checks))
  | .delete s => inferInstanceAs (Decidable (s ∈ st.deleters ∧ _))

instance CollectorOp.decidableLocksReferenced (managed : ServiceId → Bool) (st : Collected)
    (op : CollectorOp) : Decidable (op.LocksReferenced managed st) :=
  inferInstanceAs (Decidable (∀ ch ∈ _, _))

instance CollectorOp.decidableKeeps (managed : ServiceId → Bool) (st : Collected) :
    (op : CollectorOp) → Decidable (op.Keeps managed st)
  | .core op => inferInstanceAs (Decidable (_ ∧ op.KeepsSmall st.core))
  | .acquire s => inferInstanceAs (Decidable (_ ∧ st.users s + 3 < 2 ^ 32))
  | .drop _ _ _ | .check _ _ | .delete _ => inferInstanceAs (Decidable (_ ∧ True))

instance collector_decidablePre (L : Layout) (managed : ServiceId → Bool) (st : Collected)
    (op : CollectorOp) : Decidable ((collector L managed).pre st op) :=
  CollectorOp.decidablePre managed st op

/-- A service is started, its only reference is dropped elsewhere, and the check finds it unique. -/
def collectedRun : List CollectorOp :=
  [.core (.init 1), .core .run, .core (.requestStart 1 .manual ⟨0, .start⟩), .core (.process true),
    .drop 1 false fun _ => .never, .check 1 fun _ => .never, .core (.process true), .delete 1]

/-- The state after some steps of that run. -/
def collectedAfter (n : Nat) : Collected :=
  (collectedRun.take n).foldl (collector .flat fun _ => true).step
    ⟨.initial .flat, fun _ => 1, [], [], fun _ => 1, [], []⟩

theorem unreferenced_collected_collectedRun :
    (collectedAfter 5).core.phase 1 = .running ∧ (collectedAfter 5).users 1 = 0 ∧
      ((collectedAfter 5).core.isMarkedForStop ((collectedAfter 5).core.cluster 1) = true ∨
        1 ∈ (collectedAfter 5).checks) := by
  have hst : (collector .flat fun _ => true).Reachable
      (CollectorOp.Keeps fun _ => true) (collectedAfter 5) :=
    .run (.init rfl) (by decide +kernel)
  exact ⟨by decide +kernel, by decide +kernel, (unreferenced_collected hst).2.2 1
    (by decide +kernel) (by decide +kernel) (by decide +kernel)
    (.inr (.inr (by decide +kernel)))⟩

theorem destructed_once_collectedRun :
    (1 ∈ (collectedAfter 7).deleters ++ (collectedAfter 7).destructed) ∧
      (collectedAfter 8).destructed = [1] ∧ (collectedAfter 8).core.phase 1 = .destroyed := by
  have h₇ : (collector .flat fun _ => true).Reachable
      (CollectorOp.Keeps fun _ => true) (collectedAfter 7) :=
    .run (.init rfl) (by decide +kernel)
  have h₈ : (collector .flat fun _ => true).Reachable
      (CollectorOp.Keeps fun _ => true) (collectedAfter 8) :=
    .run (.init rfl) (by decide +kernel)
  exact ⟨((destructed_once h₇).2.1 1).2 (by decide +kernel), by decide +kernel,
    (destructed_once h₈).2.2 1 (by decide +kernel)⟩

end Runs

end Idle
