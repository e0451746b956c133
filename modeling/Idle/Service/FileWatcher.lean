import Idle.Service.Timer

/-!
# Watching files

`FileWatcherImpl` collects the changes of the watched files, one for every path, and hands them to
the promise of a `watch`: at once if they are old enough, and otherwise when a debounce timer has
expired that every further change starts again. A completion of the timer that is on its way
already is not taken back by that.

What `efsw` reports and what is in the watched directories is given; events, timer completions and
`watch` arrive at the event loop in any order. A completion from before a stop finds the epoch
changed and does nothing.
-/

namespace Idle

/-- A normalised path. -/
abbrev Path := List Char

/-- `efsw::Action` -/
inductive FileAction where
  | add
  | delete
  | modified
  | moved
  deriving DecidableEq, Repr

/-- `FileWatcher::FileOperation` -/
inductive FileOperation where
  | added
  | removed
  | modified
  | renamed (oldPath : Path)
  deriving DecidableEq, Repr

/-- An entry of `FileWatcher::FileChanges`. -/
structure FileChange where
  path : Path
  operation : FileOperation
  /-- History: the numbers of the changes that were recorded here. -/
  events : List Nat
  deriving DecidableEq, Repr

namespace FileChange

/-- Record a change of a path: the operation that is known of it, if any, becomes another one. -/
def record (path : Path) (event : Nat) (f : Option FileOperation → FileOperation) :
    List FileChange → List FileChange
  | [] => [⟨path, f none, [event]⟩]
  | c :: cs =>
    if c.path = path then ⟨path, f (some c.operation), c.events ++ [event]⟩ :: cs
    else c :: record path event f cs

/-- What the handler of an action stores. -/
def merge (path : Path) (action : FileAction) (old : Path) : Option FileOperation → FileOperation
  | known =>
    match action with
    | .add => if known.isSome then .modified else .added
    | .delete => .removed
    | .modified => if known = some .added then .added else .modified
    | .moved => if path ≠ old then .renamed old else .modified

end FileChange

/-- `FileWatcherImpl` with its timer and the promises it was given. -/
structure FileWatcher where
  /-- `config_.filter` -/
  filter : Path → Bool
  /-- `config_.initial_add` -/
  configInitialAdd : Bool
  running : Bool
  epoch : Nat
  now : Nat
  initialAdd : Bool
  changes : List FileChange
  timeLastChanged : Nat
  /-- `promise_` with its debounce time. -/
  promise : Option (Nat × Nat)
  /-- The waits of `debounce_timer_` with the epoch of their handlers. -/
  waits : List (Nat × Wait)
  /-- History: the number of changes that were recorded. -/
  recorded : Nat
  /-- History: what the promises were resolved with. -/
  delivered : List (Nat × List FileChange)
  /-- History: what `onStop` cleared, with the promise that was stored. -/
  dropped : List (Option Nat × List FileChange)
  /-- History: how often `resolve` was executed without a promise. -/
  stray : Nat

/-- What arrives at a file watcher. -/
inductive FileWatcherOp where
  | tick (now : Nat)
  | handleFileAction (path : Path) (action : FileAction) (old : Path)
  /-- `watch`; `files` are those in the watched directories. -/
  | watch (promise debounceTime : Nat) (files : List Path)
  /-- The time of a wait has come. -/
  | expire (epoch expiry : Nat)
  /-- The handler of a wait that is over. -/
  | deliver (epoch : Nat) (w : Wait)
  | onStart
  | onStop
  deriving DecidableEq, Repr

namespace FileWatcher

def initial (filter : Path → Bool) (configInitialAdd : Bool) : FileWatcher where
  filter := filter
  configInitialAdd := configInitialAdd
  running := false
  epoch := 0
  now := 0
  initialAdd := false
  changes := []
  timeLastChanged := 0
  promise := none
  waits := []
  recorded := 0
  delivered := []
  dropped := []
  stray := 0

/-- `debounce_timer_->cancel()` -/
def cancel (fw : FileWatcher) : FileWatcher :=
  { fw with waits := fw.waits.map fun w => (w.1, w.2.cancel) }

/-- `debounce`, where `expires_from_now` cancels what is waiting. -/
def debounce (fw : FileWatcher) (debounceTime : Nat) : FileWatcher :=
  let fw := fw.cancel
  { fw with waits := (fw.epoch, ⟨fw.now + debounceTime, .armed⟩) :: fw.waits }

/-- Store into `changes_`. -/
def record (fw : FileWatcher) (path : Path) (f : Option FileOperation → FileOperation) :
    FileWatcher :=
  { fw with
    changes := FileChange.record path fw.recorded f fw.changes
    recorded := fw.recorded + 1 }

/-- The part of `handleFileAction` before the event loop: a move from or to a path that is
filtered out is something else for the watcher. -/
def filterAction (fw : FileWatcher) (path : Path) (action : FileAction) (old : Path) :
    Option (Path × FileAction × Path) :=
  match action with
  | .moved =>
    match fw.filter path, fw.filter old with
    | true, true => some (path, .moved, old)
    | true, false => some (path, .add, old)
    | false, true => some (old, .delete, [])
    | false, false => none
  | .add | .delete | .modified => if fw.filter path then some (path, action, old) else none

/-- The part of `handleFileAction` on the event loop. -/
def onFileAction (fw : FileWatcher) (path : Path) (action : FileAction) (old : Path) :
    FileWatcher :=
  let fw := fw.record path (FileChange.merge path action old)
  match fw.promise with
  | some (_, debounceTime) => fw.debounce debounceTime
  | none => { fw with timeLastChanged := fw.now }

def handleFileAction (fw : FileWatcher) (path : Path) (action : FileAction) (old : Path) :
    FileWatcher :=
  match fw.filterAction path action old with
  | some (path, action, old) => fw.onFileAction path action old
  | none => fw

/-- A file that is found by `add_files_recursively`. -/
def addFile (fw : FileWatcher) (file : Path) : FileWatcher :=
  if fw.changes.any (·.path = file) then fw
  else if fw.filter file then fw.record file fun _ => .added
  else fw

/-- `add_files_initially`, for the files that are there. -/
def addFilesInitially (fw : FileWatcher) (files : List Path) : FileWatcher :=
  files.foldl addFile fw

/-- The handler that `watch` posts. -/
def watch (fw : FileWatcher) (promise debounceTime : Nat) (files : List Path) : FileWatcher :=
  let initialized := fw.initialAdd
  let fw := if initialized then { fw.addFilesInitially files with initialAdd := false } else fw
  if fw.changes ≠ [] then
    if initialized ∨ debounceTime ≤ fw.now - fw.timeLastChanged then
      { fw with delivered := (promise, fw.changes) :: fw.delivered, changes := [] }
    else
      ({ fw with promise := some (promise, debounceTime) }).debounce (fw.now - fw.timeLastChanged)
  else { fw with promise := some (promise, debounceTime) }

/-- `resolve`. Without a promise its behaviour is undefined, of which the model only keeps that it
happened. -/
def resolve (fw : FileWatcher) : FileWatcher :=
  if fw.running then
    match fw.promise with
    | some (promise, _) =>
      { fw with
        delivered := (promise, fw.changes) :: fw.delivered
        promise := none
        changes := [] }
    | none => { fw with stray := fw.stray + 1 }
  else fw

def onStart (fw : FileWatcher) : FileWatcher :=
  { fw with running := true, initialAdd := fw.configInitialAdd }

/-- `onStop`, after which the epoch is another one. -/
def onStop (fw : FileWatcher) : FileWatcher :=
  let stored := fw.promise.map Prod.fst
  let fw := fw.cancel
  let fw :=
    match fw.promise with
    | some (promise, _) =>
      let fw := { fw with promise := none }
      if fw.changes ≠ [] then
        { fw with delivered := (promise, fw.changes) :: fw.delivered, changes := [] }
      else fw
    | none => fw
  { fw with
    dropped := (stored, fw.changes) :: fw.dropped
    changes := []
    running := false
    epoch := fw.epoch + 1 }

end FileWatcher

namespace FileWatcherOp

/-- The clock does not go back, at most one `watch` is outstanding, and `asio` delivers what is
over. A stopped watcher sees no events. -/
def Pre (fw : FileWatcher) : FileWatcherOp → Prop
  | tick now => fw.now ≤ now
  | handleFileAction _ _ _ => fw.running = true
  | watch _ _ _ => fw.running = true ∧ fw.promise = none
  | expire epoch expiry => (epoch, ⟨expiry, .armed⟩) ∈ fw.waits ∧ expiry ≤ fw.now
  | deliver epoch w => (epoch, w) ∈ fw.waits ∧ w.status ≠ .armed
  | onStart => fw.running = false
  | onStop => fw.running = true

instance (fw : FileWatcher) : (op : FileWatcherOp) → Decidable (op.Pre fw)
  | tick now => inferInstanceAs (Decidable (fw.now ≤ now))
  | handleFileAction _ _ _ => inferInstanceAs (Decidable (fw.running = true))
  | watch _ _ _ => inferInstanceAs (Decidable (_ ∧ _))
  | expire _ _ => inferInstanceAs (Decidable (_ ∧ _))
  | deliver _ _ => inferInstanceAs (Decidable (_ ∧ _))
  | onStart => inferInstanceAs (Decidable (fw.running = false))
  | onStop => inferInstanceAs (Decidable (fw.running = true))

def exec (fw : FileWatcher) : FileWatcherOp → FileWatcher
  | tick now => { fw with now := now }
  | handleFileAction path action old => fw.handleFileAction path action old
  | watch promise debounceTime files => fw.watch promise debounceTime files
  | expire epoch expiry =>
    { fw with waits := (epoch, ⟨expiry, .expired⟩) :: fw.waits.erase (epoch, ⟨expiry, .armed⟩) }
  | deliver epoch w =>
    let fw := { fw with waits := fw.waits.erase (epoch, w) }
    if w.status = .expired ∧ epoch = fw.epoch then fw.resolve else fw
  | onStart => fw.onStart
  | onStop => fw.onStop

end FileWatcherOp

/-- A file watcher from its construction on. -/
def fileWatcher (filter : Path → Bool) (configInitialAdd : Bool) :
    Machine FileWatcher FileWatcherOp where
  init fw := fw = .initial filter configInitialAdd
  pre := FileWatcherOp.Pre
  step := FileWatcherOp.exec

instance (filter : Path → Bool) (configInitialAdd : Bool) (fw : FileWatcher)
    (op : FileWatcherOp) : Decidable ((fileWatcher filter configInitialAdd).pre fw op) :=
  inferInstanceAs (Decidable (op.Pre fw))

namespace FileWatcher

variable {fw : FileWatcher} {op : FileWatcherOp}

/-- The numbers of the changes in some maps. -/
def numbers (cs : List FileChange) : List Nat := cs.flatMap FileChange.events

/-- A wait whose handler is going to call `resolve`. -/
def isLive (fw : FileWatcher) (w : Nat × Wait) : Bool := w.1 = fw.epoch ∧ w.2.status ≠ .aborted

/-- The waits whose handlers are going to call `resolve`. -/
def live (fw : FileWatcher) : Nat := fw.waits.countP fw.isLive

/-- `resolve` finds a promise, and every change goes to one promise: those that are not given to
one yet will be if one is outstanding, and only a stop without a promise drops them. -/
structure Delivers (fw : FileWatcher) : Prop where
  resolved : fw.stray = 0
  exactlyOnce : ∀ n < fw.recorded, (numbers fw.changes).count n +
    (numbers (fw.delivered.flatMap Prod.snd)).count n +
    (numbers (fw.dropped.flatMap Prod.snd)).count n = 1
  notDropped : ∀ d ∈ fw.dropped, d.1 ≠ none → d.2 = []
  awaited : fw.running = true → fw.promise ≠ none → fw.changes ≠ [] → 0 < fw.live

/-! ### Every change goes to one promise -/

lemma count_numbers_record (path : Path) (event n : Nat) (f : Option FileOperation → FileOperation)
    (cs : List FileChange) : (numbers (FileChange.record path event f cs)).count n =
      (numbers cs).count n + if event = n then 1 else 0 := by
  induction cs with
  | nil => simp [FileChange.record, numbers, List.count_singleton]
  | cons c cs ih =>
    simp only [numbers] at ih
    simp only [FileChange.record, numbers]
    split
    · simp only [List.flatMap_cons, List.count_append, List.count_singleton, beq_iff_eq]
      omega
    · simp only [List.flatMap_cons, List.count_append, ih]
      omega

/-- Every change that was recorded is still there, or it was delivered or dropped, once. -/
structure Accounted (fw : FileWatcher) : Prop where
  count_eq : ∀ n, (numbers fw.changes).count n +
    (numbers (fw.delivered.flatMap Prod.snd)).count n +
    (numbers (fw.dropped.flatMap Prod.snd)).count n = if n < fw.recorded then 1 else 0
  notDropped : ∀ d ∈ fw.dropped, d.1 ≠ none → d.2 = []

lemma Accounted.congr {fw' : FileWatcher} (h : fw.Accounted) (hc : fw'.changes = fw.changes)
    (hr : fw'.recorded = fw.recorded) (hd : fw'.delivered = fw.delivered)
    (ho : fw'.dropped = fw.dropped) : fw'.Accounted := by
  refine ⟨fun n => ?_, ho ▸ h.notDropped⟩
  rw [hc, hr, hd, ho]
  exact h.count_eq n

lemma Accounted.record {path : Path} {f : Option FileOperation → FileOperation}
    (h : fw.Accounted) : (fw.record path f).Accounted := by
  refine ⟨fun n => ?_, h.notDropped⟩
  have hcount := h.count_eq n
  simp only [FileWatcher.record, count_numbers_record]
  by_cases hn : fw.recorded = n
  · subst hn
    simp only [lt_irrefl, if_false, if_true, Nat.lt_succ_self] at hcount ⊢
    omega
  · have hlt : n < fw.recorded + 1 ↔ n < fw.recorded := by omega
    simpa only [if_neg hn, hlt, Nat.add_zero] using hcount

lemma Accounted.addFilesInitially {files : List Path} (h : fw.Accounted) :
    (fw.addFilesInitially files).Accounted := by
  induction files generalizing fw with
  | nil => exact h
  | cons file files ih =>
    refine ih ?_
    unfold addFile
    split
    · exact h
    · split
      · exact h.record
      · exact h

lemma Accounted.deliver (h : fw.Accounted) (promise : Nat) :
    ({ fw with delivered := (promise, fw.changes) :: fw.delivered, changes := [] } :
      FileWatcher).Accounted := by
  refine ⟨fun n => ?_, h.notDropped⟩
  have hcount := h.count_eq n
  simp only [numbers, List.flatMap_cons, List.flatMap_append, List.count_append, List.flatMap_nil,
    List.count_nil] at hcount ⊢
  omega

lemma Accounted.drop (h : fw.Accounted) (stored : Option Nat)
    (hstored : stored ≠ none → fw.changes = []) :
    ({ fw with dropped := (stored, fw.changes) :: fw.dropped, changes := [] } :
      FileWatcher).Accounted := by
  refine ⟨fun n => ?_, ?_⟩
  · have hcount := h.count_eq n
    simp only [numbers, List.flatMap_cons, List.flatMap_append, List.count_append,
      List.flatMap_nil, List.count_nil] at hcount ⊢
    omega
  · intro d hd
    rcases List.mem_cons.1 hd with rfl | hd
    · exact hstored
    · exact h.notDropped d hd

lemma Accounted.handleFileAction {path old : Path} {action : FileAction} (h : fw.Accounted) :
    (fw.handleFileAction path action old).Accounted := by
  unfold FileWatcher.handleFileAction
  split
  · rename_i path' action' old' _
    have hrecord : (fw.record path' (FileChange.merge path' action' old')).Accounted := h.record
    unfold onFileAction
    simp only
    split <;> exact hrecord.congr rfl rfl rfl rfl
  · exact h

lemma Accounted.watch {promise debounceTime : Nat} {files : List Path} (h : fw.Accounted) :
    (fw.watch promise debounceTime files).Accounted := by
  have hadd : (if fw.initialAdd then { fw.addFilesInitially files with initialAdd := false }
      else fw).Accounted := by
    split
    · exact h.addFilesInitially.congr rfl rfl rfl rfl
    · exact h
  unfold FileWatcher.watch
  simp only
  generalize (if fw.initialAdd then { fw.addFilesInitially files with initialAdd := false }
    else fw) = fw' at hadd ⊢
  split
  · split
    · exact hadd.deliver promise
    · exact hadd.congr rfl rfl rfl rfl
  · exact hadd.congr rfl rfl rfl rfl

lemma Accounted.resolve (h : fw.Accounted) : fw.resolve.Accounted := by
  unfold FileWatcher.resolve
  split
  · split
    · rename_i promise _ _
      exact (h.deliver promise).congr rfl rfl rfl rfl
    · exact h.congr rfl rfl rfl rfl
  · exact h

lemma Accounted.onStop (h : fw.Accounted) : fw.onStop.Accounted := by
  unfold FileWatcher.onStop cancel
  cases fw.promise with
  | none => exact (h.drop none fun hne => absurd rfl hne).congr rfl rfl rfl rfl
  | some pair =>
    simp only [ne_eq]
    by_cases hc : fw.changes = []
    · simp only [hc, not_true_eq_false, if_false]
      exact (h.drop (some pair.1) fun _ => hc).congr rfl rfl rfl (by simp [hc])
    · simp only [hc, not_false_eq_true, if_true]
      exact ((h.deliver pair.1).drop (some pair.1) fun _ => rfl).congr rfl rfl rfl rfl

theorem Accounted.exec (h : fw.Accounted) : (op.exec fw).Accounted := by
  cases op with
  | tick now => exact h.congr rfl rfl rfl rfl
  | handleFileAction path action old => exact h.handleFileAction
  | watch promise debounceTime files => exact h.watch
  | expire epoch expiry => exact h.congr rfl rfl rfl rfl
  | deliver epoch w =>
    have herase : ({ fw with waits := fw.waits.erase (epoch, w) } : FileWatcher).Accounted :=
      h.congr rfl rfl rfl rfl
    simp only [FileWatcherOp.exec]
    split
    · exact herase.resolve
    · exact herase
  | onStart => exact h.congr rfl rfl rfl rfl
  | onStop => exact h.onStop

/-! ### The promise is there -/

/-- No completion of the debounce timer is on its way when a change starts the timer again. -/
def Undisturbed (fw : FileWatcher) : FileWatcherOp → Prop
  | .handleFileAction path action old =>
    fw.promise ≠ none → (fw.filterAction path action old).isSome = true →
      ∀ w ∈ fw.waits, w.1 = fw.epoch → w.2.status ≠ .expired
  | _ => True

/-- The timer runs at most once, for a promise, and it does so if the promise has changes to wait
for. -/
structure Debounced (fw : FileWatcher) : Prop where
  stray_eq : fw.stray = 0
  epoch_le : ∀ w ∈ fw.waits, w.1 ≤ fw.epoch
  stopped : fw.running = false → fw.promise = none
  live_le : fw.live ≤ 1
  promise_of_live : 0 < fw.live → fw.promise ≠ none
  awaited : fw.promise ≠ none → fw.changes ≠ [] → 0 < fw.live

lemma isLive_iff {w : Nat × Wait} :
    fw.isLive w = true ↔ w.1 = fw.epoch ∧ w.2.status ≠ .aborted :=
  decide_eq_true_iff

/-- Only a completion that is on its way survives a cancel. -/
lemma isLive_cancel_iff {w : Nat × Wait} :
    fw.cancel.isLive (w.1, w.2.cancel) = true ↔ w.1 = fw.epoch ∧ w.2.status = .expired := by
  rw [isLive_iff]
  refine and_congr_right fun _ => ?_
  unfold Wait.cancel
  cases hs : w.2.status <;> simp [hs]

lemma live_cancel_le (fw : FileWatcher) : fw.cancel.live ≤ fw.live := by
  unfold live
  rw [show fw.cancel.waits = fw.waits.map fun w => (w.1, w.2.cancel) from rfl, List.countP_map]
  refine List.countP_mono_left fun w _ hw => ?_
  obtain ⟨hepoch, hstatus⟩ := isLive_cancel_iff.1 hw
  exact isLive_iff.2 ⟨hepoch, by simp [hstatus]⟩

lemma live_cancel_eq_zero (h : ∀ w ∈ fw.waits, w.1 = fw.epoch → w.2.status ≠ .expired) :
    fw.cancel.live = 0 := by
  unfold live
  rw [show fw.cancel.waits = fw.waits.map fun w => (w.1, w.2.cancel) from rfl, List.countP_map]
  refine List.countP_eq_zero.2 fun w hw hlive => ?_
  obtain ⟨hepoch, hstatus⟩ := isLive_cancel_iff.1 hlive
  exact h w hw hepoch hstatus

lemma live_debounce (fw : FileWatcher) (debounceTime : Nat) :
    (fw.debounce debounceTime).live = fw.cancel.live + 1 := by
  unfold live debounce
  refine List.countP_cons_of_pos ?_
  simp [isLive]

/-- The timer is started for a promise while nothing is on its way. -/
lemma debounced_debounce {debounceTime : Nat} {promise : Nat × Nat} (hstray : fw.stray = 0)
    (hepoch : ∀ w ∈ fw.waits, w.1 ≤ fw.epoch) (hrun : fw.running = true)
    (hlive : fw.cancel.live = 0) (hp : fw.promise = some promise) :
    (fw.debounce debounceTime).Debounced := by
  have hone : (fw.debounce debounceTime).live = 1 := by rw [live_debounce, hlive]
  refine ⟨hstray, ?_, fun hstop => ?_, hone.le, fun _ => ?_, fun _ _ => by omega⟩
  · intro w hw
    rcases List.mem_cons.1 hw with rfl | hw
    · exact le_rfl
    · obtain ⟨v, hv, rfl⟩ := List.mem_map.1 hw
      exact hepoch v hv
  · exact absurd (hrun.symm.trans hstop) (by simp)
  · exact fun hnone => by simp [debounce, cancel, hp] at hnone

lemma Debounced.handleFileAction {path old : Path} {action : FileAction} (h : fw.Debounced)
    (hrun : fw.running = true) (hop : fw.Undisturbed (.handleFileAction path action old)) :
    (fw.handleFileAction path action old).Debounced := by
  unfold FileWatcher.handleFileAction
  cases hfilter : fw.filterAction path action old with
  | none => exact h
  | some event =>
    obtain ⟨path', action', old'⟩ := event
    unfold onFileAction
    simp only
    split
    · rename_i promise debounceTime hp
      have hpromise : fw.promise = some (promise, debounceTime) := hp
      have hlive : fw.cancel.live = 0 :=
        live_cancel_eq_zero (hop (by simp [hpromise]) (by simp [hfilter]))
      exact debounced_debounce h.stray_eq h.epoch_le hrun hlive hp
    · rename_i hp
      have hpromise : fw.promise = none := hp
      exact ⟨h.stray_eq, h.epoch_le, h.stopped, h.live_le, h.promise_of_live,
        fun hne => absurd hpromise hne⟩

lemma Debounced.live_eq_zero (h : fw.Debounced) (hp : fw.promise = none) : fw.live = 0 :=
  Nat.eq_zero_of_not_pos fun hpos => h.promise_of_live hpos hp

lemma addFilesInitially_eq (fw : FileWatcher) (files : List Path) :
    ∃ cs n, fw.addFilesInitially files = { fw with changes := cs, recorded := n } := by
  induction files generalizing fw with
  | nil => exact ⟨_, _, rfl⟩
  | cons file files ih =>
    have hfile : ∃ cs n, fw.addFile file = { fw with changes := cs, recorded := n } := by
      unfold addFile
      split
      · exact ⟨_, _, rfl⟩
      · split
        · exact ⟨_, _, rfl⟩
        · exact ⟨_, _, rfl⟩
    obtain ⟨cs, n, heq⟩ := hfile
    obtain ⟨cs', n', heq'⟩ := ih (fw.addFile file)
    refine ⟨cs', n', ?_⟩
    change (fw.addFile file).addFilesInitially files = _
    rw [heq', heq]

lemma Debounced.watch {promise debounceTime : Nat} {files : List Path} (h : fw.Debounced)
    (hrun : fw.running = true) (hp : fw.promise = none) :
    (fw.watch promise debounceTime files).Debounced := by
  have hadd : ∃ cs n a, (if fw.initialAdd then
      { fw.addFilesInitially files with initialAdd := false }
      else fw) = { fw with changes := cs, recorded := n, initialAdd := a } := by
    split
    · obtain ⟨cs, n, heq⟩ := fw.addFilesInitially_eq files
      exact ⟨cs, n, false, by rw [heq]⟩
    · exact ⟨_, _, _, rfl⟩
  obtain ⟨cs, n, a, heq⟩ := hadd
  unfold FileWatcher.watch
  simp only
  rw [heq]
  have hlive := h.live_eq_zero hp
  split
  · split
    · exact ⟨h.stray_eq, h.epoch_le, h.stopped, h.live_le, h.promise_of_live,
        fun hne => absurd hp hne⟩
    · refine debounced_debounce h.stray_eq h.epoch_le hrun ?_ rfl
      exact Nat.le_zero.1 (hlive ▸ fw.live_cancel_le)
  · rename_i hc
    exact ⟨h.stray_eq, h.epoch_le, fun hstop => absurd (hrun.symm.trans hstop) (by simp), h.live_le,
      fun _ => by simp, fun _ hne => absurd hne hc⟩

lemma Debounced.expire {epoch expiry : Nat} (h : fw.Debounced)
    (hw : (epoch, ⟨expiry, .armed⟩) ∈ fw.waits) : ({ fw with
      waits := (epoch, ⟨expiry, .expired⟩) :: fw.waits.erase (epoch, ⟨expiry, .armed⟩) } :
      FileWatcher).Debounced := by
  have hlive : ({ fw with
      waits := (epoch, ⟨expiry, .expired⟩) :: fw.waits.erase (epoch, ⟨expiry, .armed⟩) } :
      FileWatcher).live = fw.live := by
    unfold live
    rw [(List.perm_cons_erase hw).countP_eq, List.countP_cons, List.countP_cons]
    congr 1
    simp [isLive]
  refine ⟨h.stray_eq, fun w hmem => ?_, h.stopped, hlive ▸ h.live_le, hlive ▸ h.promise_of_live,
    hlive ▸ h.awaited⟩
  rcases List.mem_cons.1 hmem with rfl | hmem
  · exact h.epoch_le (epoch, ⟨expiry, .armed⟩) hw
  · exact h.epoch_le w (List.mem_of_mem_erase hmem)

lemma live_erase {epoch : Nat} {w : Wait} (hw : (epoch, w) ∈ fw.waits) :
    fw.live = ({ fw with waits := fw.waits.erase (epoch, w) } : FileWatcher).live +
      if fw.isLive (epoch, w) then 1 else 0 := by
  unfold live
  rw [(List.perm_cons_erase hw).countP_eq, List.countP_cons]
  rfl

lemma Debounced.deliver {epoch : Nat} {w : Wait} (h : fw.Debounced) (hw : (epoch, w) ∈ fw.waits)
    (hover : w.status ≠ .armed) :
    ((FileWatcherOp.deliver epoch w).exec fw).Debounced := by
  have hlive := live_erase hw
  have hepoch : ∀ v ∈ fw.waits.erase (epoch, w), v.1 ≤ fw.epoch :=
    fun v hv => h.epoch_le v (List.mem_of_mem_erase hv)
  simp only [FileWatcherOp.exec]
  split
  · -- it was the only one, and its promise is there
    rename_i hexpired
    have his : fw.isLive (epoch, w) = true := isLive_iff.2 ⟨hexpired.2, by simp [hexpired.1]⟩
    rw [if_pos his] at hlive
    have hle := h.live_le
    have hne := h.promise_of_live (by omega)
    have hrun : fw.running = true := by
      cases hr : fw.running with
      | true => rfl
      | false => exact absurd (h.stopped hr) hne
    obtain ⟨promise, hp⟩ := Option.ne_none_iff_exists'.1 hne
    simp only [resolve, hrun, if_true, hp]
    refine ⟨h.stray_eq, hepoch, fun _ => rfl, ?_, fun hpos => ?_, fun hnone => absurd rfl hnone⟩
    · exact le_trans (Nat.le_add_right _ 1) (hlive ▸ hle)
    · exact absurd (show 0 < ({ fw with waits := fw.waits.erase (epoch, w) } : FileWatcher).live
        from hpos) (by omega)
  · rename_i hother
    have hnot : ¬ fw.isLive (epoch, w) = true := by
      rw [isLive_iff]
      rintro ⟨he, hs⟩
      refine hother ⟨?_, he⟩
      cases hstatus : w.status with
      | armed => exact absurd hstatus hover
      | expired => rfl
      | aborted => exact absurd hstatus hs
    rw [if_neg hnot, Nat.add_zero] at hlive
    exact ⟨h.stray_eq, hepoch, h.stopped, hlive ▸ h.live_le, hlive ▸ h.promise_of_live,
      hlive ▸ h.awaited⟩

lemma onStop_eq (fw : FileWatcher) : fw.onStop.stray = fw.stray ∧
    fw.onStop.waits = fw.cancel.waits ∧ fw.onStop.epoch = fw.epoch + 1 ∧
    fw.onStop.promise = none ∧ fw.onStop.changes = [] := by
  unfold onStop cancel
  cases fw.promise with
  | none => simp
  | some promise =>
    simp only
    split <;> simp

lemma Debounced.onStop (h : fw.Debounced) : fw.onStop.Debounced := by
  obtain ⟨hstray, hwaits, hepoch, hpromise, hchanges⟩ := fw.onStop_eq
  have hle : ∀ w ∈ fw.onStop.waits, w.1 ≤ fw.epoch := by
    intro w hw
    rw [hwaits] at hw
    obtain ⟨v, hv, rfl⟩ := List.mem_map.1 hw
    exact h.epoch_le v hv
  have hlive : fw.onStop.live = 0 := by
    refine List.countP_eq_zero.2 fun w hw his => ?_
    have heq := (isLive_iff.1 his).1
    have := hle w hw
    omega
  refine ⟨hstray.trans h.stray_eq, fun w hw => ?_, fun _ => hpromise, by omega,
    fun hpos => by omega, fun hne => absurd hpromise hne⟩
  rw [hepoch]
  exact (hle w hw).trans (Nat.le_succ _)

theorem Debounced.exec (h : fw.Debounced) (hpre : op.Pre fw) (hop : fw.Undisturbed op) :
    (op.exec fw).Debounced := by
  cases op with
  | tick now => exact ⟨h.stray_eq, h.epoch_le, h.stopped, h.live_le, h.promise_of_live, h.awaited⟩
  | handleFileAction path action old => exact h.handleFileAction hpre hop
  | watch promise debounceTime files => exact h.watch hpre.1 hpre.2
  | expire epoch expiry => exact h.expire hpre.1
  | deliver epoch w => exact h.deliver hpre.1 hpre.2
  | onStart =>
    exact ⟨h.stray_eq, h.epoch_le, fun hrun => absurd hrun (by simp [FileWatcherOp.exec, onStart]),
      h.live_le, h.promise_of_live, h.awaited⟩
  | onStop => exact h.onStop

end FileWatcher

open FileWatcher

/-- Whatever arrives, every change is delivered or dropped at most once. -/
theorem fileWatcher_accounted {filter : Path → Bool} {configInitialAdd : Bool} {fw : FileWatcher}
    {cond : FileWatcher → FileWatcherOp → Prop}
    (h : (fileWatcher filter configInitialAdd).Reachable cond fw) : fw.Accounted := by
  refine h.invariant ?_ fun _ _ _ hfw _ _ => hfw.exec
  rintro fw rfl
  exact ⟨fun n => by simp [initial, numbers], by simp [initial]⟩

/-- In every run in which no change overtakes a completion of the debounce timer, all changes are
delivered, once. -/
theorem fileWatcher_delivers {filter : Path → Bool} {configInitialAdd : Bool} {fw : FileWatcher}
    (h : (fileWatcher filter configInitialAdd).Reachable Undisturbed fw) : fw.Delivers := by
  have ha := fileWatcher_accounted h
  have hd : fw.Debounced := by
    refine h.invariant ?_ fun _ _ _ hfw hpre hop => hfw.exec hpre hop
    rintro fw rfl
    refine ⟨rfl, ?_, fun _ => rfl, ?_, ?_, ?_⟩ <;> simp [initial, live]
  refine ⟨hd.stray_eq, fun n hn => ?_, ha.notDropped, fun _ => hd.awaited⟩
  exact (ha.count_eq n).trans (if_pos hn)

instance (fw : FileWatcher) : (op : FileWatcherOp) → Decidable (fw.Undisturbed op)
  | .handleFileAction _ _ _ => inferInstanceAs (Decidable (_ → _ → ∀ w ∈ fw.waits, _ → _))
  | .tick _ | .watch _ _ _ | .expire _ _ | .deliver _ _ | .onStart | .onStop => .isTrue trivial

/-- A change is reported after the debounce time. -/
def debounceRun : List FileWatcherOp :=
  [.onStart, .watch 0 10 [], .handleFileAction ['a'] .add [], .tick 5,
    .handleFileAction ['a'] .modified [], .deliver 0 ⟨10, .aborted⟩, .tick 15, .expire 0 15,
    .deliver 0 ⟨15, .expired⟩]

/-- A second change comes in when the timer has expired already. -/
def overtakenRun : List FileWatcherOp :=
  [.onStart, .watch 0 10 [], .handleFileAction ['a'] .add [], .tick 10, .expire 0 10,
    .handleFileAction ['b'] .add [], .deliver 0 ⟨10, .expired⟩, .tick 20, .expire 0 20,
    .deliver 0 ⟨20, .expired⟩]

theorem fileWatcher_delivers_debounceRun :
    (debounceRun.foldl FileWatcherOp.exec (initial (fun _ => true) false)).delivered =
        [(0, [⟨['a'], .added, [0, 1]⟩])] ∧
      (debounceRun.foldl FileWatcherOp.exec (initial (fun _ => true) false)).Delivers := by
  have h : (fileWatcher (fun _ => true) false).Reachable Undisturbed
      (debounceRun.foldl FileWatcherOp.exec (initial (fun _ => true) false)) :=
    Machine.Reachable.run (.init rfl) (by decide)
  exact ⟨by decide, fileWatcher_delivers h⟩

/-- `resolve` is executed twice for one promise. -/
theorem overtakenRun_not_delivers :
    (fileWatcher (fun _ => true) false).Reachable (fun _ _ => True)
        (overtakenRun.foldl FileWatcherOp.exec (initial (fun _ => true) false)) ∧
      ¬ (overtakenRun.foldl FileWatcherOp.exec (initial (fun _ => true) false)).Delivers := by
  refine ⟨Machine.Reachable.run (.init rfl) (by decide), fun h => ?_⟩
  exact absurd h.resolved (by decide)

end Idle
