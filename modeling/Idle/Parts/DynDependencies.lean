import Idle.Parts.Dependency

/-!
# Sets of dependencies

`DynDependencies` uses every interface of its registry that it is not told to ignore. For each of
them it keeps three things: an entry of its map, the connection of the usage, and what it knows of
the storage of the user, which holds the interfaces the user may access.
-/

namespace Idle

variable {ι : Type*}

inductive UseReply where
  | useNever
  | useNowAndInsert
  | useLater
  | useLaterAndNotify
  | useLaterAndInsert
  deriving DecidableEq, Repr

/-- `storage_state_t` -/
inductive StorageState where
  | erased
  | inserted
  | unknown
  deriving DecidableEq, Repr

/-- `DependenciesFlags` -/
structure DependenciesFlags where
  ignore : Bool
  weak : Bool
  deriving DecidableEq, Repr

/-- `UsageImpl`, without the interface, which is the key of its entry. -/
structure UsageImpl where
  useReply : UseReply
  storageState : StorageState
  isWeak : Bool
  /-- `Usage::isConnected` -/
  isConnected : Bool
  deriving DecidableEq, Repr

/-- What happens to an interface in the storage of the user: the calls of the part, and the changes
that the user declares to have made himself. -/
inductive StorageEvent where
  | doInsert
  | doErase
  | acquired
  | released
  deriving DecidableEq, Repr

/-- The hooks of the user, with what they answer at present. -/
structure DependenciesHooks (ι : Type*) where
  onInspect : ι → DependenciesFlags
  onUseOffer : ι → UseReply
  onReleaseRequest : ι → ReleaseReply

/-- `DynDependenciesBase`, with the phase of its owner. -/
structure DynDependencies (ι : Type*) where
  /-- The keys of `map_` -/
  keys : List ι
  /-- The values of `map_` -/
  usage : ι → UsageImpl
  /-- `used_`, as the interfaces of the usages in it -/
  used : List ι
  hooks : DependenciesHooks ι
  phase : Phase
  /-- The storage of the user -/
  storage : ι → Bool
  /-- What happened to each interface in the storage, the last event last -/
  history : ι → List StorageEvent

namespace DynDependencies

def isLocked (d : DynDependencies ι) : Bool := d.phase.isLocked

variable [DecidableEq ι]

/-! ### The entries -/

def modify (d : DynDependencies ι) (inter : ι) (f : UsageImpl → UsageImpl) : DynDependencies ι :=
  { d with usage := Function.update d.usage inter (f (d.usage inter)) }

def record (d : DynDependencies ι) (inter : ι) (e : StorageEvent) (stored : Bool) :
    DynDependencies ι :=
  { d with
    storage := Function.update d.storage inter stored
    history := Function.update d.history inter (d.history inter ++ [e]) }

/-- `impl::insert`; emplacing keeps an entry that exists. -/
def insert (d : DynDependencies ι) (inter : ι) (flags : DependenciesFlags) : DynDependencies ι :=
  if inter ∈ d.keys then d
  else
    let d := d.modify inter fun _ =>
      { useReply := .useLater, storageState := .erased, isWeak := flags.weak, isConnected := false }
    { d with keys := d.keys ++ [inter] }

/-- `impl::erase` -/
def erase (d : DynDependencies ι) (used : ι) : DynDependencies ι :=
  { d with keys := d.keys.erase used }

def usageIsConnected (d : DynDependencies ι) (inter : ι) : Bool := decide (inter ∈ d.used)

def usageConnect (d : DynDependencies ι) (inter : ι) : DynDependencies ι :=
  let d := { d with used := d.used ++ [inter] }
  d.modify inter fun use => { use with isConnected := true }

def usageDisconnect (d : DynDependencies ι) (inter : ι) : DynDependencies ι :=
  let d := d.modify inter fun use => { use with isConnected := false }
  { d with used := d.used.erase inter }

def usageSetReply (d : DynDependencies ι) (inter : ι) (reply : UseReply) : DynDependencies ι :=
  d.modify inter fun use => { use with useReply := reply }

def usageSetStorageState (d : DynDependencies ι) (inter : ι) (state : StorageState) :
    DynDependencies ι :=
  d.modify inter fun use => { use with storageState := state }

def usageInsertIntoStorage (d : DynDependencies ι) (inter : ι) : DynDependencies ι :=
  if (d.usage inter).storageState ≠ .inserted then
    (d.usageSetStorageState inter .inserted).record inter .doInsert true
  else d

def usageEraseFromStorage (d : DynDependencies ι) (inter : ι) : DynDependencies ι :=
  if (d.usage inter).storageState ≠ .erased then
    (d.usageSetStorageState inter .erased).record inter .doErase false
  else d

/-! ### The events of the registry -/

/-- The locked branch of `process_availability`. -/
def processOffer (d : DynDependencies ι) (inter : ι) : UseReply → DynDependencies ι
  | .useNowAndInsert => (d.usageConnect inter).usageInsertIntoStorage inter
  | .useLater => d.usageConnect inter
  | .useLaterAndNotify => (d.usageSetReply inter .useLaterAndNotify).usageConnect inter
  | .useLaterAndInsert => (d.usageSetReply inter .useLaterAndInsert).usageConnect inter
  | .useNever => d.usageSetReply inter .useNever

def processAvailability (d : DynDependencies ι) (inter : ι) : DynDependencies ι :=
  let flags := d.hooks.onInspect inter
  if flags.ignore then d
  else
    let d := d.insert inter flags
    if d.usageIsConnected inter then d
    else if !d.isLocked then d.usageConnect inter
    else d.processOffer inter (d.hooks.onUseOffer inter)

def onSubscribedCreated (inter : ι) (d : DynDependencies ι) : DynDependencies ι :=
  d.processAvailability inter

def onSubscribedDestroy (inter : ι) (d : DynDependencies ι) : DynDependencies ι := d.erase inter

def onSubscribedUnlocked (inter : ι) (d : DynDependencies ι) : DynDependencies ι :=
  d.processAvailability inter

/-- `DynDependenciesBase::onPartInit` of a new part. -/
def onPartInit (interfaces : List ι) (hooks : DependenciesHooks ι) : DynDependencies ι :=
  interfaces.foldl (fun d inter => d.onSubscribedCreated inter)
    { keys := [], used := [], hooks, phase := .stopped, storage := fun _ => false
      usage := fun _ => ⟨.useLater, .erased, false, false⟩, history := fun _ => [] }

/-! ### The events of the usages -/

/-- `UsageImpl::onUsedDestroy` -/
def onUsedDestroy (exp : ι) (d : DynDependencies ι) : DynDependencies ι :=
  ((d.usageEraseFromStorage exp).usageDisconnect exp).erase exp

/-- `UsageImpl::onUsedStarted` -/
def onUsedStarted (exp : ι) (d : DynDependencies ι) : DynDependencies ι :=
  match (d.usage exp).useReply with
  | .useLaterAndNotify =>
    if d.hooks.onUseOffer exp = .useNowAndInsert then d.usageInsertIntoStorage exp else d
  | .useLaterAndInsert => d.usageInsertIntoStorage exp
  | _ => d

/-- `UsageImpl::onReleaseRequest` -/
def onReleaseRequest (exp : ι) (d : DynDependencies ι) : ReleaseReply × DynDependencies ι :=
  let reply := d.hooks.onReleaseRequest exp
  if reply = .now then (reply, (d.usageEraseFromStorage exp).usageDisconnect exp) else (reply, d)

/-! ### The owner -/

/-- `DynDependenciesBase::onPartDestroy`; the loop treats a usage as `onUsedDestroy` does. -/
def onPartDestroy (d : DynDependencies ι) : DynDependencies ι :=
  let d := d.used.foldl (fun d inter => d.onUsedDestroy inter) d
  { d with keys := [] }

/-- The body of the loop of `onImportLock`. -/
def lockUsage (isRunning : ι → Bool) (d : DynDependencies ι) (inter : ι) : DynDependencies ι :=
  if isRunning inter then d.usageInsertIntoStorage inter
  else (d.usageSetReply inter .useLaterAndNotify).usageEraseFromStorage inter

/-- `isRunning` is the state of the owners of the interfaces. -/
def onImportLock (isRunning : ι → Bool) (d : DynDependencies ι) : DynDependencies ι :=
  d.used.foldl (lockUsage isRunning) d

/-- The body of the loop of `onImportUnlock`. -/
def unlockUsage (d : DynDependencies ι) (inter : ι) : DynDependencies ι :=
  let d :=
    if !d.usageIsConnected inter then (d.usageSetReply inter .useLater).usageConnect inter else d
  d.usageInsertIntoStorage inter

def onImportUnlock (d : DynDependencies ι) : DynDependencies ι := d.keys.foldl unlockUsage d

/-- `DynDependenciesBase::doAcquireUsage`: the user has put `dep` into the storage. -/
def doAcquireUsage (dep : ι) (d : DynDependencies ι) : DynDependencies ι :=
  if d.isLocked then
    let d := if dep ∈ d.keys then d else d.insert dep (d.hooks.onInspect dep)
    let d := (d.usageSetStorageState dep .unknown).record dep .acquired true
    if !d.usageIsConnected dep then d.usageConnect dep else d
  else d

/-- `DynDependenciesBase::doReleaseUsage`: the user has taken `dep` out of the storage. -/
def doReleaseUsage (dep : ι) (d : DynDependencies ι) : DynDependencies ι :=
  if d.isLocked then
    if dep ∈ d.keys then
      let d := (d.usageSetStorageState dep .erased).record dep .released false
      if d.usageIsConnected dep then d.usageDisconnect dep else d
    else d
  else d

/-! ### One interface at a time

No operation mixes what the part keeps of two interfaces. -/

/-- What a part keeps of one interface: how often it is a key of `map_` and in `used_`, and the
rest. -/
@[ext]
structure Cell where
  keys : Nat
  used : Nat
  usage : UsageImpl
  stored : Bool
  history : List StorageEvent

namespace Cell

def setReply (c : Cell) (reply : UseReply) : Cell :=
  { c with usage := { c.usage with useReply := reply } }

def record (c : Cell) (state : StorageState) (e : StorageEvent) (stored : Bool) : Cell :=
  { c with
    usage := { c.usage with storageState := state }
    stored
    history := c.history ++ [e] }

def insert (c : Cell) (flags : DependenciesFlags) : Cell :=
  if 0 < c.keys then c
  else { c with keys := c.keys + 1, usage := ⟨.useLater, .erased, flags.weak, false⟩ }

def erase (c : Cell) : Cell := { c with keys := c.keys - 1 }

def connect (c : Cell) : Cell :=
  { c with used := c.used + 1, usage := { c.usage with isConnected := true } }

def disconnect (c : Cell) : Cell :=
  { c with used := c.used - 1, usage := { c.usage with isConnected := false } }

def insertIntoStorage (c : Cell) : Cell :=
  if c.usage.storageState ≠ .inserted then c.record .inserted .doInsert true else c

def eraseFromStorage (c : Cell) : Cell :=
  if c.usage.storageState ≠ .erased then c.record .erased .doErase false else c

def processOffer (c : Cell) : UseReply → Cell
  | .useNowAndInsert => c.connect.insertIntoStorage
  | .useLater => c.connect
  | .useLaterAndNotify => (c.setReply .useLaterAndNotify).connect
  | .useLaterAndInsert => (c.setReply .useLaterAndInsert).connect
  | .useNever => c.setReply .useNever

def processAvailability (flags : DependenciesFlags) (isLocked : Bool) (reply : UseReply)
    (c : Cell) : Cell :=
  if flags.ignore then c
  else
    let c := c.insert flags
    if 0 < c.used then c
    else if !isLocked then c.connect
    else c.processOffer reply

def onUsedDestroy (c : Cell) : Cell := c.eraseFromStorage.disconnect.erase

def onUsedStarted (reply : UseReply) (c : Cell) : Cell :=
  match c.usage.useReply with
  | .useLaterAndNotify => if reply = .useNowAndInsert then c.insertIntoStorage else c
  | .useLaterAndInsert => c.insertIntoStorage
  | _ => c

def onReleaseRequest (reply : ReleaseReply) (c : Cell) : Cell :=
  if reply = .now then c.eraseFromStorage.disconnect else c

def lockUsage (isRunning : Bool) (c : Cell) : Cell :=
  if isRunning then c.insertIntoStorage else (c.setReply .useLaterAndNotify).eraseFromStorage

def unlockUsage (c : Cell) : Cell :=
  (if 0 < c.used then c else (c.setReply .useLater).connect).insertIntoStorage

def doAcquireUsage (flags : DependenciesFlags) (c : Cell) : Cell :=
  let c := (c.insert flags).record .unknown .acquired true
  if 0 < c.used then c else c.connect

def doReleaseUsage (c : Cell) : Cell :=
  if 0 < c.keys then
    let c := c.record .erased .released false
    if 0 < c.used then c.disconnect else c
  else c

end Cell

def cell (d : DynDependencies ι) (inter : ι) : Cell :=
  { keys := d.keys.count inter, used := d.used.count inter, usage := d.usage inter
    stored := d.storage inter, history := d.history inter }

section Cell

variable {d : DynDependencies ι} {i j : ι}

lemma mem_keys_iff : i ∈ d.keys ↔ 0 < (d.cell i).keys := List.count_pos_iff.symm

lemma mem_used_iff : i ∈ d.used ↔ 0 < (d.cell i).used := List.count_pos_iff.symm

/-- The operation `f` on the interface `i` is `g` on its cell and leaves the other ones alone. -/
def ActsOn (d' d : DynDependencies ι) (i : ι) (g : Cell → Cell) : Prop :=
  d'.hooks = d.hooks ∧ d'.phase = d.phase ∧
    ∀ j, d'.cell j = if j = i then g (d.cell i) else d.cell j

lemma ActsOn.refl (d : DynDependencies ι) (i : ι) : ActsOn d d i id :=
  ⟨rfl, rfl, fun j => by split_ifs with h <;> simp [h]⟩

lemma ActsOn.trans {d₁ d₂ d₃ : DynDependencies ι} {g h : Cell → Cell} (hg : ActsOn d₂ d₁ i g)
    (hh : ActsOn d₃ d₂ i h) : ActsOn d₃ d₁ i (h ∘ g) := by
  refine ⟨hh.1.trans hg.1, hh.2.1.trans hg.2.1, fun j => ?_⟩
  by_cases hj : j = i
  · rw [hh.2.2, if_pos hj, hg.2.2, if_pos rfl, if_pos hj]
    rfl
  · rw [hh.2.2, if_neg hj, hg.2.2, if_neg hj, if_neg hj]

lemma modify_actsOn (d : DynDependencies ι) (i : ι) (f : UsageImpl → UsageImpl) :
    ActsOn (d.modify i f) d i fun c => { c with usage := f c.usage } := by
  refine ⟨rfl, rfl, fun j => ?_⟩
  by_cases h : j = i
  · subst h
    simp [cell, modify]
  · simp [cell, modify, h]

lemma setReply_actsOn (d : DynDependencies ι) (i : ι) (reply : UseReply) :
    ActsOn (d.usageSetReply i reply) d i (Cell.setReply · reply) :=
  d.modify_actsOn i _

lemma record_actsOn (d : DynDependencies ι) (i : ι) (state : StorageState) (e : StorageEvent)
    (stored : Bool) :
    ActsOn ((d.usageSetStorageState i state).record i e stored) d i
      (Cell.record · state e stored) := by
  refine ⟨rfl, rfl, fun j => ?_⟩
  by_cases h : j = i
  · subst h
    simp [cell, usageSetStorageState, modify, record, Cell.record]
  · simp [cell, usageSetStorageState, modify, record, h]

lemma insert_actsOn (d : DynDependencies ι) (i : ι) (flags : DependenciesFlags) :
    ActsOn (d.insert i flags) d i (Cell.insert · flags) := by
  by_cases hi : i ∈ d.keys
  · refine ⟨by simp [insert, hi], by simp [insert, hi], fun j => ?_⟩
    by_cases h : j = i
    · subst h
      simp [insert, Cell.insert, hi, mem_keys_iff.1 hi]
    · simp [insert, hi, h]
  · refine ⟨by simp [insert, hi, modify], by simp [insert, hi, modify], fun j => ?_⟩
    have hi' : ¬0 < (d.cell i).keys := fun h => hi (mem_keys_iff.2 h)
    by_cases h : j = i
    · subst h
      simp only [if_true, Cell.insert, hi', insert, hi]
      simp [cell, modify]
    · simp [insert, hi, h, cell, modify, List.count_cons_of_ne (Ne.symm h)]

lemma erase_actsOn (d : DynDependencies ι) (i : ι) : ActsOn (d.erase i) d i Cell.erase := by
  refine ⟨rfl, rfl, fun j => ?_⟩
  by_cases h : j = i
  · subst h
    simp [cell, erase, Cell.erase]
  · simp [cell, erase, h, List.count_erase_of_ne h]

lemma connect_actsOn (d : DynDependencies ι) (i : ι) :
    ActsOn (d.usageConnect i) d i Cell.connect := by
  refine ⟨rfl, rfl, fun j => ?_⟩
  by_cases h : j = i
  · subst h
    simp [cell, usageConnect, modify, Cell.connect]
  · simp [cell, usageConnect, modify, h, List.count_cons_of_ne (Ne.symm h)]

lemma disconnect_actsOn (d : DynDependencies ι) (i : ι) :
    ActsOn (d.usageDisconnect i) d i Cell.disconnect := by
  refine ⟨rfl, rfl, fun j => ?_⟩
  by_cases h : j = i
  · subst h
    simp [cell, usageDisconnect, modify, Cell.disconnect]
  · simp [cell, usageDisconnect, modify, h, List.count_erase_of_ne h]

lemma ActsOn.congr {d' : DynDependencies ι} {g h : Cell → Cell} (hg : ActsOn d' d i g)
    (hgh : g (d.cell i) = h (d.cell i)) : ActsOn d' d i h :=
  ⟨hg.1, hg.2.1, fun j => by rw [hg.2.2 j, hgh]⟩

lemma insertIntoStorage_actsOn (d : DynDependencies ι) (i : ι) :
    ActsOn (d.usageInsertIntoStorage i) d i Cell.insertIntoStorage := by
  by_cases h : (d.usage i).storageState = .inserted
  · simp only [usageInsertIntoStorage, h]
    exact (ActsOn.refl d i).congr (by simp [Cell.insertIntoStorage, cell, h])
  · simp only [usageInsertIntoStorage, ne_eq, h, not_false_eq_true, if_true]
    exact (d.record_actsOn i _ _ _).congr (by simp [Cell.insertIntoStorage, cell, h])

lemma eraseFromStorage_actsOn (d : DynDependencies ι) (i : ι) :
    ActsOn (d.usageEraseFromStorage i) d i Cell.eraseFromStorage := by
  by_cases h : (d.usage i).storageState = .erased
  · simp only [usageEraseFromStorage, h]
    exact (ActsOn.refl d i).congr (by simp [Cell.eraseFromStorage, cell, h])
  · simp only [usageEraseFromStorage, ne_eq, h, not_false_eq_true, if_true]
    exact (d.record_actsOn i _ _ _).congr (by simp [Cell.eraseFromStorage, cell, h])

lemma processOffer_actsOn (d : DynDependencies ι) (i : ι) (reply : UseReply) :
    ActsOn (d.processOffer i reply) d i (Cell.processOffer · reply) := by
  cases reply with
  | useNever => exact d.setReply_actsOn i .useNever
  | useNowAndInsert => exact (d.connect_actsOn i).trans (insertIntoStorage_actsOn _ i)
  | useLater => exact d.connect_actsOn i
  | useLaterAndNotify => exact (d.setReply_actsOn i .useLaterAndNotify).trans (connect_actsOn _ i)
  | useLaterAndInsert => exact (d.setReply_actsOn i .useLaterAndInsert).trans (connect_actsOn _ i)

lemma processAvailability_actsOn (d : DynDependencies ι) (i : ι) :
    ActsOn (d.processAvailability i) d i (Cell.processAvailability (d.hooks.onInspect i) d.isLocked
      (d.hooks.onUseOffer i)) := by
  by_cases hig : (d.hooks.onInspect i).ignore = true
  · simp only [processAvailability, hig, if_true]
    exact (ActsOn.refl d i).congr (by simp [Cell.processAvailability, hig])
  · have hins := d.insert_actsOn i (d.hooks.onInspect i)
    have hcell := (hins.2.2 i).trans (if_pos rfl)
    have hused := mem_used_iff (d := d.insert i (d.hooks.onInspect i)) (i := i)
    have hlock : (d.insert i (d.hooks.onInspect i)).isLocked = d.isLocked := by
      rw [isLocked, hins.2.1, isLocked]
    rw [hcell] at hused
    simp only [processAvailability, hig, usageIsConnected, hlock, hins.1]
    by_cases hu : i ∈ (d.insert i (d.hooks.onInspect i)).used
    · simp only [hu, decide_true, if_true]
      exact hins.congr (by simp [Cell.processAvailability, hig, hused.1 hu])
    · have hu' : ¬0 < ((d.cell i).insert (d.hooks.onInspect i)).used := fun h => hu (hused.2 h)
      by_cases hl : d.isLocked = true
      · simp only [hu, hl, decide_false]
        exact (hins.trans (processOffer_actsOn _ i _)).congr
          (by simp only [Cell.processAvailability, hig, hu']; simp)
      · simp only [hu, hl, decide_false]
        exact (hins.trans (connect_actsOn _ i)).congr
          (by simp only [Cell.processAvailability, hig, hu']; simp)

lemma onUsedDestroy_actsOn (d : DynDependencies ι) (i : ι) :
    ActsOn (d.onUsedDestroy i) d i Cell.onUsedDestroy :=
  ((d.eraseFromStorage_actsOn i).trans (disconnect_actsOn _ i)).trans (erase_actsOn _ i)

lemma onUsedStarted_actsOn (d : DynDependencies ι) (i : ι) :
    ActsOn (d.onUsedStarted i) d i (Cell.onUsedStarted (d.hooks.onUseOffer i)) := by
  have hid := ActsOn.refl d i
  have hins := d.insertIntoStorage_actsOn i
  cases h : (d.usage i).useReply with
  | useLaterAndNotify =>
    by_cases ho : d.hooks.onUseOffer i = .useNowAndInsert
    · simp only [onUsedStarted, h, ho, if_true]
      exact hins.congr (by simp [Cell.onUsedStarted, cell, h])
    · simp only [onUsedStarted, h, ho, if_false]
      exact hid.congr (by simp [Cell.onUsedStarted, cell, h, ho])
  | useLaterAndInsert =>
    simp only [onUsedStarted, h]
    exact hins.congr (by simp [Cell.onUsedStarted, cell, h])
  | useNever | useNowAndInsert | useLater =>
    simp only [onUsedStarted, h]
    exact hid.congr (by simp [Cell.onUsedStarted, cell, h])

lemma onReleaseRequest_actsOn (d : DynDependencies ι) (i : ι) :
    ActsOn (d.onReleaseRequest i).2 d i (Cell.onReleaseRequest (d.hooks.onReleaseRequest i)) := by
  by_cases h : d.hooks.onReleaseRequest i = .now
  · simp only [onReleaseRequest, h, if_true]
    exact ((d.eraseFromStorage_actsOn i).trans (disconnect_actsOn _ i)).congr
      (by simp [Cell.onReleaseRequest])
  · simp only [onReleaseRequest, h, if_false]
    exact (ActsOn.refl d i).congr (by simp [Cell.onReleaseRequest, h])

lemma lockUsage_actsOn (isRunning : ι → Bool) (d : DynDependencies ι) (i : ι) :
    ActsOn (d.lockUsage isRunning i) d i (Cell.lockUsage (isRunning i)) := by
  by_cases h : isRunning i = true
  · simp only [lockUsage, h, if_true]
    exact (d.insertIntoStorage_actsOn i).congr (by simp [Cell.lockUsage])
  · simp only [lockUsage, h]
    exact ((d.setReply_actsOn i .useLaterAndNotify).trans (eraseFromStorage_actsOn _ i)).congr
      (by simp [Cell.lockUsage])

lemma unlockUsage_actsOn (d : DynDependencies ι) (i : ι) :
    ActsOn (d.unlockUsage i) d i Cell.unlockUsage := by
  by_cases h : i ∈ d.used
  · simp only [unlockUsage, usageIsConnected, h, decide_true, Bool.not_true]
    exact (d.insertIntoStorage_actsOn i).congr (by simp [Cell.unlockUsage, mem_used_iff.1 h])
  · have h' : ¬0 < (d.cell i).used := fun hu => h (mem_used_iff.2 hu)
    simp only [unlockUsage, usageIsConnected, h, decide_false, Bool.not_false, if_true]
    exact (((d.setReply_actsOn i .useLater).trans (connect_actsOn _ i)).trans
      (insertIntoStorage_actsOn _ i)).congr (by simp only [Cell.unlockUsage, h']; rfl)

lemma doAcquireUsage_actsOn (hl : d.isLocked = true) (i : ι) :
    ActsOn (d.doAcquireUsage i) d i (Cell.doAcquireUsage (d.hooks.onInspect i)) := by
  have hins := d.insert_actsOn i (d.hooks.onInspect i)
  have hite : (if i ∈ d.keys then d else d.insert i (d.hooks.onInspect i)) =
      d.insert i (d.hooks.onInspect i) := by
    by_cases h : i ∈ d.keys <;> simp [insert, h]
  have hrec := hins.trans (record_actsOn _ i .unknown .acquired true)
  have hused := mem_used_iff
    (d := ((d.insert i (d.hooks.onInspect i)).usageSetStorageState i .unknown).record i
      .acquired true)
    (i := i)
  rw [(hrec.2.2 i).trans (if_pos rfl)] at hused
  simp only [doAcquireUsage, hl, if_true, hite, usageIsConnected]
  split_ifs with h
  · have h' := fun hu => (by simpa using h : ¬_) (hused.2 hu)
    refine (hrec.trans (connect_actsOn _ i)).congr ?_
    exact (if_neg h').symm
  · have h' := hused.1 (by simpa using h)
    refine hrec.congr ?_
    exact (if_pos h').symm

lemma doReleaseUsage_actsOn (hl : d.isLocked = true) (i : ι) :
    ActsOn (d.doReleaseUsage i) d i Cell.doReleaseUsage := by
  by_cases hk : i ∈ d.keys
  · have hrec := d.record_actsOn i .erased .released false
    have hused := mem_used_iff (d := (d.usageSetStorageState i .erased).record i .released false)
      (i := i)
    rw [(hrec.2.2 i).trans (if_pos rfl)] at hused
    simp only [doReleaseUsage, hl, if_true, hk, usageIsConnected]
    by_cases h : i ∈ ((d.usageSetStorageState i .erased).record i .released false).used
    · simp only [h, decide_true, if_true]
      refine (hrec.trans (disconnect_actsOn _ i)).congr ?_
      simp only [Cell.doReleaseUsage, mem_keys_iff.1 hk, if_true, hused.1 h]
      rfl
    · have h' := fun hu => h (hused.2 hu)
      simp only [h, decide_false]
      refine hrec.congr ?_
      simp only [Cell.doReleaseUsage, mem_keys_iff.1 hk, if_true]
      exact (if_neg h').symm
  · have hk' : ¬0 < (d.cell i).keys := fun h => hk (mem_keys_iff.2 h)
    simp only [doReleaseUsage, hl, if_true, hk, if_false]
    exact (ActsOn.refl d i).congr (by simp [Cell.doReleaseUsage, hk'])

end Cell

/-! ### The protocol of the storage -/

/-- The calls alternate, beginning with `doInsert`, where the user declares no change. -/
def Alternating (history : List StorageEvent) : Prop :=
  history.head? ≠ some .doErase ∧ history.IsChain fun a b =>
    ¬(a = .doInsert ∧ b = .doInsert) ∧ ¬(a = .doErase ∧ b = .doErase)

/-- The state of the storage that the last event tells of. -/
def lastState (history : List StorageEvent) : StorageState :=
  match history.getLast? with
  | some .doInsert => .inserted
  | some .acquired => .unknown
  | _ => .erased

@[simp]
lemma lastState_concat (history : List StorageEvent) (e : StorageEvent) :
    lastState (history ++ [e]) = lastState [e] := by
  simp [lastState]

lemma Alternating.concat {history : List StorageEvent} (h : Alternating history) {e : StorageEvent}
    (hi : e = .doInsert → lastState history ≠ .inserted)
    (he : e = .doErase → lastState history ≠ .erased) : Alternating (history ++ [e]) := by
  constructor
  · cases history with
    | nil =>
      have : e ≠ .doErase := fun h => he h rfl
      simpa using this
    | cons a l => simpa using h.1
  · refine h.2.append (List.isChain_singleton e) ?_
    intro last hlast b hb
    obtain rfl : e = b := by simpa using hb
    have hlast : history.getLast? = some last := hlast
    constructor
    · rintro ⟨rfl, rfl⟩
      exact hi rfl (by simp [lastState, hlast])
    · rintro ⟨rfl, rfl⟩
      exact he rfl (by simp [lastState, hlast])

namespace Cell

/-- What the part keeps of one interface fits together. -/
structure Good (c : Cell) : Prop where
  keys_le : c.keys ≤ 1
  used_le : c.used ≤ c.keys
  connected : 0 < c.keys → (0 < c.used ↔ c.usage.isConnected = true)
  erased : 0 < c.keys → c.used = 0 → c.usage.storageState = .erased
  stored : c.stored = true ↔ 0 < c.keys ∧ c.usage.storageState ≠ .erased
  last : lastState c.history = if 0 < c.keys then c.usage.storageState else .erased
  alternating : Alternating c.history

namespace Good

variable {c : Cell}

lemma setReply (h : c.Good) (reply : UseReply) : (c.setReply reply).Good :=
  ⟨h.keys_le, h.used_le, h.connected, h.erased, h.stored, h.last, h.alternating⟩

lemma keys_pos (h : c.Good) (hu : 0 < c.used) : 0 < c.keys := hu.trans_le h.used_le

lemma connect (h : c.Good) (hk : 0 < c.keys) (hu : c.used = 0) : c.connect.Good where
  keys_le := h.keys_le
  used_le := by simp only [Cell.connect, hu]; omega
  connected _ := by simp [Cell.connect]
  erased _ hn := by simp [Cell.connect] at hn
  stored := h.stored
  last := h.last
  alternating := h.alternating

lemma disconnect (h : c.Good) (hs : c.usage.storageState = .erased) : c.disconnect.Good where
  keys_le := h.keys_le
  used_le := (Nat.sub_le _ _).trans h.used_le
  connected _ := by
    have := h.keys_le
    have := h.used_le
    have hz : c.used - 1 = 0 := by omega
    simp [Cell.disconnect, hz]
  erased _ _ := hs
  stored := h.stored
  last := h.last
  alternating := h.alternating

lemma insert (h : c.Good) (flags : DependenciesFlags) : (c.insert flags).Good := by
  by_cases hk : 0 < c.keys
  · simpa [Cell.insert, hk] using h
  · have hk0 : c.keys = 0 := by omega
    have hu : c.used = 0 := by have := h.used_le; omega
    have hst : c.stored = false := by
      have := h.stored
      simpa [hk] using this
    have hlast : lastState c.history = .erased := by simpa [hk] using h.last
    simp only [Cell.insert, hk, if_false]
    constructor <;> simp [hk0, hu, hst, hlast, h.alternating]

lemma insert_keys_pos (c : Cell) (flags : DependenciesFlags) : 0 < (c.insert flags).keys := by
  by_cases hk : 0 < c.keys
  · simp [Cell.insert, hk]
  · simp [Cell.insert, hk]

lemma erase (h : c.Good) (hu : c.used = 0) : c.erase.Good := by
  have hk := h.keys_le
  have hz : c.keys - 1 = 0 := by omega
  have hlast : lastState c.history = .erased := by
    rw [h.last]
    split_ifs with hk
    · exact h.erased hk hu
    · rfl
  have hst : c.stored = false := by
    have := h.stored
    by_cases hk : 0 < c.keys
    · simpa [h.erased hk hu] using this
    · simpa [hk] using this
  constructor <;> simp [Cell.erase, hz, hu, hlast, hst, h.alternating]

/-- An event of the storage that the present state admits. -/
lemma record (h : c.Good) {state : StorageState} {e : StorageEvent} {stored : Bool}
    (hk : 0 < c.keys) (hu : c.used = 0 → state = .erased) (hs : lastState [e] = state)
    (hst : stored = true ↔ state ≠ .erased)
    (hi : e = .doInsert → c.usage.storageState ≠ .inserted)
    (he : e = .doErase → c.usage.storageState ≠ .erased) : (c.record state e stored).Good where
  keys_le := h.keys_le
  used_le := h.used_le
  connected := h.connected
  erased _ hz := hu hz
  stored := by simp [Cell.record, hk, hst]
  last := by simp [Cell.record, hk, hs]
  alternating := by
    have hlast : lastState c.history = c.usage.storageState := by simpa [hk] using h.last
    exact h.alternating.concat (fun e => hlast ▸ hi e) (fun e => hlast ▸ he e)

lemma insertIntoStorage (h : c.Good) (hu : 0 < c.used) : c.insertIntoStorage.Good := by
  by_cases hs : c.usage.storageState = .inserted
  · simpa [Cell.insertIntoStorage, hs] using h
  · simp only [Cell.insertIntoStorage, ne_eq, hs, not_false_eq_true, if_true]
    exact h.record (h.keys_pos hu) (fun hz => by omega) rfl (by simp) (fun _ => hs)
      (fun e => by cases e)

lemma eraseFromStorage (h : c.Good) (hk : 0 < c.keys) : c.eraseFromStorage.Good := by
  by_cases hs : c.usage.storageState = .erased
  · simpa [Cell.eraseFromStorage, hs] using h
  · simp only [Cell.eraseFromStorage, ne_eq, hs, not_false_eq_true, if_true]
    exact h.record hk (fun _ => rfl) rfl (by simp) (fun e => by cases e) (fun _ => hs)

end Good

variable {c : Cell}

@[simp] lemma insertIntoStorage_keys : c.insertIntoStorage.keys = c.keys := by
  by_cases h : c.usage.storageState = .inserted <;> simp [insertIntoStorage, record, h]

@[simp] lemma insertIntoStorage_used : c.insertIntoStorage.used = c.used := by
  by_cases h : c.usage.storageState = .inserted <;> simp [insertIntoStorage, record, h]

@[simp] lemma insertIntoStorage_state : c.insertIntoStorage.usage.storageState = .inserted := by
  by_cases h : c.usage.storageState = .inserted <;> simp [insertIntoStorage, record, h]

@[simp] lemma eraseFromStorage_keys : c.eraseFromStorage.keys = c.keys := by
  by_cases h : c.usage.storageState = .erased <;> simp [eraseFromStorage, record, h]

@[simp] lemma eraseFromStorage_used : c.eraseFromStorage.used = c.used := by
  by_cases h : c.usage.storageState = .erased <;> simp [eraseFromStorage, record, h]

@[simp] lemma eraseFromStorage_state : c.eraseFromStorage.usage.storageState = .erased := by
  by_cases h : c.usage.storageState = .erased <;> simp [eraseFromStorage, record, h]

namespace Good

lemma processOffer (h : c.Good) (hk : 0 < c.keys) (hu : c.used = 0) (reply : UseReply) :
    (c.processOffer reply).Good := by
  cases reply with
  | useNever => exact h.setReply _
  | useNowAndInsert => exact (h.connect hk hu).insertIntoStorage (Nat.succ_pos _)
  | useLater => exact h.connect hk hu
  | useLaterAndNotify => exact (h.setReply _).connect hk hu
  | useLaterAndInsert => exact (h.setReply _).connect hk hu

lemma processAvailability (h : c.Good) (flags : DependenciesFlags) (isLocked : Bool)
    (reply : UseReply) : (c.processAvailability flags isLocked reply).Good := by
  have hins := h.insert flags
  have hk := insert_keys_pos c flags
  simp only [Cell.processAvailability]
  split_ifs with h₁ h₂ h₃
  · exact h
  · exact hins
  · exact hins.connect hk (by omega)
  · exact hins.processOffer hk (by omega) reply

lemma onUsedDestroy (h : c.Good) (hk : 0 < c.keys) : c.onUsedDestroy.Good := by
  have hu := h.used_le
  have hk' := h.keys_le
  refine ((h.eraseFromStorage hk).disconnect eraseFromStorage_state).erase ?_
  simp only [Cell.disconnect, eraseFromStorage_used]
  omega

lemma onUsedStarted (h : c.Good) (hu : 0 < c.used) (reply : UseReply) :
    (c.onUsedStarted reply).Good := by
  simp only [Cell.onUsedStarted]
  split
  · split_ifs
    · exact h.insertIntoStorage hu
    · exact h
  · exact h.insertIntoStorage hu
  · exact h

lemma onReleaseRequest (h : c.Good) (hk : 0 < c.keys) (reply : ReleaseReply) :
    (c.onReleaseRequest reply).Good := by
  simp only [Cell.onReleaseRequest]
  split_ifs
  · exact (h.eraseFromStorage hk).disconnect eraseFromStorage_state
  · exact h

lemma lockUsage (h : c.Good) (hu : 0 < c.used) (isRunning : Bool) :
    (c.lockUsage isRunning).Good := by
  simp only [Cell.lockUsage]
  split_ifs
  · exact h.insertIntoStorage hu
  · exact (h.setReply _).eraseFromStorage (h.keys_pos hu)

lemma unlockUsage (h : c.Good) (hk : 0 < c.keys) : c.unlockUsage.Good := by
  simp only [Cell.unlockUsage]
  split_ifs with hu
  · exact h.insertIntoStorage hu
  · have hu : (c.setReply .useLater).used = 0 := Nat.eq_zero_of_not_pos hu
    exact ((h.setReply .useLater).connect hk hu).insertIntoStorage (Nat.succ_pos _)

lemma doAcquireUsage (h : c.Good) (flags : DependenciesFlags) : (c.doAcquireUsage flags).Good := by
  have hins := h.insert flags
  have hk := insert_keys_pos c flags
  simp only [Cell.doAcquireUsage]
  split_ifs with hu
  · exact hins.record hk (fun hz => absurd hz hu.ne') rfl (by simp) (fun e => by cases e)
      (fun e => by cases e)
  · -- the declared state is only met once the usage is connected
    have hcon := hins.connect hk (Nat.eq_zero_of_not_pos hu)
    have hrec : ((c.insert flags).connect.record .unknown .acquired true).Good :=
      hcon.record hk (fun hz => absurd hz (Nat.succ_ne_zero _)) rfl (by simp)
        (fun e => by cases e) (fun e => by cases e)
    exact hrec

lemma doReleaseUsage (h : c.Good) : c.doReleaseUsage.Good := by
  simp only [Cell.doReleaseUsage]
  split_ifs with hk hu
  · exact (h.record hk (fun _ => rfl) rfl (by simp) (fun e => by cases e)
      (fun e => by cases e)).disconnect rfl
  · exact h.record hk (fun _ => rfl) rfl (by simp) (fun e => by cases e) (fun e => by cases e)
  · exact h

end Good

end Cell

/-! ### The part as a whole -/

/-- What the part keeps of any interface fits together. -/
def Good (d : DynDependencies ι) : Prop := ∀ i, (d.cell i).Good

section Good

variable {d d' : DynDependencies ι} {i : ι} {g : Cell → Cell}

lemma ActsOn.good (h : ActsOn d' d i g) (hd : d.Good) (hg : (g (d.cell i)).Good) : d'.Good := by
  intro j
  rw [h.2.2 j]
  split_ifs
  · exact hg
  · exact hd j

lemma Good.nodup_used (hd : d.Good) : d.used.Nodup :=
  List.nodup_iff_count_le_one.2 fun i => (hd i).used_le.trans (hd i).keys_le

lemma Good.nodup_keys (hd : d.Good) : d.keys.Nodup :=
  List.nodup_iff_count_le_one.2 fun i => (hd i).keys_le

/-- A loop over interfaces that treats each of them by itself. -/
lemma foldl_cell {f : DynDependencies ι → ι → DynDependencies ι} {g : ι → Cell → Cell}
    (hf : ∀ d i, ActsOn (f d i) d i (g i)) {l : List ι} (hl : l.Nodup) (d : DynDependencies ι) :
    (l.foldl f d).hooks = d.hooks ∧ (l.foldl f d).phase = d.phase ∧
      ∀ j, (l.foldl f d).cell j = if j ∈ l then g j (d.cell j) else d.cell j := by
  induction l generalizing d with
  | nil => simp
  | cons a l ih =>
    obtain ⟨ha, hl⟩ := List.nodup_cons.1 hl
    obtain ⟨h₁, h₂, h₃⟩ := hf d a
    obtain ⟨ih₁, ih₂, ih₃⟩ := ih hl (f d a)
    refine ⟨ih₁.trans h₁, ih₂.trans h₂, fun j => ?_⟩
    rw [List.foldl_cons, ih₃, h₃]
    by_cases hj : j = a
    · subst hj
      simp [ha]
    · simp [hj]

lemma Good.onPartInit (interfaces : List ι) (hooks : DependenciesHooks ι) :
    (onPartInit interfaces hooks).Good := by
  have hfold : ∀ (l : List ι) (d : DynDependencies ι), d.Good →
      (l.foldl (fun d inter => d.onSubscribedCreated inter) d).Good := by
    intro l
    induction l with
    | nil => exact fun d hd => hd
    | cons a l ih =>
      exact fun d hd => ih _ ((d.processAvailability_actsOn a).good hd
          ((hd a).processAvailability _ _ _))
  refine hfold interfaces _ fun i => ?_
  constructor <;> simp [cell, lastState, Alternating]

lemma onImportLock_cell (hd : d.Good) (isRunning : ι → Bool) (j : ι) :
    (d.onImportLock isRunning).cell j =
      if j ∈ d.used then (d.cell j).lockUsage (isRunning j) else d.cell j :=
  (foldl_cell (lockUsage_actsOn isRunning) hd.nodup_used d).2.2 j

lemma onImportUnlock_cell (hd : d.Good) (j : ι) :
    d.onImportUnlock.cell j = if j ∈ d.keys then (d.cell j).unlockUsage else d.cell j :=
  (foldl_cell (g := fun _ => Cell.unlockUsage) unlockUsage_actsOn hd.nodup_keys d).2.2 j

lemma Good.onImportLock (hd : d.Good) (isRunning : ι → Bool) : (d.onImportLock isRunning).Good := by
  intro j
  rw [onImportLock_cell hd]
  split_ifs with hj
  · exact (hd j).lockUsage (mem_used_iff.1 hj) _
  · exact hd j

lemma Good.onImportUnlock (hd : d.Good) : d.onImportUnlock.Good := by
  intro j
  rw [onImportUnlock_cell hd]
  split_ifs with hj
  · exact (hd j).unlockUsage (mem_keys_iff.1 hj)
  · exact hd j

lemma onUsedDestroy_used_eq (hd : (d.cell i).Good) : (d.cell i).onUsedDestroy.used = 0 := by
  have hu := hd.used_le
  have hk := hd.keys_le
  simp only [Cell.onUsedDestroy, Cell.erase, Cell.disconnect, Cell.eraseFromStorage_used]
  omega

lemma Good.onPartDestroy (hd : d.Good) : d.onPartDestroy.Good := by
  intro j
  have hcell := (foldl_cell (g := fun _ => Cell.onUsedDestroy) onUsedDestroy_actsOn
    hd.nodup_used d).2.2 j
  -- once a usage is in `used_` no more, its entry may go
  have hgood : ∀ {c : Cell}, c.Good → c.used = 0 → ({ c with keys := 0 } : Cell).Good := by
    intro c hc hu
    have hz : c.keys - 1 = 0 := by have := hc.keys_le; omega
    simpa [Cell.erase, hz] using hc.erase hu
  have hj : d.onPartDestroy.cell j =
      { (d.used.foldl (fun d inter => d.onUsedDestroy inter) d).cell j with keys := 0 } := rfl
  rw [hj, hcell]
  split_ifs with hu
  · exact hgood ((hd j).onUsedDestroy ((hd j).keys_pos (mem_used_iff.1 hu)))
      (onUsedDestroy_used_eq (hd j))
  · exact hgood (hd j) (by simpa [mem_used_iff] using hu)

end Good

end DynDependencies

end Idle
