import Idle.Service.Toml
import Idle.Library.Machine

/-!
# Reloadable properties

`ReloadablePropertiesImpl` keeps the properties of a config file in memory. Pushed values are
written back when a debounce expires; changes of the file are reported by a watcher and reload
everything, except that the next report after an own write is ignored.

The file and the reports that are still to come belong to the state. A report covers some of the
modifications that were not reported yet, from the oldest on.
-/

namespace Idle

/-- What reading the config file gives, where `S` are the contents of a source. -/
inductive ConfigFile (S : Type) where
  | absent
  /-- It exists but cannot be opened. -/
  | unreadable
  /-- Parsing it throws. -/
  | malformed
  | content (source : S)

/-- Who modified the file. -/
inductive Writer where
  | own
  | external
  deriving DecidableEq, Repr

/-- A running `ReloadablePropertiesImpl` with its file. -/
structure PropertiesState (α : Type) where
  /-- `config_.write_back` -/
  writeBack : Bool
  current : Toml α
  previous : Toml α
  /-- `epoch_`, the data of the published generation. -/
  epoch : Toml α
  generation : Nat
  changes : Nat
  ignoreNextFileChange : Bool
  /-- The debounces that will call `commit`. -/
  debounces : Nat
  /-- Whether `waitForFileChanges` is waiting for a report. -/
  watching : Bool
  file : ConfigFile (Toml α)
  /-- The modifications that were not reported yet, oldest first. -/
  unreported : List Writer
  /-- History: the values pushed since the last commit, latest first. -/
  batch : List (StringView × Reflected α)

namespace PropertiesState

variable {α : Type}

/-- `createGeneration`, which publishes its first argument. -/
def createGeneration (st : PropertiesState α) (data : Toml α) : PropertiesState α :=
  { st with epoch := data, generation := st.generation + 1 }

def push (st : PropertiesState α) (key : StringView) (value : Reflected α) : PropertiesState α :=
  let st := { st with
    current := st.current.modifyAt value.serialize (scope key)
    batch := (key, value) :: st.batch }
  let st := if st.changes = 0 then { st with debounces := st.debounces + 1 } else st
  { st with changes := st.changes + 1 }

/-- `readFromFile`: nothing when the file cannot be opened or parsed. -/
def readFromFile (st : PropertiesState α) : Option (PropertiesState α) :=
  let load (source : Toml α) :=
    ({ st with previous := st.current, current := source }).createGeneration source
  match st.file with
  | .absent => some (load .uninitialized)
  | .unreadable => none
  | .malformed => none
  | .content source => some (load source)

/-- `onFileChanged` for a report of the first `n` modifications. An exception of the parser leaves
the handler before it waits for the next report. -/
def onFileChanged (st : PropertiesState α) (n : Nat) : PropertiesState α :=
  let st := { st with unreported := st.unreported.drop n }
  if st.ignoreNextFileChange then { st with ignoreNextFileChange := false }
  else
    match st.readFromFile with
    | some st => st
    | none =>
      match st.file with
      | .malformed => { st with watching := false }
      | _ => st

/-- `writeToFile`, where `opens` tells whether the file can be opened for writing. -/
def writeToFile (st : PropertiesState α) (opens : Bool) : PropertiesState α :=
  if opens then { st with file := .content st.current, unreported := st.unreported ++ [.own] }
  else st

/-- `writeBack` -/
def doWriteBack (st : PropertiesState α) (opens : Bool) : PropertiesState α :=
  if st.writeBack then ({ st with ignoreNextFileChange := true }).writeToFile opens else st

def commit (st : PropertiesState α) (opens : Bool) : PropertiesState α :=
  let st := { st with debounces := st.debounces - 1, changes := 0, batch := [] }
  let st := st.doWriteBack opens
  let st := st.createGeneration st.current
  { st with previous := st.current }

/-- Somebody else modifies the file. -/
def edit (st : PropertiesState α) (file : ConfigFile (Toml α)) : PropertiesState α :=
  { st with file := file, unreported := st.unreported ++ [.external] }

/-- After `onStart` with a file that could be read. -/
def started (writeBack : Bool) (file : ConfigFile (Toml α)) (source : Toml α) :
    PropertiesState α where
  writeBack := writeBack
  current := source
  previous := .uninitialized
  epoch := source
  generation := 1
  changes := 0
  ignoreNextFileChange := false
  debounces := 0
  watching := true
  file := file
  unreported := []
  batch := []

/-- The file and a source have the same content; a missing file has none. -/
def Matches (file : ConfigFile (Toml α)) (source : Toml α) : Prop :=
  match file with
  | .absent => source = .uninitialized
  | .unreadable => False
  | .malformed => False
  | .content s => source = s

end PropertiesState

/-- What can happen to the properties, where `V` are the objects that are pushed. -/
inductive PropertiesOp (S V : Type) where
  | push (key : StringView) (value : V)
  /-- The debounce expires; `opens` tells whether the file can be opened for writing. -/
  | commit (opens : Bool)
  | edit (file : ConfigFile S)
  /-- The watcher reports the first `n` modifications that are not reported yet. -/
  | report (n : Nat)

namespace PropertiesOp

variable {α : Type}

/-- A commit needs a debounce, and a report somebody who waits for it. -/
def Pre (st : PropertiesState α) : PropertiesOp (Toml α) (Reflected α) → Prop
  | push _ _ => True
  | commit _ => 0 < st.debounces
  | edit _ => True
  | report n => st.watching = true ∧ n ≤ st.unreported.length

def exec (st : PropertiesState α) : PropertiesOp (Toml α) (Reflected α) → PropertiesState α
  | push key value => st.push key value
  | commit opens => st.commit opens
  | edit file => st.edit file
  | report n => st.onFileChanged n

end PropertiesOp

/-- The properties from a successful start on. -/
def properties (α : Type) : Machine (PropertiesState α) (PropertiesOp (Toml α) (Reflected α)) where
  init st := ∃ writeBack file source, PropertiesState.Matches file source ∧
    st = .started writeBack file source
  pre := PropertiesOp.Pre
  step := PropertiesOp.exec

namespace PropertiesState

variable {α : Type} {st : PropertiesState α} {op : PropertiesOp (Toml α) (Reflected α)}

/-! ### The properties follow the file -/

/-- Writing and reading succeed, and a report that is ignored does not hide an edit that was made
after the last own write. -/
def NothingHidden (st : PropertiesState α) : PropertiesOp (Toml α) (Reflected α) → Prop
  | .push _ _ => True
  | .commit opens => opens = true
  | .edit file => ∃ source, Matches file source
  | .report n => st.ignoreNextFileChange = true →
      n < st.unreported.length ∨ st.unreported.getLast? ≠ some .external

/-- The properties are those of the file, unless an edit after the last own write is going to be
reported. -/
structure Follows (st : PropertiesState α) : Prop where
  readable : ∃ source, Matches st.file source
  follows : st.writeBack = true → st.changes = 0 →
    Matches st.file st.current ∨ st.unreported.getLast? = some .external

lemma readFromFile_spec (h : ∃ source, Matches st.file source) :
    ∃ st', st.readFromFile = some st' ∧ Matches st'.file st'.current ∧
      st'.unreported = st.unreported := by
  obtain ⟨source, h⟩ := h
  unfold readFromFile
  cases hf : st.file with
  | absent => exact ⟨_, rfl, by simp [createGeneration, Matches], rfl⟩
  | unreadable => simp [hf, Matches] at h
  | malformed => simp [hf, Matches] at h
  | content s => exact ⟨_, rfl, by simp [createGeneration, Matches], rfl⟩

lemma Follows.commit (h : st.Follows) : (st.commit true).Follows := by
  by_cases hw : st.writeBack = true
  · refine ⟨⟨st.current, ?_⟩, fun _ _ => .inl ?_⟩
    · simp [PropertiesState.commit, doWriteBack, hw, writeToFile, createGeneration, Matches]
    · simp [PropertiesState.commit, doWriteBack, hw, writeToFile, createGeneration, Matches]
  · refine ⟨?_, fun hw' => ?_⟩
    · simpa [PropertiesState.commit, doWriteBack, hw, createGeneration] using h.readable
    · simp [PropertiesState.commit, doWriteBack, hw, createGeneration] at hw'

lemma Follows.report {n : Nat} (h : st.Follows)
    (hhidden : st.ignoreNextFileChange = true →
      n < st.unreported.length ∨ st.unreported.getLast? ≠ some .external) :
    (st.onFileChanged n).Follows := by
  unfold onFileChanged
  simp only
  split
  · rename_i hignore
    refine ⟨h.readable, fun hw hc => (h.follows hw hc).imp_right fun hlast => ?_⟩
    have hlt : n < st.unreported.length := (hhidden hignore).resolve_right (not_not.2 hlast)
    rw [← hlast]
    exact List.getLast?_drop.trans (if_neg (not_le.2 hlt))
  · obtain ⟨st', heq, hmatch, -⟩ :=
      readFromFile_spec (show ∃ source,
        Matches
          ({ st with unreported := st.unreported.drop n } : PropertiesState α).file source from
        h.readable)
    rw [heq]
    exact ⟨⟨_, hmatch⟩, fun _ _ => .inl hmatch⟩

theorem Follows.exec (h : st.Follows) (hop : st.NothingHidden op) :
    (op.exec st).Follows := by
  cases op with
  | push key value =>
    have hchanges : (st.push key value).changes ≠ 0 := Nat.succ_ne_zero _
    have hfile : (st.push key value).file = st.file := by
      unfold push
      simp only
      split <;> rfl
    refine ⟨?_, fun _ hc => absurd hc hchanges⟩
    change ∃ source, Matches (st.push key value).file source
    rw [hfile]
    exact h.readable
  | commit opens =>
    have hopens : opens = true := hop
    subst hopens
    exact h.commit
  | edit file => exact ⟨hop, fun _ _ => .inr (by simp [PropertiesOp.exec, edit])⟩
  | report n => exact h.report hop

end PropertiesState

open PropertiesState

namespace PropertiesState

variable {α : Type} {st : PropertiesState α} {op : PropertiesOp (Toml α) (Reflected α)}

/-- The value that was pushed last to a key since the last commit. -/
def lastPushed (st : PropertiesState α) (key : StringView) : Option (Reflected α) :=
  (st.batch.find? fun p => scope p.1 = scope key).map Prod.snd

/-- A source contains a value under a key. -/
def Contains (source : Toml α) (key : StringView) (value : Reflected α) : Prop :=
  ∃ t, source.at? (scope key) = some t ∧ value.HeldBy t

/-- The members of a pushed object have different names, and it has nothing to do with what was
pushed last to other keys since the last commit; nothing is reloaded while something is pushed and
not committed. -/
def NotReloaded (st : PropertiesState α) : PropertiesOp (Toml α) (Reflected α) → Prop
  | .push key value => value.WellFormed ∧ ∀ k v, st.lastPushed k = some v →
      scope k = scope key ∨ value.Beside (scope key) v (scope k)
  | .report _ => st.changes = 0 ∨ st.ignoreNextFileChange = true ∨
      ∀ source, ¬ Matches st.file source
  | _ => True

/-- What is pushed is contained in `current_`. -/
structure Pending (st : PropertiesState α) : Prop where
  debounces_eq : st.debounces = if st.changes = 0 then 0 else 1
  batch_eq_nil : st.batch = [] ↔ st.changes = 0
  contains : ∀ key value, st.lastPushed key = some value → Contains st.current key value

lemma commit_counters (st : PropertiesState α) (opens : Bool) :
    (st.commit opens).changes = 0 ∧ (st.commit opens).batch = [] ∧
      (st.commit opens).debounces = st.debounces - 1 := by
  unfold PropertiesState.commit doWriteBack writeToFile
  simp only
  split
  · split <;> exact ⟨rfl, rfl, rfl⟩
  · exact ⟨rfl, rfl, rfl⟩

lemma push_eq (st : PropertiesState α) (key : StringView) (value : Reflected α) :
    (st.push key value).current = st.current.modifyAt value.serialize (scope key) ∧
      (st.push key value).batch = (key, value) :: st.batch ∧
      (st.push key value).changes = st.changes + 1 ∧
      (st.push key value).debounces = if st.changes = 0 then st.debounces + 1
        else st.debounces := by
  unfold push
  simp only
  split
  · exact ⟨rfl, rfl, rfl, rfl⟩
  · exact ⟨rfl, rfl, rfl, rfl⟩

lemma Pending.push {key : StringView} {value : Reflected α} (h : st.Pending)
    (hvalue : value.WellFormed) (hkeys : ∀ k v, st.lastPushed k = some v →
      scope k = scope key ∨ value.Beside (scope key) v (scope k)) :
    (st.push key value).Pending := by
  obtain ⟨hcurrent, hbatch, hchanges, hdebounces⟩ := st.push_eq key value
  refine ⟨?_, ?_, ?_⟩
  · rw [hdebounces, hchanges, h.debounces_eq]
    split <;> simp
  · rw [hbatch, hchanges]
    simp
  · intro k v hlast
    unfold lastPushed at hlast
    rw [hbatch, List.find?_cons] at hlast
    unfold Contains
    rw [hcurrent]
    by_cases hk : scope key = scope k
    · -- the value that was pushed just now
      simp only [hk, decide_true, Option.map_some, Option.some.injEq] at hlast
      subst hlast
      rw [← hk]
      obtain ⟨t, ht⟩ := Toml.exists_at?_modifyAt value.serialize (scope key) st.current
      exact ⟨_, ht, value.heldBy_serialize hvalue t⟩
    · -- a value that was pushed before, beside it
      simp only [hk, decide_false] at hlast
      obtain ⟨t, ht, hheld⟩ := h.contains k v hlast
      exact ((hkeys k v hlast).resolve_left fun heq => hk heq.symm).heldBy ht hheld

lemma Pending.of_batch_eq_nil (hb : st.batch = []) (hc : st.changes = 0) (hd : st.debounces = 0) :
    st.Pending := by
  refine ⟨by rw [hd, if_pos hc], by simp [hb, hc], fun key value hlast => ?_⟩
  simp [lastPushed, hb] at hlast

lemma Pending.report {n : Nat} (h : st.Pending)
    (hreload : st.changes = 0 ∨ st.ignoreNextFileChange = true ∨
      ∀ source, ¬ Matches st.file source) : (st.onFileChanged n).Pending := by
  by_cases hignore : st.ignoreNextFileChange = true
  · unfold onFileChanged
    simp only [hignore, if_true]
    exact ⟨h.debounces_eq, h.batch_eq_nil, h.contains⟩
  · unfold onFileChanged
    simp only [hignore, if_false, Bool.false_eq_true]
    rcases hreload with hc | hi | hfile
    · have hb := h.batch_eq_nil.2 hc
      have hd : st.debounces = 0 := by rw [h.debounces_eq, if_pos hc]
      unfold readFromFile createGeneration
      simp only
      split
      · rename_i heq
        split at heq <;> cases heq <;> exact .of_batch_eq_nil hb hc hd
      · split <;> exact .of_batch_eq_nil hb hc hd
    · exact absurd hi hignore
    · unfold readFromFile
      simp only
      cases hf : st.file with
      | absent => exact absurd rfl (hf ▸ hfile .uninitialized)
      | unreadable => exact ⟨h.debounces_eq, h.batch_eq_nil, h.contains⟩
      | malformed => exact ⟨h.debounces_eq, h.batch_eq_nil, h.contains⟩
      | content s => exact absurd rfl (hf ▸ hfile s)

theorem Pending.exec (h : st.Pending) (hop : st.NotReloaded op) : (op.exec st).Pending := by
  cases op with
  | push key value => exact h.push hop.1 hop.2
  | commit opens =>
    obtain ⟨hc, hb, hd⟩ := st.commit_counters opens
    refine .of_batch_eq_nil hb hc (hd.trans ?_)
    rw [h.debounces_eq]
    split <;> rfl
  | edit file => exact ⟨h.debounces_eq, h.batch_eq_nil, h.contains⟩
  | report n => exact h.report hop

end PropertiesState

end Idle
