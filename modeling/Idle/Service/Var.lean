import Idle.Parts.Targets
import Idle.Service.Art
import Idle.Service.Generations

/-!
# Variables

A `Var` holds a value that it reads from the properties. It is a `DynDependency` on the generations
of the properties. Without a hook it only swaps to a generation with the same value: `canSwap`
compares the generations when the new one is published, and `onSwap` compares with the live value on
a later turn of the event loop.
-/

namespace Idle

/-! ### Comparing objects -/

namespace Reflected

variable {α : Type}

mutual

/-- An object without descriptions. -/
def described : Reflected α → Described α
  | primitive v => .primitive v
  | container xs => .container (describedElements xs)
  | object fs => .object (describedFields fs)

def describedElements : List (Reflected α) → List (Described α)
  | [] => []
  | x :: xs => x.described :: describedElements xs

def describedFields : List (StringView × Reflected α) →
    List (StringView × Option StringView × Described α)
  | [] => []
  | (n, x) :: fs => (n, none, x.described) :: describedFields fs

end

end Reflected

namespace Reflection

variable {T : Type} (E : TomlEquality) (r : Reflection T)

/-- What `art::equals` makes of an object. The descriptions are those of the type. -/
def toml (v : T) : BasicValue TomlScalar :=
  (Reflected.object (r.reflected v)).described.serialize (.uninitialized [])

/-- `art::equals` -/
def equals (left right : T) : Bool := E.value (r.toml left) (r.toml right)

variable {E r} {u v w : T}

lemma equals_symm (hE : E.Documented) (h : r.equals E v w = true) : r.equals E w v = true := by
  have hdistinct : ∀ x : T, (r.toml x).Distinct := fun x =>
    Described.distinct_serialize _ (BasicValue.distinct_uninitialized [])
  rw [equals, hE.value_iff] at h ⊢
  exact h.symm hE.compares (hdistinct v) (hdistinct w)

lemma equals_trans (hE : E.Documented) (h : r.equals E u v = true) (h' : r.equals E v w = true) :
    r.equals E u w = true := by
  rw [equals, hE.value_iff] at h h' ⊢
  exact h.trans hE.compares h'

end Reflection

/-! ### The variable -/

/-- The generation with the number `i`; the latest one is the first of the list. -/
def SharedProperties.dataOf {S V : Type} (K : PropertiesSource S V) (s : SharedProperties S V)
    (i : ℕ) : S :=
  match s.generations.reverse[i]? with
  | some g => s.sources g.data
  | none => K.create

/-- The properties of a `Var`. The comments do not matter for what is read. -/
abbrev VarSource : PropertiesSource (Toml TomlScalar) (Reflected TomlScalar) :=
  Toml.propertiesSource TomlScalar

abbrev VarProperties := SharedProperties (Toml TomlScalar) (Reflected TomlScalar)

/-- A `Var` without a hook: its key, its reflected type and what `createDefaultValue` gives. -/
structure Var (T : Type) where
  key : StringView
  reflection : Reflection T
  default : T

namespace Var

variable {T : Type} (x : Var T)

/-- `ReloablePropertiesGeneration::get` into `v` -/
def get (source : Toml TomlScalar) (v : T) : T :=
  match source.at? (scope x.key) with
  | some t => ((x.reflection.tomlDeserialize t v).map Prod.snd).getD v
  | none => v

/-- The value in the generation `i`. -/
def value (s : VarProperties) (i : ℕ) : T := x.get (s.dataOf VarSource i) x.default

/-- `save` into the properties. -/
def save (s : VarProperties) (v : T) : VarProperties :=
  s.push VarSource x.key (.object (x.reflection.reflected v))

end Var

/-- A `Var` with the properties and with the registry of their generations, of which it is the only
part. -/
structure VarState (T : Type) where
  properties : VarProperties
  system : System ℕ
  eventSpaceCurrent : T
  userSpaceCurrent : T
  /-- The values that `set` has posted to the event loop, with the epoch of their handle. -/
  posted : List (ℕ × T)
  /-- The hook that is not there has been called. -/
  hookMissing : Bool

/-- What can happen to a `Var`, to the properties and to their generations. -/
inductive VarOp (T : Type) where
  /-- The properties are committed, edited or reloaded, or somebody else pushes. -/
  | properties (op : PropertiesOp (Toml TomlScalar) (Reflected TomlScalar))
  | start (i : ℕ)
  | stop (i : ℕ)
  | destroy (i : ℕ)
  | own (op : OwnerOp)
  | release (exp : ℕ)
  /-- `set` on the event loop -/
  | set (replacement : T)
  /-- `set` on another thread -/
  | setRemote (replacement : T)
  /-- The event loop runs what `set` has posted. -/
  | runSet (k : ℕ)
  /-- The event loop runs a posted offer. -/
  | onSwap (k : ℕ)

namespace VarState

variable {T : Type}

/-- The `DynDependency` of the `Var`. -/
def part? (st : VarState T) : Option (DynDependency ℕ) := st.system.dynDependency[0]?

def isHandleValid (st : VarState T) (epoch : ℕ) : Bool := st.part?.any (·.isHandleValid epoch)

variable (E : TomlEquality) (x : Var T)

/-- `Var::canSwap` -/
def canSwap (st : VarState T) (src target : Option ℕ) : Bool :=
  match src, target with
  | some src, some target =>
    x.reflection.equals E (x.value st.properties src) (x.value st.properties target)
  | _, _ => false

/-- What happens in the registry, where `canSwap` answers as it does at present. -/
def calls (op : System.Op ℕ) (st : VarState T) : List (System.Op ℕ) :=
  [.dynDependency 0 (.setCanSwap (st.canSwap E x)), op]

def emit (op : System.Op ℕ) (st : VarState T) : VarState T :=
  { st with system := (st.calls E x op).foldl (System.machine .byNumber).step st.system }

/-- The end of `createGeneration`, if there is a new one: it gets the number `n`. -/
def publish (n : ℕ) (st : VarState T) : VarState T :=
  if n < st.properties.generations.length then st.emit E x (.create n) else st

/-- `Var::onImportLock` -/
def onImportLock (st : VarState T) : VarState T :=
  let st := st.emit E x (.dynDependency 0 (.own .lock))
  match st.part?.bind (·.userspace) with
  | some raw =>
    let v := x.get (st.properties.dataOf VarSource raw) st.eventSpaceCurrent
    { st with
      eventSpaceCurrent := v, userSpaceCurrent := v, properties := x.save st.properties v }
  | none => st

/-- `Var::onImportUnlock` -/
def onImportUnlock (st : VarState T) : VarState T :=
  let st := st.emit E x (.dynDependency 0 (.own .unlock))
  { st with eventSpaceCurrent := x.default, userSpaceCurrent := x.default }

/-- `Var::set` on the event loop -/
def set (replacement : T) (st : VarState T) : VarState T :=
  if x.reflection.equals E replacement st.userSpaceCurrent then st
  else
    { st with
      userSpaceCurrent := replacement
      eventSpaceCurrent := replacement
      properties := x.save st.properties replacement }

/-- `Var::set` on another thread -/
def setRemote (replacement : T) (st : VarState T) : VarState T :=
  if x.reflection.equals E replacement st.userSpaceCurrent then st
  else
    let epoch := (st.part?.map (·.epoch)).getD 0
    { st with
      userSpaceCurrent := replacement, posted := st.posted ++ [(epoch, replacement)] }

def runSet (k : ℕ) (st : VarState T) : VarState T :=
  match st.posted[k]? with
  | none => st
  | some (epoch, rep) =>
    let st := { st with posted := st.posted.eraseIdx k }
    if st.isHandleValid epoch then
      { st with properties := x.save st.properties rep, eventSpaceCurrent := rep }
    else st

/-- `Var::onSwap`. Without a hook nothing but the swap in-place is left to be done. -/
def onSwap (action : SwapAction ℕ) (st : VarState T) : VarState T :=
  let updated := (action.target.map (x.value st.properties)).getD x.default
  if x.reflection.equals E updated st.eventSpaceCurrent then
    -- The action is the last one that was handed out.
    let k := (st.part?.map fun d => d.actions.length - 1).getD 0
    st.emit E x (.dynDependency 0 (.apply k true))
  else { st with eventSpaceCurrent := updated, hookMissing := true }

/-- The event loop runs what `offerSwap` has posted. -/
def runOffer (k : ℕ) (st : VarState T) : VarState T :=
  match st.part?.bind (·.offers[k]?) with
  | none => st
  | some action =>
    let valid := st.isHandleValid action.epoch
    let st := st.emit E x (.dynDependency 0 (.onSwap k))
    if valid then st.onSwap E x action else st

def exec (st : VarState T) : VarOp T → VarState T
  | .properties op =>
    let n := st.properties.generations.length
    { st with properties := st.properties.exec VarSource op }.publish E x n
  | .start i => st.emit E x (.start i)
  | .stop i => st.emit E x (.stop i)
  | .destroy i => st.emit E x (.destroy i)
  | .own .lock => st.onImportLock E x
  | .own .unlock => st.onImportUnlock E x
  | .own op => st.emit E x (.dynDependency 0 (.own op))
  | .release exp => st.emit E x (.dynDependency 0 (.release exp))
  | .set replacement => st.set E x replacement
  | .setRemote replacement => st.setRemote E x replacement
  | .runSet k => st.runSet x k
  | .onSwap k => st.runOffer E x k

/-! ### Runs -/

/-- The callers of the registry keep what it relies on. -/
def Admits (st : VarState T) (op : System.Op ℕ) : Prop :=
  (System.machine .byNumber).Admissible (fun _ _ => True) st.system (st.calls E x op)

instance (st : VarState T) (op : System.Op ℕ) : Decidable (st.Admits E x op) :=
  inferInstanceAs (Decidable ((System.machine .byNumber).Admissible _ _ _))

def IsLocked (st : VarState T) : Prop := ∃ d ∈ st.part?, d.isLocked = true

instance (st : VarState T) : Decidable st.IsLocked :=
  inferInstanceAs (Decidable (∃ d ∈ st.part?, d.isLocked = true))

/-- A value is set while the owner is locked. -/
def Pre (st : VarState T) (op : VarOp T) : Prop :=
  st.hookMissing = false ∧ match op with
    | .properties op => st.properties.Pre op ∧
      let st' := { st with properties := st.properties.exec VarSource op }
      st.properties.generations.length < st'.properties.generations.length →
        st'.Admits E x (.create st.properties.generations.length)
    | .start i => st.Admits E x (.start i)
    | .stop i => st.Admits E x (.stop i)
    | .destroy i => st.Admits E x (.destroy i)
    | .own op => st.Admits E x (.dynDependency 0 (.own op))
    | .release exp => st.Admits E x (.dynDependency 0 (.release exp))
    | .set _ | .setRemote _ => st.IsLocked
    | .runSet k => k < st.posted.length
    | .onSwap k => st.Admits E x (.dynDependency 0 (.onSwap k))

/-- A new `Var`, right after the properties have been started. -/
def started (writeBack : Bool) (file : ConfigFile (Toml TomlScalar)) (source : Toml TomlScalar) :
    VarState T where
  properties := .started VarSource writeBack file source
  system := [.create 0, .addDynDependency fun _ _ => false].foldl (System.machine .byNumber).step
    .empty
  eventSpaceCurrent := x.default
  userSpaceCurrent := x.default
  posted := []
  hookMissing := false

end VarState

namespace SharedProperties

variable {S V : Type} {K : PropertiesSource S V} {s : SharedProperties S V} {i : ℕ}

/-- The generation `i` shows the source that is written into. -/
def IsLive (s : SharedProperties S V) (i : ℕ) : Prop :=
  ∃ g ∈ s.generations.reverse[i]?, g.data = s.current

instance : Decidable (s.IsLive i) :=
  inferInstanceAs (Decidable (∃ g ∈ s.generations.reverse[i]?, g.data = s.current))

variable (K) in
/-- The contents of the generation that is published. -/
def published? (s : SharedProperties S V) : PropertiesOp S V → Option S
  | .commit _ => some (s.sources s.current)
  | .report _ => if s.ignoreNextFileChange then none else s.file.contents K.create
  | _ => none

lemma dataOf_cons {g : Generation S} {gs : List (Generation S)} (hg : s.generations = g :: gs)
    (hi : i < gs.length) {s' : SharedProperties S V} (hgs : s'.generations = gs)
    (hs : ∀ g ∈ gs, s.sources g.data = s'.sources g.data) : s.dataOf K i = s'.dataOf K i := by
  have hlt : i < gs.reverse.length := by rwa [List.length_reverse]
  unfold dataOf
  rw [hg, hgs, List.reverse_cons, List.getElem?_append_left hlt]
  cases hgi : gs.reverse[i]? with
  | none => rfl
  | some g => exact hs g (List.mem_reverse.1 (List.mem_of_getElem? hgi))

/-- The generation that was published last. -/
lemma dataOf_length {g : Generation S} {gs : List (Generation S)}
    (hg : s.generations = g :: gs) : s.dataOf K gs.length = s.sources g.data := by
  unfold dataOf
  rw [hg, List.reverse_cons, ← List.length_reverse, List.getElem?_concat_length]

lemma dataOf_congr {s' : SharedProperties S V} (hg : s.generations = s'.generations)
    (hs : s.sources = s'.sources) : s.dataOf K i = s'.dataOf K i := by
  unfold dataOf
  rw [hg, hs]

/-- Only a push writes into what is there. -/
lemma dataOf_exec (h : s.Owned) (hi : i < s.generations.length) {op : PropertiesOp S V}
    (hop : ∀ key value, op ≠ .push key value) : (s.exec K op).dataOf K i = s.dataOf K i := by
  have hold : ∀ g ∈ s.generations, ∀ source,
      Function.update s.sources s.next source g.data = s.sources g.data :=
    fun g hg _ => Function.update_of_ne (h.data_lt g hg).ne ..
  cases op with
  | push key value => exact absurd rfl (hop key value)
  | commit opens =>
    obtain ⟨j, f, u, heq⟩ := s.commit_eq opens
    change (s.commit opens).dataOf K i = _
    rw [heq]
    exact dataOf_cons rfl hi rfl fun g hg => hold g hg _
  | edit file => exact dataOf_congr rfl rfl
  | report n =>
    change (s.onFileChanged K n).dataOf K i = _
    rcases s.onFileChanged_cases K n with ⟨j, w, u, heq⟩ | ⟨u, source, -, -, heq⟩
    · rw [heq]
      exact dataOf_congr rfl rfl
    · rw [heq, load_eq]
      exact dataOf_cons rfl hi rfl fun g hg => hold g hg _

lemma dataOf_push_of_not_isLive (hi : ¬ s.IsLive i) (key : StringView) (value : V) :
    (s.push K key value).dataOf K i = s.dataOf K i := by
  obtain ⟨d, b, heq⟩ := s.push_eq K key value
  rw [heq]
  unfold dataOf
  cases hgi : s.generations.reverse[i]? with
  | none => rfl
  | some g => exact Function.update_of_ne (fun hg => hi ⟨g, hgi, hg⟩) ..

lemma dataOf_push_of_isLive (hi : s.IsLive i) (key : StringView) (value : V) :
    (s.push K key value).dataOf K i = K.serialize value key (s.dataOf K i) := by
  obtain ⟨d, b, heq⟩ := s.push_eq K key value
  obtain ⟨g, hgi, hg⟩ := hi
  rw [heq]
  simp only [dataOf, Option.mem_def.1 hgi, hg]
  exact Function.update_self ..

/-- A step publishes one generation, if any. -/
lemma generations_exec (s : SharedProperties S V) (op : PropertiesOp S V) :
    (s.exec K op).generations.length = s.generations.length ∨
      (s.exec K op).generations.length = s.generations.length + 1 ∧
        (∀ key value, op ≠ .push key value) ∧ ∃ source ∈ s.published? K op,
          (s.exec K op).dataOf K s.generations.length = source := by
  cases op with
  | push key value =>
    obtain ⟨d, b, heq⟩ := s.push_eq K key value
    exact .inl (by rw [exec, heq])
  | commit opens =>
    obtain ⟨j, f, u, heq⟩ := s.commit_eq opens
    refine .inr ⟨?_, fun key value h => ?_, s.sources s.current, rfl, ?_⟩
    · rw [exec, heq]
      rfl
    · cases h
    · rw [exec, heq, dataOf_length rfl]
      exact Function.update_self ..
  | edit file => exact .inl rfl
  | report n =>
    rcases s.onFileChanged_cases K n with ⟨j, w, u, heq⟩ | ⟨u, source, hi, hsource, heq⟩
    · exact .inl (by rw [exec, heq])
    · refine .inr ⟨?_, fun key value h => ?_, source, ?_, ?_⟩
      · rw [exec, heq, load_eq]
        rfl
      · cases h
      · rw [published?, hi]
        exact hsource
      · rw [exec, heq, load_eq]
        exact (dataOf_length rfl).trans (Function.update_self ..)

end SharedProperties

namespace System

lemma interfaces_step {ι : Type*} [DecidableEq ι] {R : Ranking ι} (st : System ι) (op : Op ι)
    {i : ι} (hi : i ∈ (st.step R op).interfaces) : i ∈ st.interfaces ∨ op = .create i := by
  cases op with
  | create j =>
    rcases Ranking.mem_insertSorted.1 hi with rfl | hi
    · exact .inr rfl
    · exact .inl hi
  | destroy j => exact .inl (List.mem_of_mem_erase hi)
  | _ => exact .inl hi

end System

/-! ### Values that are kept -/

namespace Var

variable {T : Type} {x : Var T}

/-- What is written under another key is not read. -/
def LeavesAlone (x : Var T) (key : StringView) (value : Reflected TomlScalar) : Prop :=
  Toml.Apart (scope key) (scope x.key) ∨
    ∃ rest, scope x.key = scope key ++ rest ∧ value.Avoids rest

lemma get_serialize_of_leavesAlone {key : StringView} {value : Reflected TomlScalar}
    (h : x.LeavesAlone key value) (source : Toml TomlScalar) (v : T) :
    x.get (VarSource.serialize value key source) v = x.get source v := by
  have hat : (VarSource.serialize value key source).at? (scope x.key) =
      source.at? (scope x.key) := by
    rcases h with h | ⟨rest, hrest, h⟩
    · exact Toml.at?_modifyAt_of_apart h _ _
    · rw [hrest]
      exact h.at?_modifyAt source
  rw [get, hat, get]

/-- A plain value is read from where it was written. -/
lemma get_serialize {v : T} (hw : (ArtType.object x.reflection).WellNamed)
    (hv : x.reflection.Plain v) (source : Toml TomlScalar) (w : T) :
    x.get (VarSource.serialize (.object (x.reflection.reflected v)) x.key source) w = v := by
  obtain ⟨u, hu⟩ := Toml.exists_at?_modifyAt
    (Reflected.object (x.reflection.reflected v)).serialize (scope x.key) source
  have hu : (VarSource.serialize (.object (x.reflection.reflected v)) x.key source).at?
      (scope x.key) = some (x.reflection.tomlSerialize v u) := hu
  have hread := x.reflection.visit_of_heldBy v w hv (x.reflection.heldBy_tomlSerialize hw v u)
  rw [get, hu]
  simp only [Reflection.tomlDeserialize, hread]
  rfl

end Var

namespace VarState

variable {T : Type} {E : TomlEquality} {x : Var T} {st : VarState T}

/-- The preferred generation -/
def pref? (st : VarState T) : Option ℕ := st.part?.bind (·.pref.ptr)

lemma mem_pref?_iff {i : ℕ} : i ∈ st.pref? ↔ ∃ d ∈ st.part?, d.pref.ptr = some i :=
  Option.bind_eq_some_iff

/-- What may be assigned while a generation is preferred: a value without NaN. If the generation
shows the source that is written into, the value has to be one that is read back, and else the
generation has to have it already. -/
def MayAssign (E : TomlEquality) (x : Var T) (st : VarState T) (v : T) : Prop :=
  ∀ i ∈ st.pref?, x.reflection.equals E v v = true ∧
    (st.properties.IsLive i ∧ (ArtType.object x.reflection).WellNamed ∧ x.reflection.Plain v ∨
      ¬ st.properties.IsLive i ∧
        x.reflection.equals E (x.value st.properties i) v = true)

/-- A source that is published and that `canSwap` accepts has the value of the `Var`. While a
generation is preferred, others push beside the key if the generation is written as well, and only
what `MayAssign` allows is set. -/
def KeepsValue (E : TomlEquality) (x : Var T) (st : VarState T) : VarOp T → Prop
  | .properties op =>
    (∀ source ∈ st.properties.published? VarSource op, ∀ d ∈ st.part?, d.isLocked = true →
      d.pending = false → ∀ a ∈ d.active.ptr,
        x.reflection.equals E (x.value st.properties a) (x.get source x.default) = true →
          x.reflection.equals E (x.get source x.default) st.eventSpaceCurrent = true) ∧
    ∀ key value, op = .push key value → ∀ i ∈ st.pref?, st.properties.IsLive i →
      x.LeavesAlone key value
  | .set replacement =>
    x.reflection.equals E replacement st.userSpaceCurrent = false → st.MayAssign E x replacement
  | .runSet k => ∀ t ∈ st.posted[k]?, st.isHandleValid t.1 = true → st.MayAssign E x t.2
  | _ => True

/-- The preferred generation has the value of the `Var`. -/
structure Matching (E : TomlEquality) (x : Var T) (st : VarState T) : Prop where
  registry : (System.machine .byNumber).Reachable (fun _ _ => True) st.system
  owned : st.properties.Owned
  published : ∀ i ∈ st.system.interfaces, i < st.properties.generations.length
  preferred : ∀ i ∈ st.pref?,
    i < st.properties.generations.length ∧
      x.reflection.equals E (x.value st.properties i) st.eventSpaceCurrent = true
  hook : st.hookMissing = false

lemma registry_emit {op : System.Op ℕ} (hadm : st.Admits E x op)
    (h : (System.machine .byNumber).Reachable (fun _ _ => True) st.system) :
    (System.machine .byNumber).Reachable (fun _ _ => True) (st.emit E x op).system :=
  h.run hadm

lemma interfaces_emit {op : System.Op ℕ} {i : ℕ} (hi : i ∈ (st.emit E x op).system.interfaces) :
    i ∈ st.system.interfaces ∨ op = .create i :=
  (st.system.step .byNumber (.dynDependency 0 (.setCanSwap (st.canSwap E x)))).interfaces_step
    (R := .byNumber) op hi

/-- What can become preferred in the registry: what is preferred already, and what `canSwap` agrees
to. -/
lemma prefers_emit {op : System.Op ℕ} {i : ℕ} (hadm : st.Admits E x op)
    (h : (System.machine .byNumber).Reachable (fun _ _ => True) st.system)
    (hi : i ∈ (st.emit E x op).pref?) : i ∈ st.pref? ∨
    (op = .create i ∧ ∃ d ∈ st.part?, d.isLocked = true ∧ d.pending = false ∧
      st.canSwap E x d.active.ptr (some i) = true) ∨
    ∃ exp ∈ st.pref?, st.canSwap E x (some exp) (some i) = true ∧ i ∈ st.system.interfaces := by
  obtain ⟨d', hd', hp⟩ := mem_pref?_iff.1 hi
  obtain ⟨hpre, -, hpre', -⟩ := hadm
  have hr := h.step hpre trivial
  rcases System.pref_step hr hpre'.2 hd' with hnone | ⟨d₁, hd₁, hcases⟩
  · rw [hp] at hnone
    cases hnone
  -- The answers of `canSwap` are those of the present values.
  have hd₁ : (st.system.dynDependency.modify 0 fun d => { d with canSwap := st.canSwap E x })[0]? =
      some d₁ := hd₁
  rw [List.getElem?_modify] at hd₁
  obtain ⟨d, hd, rfl⟩ := Option.map_eq_some_iff.1 hd₁
  rw [hp] at hcases
  rcases hcases with hsame | ⟨j, rfl, hj, hrest⟩ | ⟨exp, hexp, hcan, hmem⟩
  · exact .inl (mem_pref?_iff.2 ⟨d, hd, hsame.symm⟩)
  · obtain rfl := Option.some.inj hj
    exact .inr (.inl ⟨rfl, d, hd, hrest⟩)
  · exact .inr (.inr ⟨exp, mem_pref?_iff.2 ⟨d, hd, hexp⟩, hcan, hmem i rfl⟩)

/-- What happens to the part on its own. -/
lemma part_emit {op : DynOp ℕ} (hadm : st.Admits E x (.dynDependency 0 op)) {d' : DynDependency ℕ}
    (hd' : (st.emit E x (.dynDependency 0 op)).part? = some d') :
    ∃ d ∈ st.part?,
      let st' := st.system.step .byNumber (.dynDependency 0 (.setCanSwap (st.canSwap E x)))
      let d₁ := { d with canSwap := st.canSwap E x }
      st'.DynPre d₁ op ∧ d' = st'.stepDyn op d₁ := by
  obtain ⟨-, -, ⟨-, d₁, hd₁, hdyn⟩, -⟩ := hadm
  have hd' : ((st.system.step .byNumber
      (.dynDependency 0 (.setCanSwap (st.canSwap E x)))).dynDependency.modify 0
      ((st.system.step .byNumber
        (.dynDependency 0 (.setCanSwap (st.canSwap E x)))).stepDyn op))[0]? = some d' := hd'
  have hsome : (st.system.step .byNumber
      (.dynDependency 0 (.setCanSwap (st.canSwap E x)))).dynDependency[0]? = some d₁ := hd₁
  rw [List.getElem?_modify, hsome] at hd'
  obtain rfl := Option.some.inj hd'
  have hd₁ : (st.system.dynDependency.modify 0 fun d => { d with canSwap := st.canSwap E x })[0]? =
      some d₁ := hd₁
  rw [List.getElem?_modify] at hd₁
  obtain ⟨d, hd, rfl⟩ := Option.map_eq_some_iff.1 hd₁
  exact ⟨d, hd, hdyn, rfl⟩

namespace Matching

/-- What happens in the registry without a new generation. -/
lemma emit {op : System.Op ℕ} (hE : E.Documented) (h : st.Matching E x) (hadm : st.Admits E x op)
    (hop : ∀ i, op ≠ .create i) : (st.emit E x op).Matching E x where
  registry := registry_emit hadm h.registry
  owned := h.owned
  published i hi := h.published i ((interfaces_emit hi).resolve_right (hop i))
  preferred i hi := by
    rcases prefers_emit hadm h.registry hi with hi | ⟨hn, -⟩ | ⟨exp, hexp, hcan, hmem⟩
    · exact h.preferred i hi
    · exact absurd hn (hop i)
    · refine ⟨h.published i hmem, ?_⟩
      have heq : x.reflection.equals E (x.value st.properties exp) (x.value st.properties i) =
          true := hcan
      exact Reflection.equals_trans hE (Reflection.equals_symm hE heq) (h.preferred exp hexp).2
  hook := h.hook

/-- Other values, and what goes with them. -/
lemma withValue (h : st.Matching E x) {properties : VarProperties} {v u : T}
    {posted : List (ℕ × T)} (howned : properties.Owned)
    (hlen : properties.generations.length = st.properties.generations.length)
    (hvalue : ∀ i ∈ st.pref?, x.reflection.equals E (x.value properties i) v = true) :
    Matching E x { st with
      properties, posted, eventSpaceCurrent := v, userSpaceCurrent := u } where
  registry := h.registry
  owned := howned
  published i hi := hlen.symm ▸ h.published i hi
  preferred i hi := ⟨hlen.symm ▸ (h.preferred i hi).1, hvalue i hi⟩
  hook := h.hook

/-- A value that is saved and assigned. -/
lemma assign (h : st.Matching E x) (v u : T) {posted : List (ℕ × T)}
    (hmay : st.MayAssign E x v) :
    Matching E x { st with
      properties := x.save st.properties v, posted, eventSpaceCurrent := v
      userSpaceCurrent := u } := by
  have hpush : (st.properties.exec VarSource
      (.push x.key (.object (x.reflection.reflected v)))).Owned := h.owned.exec
  have howned : (x.save st.properties v).Owned := hpush
  have hlen : (x.save st.properties v).generations.length = st.properties.generations.length := by
    obtain ⟨d, b, heq⟩ :=
      st.properties.push_eq VarSource x.key (.object (x.reflection.reflected v))
    rw [Var.save, heq]
  refine h.withValue howned hlen fun i hi => ?_
  obtain ⟨hself, ⟨hlive, hw, hv⟩ | ⟨hlive, hvalue⟩⟩ := hmay i hi
  · rw [Var.value, Var.save, SharedProperties.dataOf_push_of_isLive hlive, x.get_serialize hw hv]
    exact hself
  · rw [Var.value, Var.save, SharedProperties.dataOf_push_of_not_isLive hlive]
    exact hvalue

lemma set {v : T} (h : st.Matching E x) (hcond : KeepsValue E x st (.set v)) :
    (st.set E x v).Matching E x := by
  unfold VarState.set
  split
  · exact h
  · rename_i hne
    exact h.assign v v (hcond (by simpa using hne))

lemma setRemote {v : T} (h : st.Matching E x) : (st.setRemote E x v).Matching E x := by
  unfold VarState.setRemote
  split
  · exact h
  · exact h.withValue h.owned rfl fun i hi => (h.preferred i hi).2

lemma runSet {k : ℕ} (h : st.Matching E x) (hcond : KeepsValue E x st (.runSet k)) :
    (st.runSet x k).Matching E x := by
  unfold VarState.runSet
  split
  · exact h
  · rename_i epoch rep hk
    simp only
    split
    · rename_i hvalid
      exact h.assign rep _ (hcond (epoch, rep) hk hvalid)
    · exact h.withValue h.owned rfl fun i hi => (h.preferred i hi).2

/-- The active generation of a locked owner has been published. -/
lemma active_lt (h : st.Matching E x) {d : DynDependency ℕ} (hd : d ∈ st.part?)
    (hl : d.isLocked = true) {a : ℕ} (ha : a ∈ d.active.ptr) :
    a < st.properties.generations.length := by
  have hreg := System.Registered.of_reachable h.registry
  have hw := System.AllWired.of_reachable h.registry d (List.mem_of_getElem? hd)
  exact h.published a ((hreg.mem_iff a).2 (hreg.alive a (hw.active_running hl a ha)))

/-- A generation that was published may be preferred if its value is that of the `Var`. -/
lemma create {n : ℕ} (hE : E.Documented) (h : st.Matching E x) {properties : VarProperties}
    (hn : st.properties.generations.length = n) (howned : properties.Owned)
    (hlen : properties.generations.length = n + 1)
    (hkeep : ∀ i < n, x.value properties i = x.value st.properties i)
    (hadm : Admits E x { st with properties } (.create n))
    (hcond : ∀ d ∈ st.part?, d.isLocked = true → d.pending = false → ∀ a ∈ d.active.ptr,
      x.reflection.equals E (x.value st.properties a) (x.value properties n) = true →
        x.reflection.equals E (x.value properties n) st.eventSpaceCurrent = true) :
    (VarState.emit E x (.create n) { st with properties }).Matching E x where
  registry := registry_emit hadm h.registry
  owned := howned
  published i hi := by
    rcases interfaces_emit hi with hi | hi
    · have hlt := h.published i hi
      exact (hlt.trans_eq hn).trans_le (hlen ▸ Nat.le_succ n)
    · obtain rfl : n = i := System.Op.create.inj hi
      exact hlen ▸ Nat.lt_succ_self n
  preferred i hi := by
    have hold : ∀ j ∈ st.pref?, j < n ∧
        x.reflection.equals E (x.value properties j) st.eventSpaceCurrent = true := by
      intro j hj
      obtain ⟨hlt, hvalue⟩ := h.preferred j hj
      rw [hkeep j (hlt.trans_eq hn)]
      exact ⟨hlt.trans_eq hn, hvalue⟩
    have hlt : ∀ {j}, j < n → j < properties.generations.length := fun hj =>
      hlen ▸ Nat.lt_succ_of_lt hj
    rcases prefers_emit hadm h.registry hi with hi | ⟨hcreate, d, hd, hl, hpend, hcan⟩ |
      ⟨exp, hexp, hcan, hmem⟩
    · exact ⟨hlt (hold i hi).1, (hold i hi).2⟩
    · obtain rfl : n = i := System.Op.create.inj hcreate
      refine ⟨hlen ▸ Nat.lt_succ_self n, ?_⟩
      cases ha : d.active.ptr with
      | none =>
        rw [ha] at hcan
        exact absurd hcan Bool.false_ne_true
      | some a =>
        have halt : a < n := (h.active_lt hd hl ha).trans_eq hn
        rw [ha] at hcan
        have heq : x.reflection.equals E (x.value properties a) (x.value properties n) = true :=
          hcan
        rw [hkeep a halt] at heq
        exact hcond d hd hl hpend a ha heq
    · have heq : x.reflection.equals E (x.value properties exp) (x.value properties i) = true :=
        hcan
      exact ⟨hlt ((h.published i hmem).trans_eq hn),
        Reflection.equals_trans hE (Reflection.equals_symm hE heq) (hold exp hexp).2⟩
  hook := h.hook

/-- What others push leaves the value of the preferred generation alone. -/
lemma value_push {key : StringView} {value : Reflected TomlScalar} {i : ℕ}
    (halone : st.properties.IsLive i → x.LeavesAlone key value) :
    x.value (st.properties.push VarSource key value) i = x.value st.properties i := by
  by_cases hlive : st.properties.IsLive i
  · rw [Var.value, SharedProperties.dataOf_push_of_isLive hlive,
      Var.get_serialize_of_leavesAlone (halone hlive), Var.value]
  · rw [Var.value, SharedProperties.dataOf_push_of_not_isLive hlive, Var.value]

lemma properties {op : PropertiesOp (Toml TomlScalar) (Reflected TomlScalar)} (hE : E.Documented)
    (h : st.Matching E x) (hpre : VarState.Pre E x st (.properties op))
    (hcond : KeepsValue E x st (.properties op)) :
    (st.exec E x (.properties op)).Matching E x := by
  have howned : (st.properties.exec VarSource op).Owned := h.owned.exec
  simp only [VarState.exec, publish]
  rcases st.properties.generations_exec (K := VarSource) op with
    hlen | ⟨hlen, hpush, source, hsource, hdata⟩
  · rw [if_neg (by simp [hlen])]
    refine h.withValue howned hlen fun i hi => ?_
    obtain ⟨hlt, hvalue⟩ := h.preferred i hi
    by_cases hop : ∃ key value, op = .push key value
    · obtain ⟨key, value, rfl⟩ := hop
      rw [SharedProperties.exec, value_push (hcond.2 key value rfl i hi)]
      exact hvalue
    · rw [Var.value,
        SharedProperties.dataOf_exec h.owned hlt fun key value e => hop ⟨key, value, e⟩]
      exact hvalue
  · have hlt : st.properties.generations.length <
        (st.properties.exec VarSource op).generations.length := hlen ▸ Nat.lt_succ_self _
    rw [if_pos hlt]
    refine h.create hE rfl howned hlen (fun i hi => ?_) (hpre.2.2 hlt) ?_
    · rw [Var.value, SharedProperties.dataOf_exec h.owned hi hpush, Var.value]
    · have hvalue : x.value (st.properties.exec VarSource op) st.properties.generations.length =
          x.get source x.default := congrArg (x.get · x.default) hdata
      rw [hvalue]
      exact hcond.1 source hsource

/-- Nothing is preferred before and after the owner is locked. -/
lemma onImportLock (hE : E.Documented) (h : st.Matching E x)
    (hadm : st.Admits E x (.dynDependency 0 (.own .lock))) :
    (st.onImportLock E x).Matching E x := by
  have hlock := h.emit hE hadm fun _ hn => nomatch hn
  have hnone : ∀ i, i ∉ (st.emit E x (.dynDependency 0 (.own .lock))).pref? := by
    intro i hi
    obtain ⟨d', hd', hp⟩ := mem_pref?_iff.1 hi
    obtain ⟨d, hd, hpre, rfl⟩ := part_emit hadm hd'
    have hw := System.AllWired.of_reachable h.registry d (List.mem_of_getElem? hd)
    have hl : d.isLocked = false := by
      simp [DynDependency.isLocked, show d.phase = .stopped from hpre.1]
    have hp : d.pref.ptr = some i := hp
    rw [hw.pref_of_unlocked hl] at hp
    cases hp
  unfold VarState.onImportLock
  simp only
  split
  · exact hlock.assign _ _ fun i hi => absurd hi (hnone i)
  · exact hlock

lemma onImportUnlock (hE : E.Documented) (h : st.Matching E x)
    (hadm : st.Admits E x (.dynDependency 0 (.own .unlock))) :
    (st.onImportUnlock E x).Matching E x := by
  have hunlock := h.emit hE hadm fun _ hn => nomatch hn
  refine hunlock.withValue hunlock.owned rfl fun i hi => ?_
  obtain ⟨d', hd', hp⟩ := mem_pref?_iff.1 hi
  have hw := System.AllWired.of_reachable hunlock.registry d' (List.mem_of_getElem? hd')
  obtain ⟨d, -, -, rfl⟩ := part_emit hadm hd'
  rw [hw.pref_of_unlocked rfl] at hp
  cases hp

/-- A posted offer of the present epoch leads to a generation with the value of the `Var`. -/
lemma value_of_offer (h : st.Matching E x) {d : DynDependency ℕ} (hd : st.part? = some d) {k : ℕ}
    {a : SwapAction ℕ} (ha : d.offers[k]? = some a) (hvalid : d.isHandleValid a.epoch = true) :
    ∃ i, a.target = some i ∧
      x.reflection.equals E (x.value st.properties i) st.eventSpaceCurrent = true := by
  have hmem : d ∈ st.system.dynDependency := List.mem_of_getElem? hd
  have hw := System.AllWired.of_reachable h.registry d hmem
  have hepoch : a.epoch = d.epoch := DynDependency.Wired.epoch_eq_of_isHandleValid hvalid
  have haim := System.aimed_of_reachable h.registry d hmem a (List.mem_of_getElem? ha) hepoch
  have hpend : d.pending = true := by
    by_contra hn
    have hlive := hw.liveTasks_eq_zero (by simpa using hn)
    exact DynDependency.Wired.epoch_ne_of_liveTasks hlive (List.mem_of_getElem? ha) hepoch
  obtain ⟨i, hi⟩ := Option.isSome_iff_exists.1 (hw.pref_of_pending hpend)
  exact ⟨i, haim.trans hi, (h.preferred i (mem_pref?_iff.2 ⟨d, hd, hi⟩)).2⟩

lemma isUp_modify {st : System ℕ} {f : DynDependency ℕ → DynDependency ℕ} (h : st.IsUp)
    (hf : ∀ d, (f d).aborted = d.aborted) :
    System.IsUp { st with dynDependency := st.dynDependency.modify 0 f } := by
  intro d' hd'
  rcases System.mem_modify hd' with hd | ⟨d, hd, rfl⟩
  · exact h d' hd
  · exact (hf d).trans (h d (List.mem_of_getElem? hd))

/-- The action that was handed out can be applied. -/
lemma admits_apply {k : ℕ} (hadm : st.Admits E x (.dynDependency 0 (.onSwap k)))
    {d : DynDependency ℕ}
    (hd : st.part? = some d) {a : SwapAction ℕ} (ha : d.offers[k]? = some a)
    (hvalid : d.isHandleValid a.epoch = true) :
    let st₁ := st.emit E x (.dynDependency 0 (.onSwap k))
    st₁.Admits E x (.dynDependency 0
      (.apply ((st₁.part?.map fun d => d.actions.length - 1).getD 0) true)) := by
  intro st₁
  obtain ⟨-, -, ⟨hup, -⟩, -⟩ := hadm
  have hup₁ : st₁.system.IsUp := isUp_modify hup fun d => by
    simp only [System.stepDyn, DynDependency.onSwap]
    split
    · rfl
    · split_ifs <;> rfl
  have hpart : st₁.part? = some (DynDependency.onSwap k { d with canSwap := st.canSwap E x }) := by
    have hd : st.system.dynDependency[0]? = some d := hd
    simp [st₁, VarState.emit, calls, VarState.part?, System.machine, System.step, System.stepDyn,
      hd]
  have hactions : (DynDependency.onSwap k { d with canSwap := st.canSwap E x }).actions =
      d.actions ++ [a] := by
    simp only [DynDependency.onSwap, ha]
    refine (congrArg DynDependency.actions (if_pos ?_)).trans rfl
    exact hvalid
  have hlt : d.actions.length < (d.actions ++ [a]).length := by simp
  have hk : (st₁.part?.map fun d => d.actions.length - 1).getD 0 = d.actions.length := by
    simp [hpart, hactions]
  rw [hk]
  refine ⟨⟨hup₁, _, hpart, trivial⟩, trivial, ⟨isUp_modify hup₁ fun _ => rfl, ?_⟩, trivial, trivial⟩
  refine ⟨{ DynDependency.onSwap k { d with canSwap := st.canSwap E x } with
    canSwap := st₁.canSwap E x }, ?_, ?_⟩
  · have hpart : st₁.system.dynDependency[0]? = _ := hpart
    change (st₁.system.dynDependency.modify 0 fun d =>
      { d with canSwap := st₁.canSwap E x })[0]? = _
    rw [List.getElem?_modify, hpart]
    rfl
  · change d.actions.length <
      (DynDependency.onSwap k { d with canSwap := st.canSwap E x }).actions.length
    rw [hactions]
    exact hlt

lemma runOffer {k : ℕ} (hE : E.Documented) (h : st.Matching E x)
    (hadm : st.Admits E x (.dynDependency 0 (.onSwap k))) :
    (st.runOffer E x k).Matching E x ∧
      (st.runOffer E x k).eventSpaceCurrent = st.eventSpaceCurrent ∧
      (st.runOffer E x k).userSpaceCurrent = st.userSpaceCurrent := by
  have hswap := h.emit hE hadm fun _ hn => nomatch hn
  unfold VarState.runOffer
  split
  · exact ⟨h, rfl, rfl⟩
  · rename_i a ha
    obtain ⟨d, hd, ha⟩ := Option.bind_eq_some_iff.1 ha
    simp only
    split
    · rename_i hvalid
      have hvalid : d.isHandleValid a.epoch = true := by
        simpa [VarState.isHandleValid, hd] using hvalid
      obtain ⟨i, hi, hvalue⟩ := h.value_of_offer hd ha hvalid
      have happly : (st.emit E x (.dynDependency 0 (.onSwap k))).onSwap E x a =
          (st.emit E x (.dynDependency 0 (.onSwap k))).emit E x (.dynDependency 0 (.apply
            (((st.emit E x (.dynDependency 0 (.onSwap k))).part?.map
              fun d => d.actions.length - 1).getD 0) true)) := by
        refine if_pos ?_
        rw [hi]
        exact hvalue
      rw [happly]
      exact ⟨hswap.emit hE (admits_apply hadm hd ha hvalid) (fun _ hn => nomatch hn), rfl, rfl⟩
    · exact ⟨hswap, rfl, rfl⟩

theorem exec {op : VarOp T} (hE : E.Documented) (h : st.Matching E x)
    (hpre : VarState.Pre E x st op)
    (hcond : KeepsValue E x st op) : (st.exec E x op).Matching E x := by
  cases op with
  | properties op => exact h.properties hE hpre hcond
  | start i => exact h.emit hE hpre.2 fun _ hn => nomatch hn
  | stop i => exact h.emit hE hpre.2 fun _ hn => nomatch hn
  | destroy i => exact h.emit hE hpre.2 fun _ hn => nomatch hn
  | own op =>
    cases op with
    | lock => exact h.onImportLock hE hpre.2
    | unlock => exact h.onImportUnlock hE hpre.2
    | destroy => exact h.emit hE hpre.2 fun _ hn => nomatch hn
    | move p => exact h.emit hE hpre.2 fun _ hn => nomatch hn
  | release exp => exact h.emit hE hpre.2 fun _ hn => nomatch hn
  | set replacement => exact h.set hcond
  | setRemote replacement => exact h.setRemote
  | runSet k => exact h.runSet hcond
  | onSwap k => exact (h.runOffer hE hpre.2).1

lemma started {writeBack : Bool} {file : ConfigFile (Toml TomlScalar)}
    {source : Toml TomlScalar} :
    (VarState.started x writeBack file source).Matching E x where
  registry := .run (.init rfl) (by decide)
  owned := SharedProperties.owned_started _ _ _ _
  published i hi := by
    obtain rfl : i = 0 := List.mem_singleton.1 hi
    exact Nat.one_pos
  preferred i hi := by
    obtain ⟨d, hd, hp⟩ := mem_pref?_iff.1 hi
    obtain rfl := Option.some.inj hd
    cases hp
  hook := rfl

end Matching

end VarState

end Idle
