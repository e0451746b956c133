import Idle.Service.Properties
import Idle.Service.Sources

/-!
# Published generations

`ReloablePropertiesGeneration` keeps references to the source it was published with and to a
previous one. The sources are shared: a reload publishes the source that later pushes write into,
a commit publishes a clone of it. Here the sources have names, so that it can be seen which of
them a push changes.
-/

namespace Idle

/-- What a `PropertiesSource` is used for, where `S` are the contents of the source and `V` the
objects that are written into it. -/
structure PropertiesSource (S V : Type) where
  create : S
  serialize : V → StringView → S → S

/-- A source of values without comments. -/
def Toml.propertiesSource (α : Type) : PropertiesSource (Toml α) (Reflected α) where
  create := .uninitialized
  serialize value key := modifyAt value.serialize (scope key)

/-- `TOMLPropertiesSource` -/
def BasicValue.propertiesSource : PropertiesSource (BasicValue TomlScalar) (Described TomlScalar)
    where
  create := .uninitialized []
  serialize value key source := advanceScopeMut value.serialize source key

/-- What is read from the file, if that succeeds. -/
def ConfigFile.contents {S : Type} (create : S) : ConfigFile S → Option S
  | .absent => some create
  | .unreadable => none
  | .malformed => none
  | .content source => some source

/-- A `TOMLPropertiesSource` on the heap. -/
abbrev SourceId := Nat

/-- `ReloablePropertiesGeneration` -/
structure Generation (S : Type) where
  data : SourceId
  previous : SourceId
  /-- History: what the source contained when it was published. -/
  published : S

/-- A running `ReloadablePropertiesImpl`, as `PropertiesState`, with the sources on the heap. -/
structure SharedProperties (S V : Type) where
  writeBack : Bool
  sources : SourceId → S
  /-- The next source that is created. -/
  next : SourceId
  current : SourceId
  previous : SourceId
  /-- The generations that were published, the latest first. -/
  generations : List (Generation S)
  changes : Nat
  ignoreNextFileChange : Bool
  debounces : Nat
  watching : Bool
  file : ConfigFile S
  unreported : List Writer
  batch : List (StringView × V)

namespace SharedProperties

variable {S V : Type} (K : PropertiesSource S V)

/-- `make_ref` -/
def create (s : SharedProperties S V) (source : S) : SourceId × SharedProperties S V :=
  (s.next, { s with sources := Function.update s.sources s.next source, next := s.next + 1 })

def createGeneration (s : SharedProperties S V) (current previous : SourceId) :
    SharedProperties S V :=
  { s with generations := ⟨current, previous, s.sources current⟩ :: s.generations }

def push (s : SharedProperties S V) (key : StringView) (value : V) : SharedProperties S V :=
  let s := { s with
    sources := Function.update s.sources s.current
      (K.serialize value key (s.sources s.current))
    batch := (key, value) :: s.batch }
  let s := if s.changes = 0 then { s with debounces := s.debounces + 1 } else s
  { s with changes := s.changes + 1 }

/-- The end of `readFromFile`, for the source that was read. -/
def load (s : SharedProperties S V) (source : S) : SharedProperties S V :=
  let (id, s) := s.create source
  let s := { s with previous := s.current, current := id }
  s.createGeneration s.current s.previous

def readFromFile (s : SharedProperties S V) : Option (SharedProperties S V) :=
  match s.file with
  | .absent => some (s.load K.create)
  | .unreadable => none
  | .malformed => none
  | .content source => some (s.load source)

def onFileChanged (s : SharedProperties S V) (n : Nat) : SharedProperties S V :=
  let s := { s with unreported := s.unreported.drop n }
  if s.ignoreNextFileChange then { s with ignoreNextFileChange := false }
  else
    match s.readFromFile K with
    | some s => s
    | none =>
      match s.file with
      | .malformed => { s with watching := false }
      | _ => s

def writeToFile (s : SharedProperties S V) (opens : Bool) : SharedProperties S V :=
  if opens then
    { s with file := .content (s.sources s.current), unreported := s.unreported ++ [.own] }
  else s

/-- `writeBack` -/
def doWriteBack (s : SharedProperties S V) (opens : Bool) : SharedProperties S V :=
  if s.writeBack then ({ s with ignoreNextFileChange := true }).writeToFile opens else s

def commit (s : SharedProperties S V) (opens : Bool) : SharedProperties S V :=
  let s := { s with debounces := s.debounces - 1, changes := 0, batch := [] }
  let s := s.doWriteBack opens
  let (persistent, s) := s.create (s.sources s.current)
  let s := s.createGeneration persistent s.previous
  { s with previous := persistent }

/-- Somebody else modifies the file. -/
def edit (s : SharedProperties S V) (file : ConfigFile S) : SharedProperties S V :=
  { s with file := file, unreported := s.unreported ++ [.external] }

/-- After `onStart` with a file that could be read: source 0 is the empty one. -/
def started (writeBack : Bool) (file : ConfigFile S) (source : S) : SharedProperties S V where
  writeBack := writeBack
  sources := Function.update (fun _ => K.create) 1 source
  next := 2
  current := 1
  previous := 0
  generations := [⟨1, 0, source⟩]
  changes := 0
  ignoreNextFileChange := false
  debounces := 0
  watching := true
  file := file
  unreported := []
  batch := []

/-- A commit needs a debounce, and a report somebody who waits for it. -/
def Pre (s : SharedProperties S V) : PropertiesOp S V → Prop
  | .push _ _ => True
  | .commit _ => 0 < s.debounces
  | .edit _ => True
  | .report n => s.watching = true ∧ n ≤ s.unreported.length

def exec (s : SharedProperties S V) : PropertiesOp S V → SharedProperties S V
  | .push key value => s.push K key value
  | .commit opens => s.commit opens
  | .edit file => s.edit file
  | .report n => s.onFileChanged K n

/-! ### The sources without their names -/

/-- The properties as `PropertiesState` has them. -/
def toState {α : Type} (s : SharedProperties (Toml α) (Reflected α)) : PropertiesState α where
  writeBack := s.writeBack
  current := s.sources s.current
  previous := s.sources s.previous
  epoch := (s.generations.head?.map Generation.published).getD .uninitialized
  generation := s.generations.length
  changes := s.changes
  ignoreNextFileChange := s.ignoreNextFileChange
  debounces := s.debounces
  watching := s.watching
  file := s.file
  unreported := s.unreported
  batch := s.batch

end SharedProperties

/-- The shared properties from a successful start on. -/
def sharedProperties {S V : Type} (K : PropertiesSource S V) :
    Machine (SharedProperties S V) (PropertiesOp S V) where
  init s := ∃ writeBack file source, file.contents K.create = some source ∧
    s = .started K writeBack file source
  pre := SharedProperties.Pre
  step := SharedProperties.exec K

namespace SharedProperties

variable {S V : Type} {K : PropertiesSource S V} {s : SharedProperties S V} {op : PropertiesOp S V}

/-- Every reference is one to a source that was created, and nothing but the data of a generation
may be the current source. -/
structure Owned (s : SharedProperties S V) : Prop where
  current_lt : s.current < s.next
  previous_lt : s.previous < s.next
  previous_ne : s.previous ≠ s.current
  data_lt : ∀ g ∈ s.generations, g.data < s.next
  kept_lt : ∀ g ∈ s.generations, g.previous < s.next
  kept_ne : ∀ g ∈ s.generations, g.previous ≠ s.current

lemma push_eq (K : PropertiesSource S V) (s : SharedProperties S V) (key : StringView) (value : V) :
    ∃ d b, s.push K key value = { s with
      sources := Function.update s.sources s.current
        (K.serialize value key (s.sources s.current))
      debounces := d, changes := s.changes + 1, batch := b } := by
  unfold push
  simp only
  split <;> exact ⟨_, _, rfl⟩

lemma onFileChanged_cases (K : PropertiesSource S V) (s : SharedProperties S V) (n : Nat) :
    (∃ i w u, s.onFileChanged K n =
      { s with ignoreNextFileChange := i, watching := w, unreported := u }) ∨
    ∃ u source, s.ignoreNextFileChange = false ∧ s.file.contents K.create = some source ∧
      s.onFileChanged K n = { s with unreported := u }.load source := by
  by_cases hi : s.ignoreNextFileChange = true
  · exact .inl ⟨false, s.watching, s.unreported.drop n, by simp [onFileChanged, hi]⟩
  · have hi : s.ignoreNextFileChange = false := by simpa using hi
    cases hf : s.file with
    | absent =>
      refine .inr ⟨s.unreported.drop n, K.create, hi, rfl, ?_⟩
      simp [onFileChanged, readFromFile, hi, hf]
    | unreadable =>
      refine .inl ⟨false, s.watching, s.unreported.drop n, ?_⟩
      simp [onFileChanged, readFromFile, hi, hf]
    | malformed =>
      refine .inl ⟨false, false, s.unreported.drop n, ?_⟩
      simp [onFileChanged, readFromFile, hi, hf]
    | content source =>
      refine .inr ⟨s.unreported.drop n, source, hi, rfl, ?_⟩
      simp [onFileChanged, readFromFile, hi, hf]

lemma commit_eq (s : SharedProperties S V) (opens : Bool) :
    ∃ i f u, s.commit opens = { s with
      sources := Function.update s.sources s.next (s.sources s.current)
      next := s.next + 1
      previous := s.next
      generations := ⟨s.next, s.previous, s.sources s.current⟩ :: s.generations
      changes := 0, ignoreNextFileChange := i, debounces := s.debounces - 1, file := f
      unreported := u, batch := [] } := by
  unfold commit doWriteBack writeToFile create createGeneration
  simp only
  split
  · split
    · exact ⟨true, .content (s.sources s.current), s.unreported ++ [.own], by simp⟩
    · exact ⟨true, s.file, s.unreported, by simp⟩
  · exact ⟨s.ignoreNextFileChange, s.file, s.unreported, by simp⟩

lemma load_eq (s : SharedProperties S V) (source : S) : s.load source = { s with
      sources := Function.update s.sources s.next source
      next := s.next + 1
      current := s.next
      previous := s.current
      generations := ⟨s.next, s.current, source⟩ :: s.generations } := by
  simp [load, create, createGeneration]

/-! ### References -/

lemma owned_started (K : PropertiesSource S V) (writeBack : Bool) (file : ConfigFile S)
    (source : S) :
    (started K writeBack file source).Owned := by
  refine ⟨Nat.one_lt_two, Nat.two_pos, Nat.zero_ne_one, ?_, ?_, ?_⟩
  all_goals
    intro g hg
    rw [List.mem_singleton.1 hg]
  · exact Nat.one_lt_two
  · exact Nat.two_pos
  · exact Nat.zero_ne_one

/-- Only the references matter. -/
lemma Owned.congr {s' : SharedProperties S V} (h : s.Owned) (hn : s'.next = s.next)
    (hc : s'.current = s.current) (hp : s'.previous = s.previous)
    (hg : s'.generations = s.generations) : s'.Owned := by
  refine ⟨?_, ?_, ?_, ?_, ?_, ?_⟩
  · rw [hc, hn]
    exact h.current_lt
  · rw [hp, hn]
    exact h.previous_lt
  · rw [hp, hc]
    exact h.previous_ne
  · rw [hg, hn]
    exact h.data_lt
  · rw [hg, hn]
    exact h.kept_lt
  · rw [hg, hc]
    exact h.kept_ne

lemma Owned.load {source : S} (h : s.Owned) : (s.load source).Owned := by
  rw [load_eq]
  refine ⟨Nat.lt_succ_self _, h.current_lt.trans (Nat.lt_succ_self _), h.current_lt.ne, ?_, ?_, ?_⟩
  all_goals
    intro g hg
    rcases List.mem_cons.1 hg with rfl | hg
  · exact Nat.lt_succ_self _
  · exact (h.data_lt g hg).trans (Nat.lt_succ_self _)
  · exact h.current_lt.trans (Nat.lt_succ_self _)
  · exact (h.kept_lt g hg).trans (Nat.lt_succ_self _)
  · exact h.current_lt.ne
  · exact (h.kept_lt g hg).ne

lemma Owned.commit {opens : Bool} (h : s.Owned) : (s.commit opens).Owned := by
  obtain ⟨i, f, u, heq⟩ := s.commit_eq opens
  rw [heq]
  refine ⟨h.current_lt.trans (Nat.lt_succ_self _), Nat.lt_succ_self _, h.current_lt.ne', ?_, ?_, ?_⟩
  all_goals
    intro g hg
    rcases List.mem_cons.1 hg with rfl | hg
  · exact Nat.lt_succ_self _
  · exact (h.data_lt g hg).trans (Nat.lt_succ_self _)
  · exact h.previous_lt.trans (Nat.lt_succ_self _)
  · exact (h.kept_lt g hg).trans (Nat.lt_succ_self _)
  · exact h.previous_ne
  · exact h.kept_ne g hg

theorem Owned.exec (h : s.Owned) : (s.exec K op).Owned := by
  cases op with
  | push key value =>
    obtain ⟨d, b, heq⟩ := s.push_eq K key value
    change (s.push K key value).Owned
    rw [heq]
    exact h.congr rfl rfl rfl rfl
  | commit opens => exact h.commit
  | edit file => exact h.congr rfl rfl rfl rfl
  | report n =>
    change (s.onFileChanged K n).Owned
    rcases s.onFileChanged_cases K n with ⟨i, w, u, heq⟩ | ⟨u, source, -, -, heq⟩
    · rw [heq]
      exact h.congr rfl rfl rfl rfl
    · rw [heq]
      exact Owned.load (h.congr rfl rfl rfl rfl)

/-! ### The properties without names behave in the same way -/

section Refinement

variable {α : Type}

lemma contents_eq_some_iff {file : ConfigFile (Toml α)} {source : Toml α} :
    file.contents .uninitialized = some source ↔ PropertiesState.Matches file source := by
  cases file <;> simp [ConfigFile.contents, PropertiesState.Matches, eq_comm]

theorem toState_exec {s : SharedProperties (Toml α) (Reflected α)} (h : s.Owned)
    (op : PropertiesOp (Toml α) (Reflected α)) :
    (s.exec (Toml.propertiesSource α) op).toState = op.exec s.toState := by
  cases op with
  | push key value =>
    simp only [exec, PropertiesOp.exec, push, PropertiesState.push, toState,
      Toml.propertiesSource]
    by_cases hc : s.changes = 0
    · simp [hc, h.previous_ne]
    · simp [hc, h.previous_ne]
  | commit opens =>
    have hcurrent : s.current ≠ s.next := h.current_lt.ne
    simp only [exec, PropertiesOp.exec, commit, PropertiesState.commit, toState, doWriteBack,
      PropertiesState.doWriteBack, writeToFile, PropertiesState.writeToFile, create,
      createGeneration, PropertiesState.createGeneration]
    by_cases hw : s.writeBack = true
    · by_cases ho : opens = true
      · simp [hw, ho, hcurrent]
      · simp [hw, ho, hcurrent]
    · simp [hw, hcurrent]
  | edit file => rfl
  | report n =>
    have hcurrent : s.current ≠ s.next := h.current_lt.ne
    simp only [exec, PropertiesOp.exec, onFileChanged, PropertiesState.onFileChanged, toState]
    by_cases hi : s.ignoreNextFileChange = true
    · simp [hi]
    · simp only [hi, readFromFile, PropertiesState.readFromFile, if_false, Bool.false_eq_true]
      cases s.file with
      | absent =>
        simp [load_eq, PropertiesState.createGeneration, hcurrent, Toml.propertiesSource]
      | unreadable => rfl
      | malformed => rfl
      | content source => simp [load_eq, PropertiesState.createGeneration, hcurrent]

end Refinement

end SharedProperties

open SharedProperties

lemma sharedProperties_owned {S V : Type} {K : PropertiesSource S V} {s : SharedProperties S V}
    {cond : SharedProperties S V → PropertiesOp S V → Prop}
    (h : (sharedProperties K).Reachable cond s) : s.Owned := by
  refine h.invariant ?_ fun _ _ _ hs _ _ => hs.exec
  rintro s ⟨writeBack, file, source, -, rfl⟩
  exact owned_started K writeBack file source

/-- Every run with shared sources is a run of the properties. -/
theorem sharedProperties_refines {α : Type} {s : SharedProperties (Toml α) (Reflected α)}
    {cond : SharedProperties (Toml α) (Reflected α) → PropertiesOp (Toml α) (Reflected α) → Prop}
    (h : (sharedProperties (Toml.propertiesSource α)).Reachable cond s) :
    (properties α).Reachable (fun _ _ => True) s.toState := by
  refine h.invariant (P := fun s => (properties α).Reachable (fun _ _ => True) s.toState) ?_ ?_
  · rintro s ⟨writeBack, file, source, hfile, rfl⟩
    refine .init ⟨writeBack, file, source, contents_eq_some_iff.1 hfile, ?_⟩
    simp [toState, started, PropertiesState.started, Toml.propertiesSource]
  · intro s op hr hs hpre _
    change (properties α).Reachable (fun _ _ => True) (s.exec _ op).toState
    rw [toState_exec (sharedProperties_owned hr)]
    refine hs.step ?_ trivial
    cases op <;> exact hpre

/-! ### Sources that show less -/

variable {S V S' V' : Type}

/-- The contents of the second source are what the first one shows of its own. -/
structure PropertiesSource.Shows (K : PropertiesSource S V) (K' : PropertiesSource S' V')
    (f : S → S') (g : V → V') : Prop where
  create : f K.create = K'.create
  serialize : ∀ v key source, f (K.serialize v key source) = K'.serialize (g v) key (f source)

lemma BasicValue.shows_forget : BasicValue.propertiesSource.Shows (Toml.propertiesSource TomlScalar)
    BasicValue.forget Described.forget where
  create := by simp [BasicValue.propertiesSource, Toml.propertiesSource, BasicValue.forget]
  serialize v _ source := forget_advanceScopeMut (Described.forget_serialize v) source _

def ConfigFile.map (f : S → S') : ConfigFile S → ConfigFile S'
  | .absent => .absent
  | .unreadable => .unreadable
  | .malformed => .malformed
  | .content source => .content (f source)

def PropertiesOp.map (f : S → S') (g : V → V') : PropertiesOp S V → PropertiesOp S' V'
  | .push key value => .push key (g value)
  | .commit opens => .commit opens
  | .edit file => .edit (file.map f)
  | .report n => .report n

def Generation.map (f : S → S') (g : Generation S) : Generation S' :=
  ⟨g.data, g.previous, f g.published⟩

namespace SharedProperties

def map (f : S → S') (g : V → V') (s : SharedProperties S V) : SharedProperties S' V' where
  writeBack := s.writeBack
  sources := f ∘ s.sources
  next := s.next
  current := s.current
  previous := s.previous
  generations := s.generations.map (Generation.map f)
  changes := s.changes
  ignoreNextFileChange := s.ignoreNextFileChange
  debounces := s.debounces
  watching := s.watching
  file := s.file.map f
  unreported := s.unreported
  batch := s.batch.map (Prod.map id g)

variable {K : PropertiesSource S V} {K' : PropertiesSource S' V'} {f : S → S'} {g : V → V'}
  {s : SharedProperties S V} {op : PropertiesOp S V}

theorem map_exec (h : K.Shows K' f g) :
    (s.exec K op).map f g = (s.map f g).exec K' (op.map f g) := by
  cases op with
  | push key value =>
    simp only [exec, PropertiesOp.map, push]
    by_cases hc : s.changes = 0
    · simp [map, hc, Function.comp_update, h.serialize]
    · simp [map, hc, Function.comp_update, h.serialize]
  | commit opens =>
    simp only [exec, PropertiesOp.map, commit, doWriteBack, writeToFile, create, createGeneration]
    by_cases hw : s.writeBack = true
    · by_cases ho : opens = true
      · simp [map, hw, ho, Function.comp_update, Generation.map, ConfigFile.map]
      · simp [map, hw, ho, Function.comp_update, Generation.map]
    · simp [map, hw, Function.comp_update, Generation.map]
  | edit file => rfl
  | report n =>
    simp only [exec, PropertiesOp.map, onFileChanged]
    by_cases hi : s.ignoreNextFileChange = true
    · simp [map, hi]
    · cases hf : s.file with
      | absent =>
        simp [readFromFile, hf, hi, load_eq, map, ConfigFile.map, Generation.map,
          Function.comp_update, h.create]
      | unreadable => simp [readFromFile, hf, hi, map, ConfigFile.map]
      | malformed => simp [readFromFile, hf, hi, map, ConfigFile.map]
      | content source =>
        simp [readFromFile, hf, hi, load_eq, map, ConfigFile.map, Generation.map,
          Function.comp_update]

end SharedProperties

/-- What a source shows of a run is a run as well. -/
theorem PropertiesSource.Shows.reachable {K : PropertiesSource S V} {K' : PropertiesSource S' V'}
    {f : S → S'} {g : V → V'} (h : K.Shows K' f g) {s : SharedProperties S V}
    {cond : SharedProperties S V → PropertiesOp S V → Prop}
    (hs : (sharedProperties K).Reachable cond s) :
    (sharedProperties K').Reachable (fun _ _ => True) (s.map f g) := by
  refine hs.invariant
    (P := fun s => (sharedProperties K').Reachable (fun _ _ => True) (s.map f g)) ?_ ?_
  · rintro s ⟨writeBack, file, source, hfile, rfl⟩
    refine .init ⟨writeBack, file.map f, f source, ?_, ?_⟩
    · cases file <;> simp_all [ConfigFile.contents, ConfigFile.map, ← h.create]
    · simp only [started, SharedProperties.map, Generation.map, Function.comp_update, ← h.create,
        List.map_cons, List.map_nil]
      rfl
  · intro s op _ ih hpre _
    change (sharedProperties K').Reachable (fun _ _ => True) ((s.exec K op).map f g)
    rw [map_exec h]
    refine ih.step ?_ trivial
    cases op <;> exact hpre

/-- Every run of the properties with shared, commented sources is one of the properties without
either. -/
theorem commentedProperties_refines
    {s : SharedProperties (BasicValue TomlScalar) (Described TomlScalar)}
    {cond : SharedProperties (BasicValue TomlScalar) (Described TomlScalar) →
      PropertiesOp (BasicValue TomlScalar) (Described TomlScalar) → Prop}
    (h : (sharedProperties BasicValue.propertiesSource).Reachable cond s) :
    (properties TomlScalar).Reachable (fun _ _ => True)
      (s.map BasicValue.forget Described.forget).toState :=
  sharedProperties_refines (BasicValue.shows_forget.reachable h)

/-! ### Generations do not change -/

/-- The properties with `TOMLPropertiesSource`s -/
abbrev TOMLProperties := SharedProperties (BasicValue TomlScalar) (Described TomlScalar)

abbrev TOMLPropertiesOp := PropertiesOp (BasicValue TomlScalar) (Described TomlScalar)

namespace SharedProperties

/-- `ReloablePropertiesGeneration::get`, the value that is deserialized. -/
def get (s : TOMLProperties) (g : Generation (BasicValue TomlScalar)) (key : StringView) :
    Option (BasicValue TomlScalar) :=
  (s.sources g.data).advanceScope key

/-- `ReloablePropertiesGeneration::changed` -/
def changed (E : TomlEquality) (s : TOMLProperties) (g : Generation (BasicValue TomlScalar))
    (key : StringView) : Bool :=
  !(s.sources g.data).equals E (s.sources g.previous) key

/-- The data of every generation is what was published, and a key has changed if the values there
are not the same in the generation and in the one before, as they were published. -/
structure Stable (E : TomlEquality) (s : TOMLProperties) : Prop where
  immutable : ∀ g ∈ s.generations, ∀ key, s.get g key = g.published.advanceScope key
  changed_iff : ∀ n g p, s.generations[n]? = some g → s.generations[n + 1]? = some p →
    ∀ key, s.changed E g key = true ↔ ¬ g.published.SameAt E.floating p.published key

variable {K : PropertiesSource S V} {s : SharedProperties S V} {op : PropertiesOp S V}

/-- A push writes what is there already, as the current source is always a published one; a commit
follows a commit or a reload that found nothing new, and a reload does not take a push away. -/
def Unaliased (K : PropertiesSource S V) (s : SharedProperties S V) : PropertiesOp S V → Prop
  | .push key value => K.serialize value key (s.sources s.current) = s.sources s.current
  | .commit _ => ∀ g ∈ s.generations.head?, s.sources s.previous = g.published
  | .report _ => s.ignoreNextFileChange = false →
      (s.file.contents K.create).isSome = true →
      ∀ g ∈ s.generations.head?, s.sources s.current = g.published
  | .edit _ => True

/-- The sources of the generations: each one has what was published, and refers to what was
published before it. -/
structure Published (s : SharedProperties S V) : Prop where
  data_eq : ∀ g ∈ s.generations, s.sources g.data = g.published
  previous_eq : ∀ n g p, s.generations[n]? = some g → s.generations[n + 1]? = some p →
    s.sources g.previous = p.published

lemma Published.stable {E : TomlEquality} (hE : E.Documented) {s : TOMLProperties}
    (h : s.Published) : s.Stable E := by
  refine ⟨fun g hg key => ?_, fun n g p hg hp key => ?_⟩
  · rw [get, h.data_eq g hg]
  · rw [changed, h.data_eq g (List.mem_of_getElem? hg), h.previous_eq n g p hg hp,
      ← BasicValue.equals_iff hE, Bool.not_eq_true, Bool.not_eq_true']

/-- The sources that generations refer to are as they were. -/
lemma Published.congr {s' : SharedProperties S V} (h : s.Published)
    (hg : s'.generations = s.generations)
    (hdata : ∀ g ∈ s.generations, s'.sources g.data = s.sources g.data)
    (hkept : ∀ g ∈ s.generations, s'.sources g.previous = s.sources g.previous) : s'.Published := by
  refine ⟨fun g hmem => ?_, fun n g p hn hp => ?_⟩
  · rw [hg] at hmem
    rw [hdata g hmem, h.data_eq g hmem]
  · rw [hg] at hn hp
    rw [hkept g (List.mem_of_getElem? hn), h.previous_eq n g p hn hp]

/-- A new generation is published, whose predecessor has what was published last. -/
lemma Published.publish {source : S} {kept : SourceId} (h : s.Published) (ho : s.Owned)
    (hkept : kept < s.next) (hlast : ∀ g ∈ s.generations.head?, s.sources kept = g.published)
    {s' : SharedProperties S V} (hs : s'.sources = Function.update s.sources s.next source)
    (hg : s'.generations = ⟨s.next, kept, source⟩ :: s.generations) : s'.Published := by
  refine ⟨fun g hmem => ?_, fun n g p hn hp => ?_⟩
  · rw [hg] at hmem
    rw [hs]
    rcases List.mem_cons.1 hmem with rfl | hmem
    · exact Function.update_self ..
    · rw [Function.update_of_ne (ho.data_lt g hmem).ne, h.data_eq g hmem]
  · rw [hg] at hn hp
    rw [hs]
    cases n with
    | zero =>
      obtain rfl : _ = g := Option.some.inj hn
      simp only [List.getElem?_cons_succ] at hp
      rw [Function.update_of_ne hkept.ne]
      exact hlast p (List.head?_eq_getElem? ▸ hp)
    | succ n =>
      simp only [List.getElem?_cons_succ] at hn hp
      rw [Function.update_of_ne (ho.kept_lt g (List.mem_of_getElem? hn)).ne]
      exact h.previous_eq n g p hn hp

theorem Published.exec (h : s.Published) (ho : s.Owned) (hop : s.Unaliased K op) :
    (s.exec K op).Published := by
  cases op with
  | push key value =>
    obtain ⟨d, b, heq⟩ := s.push_eq K key value
    change (s.push K key value).Published
    rw [heq]
    have hsame : K.serialize value key (s.sources s.current) = s.sources s.current := hop
    refine h.congr rfl (fun g _ => ?_) fun g _ => ?_
    · simp only [hsame, Function.update_eq_self]
    · simp only [hsame, Function.update_eq_self]
  | commit opens =>
    obtain ⟨i, f, u, heq⟩ := s.commit_eq opens
    change (s.commit opens).Published
    rw [heq]
    exact h.publish ho ho.previous_lt hop rfl rfl
  | edit file => exact h.congr rfl (fun _ _ => rfl) fun _ _ => rfl
  | report n =>
    change (s.onFileChanged K n).Published
    rcases s.onFileChanged_cases K n with ⟨i, w, u, heq⟩ | ⟨u, source, hi, hmatch, heq⟩
    · rw [heq]
      exact h.congr rfl (fun _ _ => rfl) fun _ _ => rfl
    · rw [heq, load_eq]
      exact h.publish ho ho.current_lt (hop hi (hmatch ▸ rfl)) rfl rfl

end SharedProperties

/-- In every run without writing into what was published, generations are stable. -/
theorem generations_stable {E : TomlEquality} (hE : E.Documented) {s : TOMLProperties}
    (h : (sharedProperties BasicValue.propertiesSource).Reachable
      (Unaliased BasicValue.propertiesSource) s) :
    s.Stable E := by
  have hpublished : s.Published := by
    refine h.invariant (P := Published) ?_
      fun _ _ hr hs _ hop => hs.exec (sharedProperties_owned hr) hop
    rintro s ⟨writeBack, file, source, -, rfl⟩
    refine ⟨fun g hg => ?_, fun n g p _ hp => ?_⟩
    · rw [List.mem_singleton.1 hg]
      simp [SharedProperties.started]
    · simp [SharedProperties.started] at hp
  exact hpublished.stable hE

/-- The empty file at the beginning, with shared sources. -/
def emptySharedConfig : TOMLProperties :=
  .started BasicValue.propertiesSource true (.content (.table [] [])) (.table [] [])

lemma reachable_emptySharedConfig {cond : TOMLProperties → TOMLPropertiesOp → Prop} :
    (sharedProperties BasicValue.propertiesSource).Reachable cond emptySharedConfig :=
  .init ⟨true, .content (.table [] []), .table [] [], rfl, rfl⟩

/-- The file is edited and touched, and a push has nothing to write. -/
def touchedRun : List TOMLPropertiesOp :=
  [.edit (.content (.table [] [(['a'], .value [] (.integer 1))])), .report 1,
    .edit (.content (.table [] [(['a'], .value [] (.integer 1))])), .report 1,
    .push [] (.object []),
    .commit true]

/-- A value is pushed right after the start. -/
def firstPushRun : List TOMLPropertiesOp := [.push ['a'] (.primitive (.integer 1))]

theorem generations_stable_touchedRun :
    (touchedRun.foldl (SharedProperties.exec BasicValue.propertiesSource)
        emptySharedConfig).generations.length = 4 ∧
      (touchedRun.foldl (SharedProperties.exec BasicValue.propertiesSource)
        emptySharedConfig).Stable .structural := by
  have h : (sharedProperties BasicValue.propertiesSource).Reachable
      (Unaliased BasicValue.propertiesSource)
      (touchedRun.foldl (SharedProperties.exec BasicValue.propertiesSource)
        emptySharedConfig) := by
    refine Machine.Reachable.run reachable_emptySharedConfig ?_
    refine ⟨trivial, trivial, ⟨rfl, le_rfl⟩, ?_, trivial, trivial, ⟨rfl, le_rfl⟩, ?_, trivial, ?_,
      Nat.one_pos, ?_, trivial⟩
    · intro _ _ g hg
      obtain rfl := Option.some.inj hg
      rfl
    · intro _ _ g hg
      obtain rfl := Option.some.inj hg
      rfl
    · have hscope : scope [] = [] := by decide
      simp [Unaliased, BasicValue.propertiesSource, BasicValue.advanceScopeMut_eq, hscope,
        Scopes.modifyAt, Described.serialize, Described.serializeFields]
    · intro g hg
      obtain rfl := Option.some.inj hg
      rfl
  exact ⟨rfl, generations_stable TomlEquality.structural_documented h⟩

/-- The push writes into the generation that was published by the start. -/
theorem firstPushRun_not_stable :
    (sharedProperties BasicValue.propertiesSource).Reachable (fun _ _ => True)
        (firstPushRun.foldl (SharedProperties.exec BasicValue.propertiesSource)
          emptySharedConfig) ∧
      ¬ (firstPushRun.foldl (SharedProperties.exec BasicValue.propertiesSource)
        emptySharedConfig).Stable .structural := by
  constructor
  · exact Machine.Reachable.run reachable_emptySharedConfig ⟨trivial, trivial, trivial⟩
  · intro h
    have hget := h.immutable ⟨1, 0, .table [] []⟩ (List.mem_singleton.2 rfl) ['a']
    have hscope : scope ['a'] = [['a']] := by decide
    have hnone : (BasicValue.table [] [] : BasicValue TomlScalar).advanceScope ['a'] = none := by
      rw [BasicValue.advanceScope_eq, hscope]
      rfl
    have hsome : ((firstPushRun.foldl (SharedProperties.exec BasicValue.propertiesSource)
        emptySharedConfig).sources 1).advanceScope ['a'] = some (.value [] (.integer 1)) := by
      change BasicValue.advanceScope (BasicValue.advanceScopeMut
        (Described.primitive (TomlScalar.integer 1)).serialize (.table [] []) ['a']) ['a'] = _
      rw [BasicValue.advanceScope_eq, BasicValue.advanceScopeMut_eq, hscope,
        Scopes.at?_modifyAt_self _ (List.cons_ne_nil _ _), Described.serialize]
      rfl
    exact absurd (hsome.symm.trans (hget.trans hnone)) (by simp)

end Idle
