import Mathlib.Data.List.TakeWhile
import Idle.Service.FileWatcher

/-!
# Loading plugins

`PluginLoaderImpl` turns the changes of the artifact directory into changes of plugins. Its table
`plugins_` keeps a weak reference to the plugin of every path. The changes of a batch come in the
order of a hash map; the order in which the directory has changed is another one.

The directory is part of the state, with the plugins that were loaded for each of its files: a file
keeps them when it is renamed.
-/

namespace Idle

/-- `boost::filesystem::path::filename` -/
def Path.filename (path : Path) : Path := (path.splitOn '/').getLastD []

/-- A plugin: the path it was loaded for, and in which generation. A path is loaded at most once in
a generation. -/
structure Plugin where
  path : Path
  generation : Nat
  deriving DecidableEq, Repr

/-- `PluginLoader::PluginOperation` -/
inductive PluginOperation where
  | added (source : Plugin)
  | removed (source : Plugin)
  | modified (source target : Plugin)
  deriving DecidableEq, Repr

/-- The plugin that was there before. -/
def PluginOperation.old? : PluginOperation → Option Plugin
  | added _ => none
  | removed source => some source
  | modified source _ => some source

/-- The plugin that is there afterwards. -/
def PluginOperation.new? : PluginOperation → Option Plugin
  | added source => some source
  | removed _ => none
  | modified _ target => some target

/-- `PluginLoaderImpl` -/
structure PluginLoader where
  generation : Nat
  /-- `plugins_`, whose entries are weak. -/
  plugins : Path → Option Plugin
  /-- `PluginSourceImpl::sideload_ban_` -/
  sideloadBan : Path → Bool
  /-- The plugins that have lost their last reference. -/
  expired : Plugin → Bool
  /-- `plugin_changes`, each with the path it is about. -/
  pluginChanges : List (Path × PluginOperation)

namespace PluginLoader

/-- `updateSideloadBannList`, for one change. -/
def updateSideloadBan (ban : Path → Bool) : Path × FileOperation → Path → Bool
  | (path, .added) => Function.update ban path.filename true
  | (path, .removed) => Function.update ban path.filename false
  | (_, .modified) => ban
  | (path, .renamed old) =>
    Function.update (Function.update ban old.filename false) path.filename true

/-- `unordered_map::insert` does not replace. -/
def insert (plugins : Path → Option Plugin) (path : Path) (plugin : Plugin) :
    Path → Option Plugin :=
  if (plugins path).isSome then plugins else Function.update plugins path (some plugin)

/-- The library that was loaded for a path is notified as added. -/
def add (pl : PluginLoader) (path : Path) : PluginLoader :=
  let library : Plugin := ⟨path, pl.generation⟩
  { pl with
    plugins := insert pl.plugins path library
    pluginChanges := pl.pluginChanges ++ [(path, .added library)] }

/-- The library is a new version for the entry of a key, if the plugin there is still in use. -/
def reload (pl : PluginLoader) (key path : Path) : PluginLoader :=
  match pl.plugins key with
  | some plugin =>
    if pl.expired plugin then pl.add path
    else
      let library : Plugin := ⟨path, pl.generation⟩
      { pl with
        plugins := Function.update pl.plugins key (some library)
        pluginChanges := pl.pluginChanges ++ [(path, .modified plugin library)] }
  | none => pl.add path

def remove (pl : PluginLoader) (path : Path) : PluginLoader :=
  match pl.plugins path with
  | some plugin =>
    { pl with
      plugins := Function.update pl.plugins path none
      pluginChanges :=
        if pl.expired plugin then pl.pluginChanges
        else pl.pluginChanges ++ [(path, .removed plugin)] }
  | none => pl

/-- The visitor of `convert`, when the library of the change could be loaded. -/
def convertChange (pl : PluginLoader) : Path × FileOperation → PluginLoader
  | (path, .added) => pl.add path
  | (path, .removed) => pl.remove path
  | (path, .modified) => pl.reload path path
  | (path, .renamed old) => pl.reload old path

/-- Whether the visitor comes to its end. Every change but a removal calls `load` once, before it
touches anything, and `load` throws if it cannot load the library. -/
def Loads (loads : Path → Bool) : Path × FileOperation → Bool
  | (_, .removed) => true
  | (path, _) => loads path

/-- The loop of `convert`, and whether it got to its end. -/
def convertLoop (loads : Path → Bool) : PluginLoader → List (Path × FileOperation) →
    PluginLoader × Bool
  | pl, [] => (pl, true)
  | pl, c :: cs => if Loads loads c then convertLoop loads (pl.convertChange c) cs else (pl, false)

/-- The exception drops `plugin_changes`, which has the only references to the new libraries. -/
def abandon (pl : PluginLoader) : PluginLoader :=
  { pl with
    expired := fun plugin =>
      pl.expired plugin || pl.pluginChanges.any fun n => n.2.new? = some plugin
    pluginChanges := [] }

/-- `convert`; `loads` tells which libraries can be loaded. -/
def convert (loads : Path → Bool) (pl : PluginLoader) (changes : List (Path × FileOperation)) :
    PluginLoader :=
  let pl := { pl with
    generation := pl.generation + 1
    pluginChanges := []
    sideloadBan := changes.foldl updateSideloadBan pl.sideloadBan }
  let (pl, finished) := convertLoop loads pl changes
  if finished then pl else pl.abandon

/-- The changes that are converted. -/
def converted (loads : Path → Bool) (changes : List (Path × FileOperation)) :
    List (Path × FileOperation) :=
  changes.takeWhile (Loads loads)

/-- The paths for which a load succeeds. -/
def succeeded (loads : Path → Bool) (changes : List (Path × FileOperation)) (path : Path) : Bool :=
  loads path && decide (path ∈ (converted loads changes).map Prod.fst)

end PluginLoader

/-- The artifact directory. -/
structure ArtifactDirectory where
  present : Path → Bool
  /-- History: the plugins that were loaded for a file since it appeared, the latest first. -/
  loaded : Path → List Plugin
  /-- History: those that were loaded before the last change of a path. -/
  earlier : Path → List Plugin

namespace ArtifactDirectory

/-- What a change takes for given. -/
def Possible (d : ArtifactDirectory) : Path × FileOperation → Prop
  | (path, .added) => d.present path = false
  | (path, .removed) => d.present path = true
  | (path, .modified) => d.present path = true
  | (path, .renamed old) => d.present old = true ∧ old ≠ path

/-- The directory changes; `loads` tells for which paths a library is loaded. -/
def evolve (loads : Path → Bool) (generation : Nat) (d : ArtifactDirectory) :
    Path × FileOperation → ArtifactDirectory
  | (path, .added) =>
    { present := Function.update d.present path true
      loaded := Function.update d.loaded path (if loads path then [⟨path, generation⟩] else [])
      earlier := Function.update d.earlier path [] }
  | (path, .removed) =>
    { present := Function.update d.present path false
      loaded := Function.update d.loaded path []
      earlier := Function.update d.earlier path (d.loaded path) }
  | (path, .modified) =>
    { d with
      loaded := Function.update d.loaded path
        (if loads path then ⟨path, generation⟩ :: d.loaded path else d.loaded path)
      earlier := Function.update d.earlier path (d.loaded path) }
  | (path, .renamed old) =>
    { present := Function.update (Function.update d.present old false) path true
      loaded := Function.update (Function.update d.loaded old []) path
        (if loads path then ⟨path, generation⟩ :: d.loaded old else d.loaded old)
      earlier := Function.update d.earlier path (d.loaded old) }

/-- The changes happened in this order. -/
def Evolves (loads : Path → Bool) (generation : Nat) (d : ArtifactDirectory) :
    List (Path × FileOperation) → Prop
  | [] => True
  | c :: cs => d.Possible c ∧ (d.evolve loads generation c).Evolves loads generation cs

end ArtifactDirectory

/-- A notification with the plugins that were loaded for the file before. -/
structure Emission where
  operation : PluginOperation
  earlier : List Plugin
  /-- Those that were alive. -/
  living : List Plugin
  deriving DecidableEq, Repr

/-- The loader and its directory. -/
structure PluginSystem where
  loader : PluginLoader
  directory : ArtifactDirectory
  emitted : List Emission

inductive PluginOp where
  /-- A batch of changes, with the order in which they happened and the libraries that can be
  loaded. -/
  | convert (changes evolution : List (Path × FileOperation)) (loads : Path → Bool)
  /-- A plugin loses its last reference. -/
  | release (plugin : Plugin)

namespace PluginSystem

def initial : PluginSystem where
  loader := ⟨0, fun _ => none, fun _ => false, fun _ => false, []⟩
  directory := ⟨fun _ => false, fun _ => [], fun _ => []⟩
  emitted := []

/-- A notification, when it is made. -/
def emission (expired : Plugin → Bool) (d : ArtifactDirectory) (c : Path × PluginOperation) :
    Emission :=
  ⟨c.2, d.earlier c.1, (d.earlier c.1).filter fun plugin => !expired plugin⟩

def convert (s : PluginSystem) (changes evolution : List (Path × FileOperation))
    (loads : Path → Bool) : PluginSystem :=
  let loader := s.loader.convert loads changes
  let directory := evolution.foldl (ArtifactDirectory.evolve
    (PluginLoader.succeeded loads changes) loader.generation) s.directory
  { loader := loader
    directory := directory
    emitted := loader.pluginChanges.map (emission loader.expired directory) ++ s.emitted }

def release (s : PluginSystem) (plugin : Plugin) : PluginSystem :=
  { s with loader := { s.loader with expired := Function.update s.loader.expired plugin true } }

end PluginSystem

namespace PluginOp

/-- A batch has one change for every path, and the directory has changed accordingly. -/
def Pre (s : PluginSystem) : PluginOp → Prop
  | convert changes evolution loads => changes.Perm evolution ∧ (changes.map Prod.fst).Nodup ∧
      s.directory.Evolves (PluginLoader.succeeded loads changes) (s.loader.generation + 1) evolution
  | release plugin => plugin.generation ≤ s.loader.generation

def exec (s : PluginSystem) : PluginOp → PluginSystem
  | convert changes evolution loads => s.convert changes evolution loads
  | release plugin => s.release plugin

end PluginOp

/-- The plugin loader from its start on, with an empty directory. -/
def pluginLoader : Machine PluginSystem PluginOp where
  init s := s = .initial
  pre := PluginOp.Pre
  step := PluginOp.exec

namespace PluginSystem

/-- The table and the banned names are those of the directory, and notifications name the plugin
that is replaced. -/
structure Tracks (s : PluginSystem) : Prop where
  entries : ∀ path plugin, s.loader.plugins path = some plugin ↔
    s.directory.present path = true ∧ (s.directory.loaded path).head? = some plugin
  added : ∀ e ∈ s.emitted, ∀ plugin, e.operation = .added plugin → e.living = []
  replaced : ∀ e ∈ s.emitted, ∀ plugin, e.operation.old? = some plugin →
    e.earlier.head? = some plugin ∧ plugin ∈ e.living
  banned : ∀ name, s.loader.sideloadBan name = true ↔
    ∃ path, s.directory.present path = true ∧ Path.filename path = name

end PluginSystem

/-! ### Changes that have nothing to do with each other -/

/-- The paths that a change is about. -/
def touched : Path × FileOperation → List Path
  | (path, .renamed old) => [path, old]
  | (path, .added) | (path, .removed) | (path, .modified) => [path]

lemma fst_mem_touched (c : Path × FileOperation) : c.1 ∈ touched c := by
  obtain ⟨path, op⟩ := c
  cases op <;> simp [touched]

namespace ArtifactDirectory

variable {d d' : ArtifactDirectory} {c x y : Path × FileOperation} {q : Path}

/-- What is known of a path. -/
def view (d : ArtifactDirectory) (q : Path) : Bool × List Plugin × List Plugin :=
  (d.present q, d.loaded q, d.earlier q)

lemma ext_view (h : ∀ q, d.view q = d'.view q) : d = d' := by
  obtain ⟨present, loaded, earlier⟩ := d
  obtain ⟨present', loaded', earlier'⟩ := d'
  simp only [view, Prod.mk.injEq] at h
  obtain rfl : present = present' := funext fun q => (h q).1
  obtain rfl : loaded = loaded' := funext fun q => (h q).2.1
  obtain rfl : earlier = earlier' := funext fun q => (h q).2.2
  rfl

lemma present_eq_of_view (h : d.view q = d'.view q) : d.present q = d'.present q :=
  congrArg Prod.fst h

lemma loaded_eq_of_view (h : d.view q = d'.view q) : d.loaded q = d'.loaded q :=
  congrArg (fun v => v.2.1) h

variable (loads : Path → Bool) (generation : Nat)

lemma view_evolve_of_not_mem (d : ArtifactDirectory) (hq : q ∉ touched c) :
    (d.evolve loads generation c).view q = d.view q := by
  obtain ⟨path, op⟩ := c
  cases op with
  | renamed old =>
    simp only [touched, List.mem_cons, List.not_mem_nil, or_false, not_or] at hq
    simp [view, evolve, hq.1, hq.2]
  | added | removed | modified =>
    simp only [touched, List.mem_singleton] at hq
    simp [view, evolve, hq]

lemma earlier_evolve_of_ne (d : ArtifactDirectory) (hq : q ≠ c.1) :
    (d.evolve loads generation c).earlier q = d.earlier q := by
  obtain ⟨path, op⟩ := c
  cases op <;> exact Function.update_of_ne hq _ _

/-- A change depends on the paths that it is about. -/
lemma view_evolve_congr (h : ∀ q ∈ touched c, d.view q = d'.view q) (hq : q ∈ touched c) :
    (d.evolve loads generation c).view q = (d'.evolve loads generation c).view q := by
  have hview := h q hq
  simp only [view, Prod.mk.injEq] at hview
  obtain ⟨path, op⟩ := c
  cases op with
  | renamed old =>
    have hold : old ∈ touched (path, .renamed old) := by simp [touched]
    simp only [view, evolve, loaded_eq_of_view (h old hold), Function.update_apply, hview]
  | added | removed | modified =>
    simp only [view, evolve, loaded_eq_of_view (h path (fst_mem_touched (path, _))),
      Function.update_apply, hview]

lemma possible_congr (h : ∀ q ∈ touched c, d.view q = d'.view q) :
    d.Possible c ↔ d'.Possible c := by
  obtain ⟨path, op⟩ := c
  cases op with
  | renamed old =>
    have hold : old ∈ touched (path, .renamed old) := by simp [touched]
    simp only [Possible, present_eq_of_view (h old hold)]
  | added | removed | modified =>
    simp only [Possible, present_eq_of_view (h path (fst_mem_touched (path, _)))]

lemma evolve_comm (d : ArtifactDirectory) (hxy : (touched x).Disjoint (touched y)) :
    (d.evolve loads generation x).evolve loads generation y =
      (d.evolve loads generation y).evolve loads generation x := by
  have hx : ∀ q ∈ touched x, d.view q = (d.evolve loads generation y).view q :=
    fun q hq => (view_evolve_of_not_mem loads generation d fun hqy => hxy hq hqy).symm
  have hy : ∀ q ∈ touched y, (d.evolve loads generation x).view q = d.view q :=
    fun q hq => view_evolve_of_not_mem loads generation d fun hqx => hxy hqx hq
  refine ext_view fun q => ?_
  by_cases hqx : q ∈ touched x
  · rw [view_evolve_of_not_mem loads generation _ (fun hqy => hxy hqx hqy)]
    exact view_evolve_congr loads generation hx hqx
  · rw [view_evolve_of_not_mem loads generation (d.evolve loads generation y) hqx]
    by_cases hqy : q ∈ touched y
    · exact view_evolve_congr loads generation hy hqy
    · rw [view_evolve_of_not_mem loads generation _ hqy,
        view_evolve_of_not_mem loads generation _ hqx,
        view_evolve_of_not_mem loads generation _ hqy]

lemma view_foldl_evolve_of_not_mem {cs : List (Path × FileOperation)}
    (hq : ∀ x ∈ cs, q ∉ touched x) (d : ArtifactDirectory) :
    (cs.foldl (evolve loads generation) d).view q = d.view q := by
  induction cs generalizing d with
  | nil => rfl
  | cons c cs ih =>
    rw [List.foldl_cons, ih (fun x hx => hq x (List.mem_cons_of_mem _ hx))]
    exact view_evolve_of_not_mem loads generation d (hq c List.mem_cons_self)

/-- The order of a batch does not matter for the directory if its changes are about different
paths. -/
lemma foldl_evolve_perm {cs cs' : List (Path × FileOperation)} (hp : cs.Perm cs')
    (hcs : (cs.flatMap touched).Nodup) (d : ArtifactDirectory) :
    cs.foldl (evolve loads generation) d = cs'.foldl (evolve loads generation) d := by
  have hpairwise := (List.nodup_flatMap.1 hcs).2
  have : Std.Symm (Function.onFun List.Disjoint touched) := ⟨fun _ _ h => List.Disjoint.symm h⟩
  refine hp.foldl_eq' (fun x hx y hy z => ?_) d
  by_cases hxy : x = y
  · rw [hxy]
  · exact evolve_comm loads generation z (hpairwise.forall hx hy hxy)

/-- What is possible in the middle of a batch is possible before it. -/
lemma Evolves.possible {cs : List (Path × FileOperation)} (h : d.Evolves loads generation cs)
    (hcs : (cs.flatMap touched).Nodup) : ∀ c ∈ cs, d.Possible c := by
  induction cs generalizing d with
  | nil => exact fun c hc => absurd hc List.not_mem_nil
  | cons x cs ih =>
    rw [List.flatMap_cons, List.nodup_append'] at hcs
    obtain ⟨-, hcs, hdisjoint⟩ := hcs
    intro c hc
    rcases List.mem_cons.1 hc with rfl | hc
    · exact h.1
    · refine (possible_congr fun q hq => ?_).1 (ih h.2 hcs c hc)
      exact view_evolve_of_not_mem loads generation d fun hqx =>
        hdisjoint hqx (List.mem_flatMap.2 ⟨c, hc, hq⟩)

end ArtifactDirectory

namespace PluginLoader

variable {loads : Path → Bool} {pl : PluginLoader} {d : ArtifactDirectory}
  {c : Path × FileOperation} {path old q : Path} {plugin : Plugin}

/-- The table has the latest plugin of every file that is there. -/
structure Linked (pl : PluginLoader) (d : ArtifactDirectory) : Prop where
  entries : ∀ path plugin, pl.plugins path = some plugin ↔
    d.present path = true ∧ (d.loaded path).head? = some plugin
  absent : ∀ path, d.present path = false → d.loaded path = []

/-- No file is loaded again whose plugin is not in use any more, and none is renamed that was
loaded. -/
def Reloadable (pl : PluginLoader) : Path × FileOperation → Prop
  | (path, .modified) => ∀ plugin ∈ pl.plugins path, pl.expired plugin = false
  | (path, .renamed old) => pl.plugins old = none ∧ pl.plugins path = none
  | _ => True

/-- Nothing has to be done for the change if its library is not loaded. -/
def Skippable (pl : PluginLoader) : Path × FileOperation → Prop
  | (path, .removed) => pl.plugins path = none
  | (path, .renamed old) => pl.plugins old = none ∧ pl.plugins path = none
  | _ => True

lemma Linked.plugins_eq_none (h : pl.Linked d) (hd : d.present path = false) :
    pl.plugins path = none := by
  refine Option.eq_none_iff_forall_ne_some.2 fun plugin hplugin => ?_
  have hpresent := ((h.entries path plugin).1 hplugin).1
  exact absurd (hd.symm.trans hpresent) (by simp)

lemma Linked.loaded_eq_nil (h : pl.Linked d) (hpl : pl.plugins path = none) :
    d.loaded path = [] := by
  cases hd : d.present path with
  | false => exact h.absent path hd
  | true =>
    refine List.head?_eq_none_iff.1 (Option.eq_none_iff_forall_ne_some.2 fun plugin hhead => ?_)
    have hsome := (h.entries path plugin).2 ⟨hd, hhead⟩
    exact absurd (hpl.symm.trans hsome) (by simp)

lemma insert_of_none {plugins : Path → Option Plugin} (h : plugins path = none) :
    insert plugins path plugin = Function.update plugins path (some plugin) := by
  simp [insert, h]

/-- What a change stores under its path. -/
lemma plugins_convertChange (c : Path × FileOperation) (h : pl.Reloadable c)
    (hadded : c.2 = .added → pl.plugins c.1 = none) :
    (pl.convertChange c).plugins = match c.2 with
      | .removed => Function.update pl.plugins c.1 none
      | _ => Function.update pl.plugins c.1 (some ⟨c.1, pl.generation⟩) := by
  obtain ⟨path, op⟩ := c
  cases op with
  | added => simp only [convertChange, add, insert_of_none (hadded rfl)]
  | removed =>
    simp only [convertChange, remove]
    cases hpl : pl.plugins path with
    | none => exact (Function.update_eq_self_iff.2 hpl.symm).symm
    | some plugin => rfl
  | modified =>
    simp only [convertChange, reload]
    cases hpl : pl.plugins path with
    | none => simp only [add, insert_of_none hpl]
    | some plugin => simp [h plugin hpl]
  | renamed old => simp only [convertChange, reload, h.1, add, insert_of_none h.2]

lemma Linked.added (h : pl.Linked d) (hp : d.Possible (path, .added)) (hload : loads path = true) :
    (pl.convertChange (path, .added)).Linked (d.evolve loads pl.generation (path, .added)) := by
  have hl : pl.Reloadable (path, .added) := trivial
  have hplugins := plugins_convertChange (path, .added) hl fun _ => h.plugins_eq_none hp
  refine ⟨fun q plugin => ?_, fun q hq => ?_⟩
  · rw [hplugins]
    by_cases hqp : q = path
    · subst hqp
      simp [ArtifactDirectory.evolve, hload]
    · simpa [ArtifactDirectory.evolve, hqp] using h.entries q plugin
  · by_cases hqp : q = path
    · simp [ArtifactDirectory.evolve, hqp] at hq
    · simp only [ArtifactDirectory.evolve, Function.update_of_ne hqp] at hq ⊢
      exact h.absent q hq

lemma Linked.removed (h : pl.Linked d) :
    (pl.convertChange (path, .removed)).Linked
      (d.evolve loads pl.generation (path, .removed)) := by
  have hl : pl.Reloadable (path, .removed) := trivial
  have hplugins := plugins_convertChange (path, .removed) hl fun heq => by cases heq
  refine ⟨fun q plugin => ?_, fun q hq => ?_⟩
  · rw [hplugins]
    by_cases hqp : q = path
    · simp [ArtifactDirectory.evolve, hqp]
    · simpa [ArtifactDirectory.evolve, hqp] using h.entries q plugin
  · by_cases hqp : q = path
    · simp [ArtifactDirectory.evolve, hqp]
    · simp only [ArtifactDirectory.evolve, Function.update_of_ne hqp] at hq ⊢
      exact h.absent q hq

lemma Linked.modified (h : pl.Linked d) (hp : d.Possible (path, .modified))
    (hl : pl.Reloadable (path, .modified)) (hload : loads path = true) :
    (pl.convertChange (path, .modified)).Linked
      (d.evolve loads pl.generation (path, .modified)) := by
  have hpresent : d.present path = true := hp
  have hplugins := plugins_convertChange _ hl fun heq => by cases heq
  refine ⟨fun q plugin => ?_, fun q hq => ?_⟩
  · rw [hplugins]
    by_cases hqp : q = path
    · simp [ArtifactDirectory.evolve, hqp, hload, hpresent]
    · simpa [ArtifactDirectory.evolve, hqp] using h.entries q plugin
  · have hqp : q ≠ path := fun heq => by simp [ArtifactDirectory.evolve, heq, hpresent] at hq
    simp only [ArtifactDirectory.evolve, Function.update_of_ne hqp] at hq ⊢
    exact h.absent q hq

lemma Linked.renamed (h : pl.Linked d) (hp : d.Possible (path, .renamed old))
    (hl : pl.Reloadable (path, .renamed old)) (hload : loads path = true) :
    (pl.convertChange (path, .renamed old)).Linked
      (d.evolve loads pl.generation (path, .renamed old)) := by
  have hplugins := plugins_convertChange _ hl fun heq => by cases heq
  refine ⟨fun q plugin => ?_, fun q hq => ?_⟩
  · rw [hplugins]
    by_cases hqp : q = path
    · subst hqp
      simp [ArtifactDirectory.evolve, hload]
    · by_cases hqo : q = old
      · subst hqo
        simp [ArtifactDirectory.evolve, hqp, hl.1]
      · simpa [ArtifactDirectory.evolve, hqp, hqo] using h.entries q plugin
  · have hqp : q ≠ path := fun heq => by simp [ArtifactDirectory.evolve, heq] at hq
    by_cases hqo : q = old
    · simp [ArtifactDirectory.evolve, hqo, hp.2]
    · simp only [ArtifactDirectory.evolve, Function.update_of_ne hqp,
        Function.update_of_ne hqo] at hq ⊢
      exact h.absent q hq

theorem Linked.convertChange (h : pl.Linked d) (hp : d.Possible c) (hl : pl.Reloadable c)
    (hload : Loads loads c = true) :
    (pl.convertChange c).Linked (d.evolve loads pl.generation c) := by
  obtain ⟨path, op⟩ := c
  cases op with
  | added => exact h.added hp hload
  | removed => exact h.removed
  | modified => exact h.modified hp hl hload
  | renamed old => exact h.renamed hp hl hload

/-- The directory changes and the loader does not get to it. -/
lemma Linked.skip {generation : Nat} (h : pl.Linked d) (hp : d.Possible c) (hl : pl.Skippable c)
    (hload : loads c.1 = false) : pl.Linked (d.evolve loads generation c) := by
  obtain ⟨path, op⟩ := c
  have hload' : loads path = false := hload
  -- a library that is not loaded adds nothing to what was loaded for its file
  cases op with
  | added =>
    have hnone := h.plugins_eq_none hp
    refine ⟨fun q plugin => ?_, fun q hq => ?_⟩
    · by_cases hqp : q = path
      · simp [ArtifactDirectory.evolve, hqp, hload', hnone]
      · simpa [ArtifactDirectory.evolve, hqp] using h.entries q plugin
    · by_cases hqp : q = path
      · simp [ArtifactDirectory.evolve, hqp] at hq
      · simp only [ArtifactDirectory.evolve, Function.update_of_ne hqp] at hq ⊢
        exact h.absent q hq
  | removed =>
    have hnone : pl.plugins path = none := hl
    refine ⟨fun q plugin => ?_, fun q hq => ?_⟩
    · by_cases hqp : q = path
      · simp [ArtifactDirectory.evolve, hqp, hnone]
      · simpa [ArtifactDirectory.evolve, hqp] using h.entries q plugin
    · by_cases hqp : q = path
      · simp [ArtifactDirectory.evolve, hqp]
      · simp only [ArtifactDirectory.evolve, Function.update_of_ne hqp] at hq ⊢
        exact h.absent q hq
  | modified =>
    have hsame : d.evolve loads generation (path, .modified) =
        { d with earlier := Function.update d.earlier path (d.loaded path) } := by
      simp [ArtifactDirectory.evolve, hload', Function.update_eq_self]
    rw [hsame]
    exact ⟨h.entries, h.absent⟩
  | renamed old =>
    have hold := h.loaded_eq_nil hl.1
    refine ⟨fun q plugin => ?_, fun q hq => ?_⟩
    · by_cases hqp : q = path
      · simp [ArtifactDirectory.evolve, hqp, hload', hold, hl.2]
      · by_cases hqo : q = old
        · subst hqo
          simp [ArtifactDirectory.evolve, hqp, hl.1]
        · simpa [ArtifactDirectory.evolve, hqp, hqo] using h.entries q plugin
    · have hqp : q ≠ path := fun heq => by simp [ArtifactDirectory.evolve, heq] at hq
      by_cases hqo : q = old
      · simp [ArtifactDirectory.evolve, hqo, hp.2]
      · simp only [ArtifactDirectory.evolve, Function.update_of_ne hqp,
          Function.update_of_ne hqo] at hq ⊢
        exact h.absent q hq

/-! ### Notifications -/

/-- A notification is right about the plugins that were loaded before. -/
def Notifies (expired : Plugin → Bool) (operation : PluginOperation) (earlier : List Plugin) :
    Prop :=
  match operation.old? with
  | none => ∀ plugin ∈ earlier, expired plugin = true
  | some plugin => earlier.head? = some plugin ∧ expired plugin = false

variable (loads) in
lemma convertChange_pluginChanges (h : pl.Linked d) (hl : pl.Reloadable c) :
    ∃ new, (pl.convertChange c).pluginChanges = pl.pluginChanges ++ new ∧
      ∀ n ∈ new, n.1 = c.1 ∧
        Notifies pl.expired n.2 ((d.evolve loads pl.generation c).earlier c.1) := by
  have hadd : ∀ path, (∀ plugin ∈ (d.evolve loads pl.generation c).earlier c.1,
      pl.expired plugin = true) → path = c.1 →
      ∃ new, (pl.add path).pluginChanges = pl.pluginChanges ++ new ∧
        ∀ n ∈ new, n.1 = c.1 ∧
          Notifies pl.expired n.2 ((d.evolve loads pl.generation c).earlier c.1) := by
    rintro path hexpired rfl
    refine ⟨_, rfl, fun n hn => ?_⟩
    rw [List.mem_singleton.1 hn]
    exact ⟨rfl, hexpired⟩
  obtain ⟨path, op⟩ := c
  cases op with
  | added => exact hadd path (by simp [ArtifactDirectory.evolve]) rfl
  | removed =>
    simp only [PluginLoader.convertChange, remove]
    cases hpl : pl.plugins path with
    | none => exact ⟨[], by simp, by simp⟩
    | some plugin =>
      by_cases hexpired : pl.expired plugin = true
      · exact ⟨[], by simp [hexpired], by simp⟩
      · refine ⟨[(path, .removed plugin)], by simp [hexpired], fun n hn => ?_⟩
        rw [List.mem_singleton.1 hn]
        refine ⟨rfl, ((h.entries path plugin).1 hpl).2 ▸ ?_, by simpa using hexpired⟩
        simp [ArtifactDirectory.evolve]
  | modified =>
    simp only [PluginLoader.convertChange, reload]
    cases hpl : pl.plugins path with
    | none =>
      refine hadd path ?_ rfl
      simp [ArtifactDirectory.evolve, h.loaded_eq_nil hpl]
    | some plugin =>
      -- the entry has not expired, so it is the plugin that is replaced
      have halive := hl plugin hpl
      refine ⟨[(path, .modified plugin ⟨path, pl.generation⟩)], by simp [halive], fun n hn => ?_⟩
      rw [List.mem_singleton.1 hn]
      refine ⟨rfl, ((h.entries path plugin).1 hpl).2 ▸ ?_, halive⟩
      simp [ArtifactDirectory.evolve]
  | renamed old =>
    simp only [PluginLoader.convertChange, reload, hl.1]
    refine hadd path ?_ rfl
    simp [ArtifactDirectory.evolve, h.loaded_eq_nil hl.1]

/-! ### A whole batch -/

lemma convertChange_frame (pl : PluginLoader) (c : Path × FileOperation) :
    (pl.convertChange c).expired = pl.expired ∧
      (pl.convertChange c).generation = pl.generation ∧
      (pl.convertChange c).sideloadBan = pl.sideloadBan := by
  have hreload : ∀ key path, (pl.reload key path).expired = pl.expired ∧
      (pl.reload key path).generation = pl.generation ∧
      (pl.reload key path).sideloadBan = pl.sideloadBan := by
    intro key path
    unfold reload
    split
    · split <;> exact ⟨rfl, rfl, rfl⟩
    · exact ⟨rfl, rfl, rfl⟩
  obtain ⟨path, op⟩ := c
  cases op with
  | added => exact ⟨rfl, rfl, rfl⟩
  | removed =>
    simp only [PluginLoader.convertChange, remove]
    split <;> exact ⟨rfl, rfl, rfl⟩
  | modified => exact hreload path path
  | renamed old => exact hreload old path

lemma reloadable_congr {pl' : PluginLoader} (h : ∀ q ∈ touched c, pl.plugins q = pl'.plugins q)
    (he : pl.expired = pl'.expired) (hl : pl.Reloadable c) : pl'.Reloadable c := by
  obtain ⟨path, op⟩ := c
  cases op with
  | added => trivial
  | removed => trivial
  | modified =>
    have hpath := h path (fst_mem_touched (path, _))
    intro plugin hplugin
    exact he ▸ hl plugin (hpath ▸ hplugin)
  | renamed old =>
    have hold : old ∈ touched (path, .renamed old) := by simp [touched]
    exact ⟨(h old hold).symm.trans hl.1, (h path (fst_mem_touched (path, _))).symm.trans hl.2⟩

lemma skippable_congr {pl' : PluginLoader} (h : ∀ q ∈ touched c, pl.plugins q = pl'.plugins q)
    (hl : pl.Skippable c) : pl'.Skippable c := by
  obtain ⟨path, op⟩ := c
  have hpath := h path (fst_mem_touched (path, _))
  cases op with
  | added => trivial
  | removed => exact hpath.symm.trans hl
  | modified => trivial
  | renamed old =>
    have hold : old ∈ touched (path, .renamed old) := by simp [touched]
    exact ⟨(h old hold).symm.trans hl.1, hpath.symm.trans hl.2⟩

lemma plugins_convertChange_of_ne (h : pl.Linked d) (hp : d.Possible c) (hl : pl.Reloadable c)
    (hq : q ≠ c.1) : (pl.convertChange c).plugins q = pl.plugins q := by
  have hadded : c.2 = .added → pl.plugins c.1 = none := by
    intro hop
    obtain ⟨path, op⟩ := c
    simp only at hop
    subst hop
    exact h.plugins_eq_none hp
  rw [plugins_convertChange c hl hadded]
  split <;> exact Function.update_of_ne hq _ _

variable (loads) in
/-- The loop of `convert` follows the directory, change by change. -/
theorem Linked.foldl_convertChange {cs : List (Path × FileOperation)} (h : pl.Linked d)
    (hcs : (cs.flatMap touched).Nodup) (hp : ∀ c ∈ cs, d.Possible c)
    (hl : ∀ c ∈ cs, pl.Reloadable c) (hload : ∀ c ∈ cs, Loads loads c = true)
    (hn : ∀ n ∈ pl.pluginChanges, n.1 ∉ cs.map Prod.fst ∧
      Notifies pl.expired n.2 (d.earlier n.1)) :
    (cs.foldl PluginLoader.convertChange pl).Linked
        (cs.foldl (ArtifactDirectory.evolve loads pl.generation) d) ∧
      (∀ q, q ∉ cs.map Prod.fst →
        (cs.foldl PluginLoader.convertChange pl).plugins q = pl.plugins q) ∧
      (cs.foldl PluginLoader.convertChange pl).expired = pl.expired ∧
      (cs.foldl PluginLoader.convertChange pl).generation = pl.generation ∧
      (cs.foldl PluginLoader.convertChange pl).sideloadBan = pl.sideloadBan ∧
      ∀ n ∈ (cs.foldl PluginLoader.convertChange pl).pluginChanges, Notifies pl.expired n.2
        ((cs.foldl (ArtifactDirectory.evolve loads pl.generation) d).earlier n.1) := by
  induction cs generalizing pl d with
  | nil => exact ⟨h, fun _ _ => rfl, rfl, rfl, rfl, fun n hmem => (hn n hmem).2⟩
  | cons c cs ih =>
    rw [List.flatMap_cons, List.nodup_append'] at hcs
    obtain ⟨-, hcs, hdisjoint⟩ := hcs
    have hpc := hp c List.mem_cons_self
    have hlc := hl c List.mem_cons_self
    obtain ⟨hexpired, hgeneration, hban⟩ := pl.convertChange_frame c
    -- what the remaining changes are about is as before
    have hother : ∀ x ∈ cs, ∀ q ∈ touched x, q ∉ touched c :=
      fun x hx q hq hqc => hdisjoint hqc (List.mem_flatMap.2 ⟨x, hx, hq⟩)
    have hkeys : c.1 ∉ cs.map Prod.fst := by
      intro hmem
      obtain ⟨x, hx, hxc⟩ := List.mem_map.1 hmem
      exact hother x hx c.1 (hxc ▸ fst_mem_touched x) (fst_mem_touched c)
    have hnext := ih (h.convertChange hpc hlc (hload c List.mem_cons_self)) hcs ?_ ?_
      (fun x hx => hload x (List.mem_cons_of_mem _ hx)) ?_
    · rw [hexpired, hgeneration, hban] at hnext
      obtain ⟨hlinked, houtside, hrest⟩ := hnext
      refine ⟨hlinked, fun q hq => ?_, hrest⟩
      rw [List.map_cons, List.mem_cons, not_or] at hq
      exact (houtside q hq.2).trans (plugins_convertChange_of_ne h hpc hlc hq.1)
    · intro x hx
      refine (ArtifactDirectory.possible_congr fun q hq => ?_).1 (hp x (List.mem_cons_of_mem _ hx))
      exact (ArtifactDirectory.view_evolve_of_not_mem loads pl.generation d (hother x hx q hq)).symm
    · intro x hx
      refine reloadable_congr (fun q hq => ?_) hexpired.symm (hl x (List.mem_cons_of_mem _ hx))
      have hqc : q ≠ c.1 := fun heq => hother x hx q hq (heq ▸ fst_mem_touched c)
      exact (plugins_convertChange_of_ne h hpc hlc hqc).symm
    · obtain ⟨new, heq, hnew⟩ := convertChange_pluginChanges loads h hlc
      rw [heq, hexpired]
      intro n hmem
      rcases List.mem_append.1 hmem with hmem | hmem
      · obtain ⟨hnot, hnotifies⟩ := hn n hmem
        rw [List.map_cons, List.mem_cons, not_or] at hnot
        refine ⟨hnot.2, ?_⟩
        rw [ArtifactDirectory.earlier_evolve_of_ne _ _ _ hnot.1]
        exact hnotifies
      · obtain ⟨hpath, hnotifies⟩ := hnew n hmem
        exact ⟨hpath ▸ hkeys, hpath ▸ hnotifies⟩

variable (loads) in
/-- The rest of a batch, after an exception. -/
lemma Linked.foldl_skip (generation : Nat) {cs : List (Path × FileOperation)} (h : pl.Linked d)
    (hcs : (cs.flatMap touched).Nodup) (hp : ∀ c ∈ cs, d.Possible c)
    (hl : ∀ c ∈ cs, pl.Skippable c) (hload : ∀ c ∈ cs, loads c.1 = false) :
    pl.Linked (cs.foldl (ArtifactDirectory.evolve loads generation) d) := by
  induction cs generalizing d with
  | nil => exact h
  | cons c cs ih =>
    rw [List.flatMap_cons, List.nodup_append'] at hcs
    obtain ⟨-, hcs, hdisjoint⟩ := hcs
    refine ih (h.skip (hp c List.mem_cons_self) (hl c List.mem_cons_self)
      (hload c List.mem_cons_self)) hcs (fun x hx => ?_)
      (fun x hx => hl x (List.mem_cons_of_mem _ hx)) fun x hx => hload x (List.mem_cons_of_mem _ hx)
    refine (ArtifactDirectory.possible_congr fun q hq => ?_).1 (hp x (List.mem_cons_of_mem _ hx))
    exact (ArtifactDirectory.view_evolve_of_not_mem loads generation d fun hqc =>
      hdisjoint hqc (List.mem_flatMap.2 ⟨x, hx, hq⟩)).symm

/-- The loop converts the changes before the first one whose library cannot be loaded. -/
lemma convertLoop_eq (loads : Path → Bool) (pl : PluginLoader)
    (changes : List (Path × FileOperation)) :
    convertLoop loads pl changes =
      ((converted loads changes).foldl PluginLoader.convertChange pl,
        changes.all (Loads loads)) := by
  induction changes generalizing pl with
  | nil => rfl
  | cons c cs ih =>
    by_cases hc : Loads loads c = true
    · simp [convertLoop, hc, ih, converted]
    · simp [convertLoop, hc, converted]

lemma loads_of_mem_converted {changes : List (Path × FileOperation)}
    (hc : c ∈ converted loads changes) : Loads (succeeded loads changes) c = true := by
  have hload := List.mem_takeWhile_imp hc
  have hmem : c.1 ∈ (converted loads changes).map Prod.fst := List.mem_map_of_mem hc
  obtain ⟨path, op⟩ := c
  cases op with
  | removed => rfl
  | added | modified | renamed old =>
    exact Bool.and_eq_true_iff.2 ⟨hload, decide_eq_true hmem⟩

/-- What comes behind an exception is not loaded. -/
lemma succeeded_of_mem_dropWhile {changes : List (Path × FileOperation)}
    (hchanges : (changes.map Prod.fst).Nodup) (hc : c ∈ changes.dropWhile (Loads loads)) :
    succeeded loads changes c.1 = false := by
  rw [← List.takeWhile_append_dropWhile (p := Loads loads) (l := changes), List.map_append]
    at hchanges
  have hnot : c.1 ∉ (converted loads changes).map Prod.fst := fun hmem =>
    List.disjoint_of_nodup_append hchanges hmem (List.mem_map_of_mem hc)
  simp [succeeded, hnot]

/-! ### Banned names -/

/-- The banned names are those of the files that are there. -/
def Bans (ban : Path → Bool) (d : ArtifactDirectory) : Prop :=
  ∀ name, ban name = true ↔ ∃ path, d.present path = true ∧ Path.filename path = name

/-- No other file has the name of one that goes away. -/
def Unshared (others : Path → Prop) : Path × FileOperation → Prop
  | (path, .removed) => ∀ q, others q → q ≠ path → Path.filename q ≠ Path.filename path
  | (path, .renamed old) => ∀ q, others q → q ≠ old → q ≠ path →
      Path.filename q ≠ Path.filename old
  | _ => True

lemma Bans.updateSideloadBan {ban : Path → Bool} {generation : Nat} (h : Bans ban d)
    (hc : Unshared (fun q => d.present q = true) c) :
    Bans (updateSideloadBan ban c) (d.evolve loads generation c) := by
  obtain ⟨path, op⟩ := c
  intro name
  cases op with
  | added =>
    simp only [PluginLoader.updateSideloadBan, ArtifactDirectory.evolve, Function.update_apply]
    by_cases hname : name = path.filename
    · rw [if_pos hname]
      exact ⟨fun _ => ⟨path, if_pos rfl, hname.symm⟩, fun _ => rfl⟩
    · rw [if_neg hname, h name]
      refine exists_congr fun q => and_congr_left fun hq => ?_
      have hne : q ≠ path := fun heq => hname (hq.symm.trans (congrArg Path.filename heq))
      rw [if_neg hne]
  | removed =>
    simp only [PluginLoader.updateSideloadBan, ArtifactDirectory.evolve, Function.update_apply]
    by_cases hname : name = path.filename
    · -- no other file has the name of the one that is gone
      rw [if_pos hname]
      refine ⟨fun hfalse => absurd hfalse (by simp), ?_⟩
      rintro ⟨q, hq, hqname⟩
      split at hq
      · exact absurd hq (by simp)
      · rename_i hne
        exact absurd (hqname.trans hname) (hc q hq hne)
    · rw [if_neg hname, h name]
      refine exists_congr fun q => and_congr_left fun hq => ?_
      have hne : q ≠ path := fun heq => hname (hq.symm.trans (congrArg Path.filename heq))
      rw [if_neg hne]
  | modified => exact h name
  | renamed old =>
    simp only [PluginLoader.updateSideloadBan, ArtifactDirectory.evolve, Function.update_apply]
    by_cases hname : name = path.filename
    · rw [if_pos hname]
      exact ⟨fun _ => ⟨path, if_pos rfl, hname.symm⟩, fun _ => rfl⟩
    · have hpath : ∀ q, Path.filename q = name → q ≠ path :=
        fun q hq heq => hname (hq.symm.trans (congrArg Path.filename heq))
      rw [if_neg hname]
      by_cases hgone : name = old.filename
      · rw [if_pos hgone]
        refine ⟨fun hfalse => absurd hfalse (by simp), ?_⟩
        rintro ⟨q, hq, hqname⟩
        rw [if_neg (hpath q hqname)] at hq
        split at hq
        · exact absurd hq (by simp)
        · rename_i hne
          exact absurd (hqname.trans hgone) (hc q hq hne (hpath q hqname))
      · rw [if_neg hgone, h name]
        refine exists_congr fun q => and_congr_left fun hq => ?_
        have hne : q ≠ old := fun heq => hgone (hq.symm.trans (congrArg Path.filename heq))
        rw [if_neg (hpath q hq), if_neg hne]

lemma unshared_mono {others others' : Path → Prop} (hc : Unshared others c)
    (h : ∀ q, others' q → others q) : Unshared others' c := by
  obtain ⟨path, op⟩ := c
  cases op with
  | added => trivial
  | removed => exact fun q hq => hc q (h q hq)
  | modified => trivial
  | renamed old => exact fun q hq => hc q (h q hq)

lemma present_evolve {generation : Nat} (hp : d.Possible c)
    (hq : (d.evolve loads generation c).present q = true) : d.present q = true ∨ q = c.1 := by
  obtain ⟨path, op⟩ := c
  by_cases hqp : q = path
  · exact .inr hqp
  · refine .inl ?_
    cases op with
    | added => simpa [ArtifactDirectory.evolve, hqp] using hq
    | removed => simpa [ArtifactDirectory.evolve, hqp] using hq
    | modified => exact hq
    | renamed old =>
      by_cases hqo : q = old
      · exact hqo ▸ hp.1
      · simpa [ArtifactDirectory.evolve, hqp, hqo] using hq

theorem Bans.foldl_updateSideloadBan {ban : Path → Bool} {generation : Nat} {others : Path → Prop}
    {cs : List (Path × FileOperation)} (h : Bans ban d) (hcs : (cs.flatMap touched).Nodup)
    (hp : ∀ c ∈ cs, d.Possible c) (hc : ∀ c ∈ cs, Unshared others c)
    (hothers : ∀ q, d.present q = true → others q) (hkeys : ∀ c ∈ cs, others c.1) :
    Bans (cs.foldl PluginLoader.updateSideloadBan ban)
      (cs.foldl (ArtifactDirectory.evolve loads generation) d) := by
  induction cs generalizing ban d with
  | nil => exact h
  | cons c cs ih =>
    rw [List.flatMap_cons, List.nodup_append'] at hcs
    obtain ⟨-, hcs, hdisjoint⟩ := hcs
    have hpc := hp c List.mem_cons_self
    refine ih (h.updateSideloadBan (unshared_mono (hc c List.mem_cons_self) hothers)) hcs
      (fun x hx => ?_) (fun x hx => hc x (List.mem_cons_of_mem _ hx)) (fun q hq => ?_)
      fun x hx => hkeys x (List.mem_cons_of_mem _ hx)
    · refine (ArtifactDirectory.possible_congr fun q hq => ?_).1 (hp x (List.mem_cons_of_mem _ hx))
      exact (ArtifactDirectory.view_evolve_of_not_mem loads generation d fun hqc =>
        hdisjoint hqc (List.mem_flatMap.2 ⟨x, hx, hq⟩)).symm
    · rcases present_evolve hpc hq with hq | hq
      · exact hothers q hq
      · exact hq ▸ hkeys c List.mem_cons_self

/-! ### A batch with the exception that may end it -/

/-- The table and the notifications after a batch, whether it was abandoned or not. -/
lemma Linked.convert {pl : PluginLoader} {d : ArtifactDirectory}
    {changes : List (Path × FileOperation)} {loads : Path → Bool} (h : pl.Linked d)
    (hkeys : (changes.map Prod.fst).Nodup) (hapart : (changes.flatMap touched).Nodup)
    (hpossible : ∀ c ∈ changes, d.Possible c)
    (hreloadable : ∀ c ∈ converted loads changes, pl.Reloadable c)
    (hskippable : ∀ c ∈ changes.dropWhile (Loads loads), pl.Skippable c) :
    (pl.convert loads changes).Linked
        (changes.foldl (ArtifactDirectory.evolve (succeeded loads changes) (pl.generation + 1)) d) ∧
      (pl.convert loads changes).generation = pl.generation + 1 ∧
      (pl.convert loads changes).sideloadBan = changes.foldl updateSideloadBan pl.sideloadBan ∧
      ∀ n ∈ (pl.convert loads changes).pluginChanges,
        Notifies (pl.convert loads changes).expired n.2 ((changes.foldl (ArtifactDirectory.evolve
          (succeeded loads changes) (pl.generation + 1)) d).earlier n.1) := by
  set start : PluginLoader := { pl with
    generation := pl.generation + 1
    pluginChanges := []
    sideloadBan := changes.foldl updateSideloadBan pl.sideloadBan } with hstart
  have hsplit : converted loads changes ++ changes.dropWhile (Loads loads) = changes :=
    List.takeWhile_append_dropWhile
  have hdone : ∀ c ∈ converted loads changes, c ∈ changes := fun c hc =>
    (List.takeWhile_sublist _).subset hc
  have hrest : ∀ c ∈ changes.dropWhile (Loads loads), c ∈ changes := fun c hc =>
    (List.dropWhile_sublist _).subset hc
  have hapart' := hapart
  rw [← hsplit, List.flatMap_append, List.nodup_append'] at hapart'
  obtain ⟨hapartDone, hapartRest, hdisjoint⟩ := hapart'
  have hother : ∀ c ∈ changes.dropWhile (Loads loads), ∀ q ∈ touched c,
      ∀ x ∈ converted loads changes, q ∉ touched x := fun c hc q hq x hx hqx =>
    hdisjoint (List.mem_flatMap.2 ⟨x, hx, hqx⟩) (List.mem_flatMap.2 ⟨c, hc, hq⟩)
  have hlinked : start.Linked d := ⟨h.entries, h.absent⟩
  obtain ⟨hlinked', houtside, hexpired, hgeneration, hban, hnotifies⟩ :=
    hlinked.foldl_convertChange (succeeded loads changes) hapartDone
      (fun c hc => hpossible c (hdone c hc))
      (fun c hc => reloadable_congr (fun _ _ => rfl) rfl (hreloadable c hc))
      (fun c hc => loads_of_mem_converted hc) (by simp [hstart])
  set loop := (converted loads changes).foldl PluginLoader.convertChange start with hloop
  -- the rest of the changes finds the directory and the table as they were
  have hskipped := hlinked'.foldl_skip (succeeded loads changes) start.generation hapartRest
    (fun c hc => (ArtifactDirectory.possible_congr fun q hq =>
      (ArtifactDirectory.view_foldl_evolve_of_not_mem _ _ (hother c hc q hq) d).symm).1
        (hpossible c (hrest c hc)))
    (fun c hc => skippable_congr (fun q hq => (houtside q fun hmem => by
      obtain ⟨x, hx, rfl⟩ := List.mem_map.1 hmem
      exact hother c hc x.1 hq x hx (fst_mem_touched x)).symm) (hskippable c hc))
    (fun c hc => succeeded_of_mem_dropWhile hkeys hc)
  rw [← List.foldl_append, hsplit] at hskipped
  have hconvert : pl.convert loads changes =
      if changes.all (Loads loads) then loop else loop.abandon := by
    rw [PluginLoader.convert, convertLoop_eq]
  have hskippedLoop : loop.Linked (changes.foldl
      (ArtifactDirectory.evolve (succeeded loads changes) (pl.generation + 1)) d) := hskipped
  rw [hconvert]
  split
  next hall =>
    have hsame : converted loads changes = changes :=
      List.takeWhile_eq_self_iff.2 (by simpa using hall)
    refine ⟨hskippedLoop, hgeneration, hban, fun n hn => ?_⟩
    rw [hexpired]
    have := hnotifies n hn
    rw [hsame] at this
    exact this
  next => exact ⟨⟨hskippedLoop.entries, hskippedLoop.absent⟩, hgeneration, hban, nofun⟩

end PluginLoader

namespace PluginSystem

variable {s : PluginSystem} {op : PluginOp}

open PluginLoader

/-! ### Every run -/

/-- The changes of a batch are about different paths, no file is renamed that was loaded or loaded
again when its plugin is not in use any more, no file that was loaded is removed behind one that
cannot be loaded, and no file that goes away shares its name. -/
structure Untangled (s : PluginSystem) (changes : List (Path × FileOperation))
    (loads : Path → Bool) : Prop where
  apart : (changes.flatMap touched).Nodup
  reloadable : ∀ c ∈ converted loads changes, s.loader.Reloadable c
  skippable : ∀ c ∈ changes.dropWhile (Loads loads), s.loader.Skippable c
  unshared : ∀ c ∈ changes, Unshared
    (fun q => s.directory.present q = true ∨ q ∈ changes.map Prod.fst) c

/-- What is asked of an operation. -/
def Trackable (s : PluginSystem) : PluginOp → Prop
  | .convert changes _ loads => s.Untangled changes loads
  | .release _ => True

lemma emission_added {expired : Plugin → Bool} {d : ArtifactDirectory}
    {n : Path × PluginOperation} (h : Notifies expired n.2 (d.earlier n.1)) {plugin : Plugin}
    (hadded : (emission expired d n).operation = .added plugin) :
    (emission expired d n).living = [] := by
  have hop : n.2 = .added plugin := hadded
  rw [hop] at h
  exact List.filter_eq_nil_iff.2 fun x hx => by simp [show expired x = true from h x hx]

lemma emission_replaced {expired : Plugin → Bool} {d : ArtifactDirectory}
    {n : Path × PluginOperation} (h : Notifies expired n.2 (d.earlier n.1)) {plugin : Plugin}
    (hold : (emission expired d n).operation.old? = some plugin) :
    (emission expired d n).earlier.head? = some plugin ∧
      plugin ∈ (emission expired d n).living := by
  have hop : n.2.old? = some plugin := hold
  rw [Notifies, hop] at h
  exact ⟨h.1, List.mem_filter.2 ⟨List.mem_of_mem_head? h.1, by simp [h.2]⟩⟩

/-- The tracked state, with the files that are not there. -/
structure Tracked (s : PluginSystem) : Prop extends s.Tracks where
  absent : ∀ path, s.directory.present path = false → s.directory.loaded path = []

lemma Tracked.convert {changes evolution : List (Path × FileOperation)} {loads : Path → Bool}
    (h : s.Tracked) (hpre : (PluginOp.convert changes evolution loads).Pre s)
    (hop : s.Untangled changes loads) : (s.convert changes evolution loads).Tracked := by
  obtain ⟨hperm, hkeys, hevolves⟩ := hpre
  obtain ⟨hapart, hreloadable, hskippable, hunshared⟩ := hop
  have hapart' : (evolution.flatMap touched).Nodup :=
    (hperm.flatMap_right touched).nodup_iff.1 hapart
  have hpossible : ∀ c ∈ changes, s.directory.Possible c :=
    fun c hc => hevolves.possible _ _ hapart' c (hperm.mem_iff.1 hc)
  have hlinked : s.loader.Linked s.directory := ⟨h.entries, h.absent⟩
  obtain ⟨hlinked', hgeneration, hban, hnotifies⟩ :=
    hlinked.convert hkeys hapart hpossible hreloadable hskippable
  have hdirectory : (s.convert changes evolution loads).directory =
      changes.foldl (ArtifactDirectory.evolve (succeeded loads changes) (s.loader.generation + 1))
        s.directory := by
    rw [ArtifactDirectory.foldl_evolve_perm (succeeded loads changes) (s.loader.generation + 1)
      hperm hapart s.directory, ← hgeneration]
    rfl
  have hbans : Bans (changes.foldl updateSideloadBan s.loader.sideloadBan)
      (changes.foldl (ArtifactDirectory.evolve (succeeded loads changes)
        (s.loader.generation + 1)) s.directory) :=
    Bans.foldl_updateSideloadBan h.banned hapart hpossible hunshared (fun q hq => .inl hq)
      fun c hc => .inr (List.mem_map_of_mem hc)
  have hemitted : ∀ e ∈ (s.convert changes evolution loads).emitted, e ∈ s.emitted ∨
      ∃ n, e = emission (s.loader.convert loads changes).expired
          (s.convert changes evolution loads).directory n ∧
        Notifies (s.loader.convert loads changes).expired n.2
          ((s.convert changes evolution loads).directory.earlier n.1) := by
    intro e he
    rcases List.mem_append.1 he with he | he
    · obtain ⟨n, hn, rfl⟩ := List.mem_map.1 he
      exact .inr ⟨n, rfl, hdirectory ▸ hnotifies n hn⟩
    · exact .inl he
  refine ⟨⟨?_, ?_, ?_, ?_⟩, ?_⟩
  · rw [hdirectory]
    exact hlinked'.entries
  · intro e he plugin hadded
    rcases hemitted e he with he | ⟨n, rfl, hn⟩
    · exact h.added e he plugin hadded
    · exact emission_added hn hadded
  · intro e he plugin hold
    rcases hemitted e he with he | ⟨n, rfl, hn⟩
    · exact h.replaced e he plugin hold
    · exact emission_replaced hn hold
  · rw [hdirectory]
    exact hban.symm ▸ hbans
  · rw [hdirectory]
    exact hlinked'.absent

end PluginSystem

open PluginSystem

/-- In every run of untangled batches, the table follows the directory. -/
theorem pluginLoader_tracks {s : PluginSystem} (h : pluginLoader.Reachable Trackable s) :
    s.Tracks := by
  refine Tracked.toTracks (h.invariant ?_ ?_)
  · rintro s rfl
    refine ⟨⟨?_, ?_, ?_, ?_⟩, fun _ _ => rfl⟩ <;> simp [initial]
  · intro s op _ hs hpre hop
    cases op with
    | convert changes evolution loads => exact hs.convert hpre hop
    | release plugin => exact ⟨⟨hs.entries, hs.added, hs.replaced, hs.banned⟩, hs.absent⟩

instance (d : ArtifactDirectory) : (c : Path × FileOperation) → Decidable (d.Possible c)
  | (path, .added) => inferInstanceAs (Decidable (d.present path = false))
  | (path, .removed) => inferInstanceAs (Decidable (d.present path = true))
  | (path, .modified) => inferInstanceAs (Decidable (d.present path = true))
  | (_, .renamed _) => inferInstanceAs (Decidable (_ ∧ _))

instance ArtifactDirectory.Evolves.decidable (loads : Path → Bool) (generation : Nat)
    (d : ArtifactDirectory) :
    (cs : List (Path × FileOperation)) → Decidable (d.Evolves loads generation cs)
  | [] => .isTrue trivial
  | c :: cs =>
    have := Evolves.decidable loads generation (d.evolve loads generation c) cs
    inferInstanceAs (Decidable (d.Possible c ∧ _))

instance (s : PluginSystem) : (op : PluginOp) → Decidable (pluginLoader.pre s op)
  | .convert _ _ _ => inferInstanceAs (Decidable (_ ∧ _ ∧ _))
  | .release _ => inferInstanceAs (Decidable (_ ≤ _))

/-- Two libraries appear, and one of them is modified. -/
def pluginRun : List PluginOp :=
  [.convert [(['a'], .added), (['b'], .added)] [(['b'], .added), (['a'], .added)] fun _ => true,
    .convert [(['a'], .modified)] [(['a'], .modified)] fun _ => true]

/-- A library is renamed while its plugin is in use. -/
def renameRun : List PluginOp :=
  [.convert [(['a'], .added)] [(['a'], .added)] fun _ => true,
    .convert [(['b'], .renamed ['a'])] [(['b'], .renamed ['a'])] fun _ => true]

theorem pluginLoader_tracks_pluginRun :
    (pluginRun.foldl PluginOp.exec initial).loader.plugins ['a'] = some ⟨['a'], 2⟩ ∧
      (pluginRun.foldl PluginOp.exec initial).Tracks := by
  have h : pluginLoader.Reachable Trackable (pluginRun.foldl PluginOp.exec initial) := by
    refine Machine.Reachable.run (.init rfl) ⟨by decide, ?_, by decide, ?_, trivial⟩
    · refine ⟨by decide, fun c hc => ?_, nofun, ?_⟩
      · have hmem := (List.takeWhile_sublist _).subset hc
        simp only [List.mem_cons, List.not_mem_nil, or_false] at hmem
        rcases hmem with rfl | rfl <;> trivial
      · simp [PluginLoader.Unshared]
    · refine ⟨by decide, ?_, nofun, ?_⟩
      · intro c hc
        rw [List.mem_singleton.1 ((List.takeWhile_sublist _).subset hc)]
        intro plugin _
        rfl
      · simp [PluginLoader.Unshared]
  exact ⟨by decide, pluginLoader_tracks h⟩

/-- The new plugin is stored under the old path. -/
theorem renameRun_not_tracks :
    pluginLoader.Reachable (fun _ _ => True) (renameRun.foldl PluginOp.exec initial) ∧
      ¬ (renameRun.foldl PluginOp.exec initial).Tracks := by
  refine ⟨Machine.Reachable.run (.init rfl) (by decide), fun h => ?_⟩
  have hentry := ((h.entries ['a'] ⟨['b'], 2⟩).1 (by decide)).1
  exact absurd hentry (by decide)

end Idle
