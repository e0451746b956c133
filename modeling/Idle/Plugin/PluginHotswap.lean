import Idle.Parts.Registry
import Idle.Plugin.PluginLoader

/-!
# Swapping plugins

`PluginHotswapImpl` waits for the changes that its loader reports, creates and drops a bundle of
services for each of them, and updates the system before it waits again. The entries of the loader
are weak: what keeps a plugin alive is its bundle. The bundle of a new version is started when the
older versions have stopped; that comes back to the event loop as an operation of its own.
-/

namespace Idle

/-- The plugins that an operation refers to. -/
def PluginOperation.plugins (operation : PluginOperation) : List Plugin :=
  operation.old?.toList ++ operation.new?.toList

def PluginOperation.isAdded : PluginOperation → Bool
  | added _ => true
  | _ => false

def PluginOperation.isRemoved : PluginOperation → Bool
  | removed _ => true
  | _ => false

def PluginOperation.isModified : PluginOperation → Bool
  | modified _ _ => true
  | _ => false

/-- `PluginImpl::operator>` -/
def Plugin.ranking (address : Plugin → Nat) : Ranking Plugin where
  greater left right := decide (right.generation < left.generation)
  address := address

/-- A bundle is started. What the tables have at that time is history. -/
structure BundleStart where
  plugin : Plugin
  bundle : Nat
  stored : Option Nat
  current : Option Plugin
  deriving DecidableEq, Repr

/-- The bundle is the one that is kept for the current version of its file. -/
def BundleStart.Current (e : BundleStart) : Prop :=
  e.stored = some e.bundle ∧ e.current = some e.plugin

/-- `PluginHotswapImpl`, with the loader and what belongs to it. -/
structure PluginHotswap where
  system : PluginSystem
  /-- The registries of the plugins, whose types are the names of their files. -/
  interfaces : Path → List Plugin
  /-- `bundles_`; bundles are numbered. -/
  bundles : Plugin → Option Nat
  created : Nat
  /-- The changes that the loader has reported. -/
  changes : List PluginOperation
  /-- The plugins whose older versions are about to stop. -/
  pending : List Plugin
  /-- The loop waits for the operations and for the update of the system. -/
  updating : Bool
  started : List BundleStart
  /-- An assertion has failed. -/
  failed : Bool
  /-- An exception of the loader has ended the loop. -/
  ended : Bool

namespace PluginHotswap

def initial : PluginHotswap where
  system := .initial
  interfaces := fun _ => []
  bundles := fun _ => none
  created := 0
  changes := []
  pending := []
  updating := false
  started := []
  failed := false
  ended := false

/-- `unordered_map::insert` does not replace. -/
def insertBundle (bundles : Plugin → Option Nat) (plugin : Plugin) (bundle : Nat) :
    Plugin → Option Nat :=
  if (bundles plugin).isSome then bundles else Function.update bundles plugin (some bundle)

/-- `bundle::start` -/
def start (h : PluginHotswap) (plugin : Plugin) (bundle : Nat) : PluginHotswap :=
  { h with
    started := ⟨plugin, bundle, h.bundles plugin, h.system.loader.plugins plugin.path⟩ ::
      h.started }

/-- `dispatch_op_eager(plugin_added const&)` -/
def dispatchAdded (h : PluginHotswap) (source : Plugin) : PluginHotswap :=
  { h with
    failed := h.failed || (h.bundles source).isSome
    bundles := insertBundle h.bundles source h.created
    created := h.created + 1 }.start source h.created

/-- `dispatch_op_eager(plugin_removed const&)` -/
def dispatchRemoved (h : PluginHotswap) (source : Plugin) : PluginHotswap :=
  { h with bundles := Function.update h.bundles source none }

/-- `dispatch_op_eager(plugin_modified const&)` -/
def dispatchModified (h : PluginHotswap) (source target : Plugin) : PluginHotswap :=
  if source.path.filename ≠ target.path.filename ∨ source = target then
    { h with failed := true }
  else match h.interfaces source.path.filename with
    | [] => { h with failed := true }
    | front :: other =>
      -- the latest interface should always have the highest priority
      if front ≠ target then h
      else
        let h' := { h with
          bundles := insertBundle (Function.update h.bundles source none) target h.created
          created := h.created + 1 }
        if other.isEmpty then h'.start target h.created
        else { h' with pending := h'.pending ++ [target] }

/-- `dispatch_op_eager` -/
def dispatchOp (h : PluginHotswap) : PluginOperation → PluginHotswap
  | .added source => h.dispatchAdded source
  | .removed source => h.dispatchRemoved source
  | .modified source target => h.dispatchModified source target

/-- The changes in the order in which they are dispatched. -/
def ordered : List PluginOperation → List PluginOperation
  | [] => []
  | [op] => [op]
  | changes => changes.filter PluginOperation.isAdded ++
      (changes.filter PluginOperation.isRemoved ++ changes.filter PluginOperation.isModified)

/-- The handler of `watch_plugins_and_reload_loop` that gets the changes. -/
def dispatch (h : PluginHotswap) : PluginHotswap :=
  { (ordered h.changes).foldl dispatchOp h with
    changes := []
    updating := true }

/-- The older versions have stopped. -/
def stopped (h : PluginHotswap) (target : Plugin) : PluginHotswap :=
  let h' := { h with pending := h.pending.erase target }
  if h.system.loader.expired target then h'
  else match h.bundles target with
    | some bundle => h'.start target bundle
    | none => h'

/-- A loaded plugin registers its interface. -/
def register (address : Plugin → Nat) (interfaces : Path → List Plugin) (plugin : Plugin) :
    Path → List Plugin :=
  Function.update interfaces plugin.path.filename
    ((Plugin.ranking address).insertSorted plugin (interfaces plugin.path.filename))

/-- The loader converts the changes of a batch. If it throws, nothing is reported. -/
def convert (address : Plugin → Nat) (h : PluginHotswap)
    (changes evolution : List (Path × FileOperation)) (loads : Path → Bool) : PluginHotswap :=
  let system := h.system.convert changes evolution loads
  let operations := system.loader.pluginChanges.map Prod.snd
  { h with
    system := system
    interfaces := (operations.filterMap PluginOperation.new?).foldl (register address) h.interfaces
    changes := operations
    ended := !changes.all (PluginLoader.Loads loads) }

/-- A plugin loses its last reference and with it its place in the registry. -/
def release (h : PluginHotswap) (plugin : Plugin) : PluginHotswap :=
  { h with
    system := h.system.release plugin
    interfaces := Function.update h.interfaces plugin.path.filename
      ((h.interfaces plugin.path.filename).erase plugin) }

end PluginHotswap

inductive HotswapOp where
  /-- The loader reports a batch of changes. -/
  | convert (changes evolution : List (Path × FileOperation)) (loads : Path → Bool)
  | dispatch
  /-- The older versions of a plugin have stopped. -/
  | stopped (target : Plugin)
  /-- The system is updated. -/
  | updated
  /-- A plugin loses its last reference. -/
  | release (plugin : Plugin)

namespace HotswapOp

/-- The loop waits for the loader, for its operations and for the update in turn; bundles and
reported changes keep their plugins. -/
def Pre (h : PluginHotswap) : HotswapOp → Prop
  | convert changes evolution loads => h.ended = false ∧ h.changes = [] ∧ h.updating = false ∧
      (PluginOp.convert changes evolution loads).Pre h.system
  | dispatch => h.changes ≠ []
  | stopped target => target ∈ h.pending
  | updated => h.updating = true ∧ h.pending = []
  | release plugin => h.bundles plugin = none ∧
      plugin ∉ h.changes.flatMap PluginOperation.plugins ∧
      (PluginOp.release plugin).Pre h.system

def exec (address : Plugin → Nat) (h : PluginHotswap) : HotswapOp → PluginHotswap
  | convert changes evolution loads => h.convert address changes evolution loads
  | dispatch => h.dispatch
  | stopped target => h.stopped target
  | updated => { h with updating := false }
  | release plugin => h.release plugin

end HotswapOp

/-- The plugins of an artifact directory, from an empty one on. -/
def pluginHotswap (address : Plugin → Nat) : Machine PluginHotswap HotswapOp where
  init h := h = .initial
  pre := HotswapOp.Pre
  step := HotswapOp.exec address

/-! ### What a batch is converted to -/

namespace PluginLoader

variable {loads : Path → Bool} {pl : PluginLoader} {d : ArtifactDirectory}
  {c : Path × FileOperation} {cs : List (Path × FileOperation)} {q : Path}

/-- What is reported for a change while all plugins are in use. -/
def operation (pl : PluginLoader) : Path × FileOperation → Option PluginOperation
  | (path, .removed) => (pl.plugins path).map .removed
  | (path, .modified) =>
    match pl.plugins path with
    | some plugin => some (.modified plugin ⟨path, pl.generation⟩)
    | none => some (.added ⟨path, pl.generation⟩)
  | (path, .added) | (path, .renamed _) => some (.added ⟨path, pl.generation⟩)

/-- What is stored for a change. -/
def entry (pl : PluginLoader) (c : Path × FileOperation) : Option Plugin :=
  match c.2 with
  | .removed => none
  | _ => some ⟨c.1, pl.generation⟩

/-- Files are not renamed that were loaded. -/
def Unloaded (pl : PluginLoader) : Path × FileOperation → Prop
  | (path, .renamed old) => pl.plugins old = none ∧ pl.plugins path = none
  | _ => True

/-- The plugin of a changed file is in use. -/
def Used (pl : PluginLoader) (c : Path × FileOperation) : Prop :=
  ∀ plugin, pl.plugins c.1 = some plugin → pl.expired plugin = false

lemma Used.reloadable (h : pl.Used c) (hu : pl.Unloaded c) : pl.Reloadable c := by
  obtain ⟨path, op⟩ := c
  cases op with
  | added => trivial
  | removed => trivial
  | modified => exact h
  | renamed old => exact hu

lemma pluginChanges_convertChange (h : pl.Used c) (hu : pl.Unloaded c) :
    (pl.convertChange c).pluginChanges =
      pl.pluginChanges ++ ((pl.operation c).map (Prod.mk c.1)).toList := by
  obtain ⟨path, op⟩ := c
  cases op with
  | added => rfl
  | removed =>
    simp only [convertChange, remove, operation]
    cases hpl : pl.plugins path with
    | none => simp
    | some plugin => simp [h plugin hpl]
  | modified =>
    simp only [convertChange, reload, operation]
    cases hpl : pl.plugins path with
    | none => rfl
    | some plugin => simp [h plugin hpl]
  | renamed old =>
    simp only [convertChange, reload, hu.1, operation]
    rfl

lemma operation_congr {pl' : PluginLoader} (hq : pl'.plugins c.1 = pl.plugins c.1)
    (hg : pl'.generation = pl.generation) : pl'.operation c = pl.operation c := by
  obtain ⟨path, op⟩ := c
  cases op with
  | added | renamed old => simp only [operation, hg]
  | removed | modified =>
    simp only [operation, hg]
    rw [show pl'.plugins path = pl.plugins path from hq]

lemma entry_congr {pl' : PluginLoader} (hg : pl'.generation = pl.generation) :
    pl'.entry c = pl.entry c := by
  simp only [entry, hg]

lemma unloaded_congr {pl' : PluginLoader} (h : ∀ q ∈ touched c, pl'.plugins q = pl.plugins q)
    (hu : pl.Unloaded c) : pl'.Unloaded c := by
  obtain ⟨path, op⟩ := c
  cases op with
  | renamed old =>
    have hold : old ∈ touched (path, .renamed old) := by simp [touched]
    exact ⟨(h old hold).trans hu.1, (h path (fst_mem_touched (path, _))).trans hu.2⟩
  | added => trivial
  | removed => trivial
  | modified => trivial

variable (loads) in
/-- A batch changes the entries of its paths, and what is reported is known before the batch. -/
theorem Linked.foldl_operation (h : pl.Linked d) (hcs : (cs.flatMap touched).Nodup)
    (hp : ∀ c ∈ cs, d.Possible c) (hused : ∀ c ∈ cs, pl.Used c)
    (hu : ∀ c ∈ cs, pl.Unloaded c) (hload : ∀ c ∈ cs, Loads loads c = true) :
    (cs.foldl PluginLoader.convertChange pl).pluginChanges.map Prod.snd =
        pl.pluginChanges.map Prod.snd ++ cs.filterMap pl.operation ∧
      (∀ c ∈ cs, (cs.foldl PluginLoader.convertChange pl).plugins c.1 = pl.entry c) ∧
      ∀ q, q ∉ cs.map Prod.fst →
        (cs.foldl PluginLoader.convertChange pl).plugins q = pl.plugins q := by
  -- the first change touches no path of the others, so what they report is known before it
  induction cs generalizing pl d with
  | nil => exact ⟨by simp, by simp, fun _ _ => rfl⟩
  | cons c cs ih =>
    rw [List.flatMap_cons, List.nodup_append'] at hcs
    obtain ⟨-, hcs, hdisjoint⟩ := hcs
    have hpc := hp c List.mem_cons_self
    have huc := hused c List.mem_cons_self
    have hunl := hu c List.mem_cons_self
    have hlc : pl.Reloadable c := huc.reloadable hunl
    obtain ⟨hexpired, hgeneration, -⟩ := pl.convertChange_frame c
    have hne : ∀ q, q ≠ c.1 → (pl.convertChange c).plugins q = pl.plugins q :=
      fun q hq => plugins_convertChange_of_ne h hpc hlc hq
    have hother : ∀ x ∈ cs, ∀ q ∈ touched x, q ∉ touched c :=
      fun x hx q hq hqc => hdisjoint hqc (List.mem_flatMap.2 ⟨x, hx, hq⟩)
    have hrest : ∀ x ∈ cs, ∀ q ∈ touched x, q ≠ c.1 :=
      fun x hx q hq heq => hother x hx q hq (heq ▸ fst_mem_touched c)
    have hfst : ∀ x ∈ cs, x.1 ≠ c.1 := fun x hx => hrest x hx x.1 (fst_mem_touched x)
    obtain ⟨hops, hentries, houtside⟩ :=
      ih (h.convertChange hpc hlc (hload c List.mem_cons_self)) hcs
      (fun x hx => (ArtifactDirectory.possible_congr fun q hq =>
        (ArtifactDirectory.view_evolve_of_not_mem loads pl.generation d
          (hother x hx q hq)).symm).1 (hp x (List.mem_cons_of_mem _ hx)))
      (fun x hx plugin hplugin => by
        rw [hexpired]
        exact hused x (List.mem_cons_of_mem _ hx) plugin ((hne x.1 (hfst x hx)) ▸ hplugin))
      (fun x hx => unloaded_congr (fun q hq => hne q (hrest x hx q hq))
        (hu x (List.mem_cons_of_mem _ hx)))
      fun x hx => hload x (List.mem_cons_of_mem _ hx)
    refine ⟨?_, fun x hx => ?_, fun q hq => ?_⟩
    · rw [List.foldl_cons, hops, pluginChanges_convertChange huc hunl, List.map_append,
        List.append_assoc, List.filterMap_cons]
      congr 1
      have hrestops : cs.filterMap (pl.convertChange c).operation = cs.filterMap pl.operation :=
        List.filterMap_congr fun x hx => operation_congr (hne x.1 (hfst x hx)) hgeneration
      rw [hrestops]
      cases pl.operation c <;> rfl
    · rw [List.foldl_cons]
      rcases List.mem_cons.1 hx with rfl | hx
      · rw [houtside x.1 fun hmem => ?_]
        · rw [plugins_convertChange x hlc fun hop => ?_]
          · obtain ⟨path, op⟩ := x
            cases op <;> exact Function.update_self _ _ _
          · obtain ⟨path, op⟩ := x
            simp only at hop
            subst hop
            exact h.plugins_eq_none hpc
        · obtain ⟨y, hy, hyx⟩ := List.mem_map.1 hmem
          exact hfst y hy hyx
      · rw [hentries x hx, entry_congr hgeneration]
    · rw [List.map_cons, List.mem_cons, not_or] at hq
      rw [List.foldl_cons, houtside q hq.2, hne q hq.1]

/-! What the operation of a change says about the entry before and after it. -/

variable {op : PluginOperation} {plugin : Plugin}

lemma plugins_of_operation_old (h : pl.operation c = some op) (ho : op.old? = some plugin) :
    pl.plugins c.1 = some plugin := by
  obtain ⟨path, fileOp⟩ := c
  cases fileOp with
  | removed =>
    obtain ⟨p, hp, rfl⟩ := Option.map_eq_some_iff.1 h
    exact hp.trans ho
  | modified =>
    simp only [operation] at h
    split at h
    · rename_i p hp
      cases h
      exact hp.trans ho
    · cases h
      cases ho
  | added | renamed old =>
    cases h
    cases ho

lemma entry_of_operation_new (h : pl.operation c = some op) (hn : op.new? = some plugin) :
    plugin = ⟨c.1, pl.generation⟩ ∧ pl.entry c = some plugin := by
  obtain ⟨path, fileOp⟩ := c
  cases fileOp with
  | removed =>
    obtain ⟨p, hp, rfl⟩ := Option.map_eq_some_iff.1 h
    cases hn
  | modified =>
    simp only [operation] at h
    split at h <;> cases h <;> exact ⟨(Option.some.inj hn).symm, hn⟩
  | added | renamed old =>
    cases h
    exact ⟨(Option.some.inj hn).symm, hn⟩

/-- A plugin that is replaced or removed leaves the table. -/
lemma entry_of_operation_old (h : pl.operation c = some op) (ho : op.old? = some plugin) :
    pl.entry c = none ∨ pl.entry c = some ⟨c.1, pl.generation⟩ := by
  obtain ⟨path, fileOp⟩ := c
  cases fileOp with
  | removed => exact .inl rfl
  | modified => exact .inr rfl
  | added | renamed old =>
    cases h
    cases ho

lemma eq_of_entry (h : pl.entry c = some plugin) : plugin = ⟨c.1, pl.generation⟩ := by
  obtain ⟨path, fileOp⟩ := c
  cases fileOp with
  | removed => cases h
  | added | modified | renamed old => exact (Option.some.inj h).symm

/-- A plugin stays in the table if no operation names it as the old one. -/
lemma entry_of_plugins (hadded : c.2 = .added → pl.plugins c.1 = none) (hu : pl.Unloaded c)
    (hp : pl.plugins c.1 = some plugin)
    (h : ∀ op, pl.operation c = some op → op.old? ≠ some plugin) :
    pl.entry c = some plugin := by
  obtain ⟨path, fileOp⟩ := c
  cases fileOp with
  | added => exact absurd ((hadded rfl).symm.trans hp) (by simp)
  | renamed old => exact absurd (hu.2.symm.trans hp) (by simp)
  | removed => exact absurd rfl (h (.removed plugin) (Option.map_eq_some_iff.2 ⟨plugin, hp, rfl⟩))
  | modified =>
    refine absurd rfl (h (.modified plugin ⟨path, pl.generation⟩) ?_)
    simp only [operation, show pl.plugins path = some plugin from hp]

/-- What is in the table afterwards was there before or is the new plugin of an operation. -/
lemma plugins_of_entry (hp : pl.entry c = some plugin)
    (h : ∀ op, pl.operation c = some op → op.new? ≠ some plugin) :
    pl.plugins c.1 = some plugin := by
  obtain ⟨path, fileOp⟩ := c
  cases fileOp with
  | removed => cases hp
  | modified =>
    cases hpl : pl.plugins path with
    | none =>
      refine absurd hp (h (.added ⟨path, pl.generation⟩) ?_)
      simp only [operation, hpl]
    | some old =>
      refine absurd hp (h (.modified old ⟨path, pl.generation⟩) ?_)
      simp only [operation, hpl]
  | added | renamed old => exact absurd hp (h (.added ⟨path, pl.generation⟩) rfl)

end PluginLoader

/-! ### Bundles and the table of the loader -/

/-- Once the operations are dispatched, the plugins with a bundle are those of the table. -/
structure Due (bundles : Plugin → Option Nat) (plugins : Path → Option Plugin)
    (operations : List PluginOperation) : Prop where
  apart : (operations.flatMap PluginOperation.plugins).Nodup
  fresh : ∀ op ∈ operations, ∀ p, op.new? = some p → bundles p = none ∧ plugins p.path = some p
  stale : ∀ op ∈ operations, ∀ p, op.old? = some p →
    (bundles p).isSome ∧ plugins p.path ≠ some p
  settled : ∀ p, p ∉ operations.flatMap PluginOperation.plugins →
    ((bundles p).isSome ↔ plugins p.path = some p)

namespace Due

variable {bundles : Plugin → Option Nat} {plugins : Path → Option Plugin}
  {operations operations' : List PluginOperation} {op : PluginOperation} {p : Plugin}

lemma mem_plugins_of_new (h : op.new? = some p) : p ∈ op.plugins := by
  simp [PluginOperation.plugins, h]

lemma mem_plugins_of_old (h : op.old? = some p) : p ∈ op.plugins := by
  simp [PluginOperation.plugins, h]

lemma mem_plugins : p ∈ op.plugins ↔ op.old? = some p ∨ op.new? = some p := by
  simp [PluginOperation.plugins, eq_comm]

/-- The order of the operations does not matter. -/
lemma perm (h : Due bundles plugins operations) (hp : operations.Perm operations') :
    Due bundles plugins operations' := by
  have hplugins := hp.flatMap_right PluginOperation.plugins
  refine ⟨hplugins.nodup_iff.1 h.apart, fun op hop => h.fresh op (hp.mem_iff.2 hop),
    fun op hop => h.stale op (hp.mem_iff.2 hop), fun p hmem => h.settled p fun hmem' => ?_⟩
  exact hmem (hplugins.mem_iff.1 hmem')

lemma not_mem_rest (h : Due bundles plugins (op :: operations)) (hp : p ∈ op.plugins) :
    p ∉ operations.flatMap PluginOperation.plugins := by
  have hapart := h.apart
  rw [List.flatMap_cons, List.nodup_append'] at hapart
  exact fun hmem => hapart.2.2 hp hmem

/-- A step that drops the old plugin, enters the new one and keeps the others. -/
lemma tail {bundles' : Plugin → Option Nat} (h : Due bundles plugins (op :: operations))
    (hold : ∀ p, op.old? = some p → bundles' p = none)
    (hnew : ∀ p, op.new? = some p → (bundles' p).isSome)
    (hother : ∀ p, p ∉ op.plugins → bundles' p = bundles p) : Due bundles' plugins operations := by
  have hapart := h.apart
  rw [List.flatMap_cons, List.nodup_append'] at hapart
  have hmem : ∀ op' ∈ operations, ∀ p ∈ op'.plugins, bundles' p = bundles p :=
    fun op' hop' p hp => hother p fun hp' =>
      hapart.2.2 hp' (List.mem_flatMap.2 ⟨op', hop', hp⟩)
  refine ⟨hapart.2.1, fun op' hop' p hp => ?_, fun op' hop' p hp => ?_, fun p hp => ?_⟩
  · rw [hmem op' hop' p (mem_plugins_of_new hp)]
    exact h.fresh op' (List.mem_cons_of_mem _ hop') p hp
  · rw [hmem op' hop' p (mem_plugins_of_old hp)]
    exact h.stale op' (List.mem_cons_of_mem _ hop') p hp
  · by_cases hop : p ∈ op.plugins
    · rcases mem_plugins.1 hop with hop | hop
      · have htable := (h.stale op List.mem_cons_self p hop).2
        simp [hold p hop, htable]
      · have htable := (h.fresh op List.mem_cons_self p hop).2
        simp [hnew p hop, htable]
    · rw [hother p hop]
      refine h.settled p fun hmem' => ?_
      rw [List.flatMap_cons] at hmem'
      exact (List.mem_append.1 hmem').elim hop hp

end Due

/-! ### One operation -/

namespace PluginHotswap

variable {h : PluginHotswap} {op : PluginOperation} {operations : List PluginOperation}
  {p source target : Plugin} {address : Plugin → Nat}

/-- A new version has the name of the old one and comes first in its registry. -/
def Fronts (h : PluginHotswap) : PluginOperation → Prop
  | .modified source target => source.path.filename = target.path.filename ∧
      (h.interfaces target.path.filename).head? = some target
  | _ => True

/-- What holds while operations are still to be dispatched. -/
structure Sound (h : PluginHotswap) (operations : List PluginOperation) : Prop where
  linked : h.system.loader.Linked h.system.directory
  entries : ∀ path p, h.system.loader.plugins path = some p → p.path = path ∧
    p.generation ≤ h.system.loader.generation ∧ h.system.loader.expired p = false
  known : ∀ name, ∀ p ∈ h.interfaces name, p.generation ≤ h.system.loader.generation
  past : ∀ p, h.system.loader.expired p = true → p.generation ≤ h.system.loader.generation
  due : Due h.bundles h.system.loader.plugins operations
  fronts : ∀ op ∈ operations, h.Fronts op
  pending : ∀ p ∈ h.pending, (h.bundles p).isSome ∧
    p ∉ operations.flatMap PluginOperation.plugins
  started : ∀ e ∈ h.started, e.Current
  succeeded : h.failed = false

lemma insertBundle_of_none {bundles : Plugin → Option Nat} {bundle : Nat}
    (hp : bundles p = none) :
    insertBundle bundles p bundle = Function.update bundles p (some bundle) := by
  simp [insertBundle, hp]

/-- What an operation of the loop leaves alone, and what it does to the bundles of others. -/
lemma Sound.step {h' : PluginHotswap} (hs : h.Sound (op :: operations))
    (hsystem : h'.system = h.system) (hinterfaces : h'.interfaces = h.interfaces)
    (hold : ∀ p, op.old? = some p → h'.bundles p = none)
    (hnew : ∀ p, op.new? = some p → (h'.bundles p).isSome)
    (hother : ∀ p, p ∉ op.plugins → h'.bundles p = h.bundles p)
    (hpending : ∀ p ∈ h'.pending, p ∈ h.pending ∨ op.new? = some p)
    (hstarted : ∀ e ∈ h'.started, e.Current) (hfailed : h'.failed = false) :
    h'.Sound operations := by
  have hdue := hs.due.tail hold hnew hother
  refine ⟨hsystem ▸ hs.linked, hsystem ▸ hs.entries, ?_, hsystem ▸ hs.past, hsystem ▸ hdue, ?_, ?_,
    hstarted, hfailed⟩
  · rw [hsystem, hinterfaces]
    exact hs.known
  · intro op' hop'
    have := hs.fronts op' (List.mem_cons_of_mem _ hop')
    cases op' with
    | modified source target => exact ⟨this.1, hinterfaces ▸ this.2⟩
    | added => trivial
    | removed => trivial
  · intro p hp
    rcases hpending p hp with hp | hp
    · obtain ⟨hsome, hrest⟩ := hs.pending p hp
      rw [List.flatMap_cons, List.mem_append, not_or] at hrest
      exact ⟨hother p hrest.1 ▸ hsome, hrest.2⟩
    · exact ⟨hnew p hp, hs.due.not_mem_rest (Due.mem_plugins_of_new hp)⟩

lemma Sound.dispatchAdded (hs : h.Sound (.added source :: operations)) :
    (h.dispatchAdded source).Sound operations := by
  obtain ⟨hnone, htable⟩ := hs.due.fresh _ List.mem_cons_self source rfl
  have hbundles : (h.dispatchAdded source).bundles =
      Function.update h.bundles source (some h.created) := insertBundle_of_none hnone
  refine hs.step rfl rfl (fun p hp => ?_) (fun p hp => ?_) (fun p hp => ?_)
    (fun p hp => .inl hp) (fun e he => ?_) ?_
  · cases hp
  · obtain rfl : source = p := by simpa [PluginOperation.new?] using hp
    rw [hbundles, Function.update_self]
    rfl
  · rw [hbundles, Function.update_of_ne]
    rintro rfl
    exact hp (Due.mem_plugins_of_new rfl)
  · rcases List.mem_cons.1 he with rfl | he
    · refine ⟨?_, htable⟩
      show insertBundle h.bundles source h.created source = some h.created
      rw [insertBundle_of_none hnone, Function.update_self]
    · exact hs.started e he
  · show (h.failed || (h.bundles source).isSome) = false
    rw [hs.succeeded, hnone]
    rfl

lemma Sound.dispatchRemoved (hs : h.Sound (.removed source :: operations)) :
    (h.dispatchRemoved source).Sound operations := by
  refine hs.step rfl rfl (fun p hp => ?_) (fun p hp => ?_) (fun p hp => ?_)
    (fun p hp => .inl hp) hs.started hs.succeeded
  · obtain rfl : source = p := by simpa [PluginOperation.old?] using hp
    exact Function.update_self _ _ _
  · cases hp
  · refine Function.update_of_ne ?_ _ _
    rintro rfl
    exact hp (Due.mem_plugins_of_old rfl)

lemma Sound.dispatchModified (hs : h.Sound (.modified source target :: operations)) :
    (h.dispatchModified source target).Sound operations := by
  obtain ⟨hnone, htable⟩ := hs.due.fresh _ List.mem_cons_self target rfl
  obtain ⟨hsome, -⟩ := hs.due.stale _ List.mem_cons_self source rfl
  obtain ⟨hname, hhead⟩ := hs.fronts _ List.mem_cons_self
  have hne : source ≠ target := by
    rintro rfl
    rw [hnone] at hsome
    cases hsome
  obtain ⟨other, hinterfaces⟩ := List.head?_eq_some_iff.1 hhead
  -- the new version comes first, so the bundles are exchanged
  have hbundles : insertBundle (Function.update h.bundles source none) target h.created =
      Function.update (Function.update h.bundles source none) target (some h.created) :=
    insertBundle_of_none ((Function.update_of_ne hne.symm _ _).trans hnone)
  have hold : ∀ p, (PluginOperation.modified source target).old? = some p →
      insertBundle (Function.update h.bundles source none) target h.created p = none := by
    intro p hp
    obtain rfl : source = p := by simpa [PluginOperation.old?] using hp
    rw [hbundles, Function.update_of_ne hne, Function.update_self]
  have hnew : ∀ p, (PluginOperation.modified source target).new? = some p →
      (insertBundle (Function.update h.bundles source none) target h.created p).isSome := by
    intro p hp
    obtain rfl : target = p := by simpa [PluginOperation.new?] using hp
    rw [hbundles, Function.update_self]
    rfl
  have hother : ∀ p, p ∉ (PluginOperation.modified source target).plugins →
      insertBundle (Function.update h.bundles source none) target h.created p = h.bundles p := by
    intro p hp
    rw [hbundles, Function.update_of_ne, Function.update_of_ne]
    · rintro rfl
      exact hp (Due.mem_plugins_of_old rfl)
    · rintro rfl
      exact hp (Due.mem_plugins_of_new rfl)
  have hguard : ¬(source.path.filename ≠ target.path.filename ∨ source = target) :=
    not_or.2 ⟨not_not.2 hname, hne⟩
  rw [PluginHotswap.dispatchModified, if_neg hguard, hname, hinterfaces]
  simp only [ne_eq, not_true_eq_false, if_false]
  cases other with
  | nil =>
    refine hs.step rfl rfl hold hnew hother (fun p hp => .inl hp) (fun e he => ?_) hs.succeeded
    rcases List.mem_cons.1 he with rfl | he
    · refine ⟨?_, htable⟩
      show insertBundle (Function.update h.bundles source none) target h.created target = _
      rw [hbundles, Function.update_self]
    · exact hs.started e he
  | cons =>
    refine hs.step rfl rfl hold hnew hother (fun p hp => ?_) hs.started hs.succeeded
    rcases List.mem_append.1 hp with hp | hp
    · exact .inl hp
    · rw [List.mem_singleton.1 hp]
      exact .inr rfl

/-- An operation of a batch, whatever has been dispatched before. -/
theorem Sound.dispatchOp (hs : h.Sound (op :: operations)) :
    (h.dispatchOp op).Sound operations := by
  cases op with
  | added source => exact hs.dispatchAdded
  | removed source => exact hs.dispatchRemoved
  | modified source target => exact hs.dispatchModified

lemma Sound.foldl_dispatchOp (hs : h.Sound operations) :
    (operations.foldl PluginHotswap.dispatchOp h).Sound [] := by
  induction operations generalizing h with
  | nil => exact hs
  | cons op operations ih => exact ih hs.dispatchOp

/-! ### A whole batch -/

lemma Sound.perm {operations' : List PluginOperation} (hs : h.Sound operations)
    (hp : operations.Perm operations') : h.Sound operations' :=
  { hs with
    due := hs.due.perm hp
    fronts := fun op hop => hs.fronts op (hp.mem_iff.2 hop)
    pending := fun p hmem => ⟨(hs.pending p hmem).1, fun hin => (hs.pending p hmem).2
      ((hp.flatMap_right PluginOperation.plugins).mem_iff.2 hin)⟩ }

/-- No operation is lost, and none is dispatched twice. -/
lemma ordered_perm (operations : List PluginOperation) :
    operations.Perm (ordered operations) := by
  have hthree : ∀ ops : List PluginOperation, ops.Perm
      (ops.filter PluginOperation.isAdded ++
        (ops.filter PluginOperation.isRemoved ++ ops.filter PluginOperation.isModified)) := by
    intro ops
    refine (List.filter_append_perm PluginOperation.isAdded ops).symm.trans
      (List.Perm.append_left _ ?_)
    refine (List.filter_append_perm PluginOperation.isRemoved _).symm.trans
      (List.Perm.append ?_ ?_)
    · rw [List.filter_filter]
      refine .of_eq (List.filter_congr fun op _ => ?_)
      cases op <;> rfl
    · rw [List.filter_filter]
      refine .of_eq (List.filter_congr fun op _ => ?_)
      cases op <;> rfl
  cases operations with
  | nil => exact .refl _
  | cons op operations =>
    cases operations with
    | nil => exact .refl _
    | cons op' operations => exact hthree _

theorem Sound.dispatch (hs : h.Sound h.changes) : h.dispatch.Sound [] := by
  have hs' := (hs.perm (ordered_perm h.changes)).foldl_dispatchOp
  exact ⟨hs'.linked, hs'.entries, hs'.known, hs'.past, hs'.due, by simp, hs'.pending, hs'.started,
    hs'.succeeded⟩

/-! ### A batch of the loader -/

section Batch

variable {loads : Path → Bool} {pl : PluginLoader} {d : ArtifactDirectory}
  {c : Path × FileOperation} {cs : List (Path × FileOperation)}
  {bundles : Plugin → Option Nat} {plugins' : Path → Option Plugin}

lemma path_of_mem_operation (hnamed : ∀ path p, pl.plugins path = some p → p.path = path ∧
    p.generation < pl.generation) (hop : pl.operation c = some op) (hp : p ∈ op.plugins) :
    p.path = c.1 := by
  rcases Due.mem_plugins.1 hp with hp | hp
  · exact (hnamed _ _ (PluginLoader.plugins_of_operation_old hop hp)).1
  · rw [(PluginLoader.entry_of_operation_new hop hp).1]

lemma nodup_operation (hnamed : ∀ path p, pl.plugins path = some p → p.path = path ∧
    p.generation < pl.generation) (hop : pl.operation c = some op) : op.plugins.Nodup := by
  cases op with
  | added source => simp [PluginOperation.plugins, PluginOperation.old?, PluginOperation.new?]
  | removed source => simp [PluginOperation.plugins, PluginOperation.old?, PluginOperation.new?]
  | modified source target =>
    have hold := (hnamed _ _ (PluginLoader.plugins_of_operation_old hop rfl)).2
    have hnew := (PluginLoader.entry_of_operation_new hop rfl).1
    have hne : source ≠ target := by
      rintro rfl
      rw [hnew] at hold
      exact absurd hold (lt_irrefl _)
    simpa [PluginOperation.plugins, PluginOperation.old?, PluginOperation.new?] using hne

/-- The bundles are those of the table before the batch, and the operations lead to the table after
it. -/
lemma due_batch (hlinked : pl.Linked d) (hcs : (cs.flatMap touched).Nodup)
    (hp : ∀ c ∈ cs, d.Possible c) (hu : ∀ c ∈ cs, pl.Unloaded c)
    (hnamed : ∀ path p, pl.plugins path = some p → p.path = path ∧
      p.generation < pl.generation)
    (hbundles : ∀ p, (bundles p).isSome ↔ pl.plugins p.path = some p)
    (hentries : ∀ c ∈ cs, plugins' c.1 = pl.entry c)
    (houtside : ∀ q, q ∉ cs.map Prod.fst → plugins' q = pl.plugins q) :
    Due bundles plugins' (cs.filterMap pl.operation) := by
  have hdistinct : cs.Pairwise fun x y => x.1 ≠ y.1 := by
    refine (List.nodup_flatMap.1 hcs).2.imp fun hxy heq => ?_
    exact hxy (fst_mem_touched _) (heq ▸ fst_mem_touched _)
  have hof : ∀ op ∈ cs.filterMap pl.operation,
      ∃ c ∈ cs, pl.operation c = some op := fun op hop => List.mem_filterMap.1 hop
  -- different changes report different plugins, since their paths differ
  refine ⟨?_, fun op hop p hp => ?_, fun op hop p hp => ?_, fun p hmem => ?_⟩
  · refine List.nodup_flatMap.2 ⟨fun op hop => ?_, List.pairwise_filterMap.2 ?_⟩
    · obtain ⟨c, -, hc⟩ := hof op hop
      exact nodup_operation hnamed hc
    · refine hdistinct.imp fun {x y} hxy op hop op' hop' p hp hp' => ?_
      exact hxy ((path_of_mem_operation hnamed hop hp).symm.trans
        (path_of_mem_operation hnamed hop' hp'))
  · obtain ⟨c, hc, hop⟩ := hof op hop
    obtain ⟨rfl, hentry⟩ := PluginLoader.entry_of_operation_new hop hp
    refine ⟨Option.not_isSome_iff_eq_none.1 fun hsome => ?_, (hentries c hc).trans hentry⟩
    exact absurd (hnamed _ _ ((hbundles _).1 hsome)).2 (lt_irrefl _)
  · obtain ⟨c, hc, hop⟩ := hof op hop
    have htable := PluginLoader.plugins_of_operation_old hop hp
    obtain ⟨hpath, hlt⟩ := hnamed _ _ htable
    refine ⟨(hbundles p).2 (hpath ▸ htable), fun hcurrent => ?_⟩
    rw [hpath, hentries c hc] at hcurrent
    rcases PluginLoader.entry_of_operation_old hop hp with hentry | hentry
    · exact absurd (hentry.symm.trans hcurrent) (by simp)
    · have heq := Option.some.inj (hentry.symm.trans hcurrent)
      rw [← heq] at hlt
      exact lt_irrefl _ hlt
  · rw [hbundles p]
    by_cases hkey : p.path ∈ cs.map Prod.fst
    · obtain ⟨c, hc, hpath⟩ := List.mem_map.1 hkey
      have hnot : ∀ op, pl.operation c = some op → p ∉ op.plugins := fun op hop hin =>
        hmem (List.mem_flatMap.2 ⟨op, List.mem_filterMap.2 ⟨c, hc, hop⟩, hin⟩)
      rw [← hpath, hentries c hc]
      constructor
      · intro htable
        refine PluginLoader.entry_of_plugins (fun hadded => ?_) (hu c hc) htable
          fun op hop hold => hnot op hop (Due.mem_plugins_of_old hold)
        have hpossible := hp c hc
        obtain ⟨path, fileOp⟩ := c
        simp only at hadded
        subst hadded
        exact hlinked.plugins_eq_none hpossible
      · exact fun hentry => PluginLoader.plugins_of_entry hentry
          fun op hop hnew => hnot op hop (Due.mem_plugins_of_new hnew)
    · rw [houtside _ hkey]

/-! Registering the new plugins of a batch. -/

variable {interfaces : Path → List Plugin} {ps : List Plugin} {name : Path}

lemma mem_register : p ∈ register address interfaces source name →
    p ∈ interfaces name ∨ p = source := by
  intro hp
  by_cases hname : name = source.path.filename
  · rw [register, hname, Function.update_self, Ranking.mem_insertSorted] at hp
    exact hname ▸ hp.symm
  · rw [register, Function.update_of_ne hname] at hp
    exact .inl hp

lemma mem_foldl_register (hp : p ∈ ps.foldl (register address) interfaces name) :
    p ∈ interfaces name ∨ p ∈ ps := by
  induction ps generalizing interfaces with
  | nil => exact .inl hp
  | cons q ps ih =>
    rcases ih hp with hp | hp
    · rcases mem_register hp with hp | rfl
      · exact .inl hp
      · exact .inr List.mem_cons_self
    · exact .inr (List.mem_cons_of_mem _ hp)

lemma foldl_register_of_not_mem (hname : name ∉ ps.map fun p => p.path.filename) :
    ps.foldl (register address) interfaces name = interfaces name := by
  induction ps generalizing interfaces with
  | nil => rfl
  | cons q ps ih =>
    rw [List.map_cons, List.mem_cons, not_or] at hname
    exact (ih hname.2).trans (Function.update_of_ne hname.1 _ _)

/-- A plugin of a later generation is the first one of its registry. -/
lemma head?_register (h : ∀ q ∈ interfaces p.path.filename, q.generation < p.generation) :
    (register address interfaces p p.path.filename).head? = some p := by
  rw [register, Function.update_self]
  cases hl : interfaces p.path.filename with
  | nil => rfl
  | cons q l =>
    have hlt : q.generation < p.generation := h q (hl ▸ List.mem_cons_self)
    have hne : q ≠ p := by
      rintro rfl
      exact lt_irrefl _ hlt
    have hpred : (Plugin.ranking address).greaterPred q p = false := by
      simp [Ranking.greaterPred, Ranking.uniqueGreaterPred, Plugin.ranking, hne, hlt,
        Nat.not_lt.2 hlt.le]
    simp [Ranking.insertSorted, List.orderedInsert_cons, hpred]

lemma head?_foldl_register (hps : (ps.map fun p => p.path.filename).Nodup) (hp : p ∈ ps)
    (h : ∀ q ∈ interfaces p.path.filename, q.generation < p.generation) :
    (ps.foldl (register address) interfaces p.path.filename).head? = some p := by
  induction ps generalizing interfaces with
  | nil => cases hp
  | cons q ps ih =>
    rw [List.map_cons, List.nodup_cons] at hps
    rw [List.foldl_cons]
    rcases List.mem_cons.1 hp with rfl | hp
    · rw [foldl_register_of_not_mem hps.1]
      exact head?_register h
    · refine ih hps.2 hp fun q' hq' => ?_
      have hne : p.path.filename ≠ q.path.filename :=
        fun heq => hps.1 (heq ▸ List.mem_map_of_mem hp)
      rw [register, Function.update_of_ne hne] at hq'
      exact h q' hq'

/-- The new plugins of a batch are named like the files that have changed. -/
lemma filename_sublist : (((cs.filterMap pl.operation).filterMap
    PluginOperation.new?).map fun p => p.path.filename).Sublist
      (cs.map fun c => c.1.filename) := by
  induction cs with
  | nil => exact .slnil
  | cons c cs ih =>
    rw [List.filterMap_cons, List.map_cons]
    cases hop : pl.operation c with
    | none => exact ih.cons _
    | some op =>
      simp only [List.filterMap_cons]
      cases hnew : op.new? with
      | none => exact ih.cons _
      | some p =>
        simp only [List.map_cons, (PluginLoader.entry_of_operation_new hop hnew).1]
        exact ih.cons_cons _

end Batch

/-! ### The steps of the system -/

/-- The changes of a batch are about different paths, files with different names, and none is
renamed that was loaded. -/
structure Distinct (h : PluginHotswap) (changes : List (Path × FileOperation)) : Prop where
  apart : (changes.flatMap touched).Nodup
  names : (changes.map fun c => c.1.filename).Nodup
  unloaded : ∀ c ∈ changes, h.system.loader.Unloaded c

/-- What is asked of an operation. -/
def Swappable (h : PluginHotswap) : HotswapOp → Prop
  | .convert changes _ _ => h.Distinct changes
  | _ => True

/-- Between two steps. -/
structure Swapping (h : PluginHotswap) : Prop where
  sound : h.Sound h.changes
  idle : h.updating = false → h.pending = []

/-- A batch whose libraries can all be loaded. -/
lemma Sound.convert {changes evolution : List (Path × FileOperation)} {loads : Path → Bool}
    (hs : h.Sound []) (hpending : h.pending = [])
    (hpre : (PluginOp.convert changes evolution loads).Pre h.system)
    (hop : h.Distinct changes) (hall : changes.all (PluginLoader.Loads loads) = true) :
    (h.convert address changes evolution loads).Sound
      (h.convert address changes evolution loads).changes := by
  obtain ⟨hperm, -, hevolves⟩ := hpre
  obtain ⟨hapart, hnames, hunloaded⟩ := hop
  have hapart' : (evolution.flatMap touched).Nodup :=
    (hperm.flatMap_right touched).nodup_iff.1 hapart
  have hpossible : ∀ c ∈ changes, h.system.directory.Possible c :=
    fun c hc => hevolves.possible _ _ hapart' c (hperm.mem_iff.1 hc)
  -- the loader as the loop of `convert` finds it
  set pl : PluginLoader := { h.system.loader with
    generation := h.system.loader.generation + 1
    pluginChanges := []
    sideloadBan := changes.foldl PluginLoader.updateSideloadBan h.system.loader.sideloadBan }
    with hpl
  have hlinked : pl.Linked h.system.directory := ⟨hs.linked.entries, hs.linked.absent⟩
  have hnamed : ∀ path p, pl.plugins path = some p → p.path = path ∧
      p.generation < pl.generation := fun path p hp =>
    ⟨(hs.entries path p hp).1, Nat.lt_succ_of_le (hs.entries path p hp).2.1⟩
  have hused : ∀ c ∈ changes, pl.Used c := fun c _ p hp => (hs.entries c.1 p hp).2.2
  have hunl : ∀ c ∈ changes, pl.Unloaded c :=
    fun c hc => PluginLoader.unloaded_congr (fun _ _ => rfl) (hunloaded c hc)
  -- every library can be loaded, so the loop gets to the end of the batch
  have hsame : PluginLoader.converted loads changes = changes :=
    List.takeWhile_eq_self_iff.2 (by simpa using hall)
  have hload : ∀ c ∈ changes, PluginLoader.Loads (PluginLoader.succeeded loads changes) c = true :=
    fun c hc => PluginLoader.loads_of_mem_converted (hsame.symm ▸ hc)
  obtain ⟨hops, hentries, houtside⟩ :=
    hlinked.foldl_operation _ hapart hpossible hused hunl hload
  obtain ⟨hlinked', -, hexpired, hgeneration, -, -⟩ := hlinked.foldl_convertChange _ hapart
    hpossible (fun c hc => (hused c hc).reloadable (hunl c hc)) hload (by simp [hpl])
  set loader := changes.foldl PluginLoader.convertChange pl with hloader
  have hconvert : (h.convert address changes evolution loads).system.loader = loader := by
    show h.system.loader.convert loads changes = loader
    rw [PluginLoader.convert, PluginLoader.convertLoop_eq, hsame]
    exact if_pos hall
  have hreported : (h.system.convert changes evolution loads).loader.pluginChanges.map Prod.snd =
      changes.filterMap pl.operation :=
    (congrArg (fun l : PluginLoader => l.pluginChanges.map Prod.snd) hconvert).trans hops
  have hchanges : (h.convert address changes evolution loads).changes =
      changes.filterMap pl.operation := hreported
  have hdirectory : (h.convert address changes evolution loads).system.directory =
      changes.foldl (ArtifactDirectory.evolve (PluginLoader.succeeded loads changes)
        pl.generation) h.system.directory := by
    rw [ArtifactDirectory.foldl_evolve_perm _ pl.generation hperm hapart h.system.directory,
      ← hgeneration, ← hconvert]
    rfl
  -- a plugin of this generation is new and has not expired
  have hfresh : ∀ c : Path × FileOperation, pl.expired ⟨c.1, pl.generation⟩ = false := by
    intro c
    refine Bool.eq_false_iff.2 fun hexp => ?_
    exact absurd (hs.past _ hexp) (Nat.not_succ_le_self _)
  have hbundles : ∀ p, (h.bundles p).isSome ↔ pl.plugins p.path = some p :=
    fun p => hs.due.settled p (by simp)
  have hdue : Due h.bundles loader.plugins (changes.filterMap pl.operation) :=
    due_batch hlinked hapart hpossible hunl hnamed hbundles hentries houtside
  -- one goal for each field of `Sound`, in the order of the structure
  rw [hchanges]
  refine ⟨?_, fun path p hp => ?_, fun name p hp => ?_, fun p hp => ?_, ?_, fun op hop => ?_,
    fun p hp => ?_, hs.started, hs.succeeded⟩
  · rw [hdirectory, hconvert]
    exact hlinked'
  · rw [hconvert] at hp ⊢
    rw [hgeneration, hexpired]
    have hkept : ∀ path p, h.system.loader.plugins path = some p → p.path = path ∧
        p.generation ≤ pl.generation ∧ pl.expired p = false := fun path p hp =>
      ⟨(hs.entries path p hp).1, Nat.le_succ_of_le (hs.entries path p hp).2.1,
        (hs.entries path p hp).2.2⟩
    by_cases hkey : path ∈ changes.map Prod.fst
    · obtain ⟨c, hc, rfl⟩ := List.mem_map.1 hkey
      obtain rfl := PluginLoader.eq_of_entry ((hentries c hc).symm.trans hp)
      exact ⟨rfl, le_rfl, hfresh c⟩
    · exact hkept _ _ ((houtside path hkey).symm.trans hp)
  · rw [hconvert, hgeneration]
    rcases mem_foldl_register hp with hp | hp
    · exact Nat.le_succ_of_le (hs.known name p hp)
    · obtain ⟨op, hop, hnew⟩ := List.mem_filterMap.1 hp
      rw [hreported] at hop
      obtain ⟨c, -, hc⟩ := List.mem_filterMap.1 hop
      rw [(PluginLoader.entry_of_operation_new hc hnew).1]
  · rw [hconvert] at hp ⊢
    rw [hgeneration]
    exact Nat.le_succ_of_le (hs.past p (hexpired ▸ hp))
  · rw [hconvert]
    exact hdue
  · cases op with
    | added => trivial
    | removed => trivial
    | modified source target =>
      obtain ⟨c, hc, hopc⟩ := List.mem_filterMap.1 hop
      have hsource := path_of_mem_operation hnamed hopc (Due.mem_plugins_of_old rfl)
      obtain ⟨htarget, -⟩ := PluginLoader.entry_of_operation_new hopc rfl
      have hnews : (((changes.filterMap pl.operation).filterMap
          PluginOperation.new?).map fun p => p.path.filename).Nodup := filename_sublist.nodup hnames
      have hin : target ∈ (changes.filterMap pl.operation).filterMap
          PluginOperation.new? := List.mem_filterMap.2 ⟨_, hop, rfl⟩
      refine ⟨by rw [hsource, htarget], ?_⟩
      show ((((h.system.convert changes evolution loads).loader.pluginChanges.map
        Prod.snd).filterMap PluginOperation.new?).foldl (register address) h.interfaces
          target.path.filename).head? = some target
      rw [hreported]
      refine head?_foldl_register hnews hin fun q hq => ?_
      rw [htarget]
      exact Nat.lt_succ_of_le (hs.known _ q hq)
  · rw [show (h.convert address changes evolution loads).pending = [] from hpending] at hp
    cases hp

lemma Swapping.stopped (hs : h.Swapping) (hp : target ∈ h.pending) :
    (h.stopped target).Swapping := by
  obtain ⟨hsome, hnot⟩ := hs.sound.pending target hp
  have htable := (hs.sound.due.settled target hnot).1 hsome
  obtain ⟨-, -, hexpired⟩ := hs.sound.entries _ _ htable
  obtain ⟨bundle, hbundle⟩ := Option.isSome_iff_exists.1 hsome
  have hsub : ∀ p ∈ h.pending.erase target, p ∈ h.pending := fun p => List.mem_of_mem_erase
  simp only [PluginHotswap.stopped, hexpired, Bool.false_eq_true, if_false, hbundle]
  refine ⟨⟨hs.sound.linked, hs.sound.entries, hs.sound.known, hs.sound.past, hs.sound.due, ?_,
    fun p hmem => hs.sound.pending p (hsub p hmem), fun e he => ?_, hs.sound.succeeded⟩,
    fun hidle => ?_⟩
  · intro op hop
    have hfront := hs.sound.fronts op hop
    cases op <;> exact hfront
  · rcases List.mem_cons.1 he with rfl | he
    · exact ⟨hbundle, htable⟩
    · exact hs.sound.started e he
  · have hnil : h.pending = [] := hs.idle hidle
    show h.pending.erase target = []
    rw [hnil]
    rfl

lemma Swapping.release (hs : h.Swapping) (hp : h.bundles p = none)
    (hnot : p ∉ h.changes.flatMap PluginOperation.plugins)
    (hgeneration : p.generation ≤ h.system.loader.generation) : (h.release p).Swapping := by
  -- no bundle and no change to come holds the plugin, so it is not in the table
  have htable : ∀ path, h.system.loader.plugins path ≠ some p := by
    intro path heq
    have hpath := (hs.sound.entries path p heq).1
    have hsome := (hs.sound.due.settled p hnot).2 (hpath ▸ heq)
    rw [hp] at hsome
    cases hsome
  refine ⟨⟨⟨hs.sound.linked.entries, hs.sound.linked.absent⟩, fun path q hq => ?_,
    fun name q hq => ?_, fun q hq => ?_, hs.sound.due, fun op hop => ?_, hs.sound.pending,
    hs.sound.started, hs.sound.succeeded⟩, hs.idle⟩
  · obtain ⟨hpath, hle, hexpired⟩ := hs.sound.entries path q hq
    refine ⟨hpath, hle, ?_⟩
    have hne : q ≠ p := fun heq => htable path (heq ▸ hq)
    exact (Function.update_of_ne hne _ _).trans hexpired
  · refine hs.sound.known name q ?_
    by_cases hname : name = p.path.filename
    · simp only [PluginHotswap.release, hname, Function.update_self] at hq
      exact hname ▸ List.mem_of_mem_erase hq
    · simpa only [PluginHotswap.release, Function.update_of_ne hname] using hq
  · by_cases hqp : q = p
    · exact hqp ▸ hgeneration
    · exact hs.sound.past q ((Function.update_of_ne hqp _ _).symm.trans hq)
  · have hfront := hs.sound.fronts op hop
    cases op with
    | added => trivial
    | removed => trivial
    | modified source target =>
      refine ⟨hfront.1, ?_⟩
      have hne : target ≠ p := fun heq => hnot
        (List.mem_flatMap.2 ⟨_, hop, heq ▸ Due.mem_plugins_of_new rfl⟩)
      obtain ⟨other, hinterfaces⟩ := List.head?_eq_some_iff.1 hfront.2
      by_cases hname : target.path.filename = p.path.filename
      · simp only [PluginHotswap.release, hname, Function.update_self]
        rw [← hname, hinterfaces, List.erase_cons_tail (by simpa using hne)]
        rfl
      · simpa only [PluginHotswap.release, Function.update_of_ne hname] using hfront.2

lemma swapping_initial : initial.Swapping := by
  refine ⟨⟨⟨?_, ?_⟩, ?_, ?_, ?_, ⟨?_, ?_, ?_, ?_⟩, ?_, ?_, ?_, ?_⟩, ?_⟩ <;>
    simp [initial, PluginSystem.initial]

lemma dispatchOp_ended (h : PluginHotswap) (op : PluginOperation) :
    (h.dispatchOp op).ended = h.ended := by
  cases op with
  | added source => rfl
  | removed source => rfl
  | modified source target =>
    simp only [dispatchOp, dispatchModified]
    split
    · rfl
    · split
      · rfl
      · split
        · rfl
        · split <;> rfl

lemma foldl_dispatchOp_ended (ops : List PluginOperation) (h : PluginHotswap) :
    (ops.foldl dispatchOp h).ended = h.ended := by
  induction ops generalizing h with
  | nil => rfl
  | cons op ops ih => exact (ih _).trans (dispatchOp_ended h op)

/-- The loop is not started again. -/
lemma ended_of_exec {op : HotswapOp} (hpre : op.Pre h) (h' : (op.exec address h).ended = false) :
    h.ended = false := by
  cases op with
  | convert changes evolution loads => exact hpre.1
  | dispatch => exact (foldl_dispatchOp_ended _ h).symm.trans h'
  | stopped target =>
    simp only [HotswapOp.exec, stopped] at h'
    split at h'
    · exact h'
    · split at h' <;> exact h'
  | updated => exact h'
  | release plugin => exact h'

/-- One step keeps the bundles and the table together, unless it ends the loop. -/
theorem Swapping.exec {op : HotswapOp} (hs : h.Swapping) (hpre : op.Pre h)
    (hop : h.Swappable op) (hrunning : (op.exec address h).ended = false) :
    (op.exec address h).Swapping := by
  cases op with
  | convert changes evolution loads =>
    obtain ⟨-, hchanges, hidle, hpre⟩ := hpre
    have hpending := hs.idle hidle
    have hall : changes.all (PluginLoader.Loads loads) = true := by
      simpa [HotswapOp.exec, PluginHotswap.convert] using hrunning
    exact ⟨(hchanges ▸ hs.sound).convert hpending hpre hop hall, fun _ => hpending⟩
  | dispatch => exact ⟨hs.sound.dispatch, fun hidle => absurd hidle (by simp [HotswapOp.exec,
      PluginHotswap.dispatch])⟩
  | stopped target => exact hs.stopped hpre
  | updated =>
    refine ⟨⟨hs.sound.linked, hs.sound.entries, hs.sound.known, hs.sound.past, hs.sound.due, ?_,
      hs.sound.pending, hs.sound.started, hs.sound.succeeded⟩, fun _ => hpre.2⟩
    intro op hop
    have hfront := hs.sound.fronts op hop
    cases op <;> exact hfront
  | release plugin => exact hs.release hpre.1 hpre.2.1 hpre.2.2

end PluginHotswap

open PluginHotswap

/-- In every run of batches of distinct files, until a library cannot be loaded: no assertion fails,
the weak entries of the loader do not expire, the bundles are those of the latest version of every
file whenever no reported change is left, and a bundle that is started is the one that is kept for
the current version. -/
theorem pluginHotswap_current {address : Plugin → Nat} {h : PluginHotswap}
    (hr : (pluginHotswap address).Reachable Swappable h) (hrunning : h.ended = false) :
    h.failed = false ∧
      (∀ path p, h.system.loader.plugins path = some p → h.system.loader.expired p = false) ∧
      (h.changes = [] → ∀ p, (h.bundles p).isSome ↔ ∃ path,
        h.system.directory.present path = true ∧
          (h.system.directory.loaded path).head? = some p) ∧
      ∀ e ∈ h.started, e.stored = some e.bundle ∧ e.current = some e.plugin := by
  have hs : h.Swapping := by
    refine hr.invariant (P := fun h => h.ended = false → h.Swapping) ?_
      (fun h op _ hs hpre hop hrunning =>
        (hs (ended_of_exec hpre hrunning)).exec hpre hop hrunning) hrunning
    rintro h rfl -
    exact swapping_initial
  refine ⟨hs.sound.succeeded, fun path p hp => (hs.sound.entries path p hp).2.2,
    fun hchanges p => ?_, hs.sound.started⟩
  have hsettled := (hchanges ▸ hs.sound.due).settled p (by simp)
  rw [hsettled]
  constructor
  · exact fun htable => ⟨p.path, (hs.sound.linked.entries _ _).1 htable⟩
  · rintro ⟨path, hpath⟩
    have htable := (hs.sound.linked.entries path p).2 hpath
    exact (hs.sound.entries path p htable).1 ▸ htable

instance PluginLoader.decidableUnloaded (pl : PluginLoader) :
    (c : Path × FileOperation) → Decidable (pl.Unloaded c)
  | (_, .renamed _) => inferInstanceAs (Decidable (_ ∧ _))
  | (_, .added) | (_, .removed) | (_, .modified) => inferInstanceAs (Decidable True)

instance PluginHotswap.decidableDistinct (h : PluginHotswap)
    (changes : List (Path × FileOperation)) :
    Decidable (h.Distinct changes) :=
  decidable_of_iff ((changes.flatMap touched).Nodup ∧ (changes.map fun c => c.1.filename).Nodup ∧
    ∀ c ∈ changes, h.system.loader.Unloaded c)
    ⟨fun ⟨apart, names, unloaded⟩ => ⟨apart, names, unloaded⟩,
      fun hd => ⟨hd.apart, hd.names, hd.unloaded⟩⟩

instance PluginHotswap.decidableSwappable (h : PluginHotswap) :
    (op : HotswapOp) → Decidable (h.Swappable op)
  | .convert changes _ _ => inferInstanceAs (Decidable (h.Distinct changes))
  | .dispatch | .stopped _ | .updated | .release _ => inferInstanceAs (Decidable True)

instance HotswapOp.decidablePre (address : Plugin → Nat) (h : PluginHotswap) :
    (op : HotswapOp) → Decidable ((pluginHotswap address).pre h op)
  | .convert changes evolution loads => inferInstanceAs (Decidable (_ ∧ _ ∧ _ ∧
      pluginLoader.pre h.system (.convert changes evolution loads)))
  | .dispatch => inferInstanceAs (Decidable (_ ≠ _))
  | .stopped _ => inferInstanceAs (Decidable (_ ∈ _))
  | .updated => inferInstanceAs (Decidable (_ ∧ _))
  | .release plugin => inferInstanceAs (Decidable (_ ∧ _ ∧
      pluginLoader.pre h.system (.release plugin)))

/-- Two libraries appear, one of them is modified and its old version is released. -/
def hotswapRun : List HotswapOp :=
  [.convert [(['a'], .added), (['b'], .added)] [(['b'], .added), (['a'], .added)] fun _ => true,
    .dispatch, .updated,
    .convert [(['a'], .modified)] [(['a'], .modified)] fun _ => true,
    .dispatch, .release ⟨['a'], 1⟩, .stopped ⟨['a'], 2⟩]

/-- An address for each plugin of the runs. -/
def hotswapAddress (plugin : Plugin) : Nat :=
  1024 * plugin.generation + (plugin.path.map Char.toNat).sum

theorem pluginHotswap_current_hotswapRun :
    ((hotswapRun.foldl (HotswapOp.exec hotswapAddress) initial).bundles ⟨['a'], 2⟩).isSome ∧
      ∀ e ∈ (hotswapRun.foldl (HotswapOp.exec hotswapAddress) initial).started,
        e.stored = some e.bundle ∧ e.current = some e.plugin := by
  have hrun : (pluginHotswap hotswapAddress).Reachable Swappable
      (hotswapRun.foldl (HotswapOp.exec hotswapAddress) initial) :=
    Machine.Reachable.run (.init rfl) (by decide +kernel)
  exact ⟨by decide +kernel, (pluginHotswap_current hrun (by decide +kernel)).2.2.2⟩

end Idle
