import Idle.Library.Scopes
import Idle.Service.Toml
import Idle.Util.Span
import Mathlib.Data.List.DropRight
import Mathlib.Data.List.TakeWhile

/-!
# Values with comments

The values of a `TOMLPropertiesSource` carry their comments, which `toml::preserve_comments` keeps
and compares. A key is split at its dots, and both versions of `advance_scope` walk along its
segments. Without the comments this is the model of a source that the other results are about.
-/

namespace Idle

variable {α : Type}

/-! ### Splitting a key -/

namespace Span

def subspan (s : List α) (pos : Nat) (count : Option Nat) : List α :=
  match count with
  | none => s.drop pos
  | some count => (s.drop pos).take count

def find [DecidableEq α] (s : List α) (value : α) : Option Nat := s.findIdx? (· = value)

/-- The loop of `find` over positions of 64 bits. -/
lemma find_eq_view [DecidableEq α] (s : View α) (value : α) :
    s.find value 0 = some ((find s.elements value).getD npos) := by
  obtain ⟨k, hk, hempty, hleast⟩ := s.find_findsFirst value 0
  rw [hk]
  cases hfind : find s.elements value with
  | none =>
    have hnone := List.findIdx?_eq_none_iff.1 hfind
    refine congrArg some (hempty.2 (Set.eq_empty_iff_forall_notMem.2 fun j hj => ?_))
    obtain ⟨hlt, hj⟩ := List.getElem?_eq_some_iff.1 hj.2
    simpa [hj] using hnone _ (List.getElem_mem hlt)
  | some i =>
    obtain ⟨hlt, hi, hbefore⟩ := List.findIdx?_eq_some_iff_getElem.1 hfind
    have hmem : 0 ≤ i ∧ s.at? i = some value :=
      ⟨Nat.zero_le i, List.getElem?_eq_some_iff.2 ⟨hlt, of_decide_eq_true hi⟩⟩
    have hk : IsLeast _ k := hleast fun heq => Set.Nonempty.ne_empty ⟨i, hmem⟩ (hempty.1 heq)
    refine congrArg some (le_antisymm (hk.2 hmem) (not_lt.1 fun hki => ?_))
    obtain ⟨hklt, hvalue⟩ := List.getElem?_eq_some_iff.1 hk.1.2
    exact absurd (decide_eq_true hvalue) (by simpa using hbefore k hki)

/-- The part before the first `value`, and what `*this` is afterwards. -/
def split [DecidableEq α] (s : List α) (value : α) : List α × List α :=
  match find s value with
  | some next => (subspan s 0 (some next), subspan s (next + 1) none)
  | none => (s, [])

lemma split_of_not_mem [DecidableEq α] {s : List α} {value : α} (h : value ∉ s) :
    split s value = (s, []) := by
  have hnone : find s value = none :=
    List.findIdx?_eq_none_iff.2 fun x hx => by
      simpa using fun heq : x = value => h (heq ▸ hx)
  rw [split, hnone]

lemma split_append [DecidableEq α] {s : List α} {value : α} (h : value ∉ s) (r : List α) :
    split (s ++ value :: r) value = (s, r) := by
  have hnone : s.findIdx? (· = value) = none :=
    List.findIdx?_eq_none_iff.2 fun x hx => by
      simpa using fun heq : x = value => h (heq ▸ hx)
  have hsome : find (s ++ value :: r) value = some s.length := by
    simp [find, List.findIdx?_append, hnone, List.findIdx?_cons]
  rw [split, hsome]
  simp [subspan, List.drop_append]

/-- A list is split at the first `value` in it, if there is one. -/
lemma split_cases [DecidableEq α] (s : List α) (value : α) :
    value ∉ s ∧ split s value = (s, []) ∨
      ∃ l r, value ∉ l ∧ s = l ++ value :: r ∧ split s value = (l, r) := by
  by_cases h : value ∈ s
  · obtain ⟨l, r, rfl, hl⟩ := List.eq_append_cons_of_mem h
    exact .inr ⟨l, r, hl, rfl, split_append hl r⟩
  · exact .inl ⟨h, split_of_not_mem h⟩

lemma length_split_snd_lt [DecidableEq α] {s : List α} {value : α}
    (h : (split s value).1 ≠ []) : (split s value).2.length < s.length := by
  rcases split_cases s value with ⟨-, heq⟩ | ⟨l, r, -, rfl, heq⟩
  · rw [heq] at h ⊢
    exact List.length_pos_of_ne_nil h
  · rw [heq]
    simp only [List.length_append, List.length_cons]
    omega

end Span

/-- A loop that splits the key sees the names of its scope. -/
lemma scope_eq (key : StringView) :
    scope key = if (Span.split key '.').1 = [] then []
      else (Span.split key '.').1 :: scope (Span.split key '.').2 := by
  rcases Span.split_cases key '.' with ⟨hnot, heq⟩ | ⟨l, r, hl, rfl, heq⟩
  · rw [heq, scope, List.splitOn_eq_singleton hnot]
    by_cases hkey : key = []
    · simp [hkey]
    · simp [hkey, scope]
  · rw [heq, scope, List.splitOn_append_cons_self_of_not_mem hl]
    by_cases hl : l = []
    · simp [hl]
    · simp [hl, scope]

/-- A key of segments that are not empty. -/
def IsKey (key : StringView) : Prop := ∀ segment ∈ key.splitOn '.', segment ≠ []

instance (key : StringView) : Decidable (IsKey key) :=
  inferInstanceAs (Decidable (∀ segment ∈ key.splitOn '.', segment ≠ []))

lemma IsKey.scope_eq {key : StringView} (h : IsKey key) : scope key = key.splitOn '.' :=
  List.takeWhile_eq_self_iff.2 fun s hs => by simpa using h s hs

lemma IsKey.scope_ne_nil {key : StringView} (h : IsKey key) : scope key ≠ [] :=
  h.scope_eq ▸ List.splitOn_ne_nil '.' key

/-! ### Values with comments -/

/-- `toml::basic_value<toml::preserve_comments>` -/
inductive BasicValue (α : Type) where
  | uninitialized (comments : List StringView)
  | value (comments : List StringView) (v : α)
  | array (comments : List StringView) (elements : List (BasicValue α))
  | table (comments : List StringView) (entries : List (StringView × BasicValue α))

namespace BasicValue

def comments : BasicValue α → List StringView
  | uninitialized cs | value cs _ | array cs _ | table cs _ => cs

/-- Assign to `comments()`. -/
def withComments (cs : List StringView) : BasicValue α → BasicValue α
  | uninitialized _ => uninitialized cs
  | value _ v => value cs v
  | array _ ts => array cs ts
  | table _ es => table cs es

def entries : BasicValue α → List (StringView × BasicValue α)
  | table _ es => es
  | _ => []

def elements : BasicValue α → List (BasicValue α)
  | array _ ts => ts
  | _ => []

def isTable : BasicValue α → Bool
  | table _ _ => true
  | _ => false

/-- What a source holds: it was read from a file, or it is new. -/
def isDocument : BasicValue α → Bool
  | table _ _ | uninitialized _ => true
  | _ => false

/-- `at` after `contains` -/
def get? (t : BasicValue α) (name : StringView) : Option (BasicValue α) := t.entries.lookup name

/-- Store into `operator[]`. -/
def set (t : BasicValue α) (name : StringView) (u : BasicValue α) : BasicValue α :=
  table t.comments (t.entries.setEntry name u)

/-- `*itr = toml::table{}` unless it is one. -/
def asTable : BasicValue α → BasicValue α
  | table cs es => table cs es
  | t => table t.comments []

/-- Change what the mutable `advance_scope` returns. -/
def advanceScopeMut (f : BasicValue α → BasicValue α) (value : BasicValue α) (scope : StringView) :
    BasicValue α :=
  let current := (Span.split scope '.').1
  if _h : current = [] then f value
  else
    value.set current (advanceScopeMut f ((value.get? current).getD (.uninitialized [])).asTable
      (Span.split scope '.').2)
termination_by scope.length
decreasing_by exact Span.length_split_snd_lt _h

/-- The constant `advance_scope` -/
def advanceScope (value : BasicValue α) (scope : StringView) : Option (BasicValue α) :=
  let current := (Span.split scope '.').1
  if _h : current = [] then some value
  else (value.get? current).bind fun itr => advanceScope itr (Span.split scope '.').2
termination_by scope.length
decreasing_by exact Span.length_split_snd_lt _h

mutual

/-- No table has two entries of a name. -/
def Distinct : BasicValue α → Prop
  | uninitialized _ | value _ _ => True
  | array _ ts => ElementsDistinct ts
  | table _ es => (es.map Prod.fst).Nodup ∧ EntriesDistinct es

def ElementsDistinct : List (BasicValue α) → Prop
  | [] => True
  | t :: ts => t.Distinct ∧ ElementsDistinct ts

def EntriesDistinct : List (StringView × BasicValue α) → Prop
  | [] => True
  | e :: es => e.2.Distinct ∧ EntriesDistinct es

end

end BasicValue

/-! ### The serializer -/

/-- What the reflection of an object shows, with the descriptions of its members. -/
inductive Described (α : Type) where
  | primitive (v : α)
  | container (elements : List (Described α))
  | object (fields : List (StringView × Option StringView × Described α))

/-- `std::isspace` -/
def isSpace (c : Char) : Bool := c ∈ [' ', '\t', '\n', '\x0b', '\x0c', '\r']

/-- `boost::algorithm::trim` -/
def trim (s : StringView) : StringView := (s.dropWhile isSpace).rdropWhile isSpace

/-- The lines that `push` makes of a description. -/
def commentLines : Option StringView → List StringView
  | none => []
  | some description =>
    (((description.splitOn '\n').map trim).filter (· ≠ [])).map (' ' :: ·)

/-- The comments of a value are only replaced by some. -/
def BasicValue.describe (description : Option StringView) (t : BasicValue α) : BasicValue α :=
  if commentLines description = [] then t else t.withComments (commentLines description)

namespace Described

mutual

/-- `TOMLSerializerVisitor` at a value that is there already. -/
def serialize : Described α → BasicValue α → BasicValue α
  | primitive v, t => .value t.comments v
  | container xs, t => .array t.comments (serializeElements xs t.elements)
  | object fs, t => serializeFields fs t

def serializeElements : List (Described α) → List (BasicValue α) → List (BasicValue α)
  | [], _ => []
  | x :: xs, ts =>
    x.serialize (ts.headD (.uninitialized [])) :: serializeElements xs ts.tail

def serializeFields : List (StringView × Option StringView × Described α) → BasicValue α →
    BasicValue α
  | [], t => t
  | (n, d, x) :: fs, t =>
    serializeFields fs
      (t.set n (x.serialize (((t.get? n).getD (.uninitialized [])).describe d)))

end

end Described

/-! ### Walks along a key -/

namespace BasicValue

/-- Documents are nested maps. -/
def scopes (α : Type) : Scopes (BasicValue α) StringView where
  get? := get?
  set := set
  enter := asTable
  fresh := .uninitialized []
  get?_set_self t n u := List.lookup_setEntry_self n u t.entries
  get?_set_ne t u _ _ h := List.lookup_setEntry_ne h u t.entries
  get?_enter t n := by cases t <;> rfl
  get?_fresh _ := rfl

lemma advanceScopeMut_eq (f : BasicValue α → BasicValue α) (t : BasicValue α) (key : StringView) :
    advanceScopeMut f t key = (scopes α).modifyAt f (scope key) t := by
  fun_induction advanceScopeMut f t key with
  | case1 t key current h =>
    rw [scope_eq, if_pos h]
    rfl
  | case2 t key current h ih =>
    rw [scope_eq, if_neg h, ih]
    rfl

lemma advanceScope_eq (t : BasicValue α) (key : StringView) :
    advanceScope t key = (scopes α).at? (scope key) t := by
  fun_induction advanceScope t key with
  | case1 t key current h =>
    rw [scope_eq, if_pos h]
    rfl
  | case2 t key current h ih =>
    rw [scope_eq, if_neg h]
    exact Option.bind_congr fun u _ => ih u

/-! ### Without the comments -/

mutual

def forget : BasicValue α → Toml α
  | uninitialized _ => .uninitialized
  | value _ v => .value v
  | array _ ts => .array (forgetElements ts)
  | table _ es => .table (forgetEntries es)

def forgetElements : List (BasicValue α) → List (Toml α)
  | [] => []
  | t :: ts => t.forget :: forgetElements ts

def forgetEntries : List (StringView × BasicValue α) → List (StringView × Toml α)
  | [] => []
  | e :: es => (e.1, e.2.forget) :: forgetEntries es

end

lemma forget_withComments (cs : List StringView) (t : BasicValue α) :
    (t.withComments cs).forget = t.forget := by
  cases t <;> simp [withComments, forget]

lemma forget_describe (d : Option StringView) (t : BasicValue α) :
    (t.describe d).forget = t.forget := by
  unfold describe
  split
  · rfl
  · exact forget_withComments _ t

lemma forget_asTable (t : BasicValue α) : t.asTable.forget = t.forget.asTable := by
  cases t <;> simp [asTable, forget, forgetEntries, Toml.asTable]

lemma lookup_forgetEntries (n : StringView) (es : List (StringView × BasicValue α)) :
    (forgetEntries es).lookup n = (es.lookup n).map forget := by
  induction es with
  | nil => rfl
  | cons e es ih =>
    rw [forgetEntries, List.lookup_cons, List.lookup_cons, ih]
    split <;> rfl

lemma entries_forget (t : BasicValue α) : t.forget.entries = forgetEntries t.entries := by
  cases t <;> simp [forget, entries, Toml.entries, forgetEntries]

lemma get?_forget (t : BasicValue α) (n : StringView) :
    t.forget.get? n = (t.get? n).map forget := by
  rw [Toml.get?, entries_forget, lookup_forgetEntries, get?]

lemma getD_get?_forget (t : BasicValue α) (n : StringView) :
    (t.forget.get? n).getD .uninitialized = ((t.get? n).getD (.uninitialized [])).forget := by
  rw [get?_forget]
  cases t.get? n <;> simp [forget]

lemma forgetEntries_setEntry (n : StringView) (u : BasicValue α)
    (es : List (StringView × BasicValue α)) :
    forgetEntries (es.setEntry n u) = Toml.setEntry n u.forget (forgetEntries es) := by
  induction es with
  | nil => simp [List.setEntry, forgetEntries, Toml.setEntry]
  | cons e es ih =>
    rw [List.setEntry, forgetEntries, Toml.setEntry]
    split
    · rfl
    · rw [forgetEntries, ih]

lemma forget_set (t : BasicValue α) (n : StringView) (u : BasicValue α) :
    (t.set n u).forget = t.forget.set n u.forget := by
  rw [set, Toml.set, forget, forgetEntries_setEntry, entries_forget]

lemma forget_advanceScopeMut {f : BasicValue α → BasicValue α} {g : Toml α → Toml α}
    (h : ∀ t, (f t).forget = g t.forget) (t : BasicValue α) (key : StringView) :
    (advanceScopeMut f t key).forget = t.forget.modifyAt g (scope key) := by
  rw [advanceScopeMut_eq]
  generalize scope key = ns
  induction ns generalizing t with
  | nil => exact h t
  | cons n ns ih =>
    rw [Toml.modifyAt, getD_get?_forget, ← forget_asTable, ← ih]
    exact forget_set t n _

end BasicValue

namespace Described

mutual

def forget : Described α → Reflected α
  | primitive v => .primitive v
  | container xs => .container (forgetElements xs)
  | object fs => .object (forgetFields fs)

def forgetElements : List (Described α) → List (Reflected α)
  | [] => []
  | x :: xs => x.forget :: forgetElements xs

def forgetFields : List (StringView × Option StringView × Described α) →
    List (StringView × Reflected α)
  | [] => []
  | f :: fs => (f.1, f.2.2.forget) :: forgetFields fs

end

open BasicValue in
mutual

/-- The descriptions only matter for the comments. -/
theorem forget_serialize : (x : Described α) → (t : BasicValue α) →
    (x.serialize t).forget = x.forget.serialize t.forget
  | primitive v, t => by simp [serialize, forget, BasicValue.forget, Reflected.serialize]
  | container xs, t => by
    simp only [serialize, forget, BasicValue.forget, Reflected.serialize]
    rw [forget_serializeElements]
    cases t <;> simp [BasicValue.elements, BasicValue.forget, Toml.elements,
      BasicValue.forgetElements]
  | object fs, t => by
    simp only [serialize, forget, Reflected.serialize]
    exact forget_serializeFields fs t

theorem forget_serializeElements : (xs : List (Described α)) → (ts : List (BasicValue α)) →
    BasicValue.forgetElements (serializeElements xs ts) =
      Reflected.serializeElements (forgetElements xs) (BasicValue.forgetElements ts)
  | [], ts => by
    simp [serializeElements, forgetElements, BasicValue.forgetElements,
      Reflected.serializeElements]
  | x :: xs, [] => by
    simp only [serializeElements, forgetElements, BasicValue.forgetElements,
      Reflected.serializeElements]
    rw [forget_serialize x, forget_serializeElements xs]
    rfl
  | x :: xs, t :: ts => by
    simp only [serializeElements, forgetElements, BasicValue.forgetElements,
      Reflected.serializeElements]
    rw [forget_serialize x, forget_serializeElements xs]
    rfl

theorem forget_serializeFields : (fs : List (StringView × Option StringView × Described α)) →
    (t : BasicValue α) →
    (serializeFields fs t).forget = Reflected.serializeFields (forgetFields fs) t.forget
  | [], t => by simp [serializeFields, forgetFields, Reflected.serializeFields]
  | (n, d, x) :: fs, t => by
    rw [serializeFields, forgetFields, Reflected.serializeFields, forget_serializeFields fs,
      forget_set, forget_serialize x, forget_describe, getD_get?_forget]

end

end Described

/-! ### Names are distinct -/

namespace BasicValue

lemma entriesDistinct_iff {es : List (StringView × BasicValue α)} :
    EntriesDistinct es ↔ ∀ e ∈ es, e.2.Distinct := by
  induction es with
  | nil => simp [EntriesDistinct]
  | cons e es ih => simp [EntriesDistinct, ih]

lemma elementsDistinct_iff {ts : List (BasicValue α)} :
    ElementsDistinct ts ↔ ∀ t ∈ ts, t.Distinct := by
  induction ts with
  | nil => simp [ElementsDistinct]
  | cons t ts ih => simp [ElementsDistinct, ih]

lemma distinct_table_iff {cs : List StringView} {es : List (StringView × BasicValue α)} :
    (table cs es).Distinct ↔ (es.map Prod.fst).Nodup ∧ ∀ e ∈ es, e.2.Distinct := by
  rw [Distinct, entriesDistinct_iff]

variable {t u : BasicValue α} {n : StringView}

lemma Distinct.entries (h : t.Distinct) :
    (t.entries.map Prod.fst).Nodup ∧ ∀ e ∈ t.entries, e.2.Distinct := by
  cases t with
  | table cs es => exact distinct_table_iff.1 h
  | uninitialized cs | value cs v | array cs ts => simp [BasicValue.entries]

lemma Distinct.elements (h : t.Distinct) : ∀ u ∈ t.elements, u.Distinct := by
  cases t with
  | array cs ts =>
    rw [Distinct, elementsDistinct_iff] at h
    exact h
  | uninitialized cs | value cs v | table cs es => simp [BasicValue.elements]

lemma Distinct.get? (h : t.Distinct) (hu : t.get? n = some u) : u.Distinct :=
  h.entries.2 (n, u) (List.mem_of_lookup_eq_some hu)

lemma distinct_uninitialized (cs : List StringView) :
    (uninitialized cs : BasicValue α).Distinct := by
  simp [Distinct]

lemma Distinct.asTable (h : t.Distinct) : t.asTable.Distinct := by
  cases t with
  | table cs es => exact h
  | uninitialized cs | value cs v | array cs ts => exact distinct_table_iff.2 (by simp)

lemma Distinct.set (h : t.Distinct) (n : StringView) (hu : u.Distinct) : (t.set n u).Distinct := by
  refine distinct_table_iff.2 ⟨List.nodup_setEntry h.entries.1, fun e he => ?_⟩
  rcases List.mem_of_mem_setEntry he with rfl | he
  · exact hu
  · exact h.entries.2 e he

lemma Distinct.describe (h : t.Distinct) (d : Option StringView) : (t.describe d).Distinct := by
  unfold BasicValue.describe
  split
  · exact h
  · cases t with
    | table cs es => exact distinct_table_iff.2 (distinct_table_iff.1 h)
    | array cs ts =>
      rw [Distinct] at h
      rwa [withComments, Distinct]
    | uninitialized cs | value cs v => simp [withComments, Distinct]

lemma Distinct.getD_get? (h : t.Distinct) (n : StringView) :
    ((t.get? n).getD (.uninitialized [])).Distinct := by
  cases hu : t.get? n with
  | none => exact distinct_uninitialized _
  | some u => exact h.get? hu

lemma Distinct.advanceScopeMut {f : BasicValue α → BasicValue α}
    (hf : ∀ t : BasicValue α, t.Distinct → (f t).Distinct) (h : t.Distinct) (key : StringView) :
    (advanceScopeMut f t key).Distinct := by
  rw [advanceScopeMut_eq]
  exact Scopes.modifyAt_preserves hf (fun _ _ _ ht hu => ht.get? hu) (distinct_uninitialized [])
    (fun _ ht => ht.asTable) (fun _ n _ ht hu => ht.set n hu) _ h

end BasicValue

namespace Described

mutual

theorem distinct_serialize : (x : Described α) → {t : BasicValue α} → t.Distinct →
    (x.serialize t).Distinct
  | primitive v, t, _ => by simp [serialize, BasicValue.Distinct]
  | container xs, t, h => by
    rw [serialize, BasicValue.Distinct, BasicValue.elementsDistinct_iff]
    exact distinct_serializeElements xs h.elements
  | object fs, t, h => by
    rw [serialize]
    exact distinct_serializeFields fs h

theorem distinct_serializeElements : (xs : List (Described α)) → {ts : List (BasicValue α)} →
    (∀ t ∈ ts, t.Distinct) → ∀ t ∈ serializeElements xs ts, t.Distinct
  | [], _, _ => by simp [serializeElements]
  | x :: xs, ts, h => by
    rw [serializeElements]
    refine List.forall_mem_cons.2 ⟨distinct_serialize x ?_,
      distinct_serializeElements xs fun t ht => h t (List.mem_of_mem_tail ht)⟩
    cases ts with
    | nil => exact BasicValue.distinct_uninitialized _
    | cons t ts => exact h t List.mem_cons_self

theorem distinct_serializeFields : (fs : List (StringView × Option StringView × Described α)) →
    {t : BasicValue α} → t.Distinct → (serializeFields fs t).Distinct
  | [], _, h => by rwa [serializeFields]
  | (n, d, x) :: fs, t, h => by
    rw [serializeFields]
    exact distinct_serializeFields fs
      (h.set n (distinct_serialize x ((h.getD_get? n).describe d)))

end

/-- An object is written into a table, or it is not written at all. -/
lemma isTable_serializeFields (fs : List (StringView × Option StringView × Described α))
    {t : BasicValue α} (h : t.isTable = true) : (serializeFields fs t).isTable = true := by
  induction fs generalizing t with
  | nil => rwa [serializeFields]
  | cons f fs ih =>
    obtain ⟨n, d, x⟩ := f
    rw [serializeFields]
    exact ih rfl

end Described

end Idle
