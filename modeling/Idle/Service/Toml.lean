import Idle.Library.Scopes

/-!
# TOML sources

`TOMLPropertiesSource` of `properties.cpp` keeps the properties as a tree of tables. A key is
split at its dots into the path of a scope, and a reflected object is written into the table found
there by the visitor of `serialize.cpp`. Comments are left out.
-/

namespace Idle

/-- `StringView` -/
abbrev StringView := List Char

/-! ### What a file can contain -/

/-- `toml::local_date` -/
structure LocalDate where
  year : Int
  month : Int
  day : Int
  deriving DecidableEq

/-- `toml::local_time` -/
structure LocalTime where
  hour : Int
  minute : Int
  second : Int
  millisecond : Int
  microsecond : Int
  nanosecond : Int
  deriving DecidableEq

/-- `toml::time_offset` -/
structure TimeOffset where
  hour : Int
  minute : Int
  deriving DecidableEq

/-- `toml::string_t` -/
inductive StringKind where
  | basic
  | literal
  deriving DecidableEq

/-- What a value of a file can be besides an array or a table. -/
inductive TomlScalar where
  | boolean (b : Bool)
  | integer (v : BitVec 64)
  /-- The bits of a `double`. -/
  | floating (bits : BitVec 64)
  | string (kind : StringKind) (str : StringView)
  | offsetDatetime (date : LocalDate) (time : LocalTime) (offset : TimeOffset)
  | localDatetime (date : LocalDate) (time : LocalTime)
  | localDate (date : LocalDate)
  | localTime (time : LocalTime)
  deriving DecidableEq

/-- `toml::value_t` -/
inductive ValueType where
  | empty
  | boolean
  | integer
  | floating
  | string
  | offsetDatetime
  | localDatetime
  | localDate
  | localTime
  | array
  | table
  deriving DecidableEq

def TomlScalar.type : TomlScalar → ValueType
  | boolean _ => .boolean
  | integer _ => .integer
  | floating _ => .floating
  | string _ _ => .string
  | offsetDatetime _ _ _ => .offsetDatetime
  | localDatetime _ _ => .localDatetime
  | localDate _ => .localDate
  | localTime _ => .localTime

/-! ### Values and objects -/

/-- The names that `advance_scope` steps through: it stops at the first empty one. -/
def scope (key : StringView) : List StringView := (key.splitOn '.').takeWhile (· ≠ [])

/-- `toml::basic_value` -/
inductive Toml (α : Type) where
  | uninitialized
  | value (v : α)
  | array (elements : List (Toml α))
  | table (entries : List (StringView × Toml α))

/-- What the reflection of an object lets a visitor see. -/
inductive Reflected (α : Type) where
  | primitive (v : α)
  | container (elements : List (Reflected α))
  | object (fields : List (StringView × Reflected α))

variable {α : Type}

namespace Toml

def type : Toml TomlScalar → ValueType
  | uninitialized => .empty
  | value v => v.type
  | array _ => .array
  | table _ => .table

def entries : Toml α → List (StringView × Toml α)
  | table es => es
  | _ => []

def elements : Toml α → List (Toml α)
  | array ts => ts
  | _ => []

/-- `at` after `contains` -/
def get? (t : Toml α) (name : StringView) : Option (Toml α) := t.entries.lookup name

/-- Replace the first entry of a name, or add one. -/
def setEntry (name : StringView) (t : Toml α) : List (StringView × Toml α) →
    List (StringView × Toml α)
  | [] => [(name, t)]
  | e :: es => if e.1 = name then (name, t) :: es else e :: setEntry name t es

/-- Store into `operator[]`, on a value that becomes a table if it is none. -/
def set (t : Toml α) (name : StringView) (u : Toml α) : Toml α := table (setEntry name u t.entries)

/-- The loop of `advance_scope`: a step into something that is not a table makes it one. -/
def asTable : Toml α → Toml α
  | table es => table es
  | _ => table []

/-- Change the value that the mutable `advance_scope` returns. -/
def modifyAt (f : Toml α → Toml α) : List StringView → Toml α → Toml α
  | [], t => f t
  | n :: ns, t => t.set n (modifyAt f ns ((t.get? n).getD .uninitialized).asTable)

/-- The constant `advance_scope` -/
def at? : List StringView → Toml α → Option (Toml α)
  | [], t => some t
  | n :: ns, t => (t.get? n).bind (at? ns)

end Toml

namespace Reflected

mutual

/-- `toml_serialize` into a value that is there already. -/
def serialize : Reflected α → Toml α → Toml α
  | primitive v, _ => .value v
  | container xs, t => .array (serializeElements xs t.elements)
  | object fs, t => serializeFields fs t

/-- The elements of an array of the right size; what was there is written over. -/
def serializeElements : List (Reflected α) → List (Toml α) → List (Toml α)
  | [], _ => []
  | x :: xs, ts => x.serialize (ts.headD .uninitialized) :: serializeElements xs ts.tail

def serializeFields : List (StringView × Reflected α) → Toml α → Toml α
  | [], t => t
  | (n, r) :: fs, t =>
    serializeFields fs (t.set n (r.serialize ((t.get? n).getD .uninitialized)))

end

mutual

/-- The value contains everything that the object shows. -/
def HeldBy : Reflected α → Toml α → Prop
  | primitive v, t => t = .value v
  | container xs, t => ∃ ts, t = .array ts ∧ ElementsHeldBy xs ts
  | object fs, t => FieldsHeldBy fs t

def ElementsHeldBy : List (Reflected α) → List (Toml α) → Prop
  | [], ts => ts = []
  | x :: xs, ts => ∃ u us, ts = u :: us ∧ x.HeldBy u ∧ ElementsHeldBy xs us

def FieldsHeldBy : List (StringView × Reflected α) → Toml α → Prop
  | [], _ => True
  | (n, r) :: fs, t => (∃ u, t.get? n = some u ∧ r.HeldBy u) ∧ FieldsHeldBy fs t

end

mutual

/-- The members of an object have different names. -/
def WellFormed : Reflected α → Prop
  | primitive _ => True
  | container xs => ElementsWellFormed xs
  | object fs => FieldsWellFormed fs

def ElementsWellFormed : List (Reflected α) → Prop
  | [] => True
  | x :: xs => x.WellFormed ∧ ElementsWellFormed xs

def FieldsWellFormed : List (StringView × Reflected α) → Prop
  | [] => True
  | (n, r) :: fs => r.WellFormed ∧ n ∉ fs.map Prod.fst ∧ FieldsWellFormed fs

end

mutual

/-- Nothing that the object shows is at the scope, around it or inside of it. -/
def Avoids : Reflected α → List StringView → Prop
  | object fs, n :: ns => FieldsAvoid fs n ns
  | _, _ => False

def FieldsAvoid : List (StringView × Reflected α) → StringView → List StringView → Prop
  | [], _, _ => True
  | (m, r) :: fs, n, ns => (m = n → r.Avoids ns) ∧ FieldsAvoid fs n ns

end

end Reflected

namespace Toml

variable {t u : Toml α} {n m : StringView} {es : List (StringView × Toml α)}

/-! ### Entries -/

lemma setEntry_eq (n : StringView) (u : Toml α) (es : List (StringView × Toml α)) :
    setEntry n u es = es.setEntry n u := by
  induction es with
  | nil => rfl
  | cons e es ih => rw [setEntry, List.setEntry, ih]

@[simp] lemma get?_set_self (t u : Toml α) (n : StringView) : (t.set n u).get? n = some u := by
  rw [set, setEntry_eq]
  exact List.lookup_setEntry_self n u t.entries

lemma get?_set_ne (h : m ≠ n) (t u : Toml α) : (t.set n u).get? m = t.get? m := by
  rw [set, setEntry_eq]
  exact List.lookup_setEntry_ne h u t.entries

@[simp] lemma get?_asTable (t : Toml α) (n : StringView) : t.asTable.get? n = t.get? n := by
  cases t <;> rfl

/-! ### Scopes -/

/-- Neither scope is inside of the other. -/
def Apart (ns ms : List StringView) : Prop := ¬ ns <+: ms ∧ ¬ ms <+: ns

/-- Sources are nested maps. -/
def scopes (α : Type) : Scopes (Toml α) StringView where
  get? := get?
  set := set
  enter := asTable
  fresh := .uninitialized
  get?_set_self t n u := get?_set_self t u n
  get?_set_ne t u _ _ h := get?_set_ne h t u
  get?_enter := get?_asTable
  get?_fresh _ := rfl

lemma at?_eq (ns : List StringView) : at? ns = (scopes α).at? ns := by
  induction ns with
  | nil => rfl
  | cons n ns ih =>
    funext t
    simp only [at?, Scopes.at?, ih]
    rfl

lemma modifyAt_eq (f : Toml α → Toml α) (ns : List StringView) :
    modifyAt f ns = (scopes α).modifyAt f ns := by
  induction ns with
  | nil => rfl
  | cons n ns ih =>
    funext t
    simp only [modifyAt, Scopes.modifyAt, ih]
    rfl

/-- What was written into a scope is found there. -/
lemma exists_at?_modifyAt (f : Toml α → Toml α) (ns : List StringView) (t : Toml α) :
    ∃ u, at? ns (modifyAt f ns t) = some (f u) := by
  rcases eq_or_ne ns [] with rfl | hns
  · exact ⟨t, rfl⟩
  · rw [at?_eq, modifyAt_eq]
    exact ⟨_, Scopes.at?_modifyAt_self f hns t⟩

/-- Writing into a scope does not touch those apart from it. -/
lemma at?_modifyAt_of_apart {ns ms : List StringView} (h : Apart ns ms) (f : Toml α → Toml α)
    (t : Toml α) : at? ms (modifyAt f ns t) = at? ms t := by
  rw [at?_eq, modifyAt_eq]
  exact Scopes.at?_modifyAt_of_apart h.1 h.2 f t

end Toml

namespace Reflected

open Toml

/-! ### What is written is contained -/

lemma get?_serializeFields_of_not_mem {fs : List (StringView × Reflected α)} {n : StringView}
    (h : n ∉ fs.map Prod.fst) (t : Toml α) : (serializeFields fs t).get? n = t.get? n := by
  induction fs generalizing t with
  | nil => simp [serializeFields]
  | cons f fs ih =>
    simp only [List.map_cons, List.mem_cons, not_or] at h
    rw [serializeFields, ih h.2, get?_set_ne h.1]

mutual

/-- A value contains the object that was written into it. -/
theorem heldBy_serialize :
    (r : Reflected α) → r.WellFormed → (t : Toml α) → r.HeldBy (r.serialize t)
  | primitive v, _, t => by simp [serialize, HeldBy]
  | container xs, h, t => by
    simp only [serialize, HeldBy]
    exact ⟨_, rfl, elementsHeldBy_serialize xs (by simpa [WellFormed] using h) _⟩
  | object fs, h, t => by
    simp only [serialize, HeldBy]
    exact fieldsHeldBy_serialize fs (by simpa [WellFormed] using h) t

theorem elementsHeldBy_serialize : (xs : List (Reflected α)) → ElementsWellFormed xs →
    (ts : List (Toml α)) → ElementsHeldBy xs (serializeElements xs ts)
  | [], _, ts => by simp [serializeElements, ElementsHeldBy]
  | x :: xs, h, ts => by
    simp only [ElementsWellFormed] at h
    simp only [serializeElements, ElementsHeldBy]
    exact ⟨_, _, rfl, heldBy_serialize x h.1 _, elementsHeldBy_serialize xs h.2 _⟩

theorem fieldsHeldBy_serialize : (fs : List (StringView × Reflected α)) → FieldsWellFormed fs →
    (t : Toml α) → FieldsHeldBy fs (serializeFields fs t)
  | [], _, t => by simp [FieldsHeldBy]
  | (n, r) :: fs, h, t => by
    simp only [FieldsWellFormed] at h
    simp only [serializeFields, FieldsHeldBy]
    refine ⟨⟨_, ?_, heldBy_serialize r h.1 ((t.get? n).getD .uninitialized)⟩,
      fieldsHeldBy_serialize fs h.2.2 _⟩
    rw [get?_serializeFields_of_not_mem h.2.1, get?_set_self]

end

/-! ### What is beside it stays -/

lemma Avoids.ne_nil {r : Reflected α} {ns : List StringView} (h : r.Avoids ns) : ns ≠ [] := by
  rintro rfl
  cases r <;> simp [Avoids] at h

mutual

/-- Writing an object changes nothing at a scope that it avoids. -/
theorem at?_serialize_of_avoids : (r : Reflected α) → {ns : List StringView} → r.Avoids ns →
    (t : Toml α) → at? ns (r.serialize t) = at? ns t
  | primitive v, _, h, _ => by simp [Avoids] at h
  | container xs, _, h, _ => by simp [Avoids] at h
  | object fs, [], h, _ => by simp [Avoids] at h
  | object fs, n :: ns, h, t => by
    rw [serialize, at?, at?]
    rw [Avoids] at h
    exact bind_get?_serializeFields_of_avoid fs h t

theorem bind_get?_serializeFields_of_avoid : (fs : List (StringView × Reflected α)) →
    {n : StringView} → {ns : List StringView} → FieldsAvoid fs n ns → (t : Toml α) →
    ((serializeFields fs t).get? n).bind (at? ns) = (t.get? n).bind (at? ns)
  | [], _, _, _, t => by rw [serializeFields]
  | (m, r) :: fs, n, ns, h, t => by
    rw [FieldsAvoid] at h
    rw [serializeFields, bind_get?_serializeFields_of_avoid fs h.2]
    by_cases hmn : m = n
    · subst hmn
      have hr := h.1 rfl
      rw [get?_set_self, Option.bind_some, at?_serialize_of_avoids r hr]
      cases t.get? m with
      | some u => rfl
      | none =>
        rw [Option.getD_none, Option.bind_none, at?_eq]
        exact Scopes.at?_fresh hr.ne_nil
    · rw [get?_set_ne (Ne.symm hmn)]

end

lemma heldBy_asTable {fs : List (StringView × Reflected α)} {t : Toml α}
    (h : (object fs).HeldBy t) : (object fs).HeldBy t.asTable := by
  rw [HeldBy] at h ⊢
  induction fs with
  | nil => simp [FieldsHeldBy]
  | cons f fs ih =>
    rw [FieldsHeldBy] at h ⊢
    exact ⟨by rw [get?_asTable]; exact h.1, ih h.2⟩

mutual

/-- An object is still contained after a write into a scope that it avoids. -/
theorem heldBy_modifyAt_of_avoids (f : Toml α → Toml α) : (r : Reflected α) →
    {ns : List StringView} → r.Avoids ns → {t : Toml α} → r.HeldBy t →
    r.HeldBy (modifyAt f ns t)
  | primitive v, _, h, _, _ => by simp [Avoids] at h
  | container xs, _, h, _, _ => by simp [Avoids] at h
  | object fs, [], h, _, _ => by simp [Avoids] at h
  | object fs, n :: ns, h, t, ht => by
    rw [Avoids] at h
    rw [HeldBy] at ht ⊢
    exact fieldsHeldBy_modifyAt_of_avoid f fs h ht

theorem fieldsHeldBy_modifyAt_of_avoid (f : Toml α → Toml α) :
    (fs : List (StringView × Reflected α)) → {n : StringView} → {ns : List StringView} →
    FieldsAvoid fs n ns → {t : Toml α} → FieldsHeldBy fs t →
    FieldsHeldBy fs (modifyAt f (n :: ns) t)
  | [], _, _, _, _, _ => by simp [FieldsHeldBy]
  | (m, r) :: fs, n, ns, h, t, ht => by
    rw [FieldsAvoid] at h
    rw [FieldsHeldBy] at ht ⊢
    obtain ⟨⟨u, hu, hr⟩, hrest⟩ := ht
    refine ⟨?_, fieldsHeldBy_modifyAt_of_avoid f fs h.2 hrest⟩
    rw [modifyAt]
    by_cases hmn : m = n
    · subst hmn
      refine ⟨_, get?_set_self .., ?_⟩
      rw [hu, Option.getD_some]
      refine heldBy_modifyAt_of_avoids f r (h.1 rfl) ?_
      cases r with
      | object gs => exact heldBy_asTable hr
      | primitive v => exact absurd (h.1 rfl) (by simp [Avoids])
      | container xs => exact absurd (h.1 rfl) (by simp [Avoids])
    · exact ⟨u, by rw [get?_set_ne hmn, hu], hr⟩

end

/-- Writing an object around a scope that it avoids changes nothing there. -/
lemma Avoids.at?_modifyAt {v : Reflected α} {ns rest : List StringView} (h : v.Avoids rest)
    (t : Toml α) : at? (ns ++ rest) (modifyAt v.serialize ns t) = at? (ns ++ rest) t := by
  have hat : ∀ u, (scopes α).at? rest (v.serialize u) = (scopes α).at? rest u := by
    intro u
    rw [← at?_eq]
    exact at?_serialize_of_avoids v h u
  rw [at?_eq, modifyAt_eq]
  rcases eq_or_ne ns [] with rfl | hns
  · exact hat t
  · rw [Scopes.at?_append, Scopes.at?_append, Scopes.at?_modifyAt_self _ hns, Option.bind_some, hat,
      Scopes.at?_enter h.ne_nil]
    cases (scopes α).at? ns t with
    | some x => rfl
    | none => exact Scopes.at?_fresh h.ne_nil

/-- What is written at the first scope and what is contained at the second have nothing to do with
each other. -/
def Beside (v : Reflected α) (ns : List StringView) (w : Reflected α) (ms : List StringView) :
    Prop :=
  Apart ns ms ∨ (∃ rest, ms = ns ++ rest ∧ v.Avoids rest) ∨
    ∃ rest, ns = ms ++ rest ∧ w.Avoids rest

/-- What is beside a write is contained afterwards as well. -/
lemma Beside.heldBy {v w : Reflected α} {ns ms : List StringView} (h : Beside v ns w ms)
    {t u : Toml α} (hu : at? ms t = some u) (hw : w.HeldBy u) :
    ∃ u', at? ms (modifyAt v.serialize ns t) = some u' ∧ w.HeldBy u' := by
  rcases h with h | ⟨rest, rfl, h⟩ | ⟨rest, rfl, h⟩
  · exact ⟨u, (at?_modifyAt_of_apart h _ _).trans hu, hw⟩
  · -- the write is around it
    exact ⟨u, (h.at?_modifyAt t).trans hu, hw⟩
  · -- the write is inside of it
    rw [at?_eq] at hu
    rw [at?_eq, modifyAt_eq, Scopes.modifyAt_append, ← modifyAt_eq _ rest]
    rcases eq_or_ne ms [] with rfl | hms
    · cases hu
      exact ⟨_, rfl, heldBy_modifyAt_of_avoids _ w h hw⟩
    · refine ⟨_, Scopes.at?_modifyAt_self _ hms t, ?_⟩
      rw [hu, Option.getD_some]
      refine heldBy_modifyAt_of_avoids _ w h ?_
      cases w with
      | object gs => exact heldBy_asTable hw
      | primitive v => exact absurd h (by cases rest <;> simp [Avoids])
      | container xs => exact absurd h (by cases rest <;> simp [Avoids])

end Reflected

end Idle
