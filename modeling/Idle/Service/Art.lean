import Mathlib
import Idle.Library.SetContainer
import Idle.Service.Toml

/-!
# The abstract reflection tree

The type tree of `reflection.hpp`, the visitor of `visitor.hpp` over it and the visitors of
`serialize.cpp` that write a reflected object into a TOML value and read it back. A type of the
tree is indexed by the values that it describes, so a visitor is a function on proper values.
Floating point numbers are given by their bits.
-/

namespace Idle

/-! ### Types -/

/-- `MappedType` -/
inductive MappedType where
  | bool | int8 | int16 | int32 | int64 | uint8 | uint16 | uint32 | uint64
  | float | double | string | timePoint | duration
  | array | set | object
  | empty
  deriving DecidableEq

namespace MappedType

def isBool (m : MappedType) : Bool := m == bool

def isIntegral : MappedType → Bool
  | int8 | int16 | int32 | int64 | uint8 | uint16 | uint32 | uint64 => true
  | _ => false

def isFloating : MappedType → Bool
  | float | double => true
  | _ => false

def isString (m : MappedType) : Bool := m == string

def isArray (m : MappedType) : Bool := m == array

def isObject (m : MappedType) : Bool := m == object

end MappedType

/-- The integral types that are mapped. -/
inductive Integral where
  | int8 | int16 | int32 | int64 | uint8 | uint16 | uint32 | uint64
  deriving DecidableEq

namespace Integral

def width : Integral → ℕ
  | int8 | uint8 => 8
  | int16 | uint16 => 16
  | int32 | uint32 => 32
  | int64 | uint64 => 64

/-- `isSigned` -/
def isSigned : Integral → Bool
  | int8 | int16 | int32 | int64 => true
  | _ => false

def type : Integral → MappedType
  | int8 => .int8
  | int16 => .int16
  | int32 => .int32
  | int64 => .int64
  | uint8 => .uint8
  | uint16 => .uint16
  | uint32 => .uint32
  | uint64 => .uint64

/-- The conversion to `toml::integer`, which is a signed integer of 64 bits. -/
def toInteger (i : Integral) (v : BitVec i.width) : BitVec 64 :=
  if i.isSigned then v.signExtend 64 else v.setWidth 64

/-- The conversion of `toml::get` -/
def ofInteger (i : Integral) (v : BitVec 64) : BitVec i.width := v.setWidth i.width

end Integral

/-- The values of a `PrimitiveType` that have a name. -/
abbrev Entries (i : Integral) := List (StringView × BitVec i.width)

/-! ### Conversions -/

/-- `static_cast<float>` of a `double` -/
def narrow (v : BitVec 64) : BitVec 32 := (Float.ofBits ⟨v⟩).toFloat32.toBits.toBitVec

/-- A `float` as a `double` -/
def widen (v : BitVec 32) : BitVec 64 := (Float32.ofBits ⟨v⟩).toFloat.toBits.toBitVec

/-- `static_cast<float>` of a `toml::integer` -/
def integerToFloat (v : BitVec 64) : BitVec 32 := (Int64.ofBitVec v).toFloat32.toBits.toBitVec

/-- `static_cast<double>` of a `toml::integer` -/
def integerToDouble (v : BitVec 64) : BitVec 64 := (Int64.ofBitVec v).toFloat.toBits.toBitVec

def ValueType.isDate : ValueType → Bool
  | offsetDatetime | localDatetime | localDate | localTime => true
  | _ => false

/-- What toml11 converts a type of `std::chrono` to, and back. -/
structure Chrono (α : Type) where
  toml : α → TomlScalar
  get : TomlScalar → Option α
  isDate_toml : ∀ a, (toml a).type.isDate = true

/-! ### The tree -/

mutual

/-- A type of the tree with its subtype. The element of a container that grows has a value that new
elements are constructed with. -/
inductive ArtType : Type → Type 1 where
  | bool : ArtType Bool
  | integral (i : Integral) : ArtType (BitVec i.width)
  | float : ArtType (BitVec 32)
  | double : ArtType (BitVec 64)
  | string : ArtType StringView
  | timePoint {α : Type} (chrono : Chrono α) : ArtType α
  | duration {α : Type} (chrono : Chrono α) : ArtType α
  | enumeration (i : Integral) (entries : Entries i) : ArtType (BitVec i.width)
  | array {α : Type} (size : ℕ) (element : ArtType α) : ArtType {l : List α // l.length = size}
  | vector {α : Type} (element : ArtType α) (init : α) : ArtType (List α)
  | set {α C : Type} (eq : DecidableEq α) (container : SetContainer α C) (element : ArtType α)
      (init : α) : ArtType C
  | object {α : Type} (reflection : Reflection α) : ArtType α

/-- A class has its fields behind those of its `Super`. -/
inductive Reflection : Type → Type 1 where
  | base {α : Type} (fields : Fields α) : Reflection α
  | derived {α β : Type} (super : Reflection α) (fields : Fields β) : Reflection (α × β)

inductive Fields : Type → Type 1 where
  | nil : Fields Unit
  | cons {α β : Type} (name : StringView) (type : ArtType α) (rest : Fields β) : Fields (α × β)

end

/-- `Type::type` -/
def ArtType.type {α : Type} : ArtType α → MappedType
  | .bool => .bool
  | .integral i => i.type
  | .float => .float
  | .double => .double
  | .string => .string
  | .timePoint _ => .timePoint
  | .duration _ => .duration
  | .enumeration i _ => i.type
  | .array _ _ => .array
  | .vector _ _ => .array
  | .set _ _ _ _ => .set
  | .object _ => .object

/-- `PrimitiveType::name` -/
def Entries.name? {i : Integral} (es : Entries i) (v : BitVec i.width) : Option StringView :=
  ((es.find? (·.2 = v)).map Prod.fst).filter (· ≠ [])

/-- `PrimitiveType::value` -/
def Entries.value? {i : Integral} (es : Entries i) (name : StringView) : Option (BitVec i.width) :=
  (es.find? (·.1 = name)).map Prod.snd

/-! ### The serializer -/

mutual

/-- What `TOMLSerializerVisitor` is given to see of a value. -/
def ArtType.reflected : {α : Type} → ArtType α → α → Reflected TomlScalar
  | _, .bool, b => .primitive (.boolean b)
  | _, .integral i, v => .primitive (.integer (i.toInteger v))
  | _, .float, v => .primitive (.floating (widen v))
  | _, .double, v => .primitive (.floating v)
  | _, .string, s => .primitive (.string .basic s)
  | _, .timePoint c, a => .primitive (c.toml a)
  | _, .duration c, a => .primitive (c.toml a)
  | _, .enumeration i es, v =>
    match Entries.name? es v with
    | some name => .primitive (.string .basic name)
    | none => .primitive (.integer (i.toInteger v))
  | _, .array _ e, l => .container (l.1.map fun a => e.reflected a)
  | _, .vector e _, l => .container (l.map fun a => e.reflected a)
  | _, .set _ K e _, s => .container ((K.elements s).map fun a => e.reflected a)
  | _, .object r, a => .object (r.reflected a)

/-- `visitObject` visits the `Super` first. -/
def Reflection.reflected : {α : Type} → Reflection α → α → List (StringView × Reflected TomlScalar)
  | _, .base fs, a => fs.reflected a
  | _, .derived s fs, (a, b) => s.reflected a ++ fs.reflected b

def Fields.reflected : {α : Type} → Fields α → α → List (StringView × Reflected TomlScalar)
  | _, .nil, _ => []
  | _, .cons n ty rest, (a, b) => (n, ty.reflected a) :: rest.reflected b

end

/-- `toml_serialize` -/
def Reflection.tomlSerialize {α : Type} (r : Reflection α) (x : α) (t : Toml TomlScalar) :
    Toml TomlScalar :=
  Reflected.serializeFields (r.reflected x) t

/-! ### The deserializer -/

/-- `VisitorResult` -/
inductive VisitorResult where
  | ok | skip | cancel
  deriving DecidableEq

/-- `ContainerType` -/
inductive ContainerType where
  | arrayLike | vectorLike | setLike
  deriving DecidableEq

def isCompatibleTo : ValueType → MappedType → Bool
  | .boolean, m => m.isBool
  | .integer, m => m.isIntegral || m.isFloating
  | .floating, m => m.isFloating
  | .string, m => m.isString
  | .array, m => m.isArray
  | .table, m => m.isObject
  | _, _ => false

/-- What a visit gives: its result with the value it leaves, or nothing when toml11 throws since
the TOML value is of another type. -/
abbrev Visit (α : Type) := Option (VisitorResult × α)

/-- `VIS_TRY_RETURN` of a visit of a part: `whole` puts the part back into the value that the visit
leaves, `next` is how the visit goes on. -/
def Visit.tryReturn {α β : Type} (v : Visit α) (whole : α → β) (next : α → Visit β) : Visit β :=
  match v with
  | none => none
  | some (.ok, a) => next a
  | some (.skip, a) => some (.ok, whole a)
  | some (.cancel, a) => some (.cancel, whole a)

/-- `toml::get` of an integer -/
def getInteger (i : Integral) : Toml TomlScalar → Visit (BitVec i.width)
  | .value (.integer v) => some (.ok, i.ofInteger v)
  | _ => none

/-- The conversion of a number to a floating point type -/
def getFloating {w : ℕ} (ofFloating ofInteger : BitVec 64 → BitVec w) :
    Toml TomlScalar → Visit (BitVec w)
  | .value (.floating v) => some (.ok, ofFloating v)
  | .value (.integer v) => some (.ok, ofInteger v)
  | _ => none

/-- `toml::get` of a time point or a duration -/
def getChrono {α : Type} (c : Chrono α) : Toml TomlScalar → Visit α
  | .value v => (c.get v).map fun a => (.ok, a)
  | _ => none

/-- `peek`: the size of the container that is read. -/
def peek (m : MappedType) (size : ℕ) (type : ContainerType) : Toml TomlScalar → Visit ℕ
  | .array ts =>
    if type = .arrayLike ∧ ts.length ≠ size then some (.cancel, size)
    else if ts.all (isCompatibleTo ·.type m) then some (.ok, ts.length)
    else some (.cancel, size)
  | _ => none

/-- `push` of a field -/
def push (m : MappedType) (name : StringView) (t : Toml TomlScalar) : Visit (Toml TomlScalar) :=
  match t.get? name with
  | none => some (.skip, t)
  | some u => if isCompatibleTo u.type m then some (.ok, u) else some (.cancel, t)

section Loops

variable {α : Type}

/-- `resize` of a container -/
def resize (init : α) (size : ℕ) (l : List α) : List α :=
  l.take size ++ List.replicate (size - l.length) init

/-- The loop of `visitArray` over the elements of both sides -/
def visitElements (visit : Toml TomlScalar → α → Visit α) : List (Toml TomlScalar) → List α →
    Visit (List α)
  | _, [] => some (.ok, [])
  | [], _ :: _ => none
  | t :: ts, a :: l =>
    (visit t a).tryReturn (· :: l) fun a' =>
      (visitElements visit ts l).map fun p => (p.1, a' :: p.2)

lemma length_visitElements {visit : Toml TomlScalar → α → Visit α} {ts : List (Toml TomlScalar)}
    {l : List α} {p : VisitorResult × List α} (h : visitElements visit ts l = some p) :
    p.2.length = l.length := by
  induction l generalizing ts p with
  | nil =>
    simp only [visitElements, Option.some.injEq] at h
    subst h
    rfl
  | cons a l ih =>
    cases ts with
    | nil => simp [visitElements] at h
    | cons t ts =>
      simp only [visitElements, Visit.tryReturn] at h
      split at h
      · simp at h
      · obtain ⟨q, hq, rfl⟩ := Option.map_eq_some_iff.1 h
        simp [ih hq]
      · simp only [Option.some.injEq] at h
        subst h
        rfl
      · simp only [Option.some.injEq] at h
        subst h
        rfl

/-- `iterate` over the elements of a set from `current` on: an element that the visit changed is
erased and inserted anew, and what is missing to the size is inserted. -/
def iterate {C : Type} [DecidableEq α] (K : SetContainer α C) (init : α)
    (visit : Toml TomlScalar → α → Visit α) :
    List (Toml TomlScalar) → Option α → C → Visit C
  | [], _, s => some (.ok, s)
  | t :: ts, some cached, s =>
    match visit t cached with
    | none => none
    | some (.cancel, _) => some (.cancel, s)
    | some (_, a) =>
      if a = cached then iterate K init visit ts ((K.elements s).behind? cached) s
      else
        let s' := K.insert a (K.erase cached s)
        iterate K init visit ts ((K.elements s').behind? a) s'
  | t :: ts, none, s =>
    match visit t init with
    | none => none
    | some (.cancel, _) => some (.cancel, s)
    | some (_, a) => iterate K init visit ts none (K.insert a s)

end Loops

/-- `visitArray` of a container that cannot be resized -/
def visitFixed {α : Type} {n : ℕ} (visit : Toml TomlScalar → α → Visit α)
    (ts : List (Toml TomlScalar))
    (l : {l : List α // l.length = n}) : Visit {l : List α // l.length = n} :=
  match h : visitElements visit ts l.1 with
  | none => none
  | some p => some (p.1, ⟨p.2, (length_visitElements h).trans l.2⟩)

mutual

/-- `VisitorImpl::visit` with the `TOMLDeserializerVisitor` -/
def ArtType.visit : {α : Type} → ArtType α → Toml TomlScalar → α → Visit α
  | _, .bool, t, _ =>
    match t with
    | .value (.boolean b) => some (.ok, b)
    | _ => none
  | _, .integral i, t, _ => getInteger i t
  | _, .float, t, _ => getFloating narrow integerToFloat t
  | _, .double, t, _ => getFloating id integerToDouble t
  | _, .string, t, _ =>
    match t with
    | .value (.string _ s) => some (.ok, s)
    | _ => none
  | _, .timePoint c, t, _ => getChrono c t
  | _, .duration c, t, _ => getChrono c t
  | _, .enumeration i es, t, v =>
    match t with
    | .value (.string _ name) =>
      match Entries.value? es name with
      | some w => some (.ok, w)
      | none => some (.cancel, v)
    | _ => getInteger i t
  | _, .array _ e, t, l =>
    (peek e.type l.1.length .arrayLike t).tryReturn (fun _ => l) fun size =>
      -- `resize_impl` fails here
      if size ≠ l.1.length then some (.cancel, l)
      else visitFixed (fun u a => e.visit u a) t.elements l
  | _, .vector e init, t, l =>
    (peek e.type l.length .vectorLike t).tryReturn (fun _ => l) fun size =>
      visitElements (fun u a => e.visit u a) t.elements (resize init size l)
  | _, .set _ K e init, t, s =>
    (peek e.type (K.size s) .setLike t).tryReturn (fun _ => s) fun size =>
      let s' := if size < K.size s then K.clear s else s
      iterate K init (fun u a => e.visit u a) t.elements (K.elements s').head? s'
  | _, .object r, t, a => r.visit t a

/-- `visitObject` -/
def Reflection.visit : {α : Type} → Reflection α → Toml TomlScalar → α → Visit α
  | _, .base fs, t, a => fs.visit t a
  | _, .derived s fs, t, (a, b) =>
    (s.visit t a).tryReturn (fun a' => (a', b)) fun a' =>
      (fs.visit t b).map fun p => (p.1, (a', p.2))

/-- The loop over the fields: `VIS_TRY_CONTINUE` leaves `visitObject` as well. -/
def Fields.visit : {α : Type} → Fields α → Toml TomlScalar → α → Visit α
  | _, .nil, _, u => some (.ok, u)
  | _, .cons n ty rest, t, (a, b) =>
    (push ty.type n t).tryReturn (fun _ => (a, b)) fun u =>
      (ty.visit u a).tryReturn (fun a' => (a', b)) fun a' =>
        (rest.visit t b).map fun p => (p.1, (a', p.2))

end

/-- `toml_deserialize` -/
def Reflection.tomlDeserialize {α : Type} (r : Reflection α) (t : Toml TomlScalar) (y : α) :
    Option (Bool × α) :=
  (r.visit t y).map fun p => (decide (p.1 ≠ .cancel), p.2)

/-! ### Values that are read back -/

def Fields.names : {α : Type} → Fields α → List StringView
  | _, .nil => []
  | _, .cons n _ rest => n :: rest.names

def Reflection.names : {α : Type} → Reflection α → List StringView
  | _, .base fs => fs.names
  | _, .derived s fs => s.names ++ fs.names

mutual

/-- The fields of an object and of its `Super` have different names. -/
def ArtType.WellNamed : {α : Type} → ArtType α → Prop
  | _, .array _ e => e.WellNamed
  | _, .vector e _ => e.WellNamed
  | _, .set _ _ e _ => e.WellNamed
  | _, .object r => r.names.Nodup ∧ r.FieldsWellNamed
  | _, _ => True

def Reflection.FieldsWellNamed : {α : Type} → Reflection α → Prop
  | _, .base fs => fs.WellNamed
  | _, .derived s fs => s.FieldsWellNamed ∧ fs.WellNamed

def Fields.WellNamed : {α : Type} → Fields α → Prop
  | _, .nil => True
  | _, .cons _ ty rest => ty.WellNamed ∧ rest.WellNamed

end

mutual

/-- No enumerator with a name, no time, no set and no object without fields is met in the value, and
no `float` that is another one after it was a `double`. -/
def ArtType.Plain : {α : Type} → ArtType α → α → Prop
  | _, .bool, _ => True
  | _, .integral _, _ => True
  | _, .float, v => narrow (widen v) = v
  | _, .double, _ => True
  | _, .string, _ => True
  | _, .timePoint _, _ => False
  | _, .duration _, _ => False
  | _, .enumeration _ es, v => Entries.name? es v = none
  | _, .array _ e, l => ∀ a ∈ l.1, e.Plain a
  | _, .vector e _, l => ∀ a ∈ l, e.Plain a
  | _, .set _ _ _ _, _ => False
  | _, .object r, a => r.names ≠ [] ∧ r.Plain a

def Reflection.Plain : {α : Type} → Reflection α → α → Prop
  | _, .base fs, a => fs.Plain a
  | _, .derived s fs, (a, b) => s.Plain a ∧ fs.Plain b

def Fields.Plain : {α : Type} → Fields α → α → Prop
  | _, .nil, _ => True
  | _, .cons _ ty rest, (a, b) => ty.Plain a ∧ rest.Plain b

end

/-! ### Visits -/

namespace Visit

variable {α β γ : Type} {p q : Prop} {x : α} {z : β} {v : Visit α} {w : Visit β}

/-- A visit that is not skipped and that gives the value only if the condition holds. -/
def Needs (p : Prop) (x : α) (v : Visit α) : Prop :=
  (∀ y, v ≠ some (.skip, y)) ∧ (v = some (.ok, x) → p)

lemma needs_ok (h : p) (y : α) : Needs p x (some (.ok, y)) := ⟨nofun, fun _ => h⟩

lemma needs_cancel (y : α) : Needs p x (some (.cancel, y)) := ⟨nofun, nofun⟩

lemma needs_none : Needs p x none := ⟨nofun, nofun⟩

lemma Needs.imp (h : Needs p x v) (hpq : p → q) : Needs q x v := ⟨h.1, fun hv => hpq (h.2 hv)⟩

/-- Two parts that are visited one after the other -/
lemma Needs.combine {f : α → β → γ} (hf : Function.Injective2 f) {whole : α → γ} (h : Needs p x v)
    (h' : Needs q z w) :
    Needs (p ∧ q) (f x z) (v.tryReturn whole fun a => w.map fun r => (r.1, f a r.2)) := by
  match v, w with
  | none, _ => exact needs_none
  | some (.cancel, a), _ => exact needs_cancel _
  | some (.skip, a), _ => exact absurd rfl (h.1 a)
  | some (.ok, a), none => exact needs_none
  | some (.ok, a), some (.cancel, b) => exact needs_cancel _
  | some (.ok, a), some (.skip, b) => exact absurd rfl (h'.1 b)
  | some (.ok, a), some (.ok, b) =>
    refine ⟨nofun, fun heq => ?_⟩
    have hfab : f a b = f x z := congrArg Prod.snd (Option.some.inj heq)
    obtain ⟨rfl, rfl⟩ := hf hfab
    exact ⟨h.2 rfl, h'.2 rfl⟩

lemma combine_ok {f : α → β → γ} {whole : α → γ} (h : v = some (.ok, x)) (h' : w = some (.ok, z)) :
    (v.tryReturn whole fun a => w.map fun r => (r.1, f a r.2)) = some (.ok, f x z) := by
  rw [h, h']
  rfl

end Visit

open Visit

lemma injective2_mk {α β : Type} : Function.Injective2 (Prod.mk : α → β → α × β) :=
  fun _ _ _ _ h => Prod.mk.inj h

lemma injective2_cons {α : Type} : Function.Injective2 (List.cons : α → List α → List α) :=
  fun _ _ _ _ h => List.cons.inj h

section Loops

variable {α : Type} {visit : Toml TomlScalar → α → Visit α} {p : α → Prop}
variable {l l' : List α} {ts : List (Toml TomlScalar)}

lemma forall_mem_of_forall₂ {q : Toml TomlScalar → Prop}
    (h : List.Forall₂ (fun _ t => q t) l ts) : ∀ t ∈ ts, q t := by
  induction h with
  | nil => simp
  | cons ht _ ih => exact List.forall_mem_cons.2 ⟨ht, ih⟩

lemma visitElements_ok (hlen : l'.length = l.length)
    (h : List.Forall₂ (fun a t => ∀ b, visit t b = some (.ok, a)) l ts) :
    visitElements visit ts l' = some (.ok, l) := by
  induction h generalizing l' with
  | nil =>
    obtain rfl := List.length_eq_zero_iff.1 hlen
    rfl
  | cons hat _ ih =>
    cases l' with
    | nil => simp at hlen
    | cons b l' => exact combine_ok (hat b) (ih (by simpa using hlen))

/-- A loop over elements gives what it should only if every element allows it. -/
lemma needs_visitElements (hlen : l'.length = l.length)
    (h : List.Forall₂ (fun a t => ∀ b, Needs (p a) a (visit t b)) l ts) :
    Needs (∀ a ∈ l, p a) l (visitElements visit ts l') := by
  induction h generalizing l' with
  | nil =>
    obtain rfl := List.length_eq_zero_iff.1 hlen
    exact needs_ok (by simp) _
  | cons hat _ ih =>
    cases l' with
    | nil => simp at hlen
    | cons b l' =>
      refine ((hat b).combine injective2_cons (ih (by simpa using hlen))).imp ?_
      exact fun h => List.forall_mem_cons.2 h

lemma visitFixed_eq {n : ℕ} (l : {l : List α // l.length = n}) :
    (visitFixed visit ts l).map (fun r => (r.1, r.2.1)) = visitElements visit ts l.1 := by
  unfold visitFixed
  split
  · rename_i hnone
    rw [hnone]
    rfl
  · rename_i r hr
    exact hr.symm

lemma visitFixed_ok {n : ℕ} {l l' : {l : List α // l.length = n}}
    (h : visitElements visit ts l'.1 = some (.ok, l.1)) :
    visitFixed visit ts l' = some (.ok, l) := by
  rw [← visitFixed_eq] at h
  obtain ⟨⟨r, k⟩, hk, heq⟩ := Option.map_eq_some_iff.1 h
  obtain ⟨rfl, hval⟩ := Prod.mk.inj heq
  have hkl : k = l := Subtype.ext hval
  rw [hk, hkl]

lemma needs_visitFixed {n : ℕ} {q : Prop} {l l' : {l : List α // l.length = n}}
    (h : Needs q l.1 (visitElements visit ts l'.1)) : Needs q l (visitFixed visit ts l') := by
  rw [← visitFixed_eq] at h
  refine ⟨fun y hy => h.1 y.1 ?_, fun hl => h.2 ?_⟩
  · rw [hy]
    rfl
  · rw [hl]
    rfl

lemma length_resize (init : α) (size : ℕ) (l : List α) : (resize init size l).length = size := by
  simp only [resize, List.length_append, List.length_take, List.length_replicate]
  omega

lemma peek_ok {m : MappedType} {size : ℕ} {c : ContainerType}
    (hsize : c = .arrayLike → ts.length = size)
    (h : ∀ u ∈ ts, isCompatibleTo u.type m = true) :
    peek m size c (.array ts) = some (.ok, ts.length) := by
  have hall : ts.all (isCompatibleTo ·.type m) = true := List.all_eq_true.2 h
  rw [peek, if_neg fun hn => hn.2 (hsize hn.1), if_pos hall]

/-- Elements of other types are not read. -/
lemma peek_cases (m : MappedType) (size : ℕ) (type : ContainerType) (ts : List (Toml TomlScalar)) :
    peek m size type (.array ts) = some (.cancel, size) ∨
      (∀ u ∈ ts, isCompatibleTo u.type m = true) ∧
        peek m size type (.array ts) = some (.ok, ts.length) := by
  rw [peek]
  split
  · exact .inl rfl
  · split
    · rename_i hall
      exact .inr ⟨List.all_eq_true.1 hall, rfl⟩
    · exact .inl rfl

end Loops

@[simp] lemma Integral.ofInteger_toInteger (i : Integral) (v : BitVec i.width) :
    i.ofInteger (i.toInteger v) = v := by
  have hw : i.width ≤ 64 := by cases i <;> decide
  unfold ofInteger toInteger
  split
  · ext k hk
    have hk' : k < 64 := hk.trans_le hw
    simp [BitVec.getElem_signExtend, hk, hk']
  · rw [BitVec.setWidth_setWidth_of_le _ hw, BitVec.setWidth_eq]

/-! ### What the serializer leaves -/

namespace Reflected

open Toml

lemma serializeElements_nil (xs : List (Reflected TomlScalar)) :
    serializeElements xs [] = xs.map (·.serialize .uninitialized) := by
  induction xs with
  | nil => rfl
  | cons x xs ih => simp [serializeElements, ih]

/-- In fields of different names each is found as it is written into nothing. -/
lemma get?_serializeFields {fs : List (StringView × Reflected TomlScalar)} {t : Toml TomlScalar}
    (hnodup : (fs.map Prod.fst).Nodup) (hnew : ∀ f ∈ fs, t.get? f.1 = none) :
    ∀ f ∈ fs, (serializeFields fs t).get? f.1 = some (f.2.serialize .uninitialized) := by
  induction fs generalizing t with
  | nil => simp
  | cons g fs ih =>
    obtain ⟨n, r⟩ := g
    simp only [List.map_cons, List.nodup_cons] at hnodup
    have hget : t.get? n = none := hnew (n, r) (by simp)
    intro f hf
    simp only [serializeFields, hget, Option.getD_none]
    obtain rfl | hf := List.mem_cons.1 hf
    · rw [get?_serializeFields_of_not_mem hnodup.1, get?_set_self]
    · refine ih hnodup.2 (fun e he => ?_) f hf
      have hne : e.1 ≠ n := fun heq => hnodup.1 (heq ▸ List.mem_map_of_mem he)
      rw [get?_set_ne hne]
      exact hnew e (by simp [he])

end Reflected

lemma Fields.map_fst_reflected : {α : Type} → (fs : Fields α) → (x : α) →
    (fs.reflected x).map Prod.fst = fs.names
  | _, .nil, _ => rfl
  | _, .cons n ty rest, (a, b) => by
    simp [Fields.reflected, Fields.names, rest.map_fst_reflected b]

lemma Reflection.map_fst_reflected : {α : Type} → (r : Reflection α) → (x : α) →
    (r.reflected x).map Prod.fst = r.names
  | _, .base fs, x => by simp [Reflection.reflected, Reflection.names, fs.map_fst_reflected x]
  | _, .derived s fs, (a, b) => by
    simp [Reflection.reflected, Reflection.names, s.map_fst_reflected a, fs.map_fst_reflected b]

/-- What the serializer makes of a value that it writes into nothing. -/
def ArtType.image {α : Type} (ty : ArtType α) (x : α) : Toml TomlScalar :=
  (ty.reflected x).serialize .uninitialized

/-- The table holds the fields of an object as they are written into nothing. -/
def Holds (t : Toml TomlScalar) (fs : List (StringView × Reflected TomlScalar)) : Prop :=
  ∀ f ∈ fs, t.get? f.1 = some (f.2.serialize .uninitialized)

lemma Reflection.holds_tomlSerialize {α : Type} {r : Reflection α} (h : r.names.Nodup) (x : α) :
    Holds (r.tomlSerialize x .uninitialized) (r.reflected x) := by
  refine Reflected.get?_serializeFields ?_ fun f _ => rfl
  rwa [r.map_fst_reflected x]

/-! ### The round trip -/

namespace Reflected

variable {fs gs : List (StringView × Reflected TomlScalar)} {t : Toml TomlScalar}

lemma fieldsHeldBy_append : FieldsHeldBy (fs ++ gs) t ↔ FieldsHeldBy fs t ∧ FieldsHeldBy gs t := by
  induction fs with
  | nil => simp [FieldsHeldBy]
  | cons f fs ih => simp [FieldsHeldBy, ih, and_assoc]

lemma elementsHeldBy_map {α : Type} {f : α → Reflected TomlScalar} {l : List α}
    {ts : List (Toml TomlScalar)} :
    ElementsHeldBy (l.map f) ts ↔ List.Forall₂ (fun a t => (f a).HeldBy t) l ts := by
  induction l generalizing ts with
  | nil => simp [ElementsHeldBy]
  | cons a l ih =>
    rw [List.map_cons, ElementsHeldBy, List.forall₂_cons_left_iff]
    refine exists₂_congr fun u us => ?_
    rw [ih]
    tauto

lemma elementsWellFormed_map {α : Type} {f : α → Reflected TomlScalar} {l : List α} :
    ElementsWellFormed (l.map f) ↔ ∀ a ∈ l, (f a).WellFormed := by
  induction l with
  | nil => simp [ElementsWellFormed]
  | cons a l ih => simp [ElementsWellFormed, ih]

lemma fieldsWellFormed_iff : FieldsWellFormed fs ↔
    (fs.map Prod.fst).Nodup ∧ ∀ f ∈ fs, f.2.WellFormed := by
  induction fs with
  | nil => simp [FieldsWellFormed]
  | cons f fs ih =>
    rw [FieldsWellFormed, ih, List.map_cons, List.nodup_cons, List.forall_mem_cons]
    tauto

end Reflected

mutual

/-- Objects with different field names show members with different names. -/
theorem ArtType.wellFormed_reflected : {α : Type} → (ty : ArtType α) → ty.WellNamed → (x : α) →
    (ty.reflected x).WellFormed
  | _, .bool, _, x | _, .integral i, _, x | _, .float, _, x | _, .double, _, x
  | _, .string, _, x | _, .timePoint c, _, x | _, .duration c, _, x => by
    simp [ArtType.reflected, Reflected.WellFormed]
  | _, .enumeration i es, _, x => by
    rw [ArtType.reflected]
    cases Entries.name? es x <;> simp [Reflected.WellFormed]
  | _, .array n e, h, x | _, .vector e init, h, x | _, .set eq K e init, h, x => by
    simp only [ArtType.WellNamed] at h
    rw [ArtType.reflected, Reflected.WellFormed, Reflected.elementsWellFormed_map]
    exact fun a _ => e.wellFormed_reflected h a
  | _, .object r, h, x => by
    simp only [ArtType.WellNamed] at h
    rw [ArtType.reflected, Reflected.WellFormed, Reflected.fieldsWellFormed_iff,
      r.map_fst_reflected]
    exact ⟨h.1, r.wellFormed_reflected h.2 x⟩

theorem Reflection.wellFormed_reflected : {α : Type} → (r : Reflection α) → r.FieldsWellNamed →
    (x : α) → ∀ f ∈ r.reflected x, f.2.WellFormed
  | _, .base fs, h, x => by
    simp only [Reflection.FieldsWellNamed] at h
    rw [Reflection.reflected]
    exact fs.wellFormed_reflected h x
  | _, .derived s fs, h, (a, b) => by
    simp only [Reflection.FieldsWellNamed] at h
    rw [Reflection.reflected]
    exact List.forall_mem_append.2 ⟨s.wellFormed_reflected h.1 a, fs.wellFormed_reflected h.2 b⟩

theorem Fields.wellFormed_reflected : {α : Type} → (fs : Fields α) → fs.WellNamed → (x : α) →
    ∀ f ∈ fs.reflected x, f.2.WellFormed
  | _, .nil, _, x => by simp [Fields.reflected]
  | _, .cons n ty rest, h, (a, b) => by
    simp only [Fields.WellNamed] at h
    rw [Fields.reflected]
    exact List.forall_mem_cons.2 ⟨ty.wellFormed_reflected h.1 a, rest.wellFormed_reflected h.2 b⟩

end

/-- What was written over something else contains the object. -/
lemma Reflection.heldBy_tomlSerialize {α : Type} {r : Reflection α}
    (h : (ArtType.object r).WellNamed) (x : α) (t : Toml TomlScalar) :
    Reflected.FieldsHeldBy (r.reflected x) (r.tomlSerialize x t) := by
  have hwell := (ArtType.object r).wellFormed_reflected h x
  rw [ArtType.reflected, Reflected.WellFormed] at hwell
  exact Reflected.fieldsHeldBy_serialize _ hwell t

/-- A plain value is contained in values of its type. -/
lemma ArtType.isCompatibleTo_of_heldBy {α : Type} {ty : ArtType α} {x : α} (h : ty.Plain x)
    {t : Toml TomlScalar} (ht : (ty.reflected x).HeldBy t) :
    isCompatibleTo t.type ty.type = true := by
  cases ty with
  | bool | float | double | string =>
    rw [ArtType.reflected, Reflected.HeldBy] at ht
    subst ht
    rfl
  | integral i =>
    rw [ArtType.reflected, Reflected.HeldBy] at ht
    subst ht
    cases i <;> rfl
  | timePoint c | duration c => exact absurd h (by simp [ArtType.Plain])
  | enumeration i es =>
    rw [ArtType.Plain] at h
    simp only [ArtType.reflected, h, Reflected.HeldBy] at ht
    subst ht
    cases i <;> rfl
  | array n e | vector e init =>
    rw [ArtType.reflected, Reflected.HeldBy] at ht
    obtain ⟨ts, rfl, -⟩ := ht
    rfl
  | set eq K e init => exact absurd h (by simp [ArtType.Plain])
  | object r =>
    rw [ArtType.Plain] at h
    -- A field is found there.
    cases hfields : r.reflected x with
    | nil =>
      have hnames := r.map_fst_reflected x
      rw [hfields] at hnames
      exact absurd hnames.symm h.1
    | cons f fs =>
      rw [ArtType.reflected, Reflected.HeldBy, hfields, Reflected.FieldsHeldBy] at ht
      obtain ⟨⟨u, hu, -⟩, -⟩ := ht
      cases t with
      | table es => rfl
      | _ => cases hu

mutual

/-- A plain value is read from everything that contains it. -/
theorem ArtType.visit_of_heldBy : {α : Type} → (ty : ArtType α) → (x y : α) → ty.Plain x →
    {t : Toml TomlScalar} → (ty.reflected x).HeldBy t → ty.visit t y = some (.ok, x)
  | _, .bool, x, y, _, t, ht => by
    rw [ArtType.reflected, Reflected.HeldBy] at ht
    rw [ht, ArtType.visit]
  | _, .integral i, x, y, _, t, ht => by
    rw [ArtType.reflected, Reflected.HeldBy] at ht
    rw [ht, ArtType.visit, getInteger, Integral.ofInteger_toInteger]
  | _, .float, x, y, h, t, ht => by
    rw [ArtType.Plain] at h
    rw [ArtType.reflected, Reflected.HeldBy] at ht
    rw [ht, ArtType.visit, getFloating, h]
  | _, .double, x, y, _, t, ht => by
    rw [ArtType.reflected, Reflected.HeldBy] at ht
    rw [ht, ArtType.visit, getFloating, id]
  | _, .string, x, y, _, t, ht => by
    rw [ArtType.reflected, Reflected.HeldBy] at ht
    rw [ht, ArtType.visit]
  | _, .timePoint c, x, y, h, t, _ => absurd h (by simp [ArtType.Plain])
  | _, .duration c, x, y, h, t, _ => absurd h (by simp [ArtType.Plain])
  | _, .enumeration i es, x, y, h, t, ht => by
    rw [ArtType.Plain] at h
    simp only [ArtType.reflected, h, Reflected.HeldBy] at ht
    rw [ht, ArtType.visit, getInteger, Integral.ofInteger_toInteger]
    exact nofun
  | _, .array n e, x, y, h, t, ht => by
    rw [ArtType.Plain] at h
    rw [ArtType.reflected, Reflected.HeldBy] at ht
    obtain ⟨ts, rfl, ht⟩ := ht
    rw [Reflected.elementsHeldBy_map] at ht
    have hsize : ts.length = y.1.length := by rw [← ht.length_eq, x.2, y.2]
    have hplain := (List.forall₂_and_left _ _).2 ⟨h, ht⟩
    have hall : ∀ u ∈ ts, isCompatibleTo u.type e.type = true :=
      forall_mem_of_forall₂ (hplain.imp fun a u hau => e.isCompatibleTo_of_heldBy hau.1 hau.2)
    rw [ArtType.visit, peek_ok (fun _ => hsize) hall, tryReturn, hsize]
    simp only [ne_eq, not_true_eq_false, if_false]
    refine visitFixed_ok (visitElements_ok (y.2.trans x.2.symm) (hplain.imp fun a u hau b => ?_))
    exact e.visit_of_heldBy a b hau.1 hau.2
  | _, .vector e init, x, y, h, t, ht => by
    rw [ArtType.Plain] at h
    rw [ArtType.reflected, Reflected.HeldBy] at ht
    obtain ⟨ts, rfl, ht⟩ := ht
    rw [Reflected.elementsHeldBy_map] at ht
    have hplain := (List.forall₂_and_left _ _).2 ⟨h, ht⟩
    have hall : ∀ u ∈ ts, isCompatibleTo u.type e.type = true :=
      forall_mem_of_forall₂ (hplain.imp fun a u hau => e.isCompatibleTo_of_heldBy hau.1 hau.2)
    rw [ArtType.visit, peek_ok (c := .vectorLike) (fun hn => nomatch hn) hall, tryReturn]
    refine visitElements_ok ?_ (hplain.imp fun a u hau b => ?_)
    · rw [length_resize, ht.length_eq]
    · exact e.visit_of_heldBy a b hau.1 hau.2
  | _, .set eq K e init, x, y, h, t, _ => absurd h (by simp [ArtType.Plain])
  | _, .object r, x, y, h, t, ht => by
    rw [ArtType.Plain] at h
    rw [ArtType.reflected, Reflected.HeldBy] at ht
    rw [ArtType.visit]
    exact r.visit_of_heldBy x y h.2 ht

theorem Reflection.visit_of_heldBy : {α : Type} → (r : Reflection α) → (x y : α) → r.Plain x →
    {t : Toml TomlScalar} → Reflected.FieldsHeldBy (r.reflected x) t → r.visit t y = some (.ok, x)
  | _, .base fs, x, y, h, t, ht => by
    rw [Reflection.Plain] at h
    rw [Reflection.reflected] at ht
    rw [Reflection.visit]
    exact fs.visit_of_heldBy x y h ht
  | _, .derived s fs, (a, b), (a', b'), h, t, ht => by
    rw [Reflection.Plain] at h
    rw [Reflection.reflected, Reflected.fieldsHeldBy_append] at ht
    rw [Reflection.visit]
    exact combine_ok (s.visit_of_heldBy a a' h.1 ht.1) (fs.visit_of_heldBy b b' h.2 ht.2)

theorem Fields.visit_of_heldBy : {α : Type} → (fs : Fields α) → (x y : α) → fs.Plain x →
    {t : Toml TomlScalar} → Reflected.FieldsHeldBy (fs.reflected x) t →
    fs.visit t y = some (.ok, x)
  | _, .nil, x, y, _, t, _ => by rw [Fields.visit]
  | _, .cons n ty rest, (a, b), (a', b'), h, t, ht => by
    rw [Fields.Plain] at h
    rw [Fields.reflected, Reflected.FieldsHeldBy] at ht
    obtain ⟨⟨u, hu, hau⟩, hrest⟩ := ht
    rw [Fields.visit, push, hu]
    simp only [ArtType.isCompatibleTo_of_heldBy h.1 hau, if_true, tryReturn]
    exact combine_ok (ty.visit_of_heldBy a a' h.1 hau) (rest.visit_of_heldBy b b' h.2 hrest)

end

lemma ArtType.serializeElements_map {α : Type} (e : ArtType α) (l : List α) :
    Reflected.serializeElements (l.map fun a => e.reflected a) [] = l.map e.image := by
  rw [Reflected.serializeElements_nil, List.map_map]
  rfl

/-- What is written into nothing is never of the type of a time. -/
lemma Chrono.isCompatibleTo_toml {α : Type} (c : Chrono α) (x : α) (m : MappedType) :
    isCompatibleTo (c.toml x).type m = false := by
  have hdate := c.isDate_toml x
  revert hdate
  generalize (c.toml x).type = v
  cases v <;> simp [ValueType.isDate, isCompatibleTo]

mutual

/-- What was written into nothing is only read back if it is plain. -/
theorem ArtType.needs_visit : {α : Type} → (ty : ArtType α) → ty.WellNamed → (x y : α) →
    isCompatibleTo (ty.image x).type ty.type = true →
    Needs (ty.Plain x) x (ty.visit (ty.image x) y)
  | _, .bool, _, x, y, _ => by
    rw [ArtType.image, ArtType.reflected, Reflected.serialize, ArtType.visit]
    exact needs_ok (by simp [ArtType.Plain]) _
  | _, .integral i, _, x, y, _ => by
    rw [ArtType.image, ArtType.reflected, Reflected.serialize, ArtType.visit, getInteger]
    exact needs_ok (by simp [ArtType.Plain]) _
  | _, .float, _, x, y, _ => by
    rw [ArtType.image, ArtType.reflected, Reflected.serialize, ArtType.visit, getFloating,
      ArtType.Plain]
    exact ⟨nofun, fun heq => congrArg Prod.snd (Option.some.inj heq)⟩
  | _, .double, _, x, y, _ => by
    rw [ArtType.image, ArtType.reflected, Reflected.serialize, ArtType.visit, getFloating]
    exact needs_ok (by simp [ArtType.Plain]) _
  | _, .string, _, x, y, _ => by
    rw [ArtType.image, ArtType.reflected, Reflected.serialize, ArtType.visit]
    exact needs_ok (by simp [ArtType.Plain]) _
  | _, .timePoint c, _, x, y, hc => by
    rw [ArtType.image, ArtType.reflected, Reflected.serialize, Toml.type,
      c.isCompatibleTo_toml] at hc
    cases hc
  | _, .duration c, _, x, y, hc => by
    rw [ArtType.image, ArtType.reflected, Reflected.serialize, Toml.type,
      c.isCompatibleTo_toml] at hc
    cases hc
  | _, .enumeration i es, _, x, y, hc => by
    cases hname : Entries.name? es x with
    | some name =>
      -- The name is a string, and the mapped type of an enumeration is integral.
      simp only [ArtType.image, ArtType.reflected, hname, Reflected.serialize] at hc
      cases i <;> exact absurd hc Bool.false_ne_true
    | none =>
      simp only [ArtType.image, ArtType.reflected, hname, Reflected.serialize, ArtType.visit,
        getInteger]
      exact needs_ok (by simpa [ArtType.Plain] using hname) _
  | _, .array n e, hw, x, y, _ => by
    simp only [ArtType.WellNamed] at hw
    simp only [ArtType.image, ArtType.reflected, Reflected.serialize, Toml.elements,
      e.serializeElements_map, ArtType.visit]
    obtain hpeek | ⟨hall, hpeek⟩ := peek_cases e.type y.1.length .arrayLike (x.1.map e.image)
    · rw [hpeek]
      exact needs_cancel _
    · have hsize : (x.1.map e.image).length = y.1.length := by rw [List.length_map, x.2, y.2]
      rw [hpeek, tryReturn, hsize]
      simp only [ne_eq, not_true_eq_false, if_false, ArtType.Plain]
      refine needs_visitFixed (needs_visitElements (y.2.trans x.2.symm) ?_)
      rw [List.forall₂_map_right_iff, List.forall₂_same]
      exact fun a ha b => e.needs_visit hw a b (hall _ (List.mem_map_of_mem ha))
  | _, .vector e init, hw, x, y, _ => by
    simp only [ArtType.WellNamed] at hw
    simp only [ArtType.image, ArtType.reflected, Reflected.serialize, Toml.elements,
      e.serializeElements_map, ArtType.visit]
    obtain hpeek | ⟨hall, hpeek⟩ := peek_cases e.type y.length .vectorLike (x.map e.image)
    · rw [hpeek]
      exact needs_cancel _
    · rw [hpeek, tryReturn]
      simp only [ArtType.Plain]
      refine needs_visitElements ?_ ?_
      · rw [length_resize, List.length_map]
      · rw [List.forall₂_map_right_iff, List.forall₂_same]
        exact fun a ha b => e.needs_visit hw a b (hall _ (List.mem_map_of_mem ha))
  | _, .set eq K e init, _, x, y, hc => absurd hc Bool.false_ne_true
  | _, .object r, hw, x, y, hc => by
    simp only [ArtType.WellNamed] at hw
    -- Without a field nothing would have been written.
    have hne : r.names ≠ [] := by
      intro hnil
      rw [← r.map_fst_reflected x, List.map_eq_nil_iff] at hnil
      simp only [ArtType.image, ArtType.reflected, hnil, Reflected.serialize,
        Reflected.serializeFields] at hc
      exact absurd hc Bool.false_ne_true
    rw [ArtType.visit, ArtType.Plain]
    exact (r.needs_visit hw.2 x y (r.holds_tomlSerialize hw.1 x)).imp fun h => ⟨hne, h⟩

theorem Reflection.needs_visit : {α : Type} → (r : Reflection α) → r.FieldsWellNamed → (x y : α) →
    {t : Toml TomlScalar} → Holds t (r.reflected x) → Needs (r.Plain x) x (r.visit t y)
  | _, .base fs, hw, x, y, t, ht => by
    simp only [Reflection.FieldsWellNamed] at hw
    rw [Reflection.visit, Reflection.Plain]
    exact fs.needs_visit hw x y ht
  | _, .derived s fs, hw, (a, b), (a', b'), t, ht => by
    simp only [Reflection.FieldsWellNamed] at hw
    simp only [Reflection.reflected] at ht
    have hsuper := s.needs_visit hw.1 a a' fun f hf => ht f (List.mem_append_left _ hf)
    have hfields := fs.needs_visit hw.2 b b' fun f hf => ht f (List.mem_append_right _ hf)
    rw [Reflection.visit, Reflection.Plain]
    exact hsuper.combine injective2_mk hfields

theorem Fields.needs_visit : {α : Type} → (fs : Fields α) → fs.WellNamed → (x y : α) →
    {t : Toml TomlScalar} → Holds t (fs.reflected x) → Needs (fs.Plain x) x (fs.visit t y)
  | _, .nil, _, x, y, t, _ => by
    rw [Fields.visit]
    exact needs_ok (by simp [Fields.Plain]) _
  | _, .cons n ty rest, hw, (a, b), (a', b'), t, ht => by
    simp only [Fields.WellNamed] at hw
    simp only [Fields.reflected] at ht
    have hget : t.get? n = some (ty.image a) := ht (n, ty.reflected a) (by simp)
    have hrest := rest.needs_visit hw.2 b b' fun f hf => ht f (by simp [hf])
    rw [Fields.visit, push, hget, Fields.Plain]
    by_cases hc : isCompatibleTo (ty.image a).type ty.type = true
    · simp only [hc, if_true, tryReturn]
      exact (ty.needs_visit hw.1 a a' hc).combine injective2_mk hrest
    · simp only [hc, tryReturn]
      exact needs_cancel _

end

/-- An object that is written into nothing and read back over any other is the same again just if
it is plain. -/
theorem Reflection.tomlDeserialize_tomlSerialize {α : Type} (r : Reflection α)
    (h : (ArtType.object r).WellNamed) (x y : α) :
    r.tomlDeserialize (r.tomlSerialize x .uninitialized) y = some (true, x) ↔ r.Plain x := by
  constructor
  · intro heq
    simp only [ArtType.WellNamed] at h
    have hneeds := r.needs_visit h.2 x y (r.holds_tomlSerialize h.1 x)
    obtain ⟨⟨v, z⟩, hv, hz⟩ := Option.map_eq_some_iff.1 heq
    obtain ⟨hcancel, rfl⟩ := Prod.mk.inj hz
    cases v with
    | ok => exact hneeds.2 hv
    | skip => exact absurd hv (hneeds.1 z)
    | cancel => simp at hcancel
  · intro hp
    rw [tomlDeserialize, r.visit_of_heldBy x y hp (r.heldBy_tomlSerialize h x _)]
    rfl

/-- A class with a `Super`, containers and an object inside -/
def plainReflection : Reflection ((BitVec 32 × Unit) ×
    (StringView × List (BitVec 16) × {l : List Bool // l.length = 2} × (BitVec 64 × Unit) ×
      Unit)) :=
  .derived (.base (.cons ['i', 'd'] (.integral .uint32) .nil))
    (.cons ['n'] .string (.cons ['s'] (.vector (.integral .int16) 0)
      (.cons ['b'] (.array 2 .bool) (.cons ['o']
        (.object (.base (.cons ['v'] (.integral .uint64) .nil))) .nil))))

theorem tomlDeserialize_tomlSerialize_plainReflection :
    plainReflection.tomlDeserialize (plainReflection.tomlSerialize
      ((7, ()), ['a'], [3, -1], ⟨[true, false], rfl⟩, (2 ^ 64 - 1, ()), ()) .uninitialized)
      ((0, ()), [], [], ⟨[false, false], rfl⟩, (0, ()), ()) =
        some (true, (7, ()), ['a'], [3, -1], ⟨[true, false], rfl⟩, (2 ^ 64 - 1, ()), ()) := by
  refine (plainReflection.tomlDeserialize_tomlSerialize ?_ _ _).2 ?_
  · simp [plainReflection, ArtType.WellNamed, Reflection.FieldsWellNamed, Fields.WellNamed,
      Reflection.names, Fields.names]
  · simp [plainReflection, ArtType.Plain, Reflection.Plain, Fields.Plain, Reflection.names,
      Fields.names]

/-- A class with one field of an enumeration that has two names -/
def modeReflection : Reflection (BitVec 8 × Unit) :=
  .base (.cons ['m'] (.enumeration .uint8 [(['S'], 0), (['F'], 1)]) .nil)

/-- A class with one field that is a set of strings -/
def tagsReflection : Reflection (OrderedSet StringView × Unit) :=
  .base (.cons ['t'] (.set inferInstance (OrderedSet.container StringView) .string []) .nil)

/-- A class with one field that is an object without fields -/
def markerReflection : Reflection (Unit × Unit) := .base (.cons ['o'] (.object (.base .nil)) .nil)

/-- A class that declares a field of its `Super` again -/
def shadowReflection : Reflection ((BitVec 8 × Unit) × (BitVec 8 × Unit)) :=
  .derived (.base (.cons ['v'] (.integral .uint8) .nil)) (.cons ['v'] (.integral .uint8) .nil)

theorem tomlDeserialize_tomlSerialize_differs :
    modeReflection.tomlDeserialize (modeReflection.tomlSerialize (1, ()) .uninitialized) (0, ()) =
        some (false, 0, ()) ∧
      tagsReflection.tomlDeserialize (tagsReflection.tomlSerialize (⟨[['a']], by simp⟩, ())
        .uninitialized) (⟨[], .nil⟩, ()) = some (false, ⟨[], .nil⟩, ()) ∧
      markerReflection.tomlDeserialize (markerReflection.tomlSerialize ((), ()) .uninitialized)
        ((), ()) = some (false, (), ()) ∧
      shadowReflection.tomlDeserialize (shadowReflection.tomlSerialize ((1, ()), 2, ())
        .uninitialized) ((0, ()), 0, ()) = some (true, (2, ()), 2, ()) := by
  decide

end Idle
