import Idle.Service.Values

/-!
# Comparing values

`toml::basic_value` is compared by an `operator==` that is not part of the repository, and the
floating point values in it by that of `double`. Both are parameters here, with what is documented
about them: two values are equal if their types, their comments and what they hold are.
-/

namespace Idle

/-! ### Floating point values -/

def BasicValue.type : BasicValue TomlScalar → ValueType
  | uninitialized _ => .empty
  | value _ v => v.type
  | array _ _ => .array
  | table _ _ => .table

/-- `std::isnan` of the bits of a `double` -/
def isNaN (bits : BitVec 64) : Bool :=
  bits.extractLsb' 52 11 = BitVec.allOnes 11 ∧ bits.extractLsb' 0 52 ≠ 0

def TomlScalar.isNaN : TomlScalar → Bool
  | floating bits => Idle.isNaN bits
  | _ => false

namespace TomlScalar

variable {v : TomlScalar}

lemma exists_of_type_eq_floating (h : v.type = .floating) : ∃ bits, v = floating bits := by
  cases v with
  | floating bits => exact ⟨bits, rfl⟩
  | _ => cases h

lemma isNaN_eq_false (h : v.type ≠ .floating) : v.isNaN = false := by
  cases v with
  | floating bits => exact absurd rfl h
  | _ => rfl

end TomlScalar

namespace BasicValue

mutual

/-- No floating point value in it is NaN. -/
def NaNFree : BasicValue TomlScalar → Prop
  | uninitialized _ => True
  | value _ v => v.isNaN = false
  | array _ ts => ElementsNaNFree ts
  | table _ es => EntriesNaNFree es

def ElementsNaNFree : List (BasicValue TomlScalar) → Prop
  | [] => True
  | t :: ts => t.NaNFree ∧ ElementsNaNFree ts

def EntriesNaNFree : List (StringView × BasicValue TomlScalar) → Prop
  | [] => True
  | (_, t) :: es => t.NaNFree ∧ EntriesNaNFree es

end

lemma elementsNaNFree_iff {ts : List (BasicValue TomlScalar)} :
    ElementsNaNFree ts ↔ ∀ t ∈ ts, t.NaNFree := by
  induction ts with
  | nil => simp [ElementsNaNFree]
  | cons t ts ih => simp [ElementsNaNFree, ih]

lemma entriesNaNFree_iff {es : List (StringView × BasicValue TomlScalar)} :
    EntriesNaNFree es ↔ ∀ e ∈ es, e.2.NaNFree := by
  induction es with
  | nil => simp [EntriesNaNFree]
  | cons e es ih => simp [EntriesNaNFree, ih]

end BasicValue

/-! ### The same values -/

/-- The comparison of `double`s is symmetric and transitive, and only NaN is not equal to itself. -/
structure ComparesFloating (floating : BitVec 64 → BitVec 64 → Bool) : Prop where
  symm : ∀ a b, floating a b = true → floating b a = true
  trans : ∀ a b c, floating a b = true → floating b c = true → floating a c = true
  self_iff : ∀ a, floating a a = true ↔ isNaN a = false

namespace BasicValue

/-- Two values have the same comments and hold the same, tables without their order and floating
point values by a comparison of their own. -/
inductive Same (floating : BitVec 64 → BitVec 64 → Bool) :
    BasicValue TomlScalar → BasicValue TomlScalar → Prop where
  | uninitialized (cs : List StringView) : Same floating (.uninitialized cs) (.uninitialized cs)
  | floating (cs : List StringView) {a b : BitVec 64} : floating a b = true →
      Same floating (.value cs (.floating a)) (.value cs (.floating b))
  | value (cs : List StringView) {v : TomlScalar} : v.type ≠ .floating →
      Same floating (.value cs v) (.value cs v)
  | array (cs : List StringView) {ts us : List (BasicValue TomlScalar)} :
      List.Forall₂ (Same floating) ts us → Same floating (.array cs ts) (.array cs us)
  | table (cs : List StringView) {es fs : List (StringView × BasicValue TomlScalar)} :
      es.length = fs.length → (∀ e ∈ es, (fs.lookup e.1).isSome) →
      (∀ e ∈ es, ∀ u, fs.lookup e.1 = some u → Same floating e.2 u) →
      Same floating (.table cs es) (.table cs fs)

/-- Induction over the elements and the entries. -/
@[elab_as_elim]
theorem nested {α : Type} {P : BasicValue α → Prop} (uninitialized : ∀ cs, P (.uninitialized cs))
    (value : ∀ cs v, P (.value cs v)) (array : ∀ cs ts, (∀ t ∈ ts, P t) → P (.array cs ts))
    (table : ∀ cs es, (∀ e ∈ es, P e.2) → P (.table cs es)) (t : BasicValue α) : P t :=
  @BasicValue.rec α P (fun ts => ∀ t ∈ ts, P t) (fun es => ∀ e ∈ es, P e.2) (fun e => P e.2)
    uninitialized value array table (by simp) (fun _ _ ht hts => List.forall_mem_cons.2 ⟨ht, hts⟩)
    (by simp) (fun _ _ he hes => List.forall_mem_cons.2 ⟨he, hes⟩) (fun _ _ ht => ht) t

variable {floating : BitVec 64 → BitVec 64 → Bool} {t u v : BasicValue TomlScalar}

lemma same_table_iff {cs : List StringView} {es fs : List (StringView × BasicValue TomlScalar)} :
    Same floating (.table cs es) (.table cs fs) ↔ es.length = fs.length ∧
      ∀ e ∈ es, ∃ u, fs.lookup e.1 = some u ∧ Same floating e.2 u := by
  constructor
  · rintro (_ | _ | _ | _ | ⟨_, hlen, hsome, hsame⟩)
    refine ⟨hlen, fun e he => ?_⟩
    obtain ⟨u, hu⟩ := Option.isSome_iff_exists.1 (hsome e he)
    exact ⟨u, hu, hsame e he u hu⟩
  · rintro ⟨hlen, h⟩
    refine .table cs hlen (fun e he => ?_) fun e he u hu => ?_
    · obtain ⟨u, hu, -⟩ := h e he
      rw [hu]
      rfl
    · obtain ⟨w, hw, hsame⟩ := h e he
      rw [hu] at hw
      cases hw
      exact hsame

/-- Tables of the same size are the same as soon as one has the entries of the other. -/
lemma Same.symm_table {cs : List StringView} {es fs : List (StringView × BasicValue TomlScalar)}
    (hes : (es.map Prod.fst).Nodup) (hfs : (fs.map Prod.fst).Nodup)
    (h : Same floating (.table cs es) (.table cs fs))
    (hsymm : ∀ e ∈ es, ∀ f ∈ fs, Same floating e.2 f.2 → Same floating f.2 e.2) :
    Same floating (.table cs fs) (.table cs es) := by
  rw [same_table_iff] at h ⊢
  obtain ⟨hlen, h⟩ := h
  refine ⟨hlen.symm, ?_⟩
  have hsub : es.map Prod.fst ⊆ fs.map Prod.fst := by
    intro n hn
    obtain ⟨e, he, rfl⟩ := List.mem_map.1 hn
    obtain ⟨u, hu, -⟩ := h e he
    exact List.mem_map.2 ⟨_, List.mem_of_lookup_eq_some hu, rfl⟩
  have hperm : (es.map Prod.fst).Perm (fs.map Prod.fst) :=
    (hes.subperm hsub).perm_of_length_le (by simp [hlen])
  rintro ⟨n, u⟩ hf
  obtain ⟨⟨n', t⟩, he, rfl⟩ := List.mem_map.1 (hperm.mem_iff.2 (List.mem_map_of_mem hf))
  obtain ⟨w, hw, heq⟩ := h _ he
  rw [List.lookup_eq_some_of_mem hfs hf] at hw
  cases hw
  exact ⟨t, List.lookup_eq_some_of_mem hes he, hsymm _ he _ hf heq⟩

theorem Same.symm (hf : ComparesFloating floating) (ht : t.Distinct) (hu : u.Distinct)
    (h : Same floating t u) : Same floating u t := by
  induction t using nested generalizing u with
  | uninitialized cs =>
    cases h
    exact .uninitialized cs
  | value cs v =>
    cases h with
    | floating _ hab => exact .floating cs (hf.symm _ _ hab)
    | value _ hv => exact .value cs hv
  | array cs ts ih =>
    cases h with
    | array _ hall =>
      rw [Distinct, elementsDistinct_iff] at ht hu
      refine .array cs (List.Forall₂.flip ?_)
      induction hall with
      | nil => exact .nil
      | cons hab _ hrest =>
        rw [List.forall_mem_cons] at ht hu
        exact .cons (ih _ List.mem_cons_self ht.1 hu.1 hab)
          (hrest (fun w hw => ih w (List.mem_cons_of_mem _ hw)) ht.2 hu.2)
  | table cs es ih =>
    cases h with
    | table _ hlen hsome hsame =>
      rw [distinct_table_iff] at ht hu
      exact symm_table ht.1 hu.1 (.table cs hlen hsome hsame) fun e he f hf =>
        ih e he (ht.2 e he) (hu.2 f hf)

theorem Same.trans (hf : ComparesFloating floating) (h : Same floating t u)
    (h' : Same floating u v) : Same floating t v := by
  induction t using nested generalizing u v with
  | uninitialized cs =>
    cases h
    exact h'
  | value cs x =>
    cases h with
    | floating _ hab =>
      cases h' with
      | floating _ hbc => exact .floating cs (hf.trans _ _ _ hab hbc)
      | value _ hv => exact absurd rfl hv
    | value _ hv => exact h'
  | array cs ts ih =>
    cases h with
    | array _ hall =>
      cases h' with
      | @array _ _ vs hall' =>
        refine .array cs ?_
        induction hall generalizing vs with
        | nil => exact hall'
        | cons hab _ hrest =>
          cases hall' with
          | cons hbc hall' =>
            exact .cons (ih _ List.mem_cons_self hab hbc)
              (hrest (fun w hw => ih w (List.mem_cons_of_mem _ hw)) hall')
  | table cs es ih =>
    cases h with
    | table _ hlen hsome hsame =>
      cases h' with
      | table _ hlen' hsome' hsame' =>
        refine same_table_iff.2 ⟨hlen.trans hlen', fun e he => ?_⟩
        obtain ⟨u, hu⟩ := Option.isSome_iff_exists.1 (hsome e he)
        have hmem := List.mem_of_lookup_eq_some hu
        obtain ⟨w, hw⟩ := Option.isSome_iff_exists.1 (hsome' _ hmem)
        exact ⟨w, hw, ih e he (hsame e he u hu) (hsame' _ hmem w hw)⟩

/-- Only NaN makes a value differ from itself. -/
theorem same_self_iff (hf : ComparesFloating floating) (ht : t.Distinct) :
    Same floating t t ↔ t.NaNFree := by
  induction t using nested with
  | uninitialized cs => exact iff_of_true (.uninitialized cs) (by simp [NaNFree])
  | value cs v =>
    rw [NaNFree]
    by_cases hv : v.type = .floating
    · obtain ⟨a, rfl⟩ := TomlScalar.exists_of_type_eq_floating hv
      rw [TomlScalar.isNaN, ← hf.self_iff]
      constructor
      · rintro (_ | ⟨_, h⟩ | ⟨_, h⟩)
        · exact h
        · exact absurd rfl h
      · exact .floating cs
    · exact iff_of_true (.value cs hv) (TomlScalar.isNaN_eq_false hv)
  | array cs ts ih =>
    rw [Distinct, elementsDistinct_iff] at ht
    rw [NaNFree, elementsNaNFree_iff]
    constructor
    · rintro (_ | _ | _ | ⟨_, hall⟩)
      exact fun t hmem => (ih t hmem (ht t hmem)).1 (List.forall₂_same.1 hall t hmem)
    · exact fun h => .array cs (List.forall₂_same.2 fun t hmem =>
        (ih t hmem (ht t hmem)).2 (h t hmem))
  | table cs es ih =>
    rw [distinct_table_iff] at ht
    rw [NaNFree, entriesNaNFree_iff, same_table_iff]
    constructor
    · rintro ⟨-, h⟩ e he
      obtain ⟨u, hu, heu⟩ := h e he
      rw [List.lookup_eq_some_of_mem ht.1 he] at hu
      cases hu
      exact (ih e he (ht.2 e he)).1 heu
    · intro h
      exact ⟨rfl, fun e he => ⟨e.2, List.lookup_eq_some_of_mem ht.1 he,
        (ih e he (ht.2 e he)).2 (h e he)⟩⟩

end BasicValue

/-! ### The comparisons of the language and of toml11 -/

/-- The comparisons that the repository relies on. -/
structure TomlEquality where
  /-- `operator==` of `double` -/
  floating : BitVec 64 → BitVec 64 → Bool
  /-- `operator==` of `toml::basic_value` -/
  value : BasicValue TomlScalar → BasicValue TomlScalar → Bool

/-- What is documented about them. -/
structure TomlEquality.Documented (E : TomlEquality) : Prop where
  compares : ComparesFloating E.floating
  type_eq : ∀ t u, E.value t u = true → t.type = u.type
  comments_eq : ∀ t u, E.value t u = true → t.comments = u.comments
  uninitialized : ∀ cs, E.value (.uninitialized cs) (.uninitialized cs) = true
  floating_value : ∀ cs a b,
    E.value (.value cs (.floating a)) (.value cs (.floating b)) = E.floating a b
  other_value : ∀ cs v w, v.type ≠ .floating →
    (E.value (.value cs v) (.value cs w) = true ↔ v = w)
  /-- `operator==` of `std::vector` -/
  array : ∀ cs ts us, E.value (.array cs ts) (.array cs us) = true ↔
    List.Forall₂ (fun t u => E.value t u = true) ts us
  /-- `operator==` of `std::unordered_map` -/
  table : ∀ cs es fs, E.value (.table cs es) (.table cs fs) = true ↔
    es.length = fs.length ∧ ∀ e ∈ es, ∃ u, fs.lookup e.1 = some u ∧ E.value e.2 u = true

namespace TomlEquality.Documented

variable {E : TomlEquality} {t u : BasicValue TomlScalar} (hE : E.Documented)
include hE

/-- Equal values have the same comments and are of the same kind. -/
lemma cases_value (h : E.value t u = true) : ∃ cs,
    (t = .uninitialized cs ∧ u = .uninitialized cs) ∨
    (∃ v w, t = .value cs v ∧ u = .value cs w ∧ v.type = w.type) ∨
    (∃ ts us, t = .array cs ts ∧ u = .array cs us) ∨
    ∃ es fs, t = .table cs es ∧ u = .table cs fs := by
  have hscalar : ∀ v : TomlScalar, v.type ≠ .empty ∧ v.type ≠ .array ∧ v.type ≠ .table := by
    intro v
    cases v <;> simp [TomlScalar.type]
  have htype := hE.type_eq t u h
  have hcomments := hE.comments_eq t u h
  refine ⟨t.comments, ?_⟩
  cases t with
  | uninitialized cs =>
    cases u with
    | uninitialized ds => exact .inl ⟨rfl, congrArg _ hcomments.symm⟩
    | value ds w => exact absurd htype.symm (hscalar w).1
    | array ds us => cases htype
    | table ds fs => cases htype
  | value cs v =>
    cases u with
    | uninitialized ds => exact absurd htype (hscalar v).1
    | value ds w =>
      exact .inr (.inl ⟨v, w, rfl, congrArg (BasicValue.value · w) hcomments.symm, htype⟩)
    | array ds us => exact absurd htype (hscalar v).2.1
    | table ds fs => exact absurd htype (hscalar v).2.2
  | array cs ts =>
    cases u with
    | uninitialized ds => cases htype
    | value ds w => exact absurd htype.symm (hscalar w).2.1
    | array ds us =>
      exact .inr (.inr (.inl ⟨ts, us, rfl, congrArg (BasicValue.array · us) hcomments.symm⟩))
    | table ds fs => cases htype
  | table cs es =>
    cases u with
    | uninitialized ds => cases htype
    | value ds w => exact absurd htype.symm (hscalar w).2.2
    | array ds us => cases htype
    | table ds fs =>
      exact .inr (.inr (.inr ⟨es, fs, rfl, congrArg (BasicValue.table · fs) hcomments.symm⟩))

lemma same_of_value (h : E.value t u = true) : BasicValue.Same E.floating t u := by
  induction t using BasicValue.nested generalizing u with
  | uninitialized cs =>
    obtain ⟨_, ⟨⟨rfl⟩, rfl⟩ | ⟨_, _, hv, -⟩ | ⟨_, _, hts, -⟩ | ⟨_, _, hes, -⟩⟩ := hE.cases_value h
    · exact .uninitialized cs
    · cases hv
    · cases hts
    · cases hes
  | value cs v =>
    obtain ⟨_, ⟨hun, -⟩ | ⟨_, w, ⟨rfl⟩, rfl, htype⟩ | ⟨_, _, hts, -⟩ | ⟨_, _, hes, -⟩⟩ :=
      hE.cases_value h
    · cases hun
    · by_cases hv : v.type = .floating
      · obtain ⟨a, rfl⟩ := TomlScalar.exists_of_type_eq_floating hv
        obtain ⟨b, rfl⟩ := TomlScalar.exists_of_type_eq_floating (htype ▸ hv)
        rw [hE.floating_value] at h
        exact .floating cs h
      · rw [hE.other_value _ _ _ hv] at h
        exact h ▸ .value cs hv
    · cases hts
    · cases hes
  | array cs ts ih =>
    obtain ⟨_, ⟨hun, -⟩ | ⟨_, _, hv, -⟩ | ⟨_, us, ⟨rfl⟩, rfl⟩ | ⟨_, _, hes, -⟩⟩ := hE.cases_value h
    · cases hun
    · cases hv
    · rw [hE.array] at h
      refine .array cs ?_
      induction h with
      | nil => exact .nil
      | cons hab _ hrest =>
        exact .cons (ih _ List.mem_cons_self hab)
          (hrest fun w hw => ih w (List.mem_cons_of_mem _ hw))
    · cases hes
  | table cs es ih =>
    obtain ⟨_, ⟨hun, -⟩ | ⟨_, _, hv, -⟩ | ⟨_, _, hts, -⟩ | ⟨_, fs, ⟨rfl⟩, rfl⟩⟩ := hE.cases_value h
    · cases hun
    · cases hv
    · cases hts
    · rw [hE.table] at h
      refine BasicValue.same_table_iff.2 ⟨h.1, fun e he => ?_⟩
      obtain ⟨u, hu, heu⟩ := h.2 e he
      exact ⟨u, hu, ih e he heu⟩

lemma value_of_same (h : BasicValue.Same E.floating t u) : E.value t u = true := by
  induction t using BasicValue.nested generalizing u with
  | uninitialized cs =>
    cases h
    exact hE.uninitialized cs
  | value cs v =>
    cases h with
    | floating _ hab => rwa [hE.floating_value]
    | value _ hv => exact (hE.other_value cs v v hv).2 rfl
  | array cs ts ih =>
    cases h with
    | array _ hall =>
      rw [hE.array]
      induction hall with
      | nil => exact .nil
      | cons hab _ hrest =>
        exact .cons (ih _ List.mem_cons_self hab)
          (hrest fun w hw => ih w (List.mem_cons_of_mem _ hw))
  | table cs es ih =>
    cases h with
    | table _ hlen hsome hsame =>
      refine (hE.table _ _ _).2 ⟨hlen, fun e he => ?_⟩
      obtain ⟨u, hu⟩ := Option.isSome_iff_exists.1 (hsome e he)
      exact ⟨u, hu, ih e he (hsame e he u hu)⟩

/-- Values are equal exactly if they are the same. -/
theorem value_iff : E.value t u = true ↔ BasicValue.Same E.floating t u :=
  ⟨hE.same_of_value, hE.value_of_same⟩

end TomlEquality.Documented

/-! ### Comparisons that are as documented -/

/-- A zero of either sign. -/
def isZero (bits : BitVec 64) : Bool := bits.extractLsb' 0 63 = 0

/-- IEEE 754 on the bits of `double`s: the zeros are equal, and NaN to nothing. -/
def ieeeEq (a b : BitVec 64) : Bool :=
  !isNaN a && !isNaN b && (decide (a = b) || isZero a && isZero b)

lemma ieeeEq_iff {a b : BitVec 64} : ieeeEq a b = true ↔
    isNaN a = false ∧ isNaN b = false ∧ (a = b ∨ isZero a = true ∧ isZero b = true) := by
  simp [ieeeEq, and_assoc]

lemma compares_ieeeEq : ComparesFloating ieeeEq where
  symm a b h := by
    obtain ⟨ha, hb, hab⟩ := ieeeEq_iff.1 h
    exact ieeeEq_iff.2 ⟨hb, ha, hab.imp Eq.symm And.symm⟩
  trans a b c h h' := by
    obtain ⟨ha, -, hab⟩ := ieeeEq_iff.1 h
    obtain ⟨-, hc, hbc⟩ := ieeeEq_iff.1 h'
    refine ieeeEq_iff.2 ⟨ha, hc, ?_⟩
    rcases hab with rfl | ⟨hza, hzb⟩
    · exact hbc
    · rcases hbc with rfl | ⟨-, hzc⟩
      · exact .inr ⟨hza, hzb⟩
      · exact .inr ⟨hza, hzc⟩
  self_iff a := by simp [ieeeEq_iff]

namespace TomlScalar

/-- Compare what two scalars hold. -/
def eq : TomlScalar → TomlScalar → Bool
  | floating a, floating b => ieeeEq a b
  | v, w => v = w

lemma eq_iff {v w : TomlScalar} (hv : v.type ≠ .floating) : v.eq w = true ↔ v = w := by
  cases v with
  | floating a => exact absurd rfl hv
  | _ => simp [eq]

lemma type_eq_of_eq {v w : TomlScalar} (h : v.eq w = true) : v.type = w.type := by
  by_cases hv : v.type = .floating
  · obtain ⟨a, rfl⟩ := exists_of_type_eq_floating hv
    cases w with
    | floating b => rfl
    | _ => simp [eq] at h
  · rw [(eq_iff hv).1 h]

end TomlScalar

namespace BasicValue

mutual

/-- Compare two values entry by entry. -/
def eq : BasicValue TomlScalar → BasicValue TomlScalar → Bool
  | uninitialized cs, uninitialized ds => cs = ds
  | value cs v, value ds w => cs = ds && v.eq w
  | array cs ts, array ds us => cs = ds && eqElements ts us
  | table cs es, table ds fs => cs = ds && (es.length = fs.length && eqEntries es fs)
  | _, _ => false

def eqElements : List (BasicValue TomlScalar) → List (BasicValue TomlScalar) → Bool
  | [], [] => true
  | t :: ts, u :: us => t.eq u && eqElements ts us
  | _, _ => false

def eqEntries : List (StringView × BasicValue TomlScalar) →
    List (StringView × BasicValue TomlScalar) → Bool
  | [], _ => true
  | (n, t) :: es, fs => (fs.lookup n).any (fun u => t.eq u) && eqEntries es fs

end

lemma eqElements_iff {ts us : List (BasicValue TomlScalar)} :
    eqElements ts us = true ↔ List.Forall₂ (fun t u => t.eq u = true) ts us := by
  induction ts generalizing us with
  | nil => cases us <;> simp [eqElements]
  | cons t ts ih => cases us <;> simp [eqElements, ih]

lemma eqEntries_iff {es fs : List (StringView × BasicValue TomlScalar)} :
    eqEntries es fs = true ↔ ∀ e ∈ es, ∃ u, fs.lookup e.1 = some u ∧ e.2.eq u = true := by
  induction es with
  | nil => simp [eqEntries]
  | cons e es ih => simp [eqEntries, ih, Option.any_eq_true]

end BasicValue

/-- Comparing bit by bit and entry by entry. -/
def TomlEquality.structural : TomlEquality := ⟨ieeeEq, BasicValue.eq⟩

lemma TomlEquality.structural_documented : structural.Documented where
  compares := compares_ieeeEq
  type_eq t u h := by
    have h : t.eq u = true := h
    cases t with
    | value cs v =>
      cases u with
      | value ds w =>
        rw [BasicValue.eq, Bool.and_eq_true] at h
        exact TomlScalar.type_eq_of_eq h.2
      | _ => simp [BasicValue.eq] at h
    | _ => cases u <;> first | rfl | simp [BasicValue.eq] at h
  comments_eq t u h := by
    have h : t.eq u = true := h
    cases t <;> cases u <;>
      simp_all only [BasicValue.eq, BasicValue.comments, Bool.and_eq_true, decide_eq_true_eq,
        Bool.false_eq_true]
  uninitialized cs := by simp [structural, BasicValue.eq]
  floating_value cs a b := by simp [structural, BasicValue.eq, TomlScalar.eq]
  other_value cs v w hv := by simp [structural, BasicValue.eq, TomlScalar.eq_iff hv]
  array cs ts us := by simp [structural, BasicValue.eq, BasicValue.eqElements_iff]
  table cs es fs := by simp [structural, BasicValue.eq, BasicValue.eqEntries_iff]

end Idle
