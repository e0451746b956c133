import Mathlib
import Idle.Util.Algorithm
import Idle.Service.Toml

/-!
# Reflected enumerations

`expand_linear_impl` scans the values of a range for those that the compiler has a name for, and
stores them with their names. The table is dense if the values are found without a gap; then a
value is its own index. Otherwise the indices are sorted by value and searched for it, as they are
for a name. What the compiler calls a value is given.
-/

namespace Idle

/-- `std::underlying_type_t` -/
structure UnderlyingType where
  width : Nat
  signed : Bool
  width_le : width ≤ 64

/-- The conversion to an underlying type. -/
def UnderlyingType.cast (u : UnderlyingType) (x : Int) : Int :=
  if u.signed then x.bmod (2 ^ u.width) else x % 2 ^ u.width

/-- `enum_trait` and the classes that are used in its place. -/
structure EnumTrait (u : UnderlyingType) where
  min : Int
  max : Int
  value : Int → Int
  transform : Char → Char
  min_cast : u.cast min = min
  max_cast : u.cast max = max
  min_le : min ≤ max

namespace EnumTrait

variable {u : UnderlyingType}

/-- `Trait::max - Trait::min` -/
def count (trait : EnumTrait u) : Nat := (trait.max - trait.min).toNat

/-- The value that is scanned at an index. -/
def valueAt (trait : EnumTrait u) (i : Nat) : Int :=
  u.cast (trait.value (u.cast (u.cast i + trait.min)))

end EnumTrait

/-- `enum_info` -/
structure EnumInfo where
  size : Nat
  chars : Nat
  isContinuous : Bool

/-- `enum_info_of` from an index on; `interleaved` is whether a gap was seen. -/
def enumInfoOf (min : Int) : Nat → EnumInfo → Bool → List StringView → EnumInfo
  | _, count, _, [] => count
  | i, count, interleaved, d :: data =>
    if d ≠ [] then
      enumInfoOf min (i + 1)
        { size := count.size + 1
          chars := count.chars + d.length + 1
          isContinuous := count.isContinuous && !interleaved }
        interleaved data
    else
      enumInfoOf min (i + 1) count
        (interleaved || (count.isContinuous && decide (0 ≤ (i : Int) + min))) data

/-- `EnumEntry` -/
structure EnumEntry where
  value : Int
  offset : Nat
  length : Nat

/-- `Enum` -/
structure Enum where
  entries : List EnumEntry
  names : List Char
  isDense : Bool

namespace Enum

def size (enumeration : Enum) : Nat := enumeration.entries.length

/-- `name(index)`, where there is such an entry. -/
def name (enumeration : Enum) (index : Nat) : Option StringView :=
  enumeration.entries[index]?.map fun entry =>
    (enumeration.names.drop entry.offset).take entry.length

def value (enumeration : Enum) (index : Nat) : Option Int :=
  enumeration.entries[index]?.map EnumEntry.value

end Enum

/-- The table while it is built. -/
structure EnumBuilder where
  offset : Nat
  chars : List Char
  entries : List EnumEntry

/-- The body of the loop of `expand_linear_impl`. -/
def expandStep {u : UnderlyingType} (trait : EnumTrait u) (e : Int → StringView)
    (st : EnumBuilder) (i : Nat) : EnumBuilder :=
  let current := e (trait.valueAt i)
  if current ≠ [] then
    { offset := st.offset + (current.length + 1)
      chars := st.chars ++ current.map trait.transform ++ ['\n']
      entries := st.entries ++ [⟨trait.valueAt i, st.offset, current.length⟩] }
  else st

/-- `expand_linear_impl`, where `e` is what the compiler calls a value, or nothing. -/
def expandLinear {u : UnderlyingType} (trait : EnumTrait u) (e : Int → StringView) : Enum :=
  let seq := (List.range trait.count).map fun i => e (trait.valueAt i)
  let info := enumInfoOf trait.min 0 ⟨0, 1, true⟩ false seq
  let built := (List.range trait.count).foldl (expandStep trait e) ⟨0, [], []⟩
  { entries := built.entries
    names := built.chars ++ ['\x00']
    isDense := info.isContinuous && decide (trait.min = 0) }

/-- The loop of `operator<` of `StringView`, for views of the same size. -/
def charsLess : StringView → StringView → Bool
  | l :: left, r :: right => if l ≠ r then l < r else charsLess left right
  | _, _ => false

/-- `operator<` of `StringView` -/
def viewLess (left right : StringView) : Bool :=
  if left.length ≠ right.length then left.length < right.length else charsLess left right

namespace Enum

/-- What `ValueLess` sees of an index. -/
def valueOf (enumeration : Enum) (index : Nat) : Int := (enumeration.value index).getD 0

/-- What `NameLess` sees of an index. -/
def nameOf (enumeration : Enum) (index : Nat) : StringView := (enumeration.name index).getD []

/-- `enum_values` -/
def enumValues (fuel : Nat) (enumeration : Enum) : Option (List Nat) :=
  if enumeration.isDense then some (List.range enumeration.size)
  else
    sort fuel (fun left right => enumeration.valueOf left < enumeration.valueOf right)
      (List.range enumeration.size)

/-- `enum_names` -/
def enumNames (fuel : Nat) (enumeration : Enum) : Option (List Nat) :=
  sort fuel (fun left right => viewLess (enumeration.nameOf left) (enumeration.nameOf right))
    (List.range enumeration.size)

/-- `enum_name`, whose value is used as the index of a dense table. -/
def enumName (fuel : Nat) (enumeration : Enum) (value : Int) : Option StringView :=
  if enumeration.isDense then enumeration.name (value % 2 ^ 64).toNat
  else
    (enumeration.enumValues fuel).bind fun values =>
      (findFirstLowerBoundOf values (fun i => enumeration.valueOf i < value)
        (fun i => value < enumeration.valueOf i)).bind enumeration.name

/-- `enum_find`: an index, or none. -/
def enumFind (fuel : Nat) (enumeration : Enum) (name : StringView) : Option (Option Nat) :=
  (enumeration.enumNames fuel).map fun names =>
    findFirstLowerBoundOf names (fun i => viewLess (enumeration.nameOf i) name)
      (fun i => viewLess name (enumeration.nameOf i))

end Enum

/-- The table agrees with what was declared: values that have a name, with that name. -/
structure LooksUp {u : UnderlyingType} (trait : EnumTrait u) (e : Int → StringView)
    (fuel : Nat) : Prop where
  dense : (expandLinear trait e).isDense = true →
    ∀ i < (expandLinear trait e).size, (expandLinear trait e).value i = some (i : Int)
  name : ∀ i < trait.count, e (trait.valueAt i) ≠ [] →
    (expandLinear trait e).enumName fuel (trait.valueAt i) =
      some ((e (trait.valueAt i)).map trait.transform)
  find : ∀ name, ∃ index, (expandLinear trait e).enumFind fuel name = some index ∧
    ∀ k, index = some k ↔ (expandLinear trait e).name k = some name
  find_name : ∀ i < trait.count, e (trait.valueAt i) ≠ [] →
    ∃ k, (expandLinear trait e).enumFind fuel ((e (trait.valueAt i)).map trait.transform) =
        some (some k) ∧ (expandLinear trait e).value k = some (trait.valueAt i)

namespace EnumTrait

/-- `enum_trait` itself -/
def linear (u : UnderlyingType) (min max : Int) (hmin : u.cast min = min) (hmax : u.cast max = max)
    (hle : min ≤ max) : EnumTrait u where
  min := min
  max := max
  value i := i
  transform c := c
  min_cast := hmin
  max_cast := hmax
  min_le := hle

/-- `enum_mask` -/
def mask (u : UnderlyingType) (hmin : u.cast 0 = 0) (hmax : u.cast u.width = u.width) :
    EnumTrait u where
  min := 0
  max := u.width
  value i := 2 ^ i.toNat
  transform c := c
  min_cast := hmin
  max_cast := hmax
  min_le := Int.natCast_nonneg _

end EnumTrait

/-- If the values that have a name are the first ones, counted from zero, they are their own
indices. -/
def EnumTrait.MapsDense {u : UnderlyingType} (trait : EnumTrait u) (e : Int → StringView) : Prop :=
  trait.min = 0 → ∀ n, (∀ i < trait.count, e (trait.valueAt i) ≠ [] ↔ i < n) →
    ∀ i < trait.count, i < n → trait.valueAt i = i

/-! ### The order of views -/

lemma charsLess_iff {l r : StringView} (h : l.length = r.length) :
    charsLess l r = true ↔ l < r := by
  induction l generalizing r with
  | nil =>
    cases r with
    | nil => simp [charsLess]
    | cons b r => simp at h
  | cons a l ih =>
    cases r with
    | nil => simp at h
    | cons b r =>
      rw [charsLess, List.cons_lt_cons_iff, ← ih (by simpa using h)]
      by_cases hab : a = b
      · simp [hab]
      · simp [hab]

/-- Views are ordered by size first. -/
def viewKey (s : StringView) : ℕ ×ₗ List Char := toLex (s.length, s)

lemma viewKey_injective : Function.Injective viewKey := fun _ _ h =>
  congrArg (fun p => (ofLex p).2) h

lemma viewLess_eq (l r : StringView) : viewLess l r = decide (viewKey l < viewKey r) := by
  rw [Bool.eq_iff_iff, decide_eq_true_iff, viewKey, viewKey, Prod.Lex.toLex_lt_toLex, viewLess]
  by_cases h : l.length = r.length
  · simp [h, charsLess_iff h]
  · simp [h]

/-! ### Searching an index -/

/-- With enough passes, the index of a key is found if there is one. -/
lemma exists_search {κ : Type*} [LinearOrder κ] (key : Nat → κ) (size : Nat)
    (hinj : ∀ i < size, ∀ j < size, key i = key j → i = j) :
    ∃ n, ∀ fuel ≥ n, ∃ l,
      sort fuel (fun i j => decide (key i < key j)) (List.range size) = some l ∧
        ∀ v k, findFirstLowerBoundOf l (fun i => decide (key i < v)) (fun i => decide (v < key i)) =
          some k ↔ k < size ∧ key k = v := by
  have horders : Orders (fun i j => decide (key i < key j)) (List.range size) := by
    refine List.pairwise_lt_range.imp_of_mem fun {i j} hi hj hlt => ?_
    have hne : key i ≠ key j := fun heq =>
      hlt.ne (hinj i (List.mem_range.1 hi) j (List.mem_range.1 hj) heq)
    simpa using lt_or_gt_of_ne hne
  obtain ⟨n, hn⟩ := exists_sort horders fun a b c hab hbc => by
    simp only [decide_eq_true_eq] at hab hbc ⊢
    exact hab.trans hbc
  refine ⟨n, fun fuel hfuel => ?_⟩
  obtain ⟨l, hl, hperm, hsorted⟩ := hn fuel hfuel
  refine ⟨l, hl, fun v k => ?_⟩
  rw [findFirstLowerBoundOf_eq_some_iff hsorted, hperm.mem_iff, List.mem_range]
  · refine and_congr_right fun _ => ?_
    simp only [decide_eq_false_iff_not, not_lt]
    exact ⟨fun h => le_antisymm h.2 h.1, fun h => ⟨h.ge, h.le⟩⟩
  · intro a b hab hb
    simp only [decide_eq_true_eq] at hab hb ⊢
    exact hab.trans hb
  · intro a b hab ha
    simp only [decide_eq_true_eq, decide_eq_false_iff_not, not_lt] at hab ha ⊢
    exact ha.trans_lt hab

/-! ### What is stored -/

section

variable {u : UnderlyingType} {trait : EnumTrait u} {e : Int → StringView}

/-- The indices of the range whose value has a name. -/
def EnumTrait.named (trait : EnumTrait u) (e : Int → StringView) : List Nat :=
  (List.range trait.count).filter fun i => e (trait.valueAt i) ≠ []

/-- The name that is stored for an index. -/
def EnumTrait.nameAt (trait : EnumTrait u) (e : Int → StringView) (i : Nat) : StringView :=
  (e (trait.valueAt i)).map trait.transform

/-- An entry is about an index of the range and its name stands in the text. -/
def Stored (trait : EnumTrait u) (e : Int → StringView) (chars : List Char) (entry : EnumEntry)
    (i : Nat) : Prop :=
  entry.value = trait.valueAt i ∧ ∃ before after, chars = before ++ trait.nameAt e i ++ after ∧
    before.length = entry.offset ∧ (trait.nameAt e i).length = entry.length

lemma Stored.append {chars : List Char} {entry : EnumEntry} {i : Nat}
    (h : Stored trait e chars entry i) (more : List Char) :
    Stored trait e (chars ++ more) entry i := by
  obtain ⟨hvalue, before, after, rfl, hoffset, hlength⟩ := h
  exact ⟨hvalue, before, after ++ more, by simp only [List.append_assoc], hoffset, hlength⟩

lemma Stored.take_drop {chars : List Char} {entry : EnumEntry} {i : Nat}
    (h : Stored trait e chars entry i) :
    (chars.drop entry.offset).take entry.length = trait.nameAt e i := by
  obtain ⟨-, before, after, rfl, hoffset, hlength⟩ := h
  rw [← hoffset, ← hlength, List.append_assoc, List.drop_left, List.take_left]

/-- The entries are those of the named values so far, and the offset is the end of the text. -/
lemma foldl_expandStep (n : Nat) :
    let st := (List.range n).foldl (expandStep trait e) ⟨0, [], []⟩
    st.offset = st.chars.length ∧ List.Forall₂ (Stored trait e st.chars) st.entries
      ((List.range n).filter fun i => e (trait.valueAt i) ≠ []) := by
  induction n with
  | zero => exact ⟨rfl, .nil⟩
  | succ n ih =>
    rw [List.range_succ, List.foldl_append, List.filter_append]
    simp only [List.foldl_cons, List.foldl_nil] at ih ⊢
    generalize (List.range n).foldl (expandStep trait e) ⟨0, [], []⟩ = st at ih ⊢
    obtain ⟨hoffset, hentries⟩ := ih
    by_cases he : e (trait.valueAt n) ≠ []
    · have hstep : expandStep trait e st n =
          { offset := st.offset + ((e (trait.valueAt n)).length + 1)
            chars := st.chars ++ trait.nameAt e n ++ ['\n']
            entries := st.entries ++
              [⟨trait.valueAt n, st.offset, (e (trait.valueAt n)).length⟩] } := if_pos he
      have hlast : Stored trait e (st.chars ++ trait.nameAt e n ++ ['\n'])
          ⟨trait.valueAt n, st.offset, (e (trait.valueAt n)).length⟩ n :=
        ⟨rfl, st.chars, ['\n'], rfl, hoffset.symm, List.length_map _⟩
      rw [hstep, List.filter_cons_of_pos (by simpa using he), List.filter_nil]
      refine ⟨?_, List.rel_append (hentries.imp fun entry i h => ?_) (.cons hlast .nil)⟩
      · simp [EnumTrait.nameAt, hoffset]
      · rw [List.append_assoc]
        exact h.append _
    · have hstep : expandStep trait e st n = st := if_neg he
      rw [hstep, List.filter_cons_of_neg (by simpa using he), List.filter_nil, List.append_nil]
      exact ⟨hoffset, hentries⟩

lemma expandLinear_entries : List.Forall₂ (Stored trait e (expandLinear trait e).names)
    (expandLinear trait e).entries (trait.named e) :=
  (foldl_expandStep trait.count).2.imp fun _ _ h => h.append _

lemma size_expandLinear : (expandLinear trait e).size = (trait.named e).length :=
  expandLinear_entries.length_eq

lemma value_expandLinear (k : Nat) :
    (expandLinear trait e).value k = (trait.named e)[k]?.map trait.valueAt := by
  have h := @expandLinear_entries u trait e
  by_cases hk : k < (trait.named e).length
  · have hk' : k < (expandLinear trait e).entries.length := h.length_eq ▸ hk
    have hstored := h.get hk' hk
    rw [Enum.value, List.getElem?_eq_getElem hk', List.getElem?_eq_getElem hk]
    exact congrArg some hstored.1
  · have hk' : ¬ k < (expandLinear trait e).entries.length := h.length_eq ▸ hk
    rw [Enum.value, List.getElem?_eq_none (Nat.le_of_not_lt hk'),
      List.getElem?_eq_none (Nat.le_of_not_lt hk)]
    rfl

lemma name_expandLinear (k : Nat) :
    (expandLinear trait e).name k = (trait.named e)[k]?.map (trait.nameAt e) := by
  have h := @expandLinear_entries u trait e
  by_cases hk : k < (trait.named e).length
  · have hk' : k < (expandLinear trait e).entries.length := h.length_eq ▸ hk
    have hstored := h.get hk' hk
    rw [Enum.name, List.getElem?_eq_getElem hk', List.getElem?_eq_getElem hk]
    exact congrArg some hstored.take_drop
  · have hk' : ¬ k < (expandLinear trait e).entries.length := h.length_eq ▸ hk
    rw [Enum.name, List.getElem?_eq_none (Nat.le_of_not_lt hk'),
      List.getElem?_eq_none (Nat.le_of_not_lt hk)]
    rfl

/-! ### Density -/

lemma isContinuous_enumInfoOf_of_not {min : Int} {count : EnumInfo}
    (h : count.isContinuous = false) (i : Nat) (interleaved : Bool) (data : List StringView) :
    (enumInfoOf min i count interleaved data).isContinuous = false := by
  induction data generalizing i count interleaved with
  | nil => exact h
  | cons d data ih =>
    rw [enumInfoOf]
    split
    · exact ih (by simp [h]) _ _
    · exact ih h _ _

/-- After a gap there must be no name any more, and before one there may be some. -/
lemma isContinuous_enumInfoOf {count : EnumInfo} (h : count.isContinuous = true) (i : Nat)
    (interleaved : Bool) (data : List StringView) :
    (enumInfoOf 0 i count interleaved data).isContinuous = true ↔
      if interleaved = true then ∀ d ∈ data, d = []
      else ∃ n, ∀ j (hj : j < data.length), data[j] ≠ [] ↔ j < n := by
  induction data generalizing i count interleaved with
  | nil => simp [enumInfoOf, h]
  | cons d data ih =>
    rw [enumInfoOf]
    by_cases hd : d = []
    · have hinter : (interleaved || (count.isContinuous && decide (0 ≤ (i : Int) + 0))) = true := by
        simp [h]
      rw [if_neg (not_not.2 hd), ih h, hinter, if_pos rfl]
      cases interleaved with
      | true => simp [hd]
      | false =>
        simp only [Bool.false_eq_true, if_false]
        constructor
        · -- the gap is here, and no name may follow
          intro hall
          refine ⟨0, fun j hj => ?_⟩
          cases j with
          | zero => simp [hd]
          | succ j => simp [hall _ (List.getElem_mem (Nat.lt_of_succ_lt_succ hj))]
        · rintro ⟨n, hn⟩ d' hd'
          obtain ⟨j, hj, rfl⟩ := List.getElem_of_mem hd'
          have hzero := hn 0 (Nat.succ_pos _)
          have hsucc := hn (j + 1) (Nat.succ_lt_succ hj)
          simp only [List.getElem_cons_zero, hd, ne_eq, not_true_eq_false, false_iff] at hzero
          by_contra hne
          have := hsucc.1 hne
          omega
    · rw [if_pos hd]
      cases interleaved with
      | true =>
        rw [isContinuous_enumInfoOf_of_not (by simp)]
        simp [hd]
      | false =>
        -- the name shifts the bound by one
        rw [ih (by simp [h])]
        simp only [Bool.false_eq_true, if_false]
        constructor
        · rintro ⟨n, hn⟩
          refine ⟨n + 1, fun j hj => ?_⟩
          cases j with
          | zero => simp [hd]
          | succ j => simpa using hn j (Nat.lt_of_succ_lt_succ hj)
        · rintro ⟨n, hn⟩
          refine ⟨n - 1, fun j hj => ?_⟩
          have hzero := (hn 0 (Nat.succ_pos _)).1 hd
          have hsucc := hn (j + 1) (Nat.succ_lt_succ hj)
          rw [List.getElem_cons_succ] at hsucc
          rw [hsucc]
          omega

/-- A table is dense if the first values of the range have a name, and only they. -/
lemma isDense_iff : (expandLinear trait e).isDense = true ↔
    trait.min = 0 ∧ ∃ n, ∀ i < trait.count, e (trait.valueAt i) ≠ [] ↔ i < n := by
  simp only [expandLinear, Bool.and_eq_true, decide_eq_true_eq]
  rw [and_comm]
  refine and_congr_right fun hmin => ?_
  rw [hmin, isContinuous_enumInfoOf rfl]
  simp

lemma filter_lt_range (n c : Nat) :
    (List.range c).filter (fun i => decide (i < n)) = List.range (Nat.min n c) := by
  induction c with
  | zero => simp
  | succ c ih =>
    rw [List.range_succ, List.filter_append, ih]
    by_cases hc : c < n
    · have hmin : Nat.min n (c + 1) = c + 1 := Nat.min_eq_right hc
      have hmin' : Nat.min n c = c := Nat.min_eq_right hc.le
      rw [hmin, hmin', List.range_succ]
      simp [hc]
    · have hle : n ≤ c := Nat.le_of_not_lt hc
      have hmin : Nat.min n (c + 1) = n := Nat.min_eq_left (hle.trans c.le_succ)
      have hmin' : Nat.min n c = n := Nat.min_eq_left hle
      rw [hmin, hmin']
      simp [hc]

lemma named_eq_range {n : Nat} (h : ∀ i < trait.count, e (trait.valueAt i) ≠ [] ↔ i < n) :
    trait.named e = List.range (Nat.min n trait.count) := by
  rw [← filter_lt_range]
  refine List.filter_congr fun i hi => ?_
  exact decide_eq_decide.2 (h i (List.mem_range.1 hi))

/-! ### Lookups -/

lemma UnderlyingType.cast_lt (u : UnderlyingType) (x : Int) : u.cast x < 2 ^ 64 := by
  have hpos : (0 : Int) < 2 ^ u.width := by positivity
  have hle : (2 : Int) ^ u.width ≤ 2 ^ 64 := pow_le_pow_right₀ (by norm_num) u.width_le
  unfold UnderlyingType.cast
  split
  · have hlt := Int.bmod_lt (x := x) (m := 2 ^ u.width) (by positivity)
    push_cast at hlt
    omega
  · exact (Int.emod_lt_of_pos x hpos).trans_le hle

lemma valueOf_eq {k : Nat} (hk : k < (trait.named e).length) :
    (expandLinear trait e).valueOf k = trait.valueAt (trait.named e)[k] := by
  rw [Enum.valueOf, value_expandLinear, List.getElem?_eq_getElem hk]
  rfl

lemma nameOf_eq {k : Nat} (hk : k < (trait.named e).length) :
    (expandLinear trait e).nameOf k = trait.nameAt e (trait.named e)[k] := by
  rw [Enum.nameOf, name_expandLinear, List.getElem?_eq_getElem hk]
  rfl

/-- The names of the range are different after they are transformed. -/
def EnumTrait.NamesDistinct (trait : EnumTrait u) (e : Int → StringView) : Prop :=
  ∀ i < trait.count, ∀ j < trait.count, e (trait.valueAt i) ≠ [] → e (trait.valueAt j) ≠ [] →
    trait.nameAt e i = trait.nameAt e j → i = j

lemma mem_named {i : Nat} :
    i ∈ trait.named e ↔ i < trait.count ∧ e (trait.valueAt i) ≠ [] := by
  simp [EnumTrait.named]

lemma nameAt_inj (h : trait.NamesDistinct e) {j k : Nat} (hj : j < (trait.named e).length)
    (hk : k < (trait.named e).length)
    (heq : trait.nameAt e (trait.named e)[j] = trait.nameAt e (trait.named e)[k]) : j = k := by
  obtain ⟨hjlt, hjne⟩ := mem_named.1 (List.getElem_mem hj)
  obtain ⟨hklt, hkne⟩ := mem_named.1 (List.getElem_mem hk)
  have hnodup : (trait.named e).Nodup := List.nodup_range.filter _
  exact (hnodup.getElem_inj_iff).1 (h _ hjlt _ hklt hjne hkne heq)

/-- A name is found at the index of its entry. -/
lemma exists_enumFind (h : trait.NamesDistinct e) :
    ∃ n, ∀ fuel ≥ n, ∀ name, ∃ index, (expandLinear trait e).enumFind fuel name = some index ∧
      ∀ k, index = some k ↔ (expandLinear trait e).name k = some name := by
  obtain ⟨n, hn⟩ := exists_search (fun k => viewKey ((expandLinear trait e).nameOf k))
    (expandLinear trait e).size (by
      intro i hi j hj heq
      rw [size_expandLinear] at hi hj
      have hname := viewKey_injective heq
      rw [nameOf_eq hi, nameOf_eq hj] at hname
      exact nameAt_inj h hi hj hname)
  refine ⟨n, fun fuel hfuel name => ?_⟩
  obtain ⟨l, hl, hfind⟩ := hn fuel hfuel
  have hfound : (expandLinear trait e).enumFind fuel name = some (findFirstLowerBoundOf l
      (fun i => decide (viewKey ((expandLinear trait e).nameOf i) < viewKey name))
      fun i => decide (viewKey name < viewKey ((expandLinear trait e).nameOf i))) := by
    rw [Enum.enumFind, Enum.enumNames]
    simp only [viewLess_eq]
    rw [hl]
    rfl
  refine ⟨_, hfound, fun k => (hfind (viewKey name) k).trans ?_⟩
  rw [size_expandLinear, name_expandLinear]
  constructor
  · rintro ⟨hk, heq⟩
    have hname := viewKey_injective heq
    rw [nameOf_eq hk] at hname
    rw [List.getElem?_eq_getElem hk]
    exact congrArg some hname
  · intro heq
    obtain ⟨i, hi, hname⟩ := Option.map_eq_some_iff.1 heq
    obtain ⟨hk, rfl⟩ := List.getElem?_eq_some_iff.1 hi
    exact ⟨hk, by rw [nameOf_eq hk, hname]⟩

/-- A value of a table with gaps is found by its order. -/
lemma exists_enumName (h : trait.NamesDistinct e) (hd : (expandLinear trait e).isDense = false) :
    ∃ n, ∀ fuel ≥ n, ∀ i < trait.count, e (trait.valueAt i) ≠ [] →
      (expandLinear trait e).enumName fuel (trait.valueAt i) = some (trait.nameAt e i) := by
  obtain ⟨n, hn⟩ := exists_search (expandLinear trait e).valueOf (expandLinear trait e).size (by
    intro i hi j hj heq
    rw [size_expandLinear] at hi hj
    rw [valueOf_eq hi, valueOf_eq hj] at heq
    exact nameAt_inj h hi hj (by rw [EnumTrait.nameAt, heq, EnumTrait.nameAt]))
  refine ⟨n, fun fuel hfuel i hi hne => ?_⟩
  obtain ⟨l, hl, hfind⟩ := hn fuel hfuel
  obtain ⟨k, hk, hget⟩ := List.getElem_of_mem (mem_named.2 ⟨hi, hne⟩)
  have hsome := (hfind (trait.valueAt i) k).2
    ⟨by rwa [size_expandLinear], by rw [valueOf_eq hk, hget]⟩
  rw [Enum.enumName, hd, Enum.enumValues, hd]
  simp only [Bool.false_eq_true, if_false]
  rw [hl, Option.bind_some, hsome, Option.bind_some, name_expandLinear,
    List.getElem?_eq_getElem hk, hget]
  rfl

/-- In a dense table whose values are their own indices there is nothing to search. -/
lemma enumName_of_isDense (h : trait.MapsDense e) (hd : (expandLinear trait e).isDense = true)
    (fuel : Nat) {i : Nat} (hi : i < trait.count) (hne : e (trait.valueAt i) ≠ []) :
    (expandLinear trait e).enumName fuel (trait.valueAt i) = some (trait.nameAt e i) := by
  obtain ⟨hmin, n, hn⟩ := isDense_iff.1 hd
  have hin : i < n := (hn i hi).1 hne
  have hvalue : trait.valueAt i = i := h hmin n hn i hi hin
  have hlt : trait.valueAt i < 2 ^ 64 := u.cast_lt _
  have hindex : (trait.valueAt i % 2 ^ 64).toNat = i := by omega
  have hk : i < Nat.min n trait.count := Nat.lt_min.2 ⟨hin, hi⟩
  rw [Enum.enumName, hd, if_pos rfl, hindex, name_expandLinear, named_eq_range hn,
    List.getElem?_range hk]
  rfl

lemma value_of_isDense (h : trait.MapsDense e) (hd : (expandLinear trait e).isDense = true)
    {i : Nat} (hi : i < (expandLinear trait e).size) :
    (expandLinear trait e).value i = some (i : Int) := by
  obtain ⟨hmin, n, hn⟩ := isDense_iff.1 hd
  have hnamed := named_eq_range hn
  rw [size_expandLinear, hnamed, List.length_range] at hi
  have hlt : i < n ∧ i < trait.count := Nat.lt_min.1 hi
  rw [value_expandLinear, hnamed, List.getElem?_range hi, Option.map_some,
    h hmin n hn i hlt.2 hlt.1]

end

/-- The lookups of a table are right exactly if its values are their own indices where they are
taken for them. -/
theorem enum_looksUp_iff {u : UnderlyingType} (trait : EnumTrait u) (e : Int → StringView)
    (h : trait.NamesDistinct e) :
    (∃ n, ∀ fuel ≥ n, LooksUp trait e fuel) ↔ trait.MapsDense e := by
  constructor
  · rintro ⟨fuel, hfuel⟩ hmin n hn i hi hin
    have hd : (expandLinear trait e).isDense = true := isDense_iff.2 ⟨hmin, n, hn⟩
    have hk : i < Nat.min n trait.count := Nat.lt_min.2 ⟨hin, hi⟩
    have hnamed := named_eq_range hn
    have hvalue := (hfuel fuel le_rfl).dense hd i (by
      rwa [size_expandLinear, hnamed, List.length_range])
    rw [value_expandLinear, hnamed, List.getElem?_range hk] at hvalue
    exact Option.some.inj hvalue
  · intro hmaps
    obtain ⟨n, hfind⟩ := exists_enumFind h
    have hname : ∃ n, ∀ fuel ≥ n, ∀ i < trait.count, e (trait.valueAt i) ≠ [] →
        (expandLinear trait e).enumName fuel (trait.valueAt i) = some (trait.nameAt e i) := by
      cases hd : (expandLinear trait e).isDense with
      | true => exact ⟨0, fun fuel _ i hi hne => enumName_of_isDense hmaps hd fuel hi hne⟩
      | false => exact exists_enumName h hd
    obtain ⟨m, hname⟩ := hname
    refine ⟨max n m, fun fuel hfuel => ⟨fun hd i hi => value_of_isDense hmaps hd hi,
      hname fuel (le_of_max_le_right hfuel), hfind fuel (le_of_max_le_left hfuel),
      fun i hi hne => ?_⟩⟩
    obtain ⟨index, hindex, hiff⟩ := hfind fuel (le_of_max_le_left hfuel) (trait.nameAt e i)
    obtain ⟨k, hk, hget⟩ := List.getElem_of_mem (mem_named.2 ⟨hi, hne⟩)
    have hsome : index = some k := (hiff k).2 (by
      rw [name_expandLinear, List.getElem?_eq_getElem hk, hget]
      rfl)
    refine ⟨k, by rw [← hsome]; exact hindex, ?_⟩
    rw [value_expandLinear, List.getElem?_eq_getElem hk, hget]
    rfl

/-- Without a mapping every value is its own index if the range begins with zero. -/
lemma EnumTrait.linear_mapsDense {u : UnderlyingType} {min max : Int} {hmin : u.cast min = min}
    {hmax : u.cast max = max} {hle : min ≤ max} (e : Int → StringView) :
    (linear u min max hmin hmax hle).MapsDense e := by
  intro hzero n _ i hi _
  obtain rfl : min = 0 := hzero
  have hlt : (i : Int) < max := by
    have : i < (max - 0).toNat := hi
    omega
  have hcast : u.cast i = i := by
    unfold UnderlyingType.cast at hmax hmin ⊢
    split
    · rw [if_pos ‹_›] at hmax
      have hpos : (0 : Int) < 2 ^ u.width := by positivity
      have hlt' := Int.bmod_lt (x := max) (m := 2 ^ u.width) (by positivity)
      rw [hmax] at hlt'
      exact Int.bmod_eq_of_le (by push_cast; omega) (by push_cast at hlt' ⊢; omega)
    · rw [if_neg ‹_›] at hmax
      have hpos : (0 : Int) < 2 ^ u.width := by positivity
      have := Int.emod_lt_of_pos max hpos
      exact Int.emod_eq_of_lt (Int.natCast_nonneg i) (by omega)
  simp only [valueAt, linear, Int.add_zero, hcast]

/-- `std::uint32_t` -/
def uint32 : UnderlyingType := ⟨32, false, by norm_num⟩

instance {u : UnderlyingType} (trait : EnumTrait u) (e : Int → StringView) :
    Decidable (trait.NamesDistinct e) :=
  Nat.decidableBallLT trait.count fun i _ => ∀ j < trait.count, e (trait.valueAt i) ≠ [] →
    e (trait.valueAt j) ≠ [] → trait.nameAt e i = trait.nameAt e j → i = j

/-- Values with gaps, as an enumeration names them. -/
def sparseNames (v : Int) : StringView :=
  if v = 10 then ['O', 'n', 'e'] else if v = 20 then ['T', 'w', 'o']
  else if v = 30 then ['T'] else []

/-- The first three bits of a mask. -/
def maskNames (v : Int) : StringView :=
  if v = 1 then ['A'] else if v = 2 then ['B'] else if v = 4 then ['C'] else []

theorem enum_looksUp_sparseNames :
    ∃ n, ∀ fuel ≥ n, LooksUp (.linear uint32 0 64 rfl rfl (by norm_num)) sparseNames fuel :=
  (enum_looksUp_iff (.linear uint32 0 64 rfl rfl (by norm_num)) sparseNames (by decide +kernel)).2
    (EnumTrait.linear_mapsDense sparseNames)

/-- The table of a mask is taken for a dense one: the name of a bit is looked up at its value. -/
theorem mask_not_looksUp :
    ¬ ∀ (u : UnderlyingType) (trait : EnumTrait u) (e : Int → StringView), trait.NamesDistinct e →
      ∃ n, ∀ fuel ≥ n, LooksUp trait e fuel := by
  intro h
  obtain ⟨n, hn⟩ := h uint32 (.mask uint32 rfl rfl) maskNames (by decide +kernel)
  have hdense := (hn n le_rfl).dense (by decide +kernel) 0 (by decide +kernel)
  revert hdense
  decide +kernel

end Idle
