import Idle.Service.Comparison

/-!
# Scoped access to a source

`TOMLPropertiesSource` reads and writes the properties of a key in the table that the segments of
the key lead to, and compares the values there with those of another source.
-/

namespace Idle

/-! ### Comparing what is found -/

namespace BasicValue

/-- `TOMLPropertiesSource::equals` -/
def equals (E : TomlEquality) (value other : BasicValue TomlScalar) (key : StringView) : Bool :=
  match advanceScope value key, advanceScope other key with
  | some left, some right => E.value left right
  | some _, none => false
  | none, right => right.isNone

/-- Nothing is found at the key in both of them, or the same. -/
def SameAt (floating : BitVec 64 → BitVec 64 → Bool) (value other : BasicValue TomlScalar)
    (key : StringView) : Prop :=
  Option.Rel (Same floating) (advanceScope value key) (advanceScope other key)

lemma equals_iff {E : TomlEquality} (hE : E.Documented) {value other : BasicValue TomlScalar}
    {key : StringView} : value.equals E other key = true ↔ value.SameAt E.floating other key := by
  unfold equals SameAt
  cases advanceScope value key with
  | none =>
    cases advanceScope other key with
    | none => exact iff_of_true rfl .none
    | some r => exact iff_of_false (by simp) nofun
  | some l =>
    cases advanceScope other key with
    | none => exact iff_of_false (by simp) nofun
    | some r => exact hE.value_iff.trans Option.rel_some_some.symm

end BasicValue

/-! ### Sources -/

/-- `TOMLPropertiesSource` -/
structure TOMLPropertiesSource where
  /-- `value_` -/
  value : BasicValue TomlScalar
  isDocument : value.isDocument = true
  distinct : value.Distinct

namespace TOMLPropertiesSource

open BasicValue

/-- The members that an object shows, with their descriptions. -/
abbrev ObjectFields := List (StringView × Option StringView × Described TomlScalar)

lemma isDocument_advanceScopeMut (fs : ObjectFields) {t : BasicValue TomlScalar}
    (h : t.isDocument = true) (key : StringView) :
    (advanceScopeMut (Described.serializeFields fs) t key).isDocument = true := by
  rw [advanceScopeMut_eq]
  cases scope key with
  | nil =>
    cases fs with
    | nil => simpa [Scopes.modifyAt, Described.serializeFields] using h
    | cons f fs =>
      have htable : (Described.serializeFields (f :: fs) t).isTable = true := by
        rw [Described.serializeFields]
        exact Described.isTable_serializeFields fs rfl
      simp only [Scopes.modifyAt]
      cases hs : Described.serializeFields (f :: fs) t with
      | table cs es => rfl
      | _ => simp [hs, isTable] at htable
  | cons n ns => rfl

def serialize (source : TOMLPropertiesSource) (ptr : ObjectFields) (key : StringView) :
    TOMLPropertiesSource where
  value := advanceScopeMut (Described.serializeFields ptr) source.value key
  isDocument := isDocument_advanceScopeMut ptr source.isDocument key
  distinct := source.distinct.advanceScopeMut
    (fun _ => Described.distinct_serializeFields ptr) key

/-- `deserialize`, where `read` is what `toml_deserialize` makes of a table. -/
def deserialize {β : Type} (source : TOMLPropertiesSource)
    (read : BasicValue TomlScalar → β) (key : StringView) : Option β :=
  (advanceScope source.value key).map read

def equals (E : TomlEquality) (source other : TOMLPropertiesSource) (key : StringView) : Bool :=
  source.value.equals E other.value key

variable {E : TomlEquality} {source other third : TOMLPropertiesSource} {key : StringView}

lemma distinct_advanceScope {t : BasicValue TomlScalar}
    (h : advanceScope source.value key = some t) : t.Distinct := by
  have hdistinct := source.distinct
  rw [advanceScope_eq] at h
  generalize source.value = v at h hdistinct
  generalize scope key = ns at h
  induction ns generalizing v with
  | nil => exact Option.some.inj h ▸ hdistinct
  | cons n ns ih =>
    obtain ⟨u, hu, hat⟩ := Option.bind_eq_some_iff.1 h
    exact ih u (hdistinct.get? hu) hat

lemma equals_symm (hE : E.Documented) (h : source.equals E other key = true) :
    other.equals E source key = true := by
  rw [equals, equals_iff hE, SameAt] at h ⊢
  cases hl : advanceScope source.value key with
  | none =>
    rw [hl] at h
    cases hr : advanceScope other.value key with
    | none => exact .none
    | some r =>
      rw [hr] at h
      cases h
  | some l =>
    rw [hl] at h
    cases hr : advanceScope other.value key with
    | none =>
      rw [hr] at h
      cases h
    | some r =>
      rw [hr] at h
      exact .some ((Option.rel_some_some.1 h).symm hE.compares (distinct_advanceScope hl)
        (distinct_advanceScope hr))

lemma equals_trans (hE : E.Documented) (h : source.equals E other key = true)
    (h' : other.equals E third key = true) : source.equals E third key = true := by
  rw [equals, equals_iff hE, SameAt] at h h' ⊢
  generalize advanceScope source.value key = l at h ⊢
  generalize advanceScope other.value key = r at h h'
  generalize advanceScope third.value key = t at h' ⊢
  cases h with
  | none => exact h'
  | some hlr =>
    cases h' with
    | some hrt => exact .some (hlr.trans hE.compares hrt)

/-- A source equals itself at a key unless it has NaN there. -/
lemma equals_self_iff (hE : E.Documented) : source.equals E source key = true ↔
    ∀ t, advanceScope source.value key = some t → t.NaNFree := by
  rw [equals, equals_iff hE, SameAt]
  cases hl : advanceScope source.value key with
  | none => exact iff_of_true .none nofun
  | some l =>
    rw [Option.rel_some_some, same_self_iff hE.compares (distinct_advanceScope hl)]
    simp

end TOMLPropertiesSource

open TOMLPropertiesSource BasicValue

/-- An object is written into the table at its key, where it is read again, and scopes apart from
the key stay as they are. Sources are compared by a relation that is symmetric and transitive, and
reflexive where nothing is NaN. -/
theorem source_scopedAccess {E : TomlEquality} (hE : E.Documented)
    (source other third : TOMLPropertiesSource) (ptr : ObjectFields) {k₁ k₂ : StringView}
    (h₁ : IsKey k₁) (h₂ : IsKey k₂) :
    (∃ t, t = ((advanceScope source.value k₁).getD (.uninitialized [])).asTable ∧
      advanceScope (source.serialize ptr k₁).value k₁ = some (Described.serializeFields ptr t) ∧
      (Described.serializeFields ptr t).isTable = true ∧
      ∀ (β : Type) (read : BasicValue TomlScalar → β),
        (source.serialize ptr k₁).deserialize read k₁ =
          some (read (Described.serializeFields ptr t))) ∧
    (Toml.Apart (k₁.splitOn '.') (k₂.splitOn '.') →
      advanceScope (source.serialize ptr k₁).value k₂ = advanceScope source.value k₂) ∧
    ∀ key, (source.equals E other key = true → other.equals E source key = true) ∧
      (source.equals E other key = true → other.equals E third key = true →
        source.equals E third key = true) ∧
      (source.equals E source key = true ↔
        ∀ t, advanceScope source.value key = some t → t.NaNFree) := by
  have hmut : (source.serialize ptr k₁).value =
      (scopes TomlScalar).modifyAt (Described.serializeFields ptr) (scope k₁) source.value :=
    advanceScopeMut_eq _ _ _
  refine ⟨⟨_, rfl, ?_⟩, fun happart => ?_,
    fun key => ⟨equals_symm hE, equals_trans hE, equals_self_iff hE⟩⟩
  · have hat : advanceScope (source.serialize ptr k₁).value k₁ = some (Described.serializeFields
        ptr ((advanceScope source.value k₁).getD (.uninitialized [])).asTable) := by
      rw [advanceScope_eq, advanceScope_eq, hmut]
      exact Scopes.at?_modifyAt_self _ h₁.scope_ne_nil _
    have htable : ((advanceScope source.value k₁).getD (.uninitialized [])).asTable.isTable =
        true := by
      cases (advanceScope source.value k₁).getD (.uninitialized []) <;> rfl
    refine ⟨hat, Described.isTable_serializeFields ptr htable, fun β read => ?_⟩
    rw [deserialize, hat]
    rfl
  · rw [advanceScope_eq, advanceScope_eq, hmut]
    rw [← h₁.scope_eq, ← h₂.scope_eq] at happart
    exact Scopes.at?_modifyAt_of_apart happart.1 happart.2 _ _

/-- A new source. -/
def TOMLPropertiesSource.empty : TOMLPropertiesSource :=
  ⟨.uninitialized [], rfl, distinct_uninitialized []⟩

/-- `a = nan` -/
def TOMLPropertiesSource.nan : TOMLPropertiesSource :=
  ⟨.table [] [(['a'], .value [] (.floating 0x7ff8000000000000))], rfl,
    distinct_table_iff.2 (by simp [Distinct])⟩

theorem source_scopedAccess_empty :
    IsKey ['a', '.', 'b'] ∧ IsKey ['a', '.', 'c'] ∧
      advanceScope (empty.serialize [(['x'], none, .primitive (.boolean true))]
        ['a', '.', 'b']).value ['a', '.', 'c'] = advanceScope empty.value ['a', '.', 'c'] := by
  have h₁ : IsKey ['a', '.', 'b'] := by decide
  have h₂ : IsKey ['a', '.', 'c'] := by decide
  have happart : Toml.Apart (List.splitOn '.' ['a', '.', 'b']) (List.splitOn '.' ['a', '.', 'c']) :=
    ⟨by decide, by decide⟩
  exact ⟨h₁, h₂, (source_scopedAccess TomlEquality.structural_documented empty empty empty
    [(['x'], none, .primitive (.boolean true))] h₁ h₂).2.1 happart⟩

/-- A source with NaN does not equal itself. -/
theorem equals_not_equivalence :
    ¬ ∀ E : TomlEquality, E.Documented → ∀ key : StringView,
      Equivalence fun source other : TOMLPropertiesSource => source.equals E other key = true := by
  intro h
  have hnan := (equals_self_iff TomlEquality.structural_documented).1
    ((h _ TomlEquality.structural_documented ['a']).refl TOMLPropertiesSource.nan)
    (.value [] (.floating 0x7ff8000000000000)) (by
      rw [advanceScope_eq]
      rfl)
  simp only [NaNFree] at hnan
  exact absurd hnan (by decide)

end Idle
