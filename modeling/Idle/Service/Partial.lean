import Idle.Service.Art

/-!
# Objects that are read in part

A field without an entry is skipped, and `VIS_TRY_CONTINUE` leaves `visitObject` for it as
`VIS_TRY_RETURN` does: the fields that the same class declares behind it are not read. The fields of
a derived class are read all the same, since the `Super` is left with `Ok`. What is read depends on
the order in which the fields are declared.
-/

namespace Idle

/-! ### What an entry stores -/

section Elements

variable {α : Type}

/-- The elements with what the entries store into them. -/
def mergeElements (merge : Toml TomlScalar → α → α) : List (Toml TomlScalar) → List α → List α
  | t :: ts, a :: l => merge t a :: mergeElements merge ts l
  | _, l => l

@[simp] lemma length_mergeElements (merge : Toml TomlScalar → α → α) (ts : List (Toml TomlScalar))
    (l : List α) : (mergeElements merge ts l).length = l.length := by
  induction l generalizing ts with
  | nil => cases ts <;> rfl
  | cons a l ih =>
    cases ts with
    | nil => rfl
    | cons t ts => simp [mergeElements, ih]

end Elements

/-- The integer that is stored, in the type of the field -/
def mergeInteger (i : Integral) : Toml TomlScalar → BitVec i.width → BitVec i.width
  | .value (.integer v), _ => i.ofInteger v
  | _, v => v

/-- The number that is stored, in a floating point type -/
def mergeFloating {w : ℕ} (ofFloating ofInteger : BitVec 64 → BitVec w) :
    Toml TomlScalar → BitVec w → BitVec w
  | .value (.floating v), _ => ofFloating v
  | .value (.integer v), _ => ofInteger v
  | _, v => v

/-- The time that is stored -/
def mergeChrono {α : Type} (c : Chrono α) : Toml TomlScalar → α → α
  | .value v, a => (c.get v).getD a
  | _, a => a

mutual

/-- The value with what an entry stores into it. -/
def ArtType.merge : {α : Type} → ArtType α → Toml TomlScalar → α → α
  | _, .bool, t, b =>
    match t with
    | .value (.boolean b') => b'
    | _ => b
  | _, .integral i, t, v => mergeInteger i t v
  | _, .float, t, v => mergeFloating narrow integerToFloat t v
  | _, .double, t, v => mergeFloating id integerToDouble t v
  | _, .string, t, s =>
    match t with
    | .value (.string _ s') => s'
    | _ => s
  | _, .timePoint c, t, a => mergeChrono c t a
  | _, .duration c, t, a => mergeChrono c t a
  | _, .enumeration i _, t, v => mergeInteger i t v
  | _, .array _ e, t, l =>
    ⟨mergeElements (fun u a => e.merge u a) t.elements l.1, (length_mergeElements _ _ _).trans l.2⟩
  | _, .vector e init, t, l =>
    mergeElements (fun u a => e.merge u a) t.elements (resize init t.elements.length l)
  | _, .set _ _ _ _, _, s => s
  | _, .object r, t, a => r.merge t a

def Reflection.merge : {α : Type} → Reflection α → Toml TomlScalar → α → α
  | _, .base fs, t, a => fs.merge t a
  | _, .derived s fs, t, (a, b) => (s.merge t a, fs.merge t b)

/-- A field keeps its value if it has no entry. -/
def Fields.merge : {α : Type} → Fields α → Toml TomlScalar → α → α
  | _, .nil, _, u => u
  | _, .cons n ty rest, t, (a, b) =>
    let a' := match t.get? n with
      | none => a
      | some u => ty.merge u a
    (a', rest.merge t b)

end

mutual

/-- An entry is of the type that it is read into. -/
def ArtType.Compatible : {α : Type} → ArtType α → Toml TomlScalar → Prop
  | _, .array n e, t =>
    isCompatibleTo t.type .array = true ∧ t.elements.length = n ∧ ∀ u ∈ t.elements, e.Compatible u
  | _, .vector e _, t => isCompatibleTo t.type .array = true ∧ ∀ u ∈ t.elements, e.Compatible u
  | _, .object r, t => isCompatibleTo t.type .object = true ∧ r.Compatible t
  | _, ty, t => isCompatibleTo t.type ty.type = true

def Reflection.Compatible : {α : Type} → Reflection α → Toml TomlScalar → Prop
  | _, .base fs, t => fs.Compatible t
  | _, .derived s fs, t => s.Compatible t ∧ fs.Compatible t

/-- The entries that are there are of the types of their fields. -/
def Fields.Compatible : {α : Type} → Fields α → Toml TomlScalar → Prop
  | _, .nil, _ => True
  | _, .cons n ty rest, t => (∀ u, t.get? n = some u → ty.Compatible u) ∧ rest.Compatible t

end

mutual

/-- Wherever a field has no entry, the fields that the same class declares behind it have nothing
to read: each has no entry, or an entry that stores the value that it has already. -/
def ArtType.SkipsNothing : {α : Type} → ArtType α → Toml TomlScalar → α → Prop
  | _, .array _ e, t, l => List.Forall₂ (fun u a => e.SkipsNothing u a) t.elements l.1
  | _, .vector e init, t, l =>
    List.Forall₂ (fun u a => e.SkipsNothing u a) t.elements (resize init t.elements.length l)
  | _, .object r, t, a => r.SkipsNothing t a
  | _, _, _, _ => True

def Reflection.SkipsNothing : {α : Type} → Reflection α → Toml TomlScalar → α → Prop
  | _, .base fs, t, a => fs.SkipsNothing t a
  | _, .derived s fs, t, (a, b) => s.SkipsNothing t a ∧ fs.SkipsNothing t b

def Fields.SkipsNothing : {α : Type} → Fields α → Toml TomlScalar → α → Prop
  | _, .nil, _, _ => True
  | _, .cons n ty rest, t, (a, b) =>
    match t.get? n with
    | none => rest.merge t b = b
    | some u => ty.SkipsNothing u a ∧ rest.SkipsNothing t b

end

/-! ### Visits that succeed -/

section Yields

variable {α β : Type} {v : Visit α} {x : α} {p q : Prop}

/-- A visit that succeeds, with the value `x` if and only if `p` holds. -/
def Visit.Yields (v : Visit α) (x : α) (p : Prop) : Prop := ∃ y, v = some (.ok, y) ∧ (y = x ↔ p)

namespace Visit

lemma yields_ok (hp : p) : Yields (some (.ok, x)) x p := ⟨x, rfl, by simp [hp]⟩

/-- Two parts that are visited one after the other -/
lemma Yields.pair {w : Visit β} {z : β} {whole : α → α × β} (h : v.Yields x p)
    (h' : w.Yields z q) :
    (v.tryReturn whole fun a => w.map fun r => (r.1, (a, r.2))).Yields (x, z) (p ∧ q) := by
  obtain ⟨y, rfl, hy⟩ := h
  obtain ⟨y', rfl, hy'⟩ := h'
  exact ⟨(y, y'), rfl, by rw [Prod.mk.injEq, hy, hy']⟩

end Visit

end Yields

open Visit

section Loops

variable {α : Type} {visit : Toml TomlScalar → α → Visit α} {merge : Toml TomlScalar → α → α}
variable {p : Toml TomlScalar → α → Prop} {ts : List (Toml TomlScalar)}

lemma yields_visitElements {l : List α} (hlen : ts.length = l.length)
    (h : ∀ t ∈ ts, ∀ a, (visit t a).Yields (merge t a) (p t a)) :
    (visitElements visit ts l).Yields (mergeElements merge ts l) (List.Forall₂ p ts l) := by
  induction l generalizing ts with
  | nil =>
    obtain rfl := List.length_eq_zero_iff.1 hlen
    exact yields_ok .nil
  | cons a l ih =>
    cases ts with
    | nil => simp at hlen
    | cons t ts =>
      obtain ⟨y, hy, hiff⟩ := h t (by simp) a
      obtain ⟨l', hl', hiff'⟩ := ih (by simpa using hlen) fun u hu => h u (by simp [hu])
      refine ⟨y :: l', ?_, ?_⟩
      · rw [visitElements, hy]
        simp [tryReturn, hl']
      · rw [mergeElements, List.cons.injEq, hiff, hiff', List.forall₂_cons]

lemma yields_visitFixed {n : ℕ} {l : {l : List α // l.length = n}} (hlen : ts.length = n)
    (h : ∀ t ∈ ts, ∀ a, (visit t a).Yields (merge t a) (p t a)) :
    (visitFixed visit ts l).Yields
      ⟨mergeElements merge ts l.1, (length_mergeElements _ _ _).trans l.2⟩
      (List.Forall₂ p ts l.1) := by
  obtain ⟨l', hl', hiff⟩ := yields_visitElements (hlen.trans l.2.symm) h
  have hn : l'.length = n := (length_visitElements hl').trans l.2
  refine ⟨⟨l', hn⟩, ?_, by rw [Subtype.mk.injEq, hiff]⟩
  unfold visitFixed
  split
  · rename_i hnone
    rw [hl'] at hnone
    cases hnone
  · rename_i r hr
    rw [hl'] at hr
    obtain rfl := Option.some.inj hr
    rfl

end Loops

/-! ### The deserializer -/

lemma ArtType.Compatible.isCompatibleTo {α : Type} {ty : ArtType α} {t : Toml TomlScalar}
    (h : ty.Compatible t) : isCompatibleTo t.type ty.type = true := by
  cases ty with
  | array n e =>
    simp only [ArtType.Compatible] at h
    exact h.1
  | vector e init =>
    simp only [ArtType.Compatible] at h
    exact h.1
  | object r =>
    simp only [ArtType.Compatible] at h
    exact h.1
  | _ => simpa only [ArtType.Compatible] using h

lemma Toml.exists_array_of_isCompatibleTo {t : Toml TomlScalar}
    (h : isCompatibleTo t.type .array = true) : ∃ ts, t = .array ts := by
  cases t with
  | array ts => exact ⟨ts, rfl⟩
  | value s => cases s <;> exact absurd h Bool.false_ne_true
  | _ => exact absurd h Bool.false_ne_true

lemma Toml.not_isCompatibleTo_set (t : Toml TomlScalar) : ¬ isCompatibleTo t.type .set = true := by
  cases t with
  | value s => cases s <;> exact Bool.false_ne_true
  | _ => exact Bool.false_ne_true

/-- An entry that is compatible with an integral type is an integer. -/
lemma Toml.exists_of_isCompatibleTo {i : Integral} {t : Toml TomlScalar}
    (h : isCompatibleTo t.type i.type = true) : ∃ v, t = .value (.integer v) := by
  cases t with
  | value s =>
    cases s with
    | integer v => exact ⟨v, rfl⟩
    | _ => cases i <;> exact absurd h Bool.false_ne_true
  | _ => cases i <;> exact absurd h Bool.false_ne_true

/-- An entry that is compatible with a floating point type is a number. -/
lemma Toml.exists_of_isCompatibleTo_floating {m : MappedType} (hm : m = .float ∨ m = .double)
    {t : Toml TomlScalar} (h : isCompatibleTo t.type m = true) :
    ∃ v, t = .value (.floating v) ∨ t = .value (.integer v) := by
  obtain rfl | rfl := hm
  all_goals
    cases t with
    | value s =>
      cases s with
      | floating v => exact ⟨v, .inl rfl⟩
      | integer v => exact ⟨v, .inr rfl⟩
      | _ => exact absurd h Bool.false_ne_true
    | _ => exact absurd h Bool.false_ne_true

/-- No entry is compatible with a time. -/
lemma Toml.not_isCompatibleTo_time {m : MappedType} (hm : m = .timePoint ∨ m = .duration)
    (t : Toml TomlScalar) : ¬ isCompatibleTo t.type m = true := by
  obtain rfl | rfl := hm
  all_goals
    cases t with
    | value s => cases s <;> exact Bool.false_ne_true
    | _ => exact Bool.false_ne_true

mutual

/-- A visit of an entry of the right type succeeds, and it misses nothing just if it skips
nothing. -/
theorem ArtType.yields_visit : {α : Type} → (ty : ArtType α) → (t : Toml TomlScalar) → (y : α) →
    ty.Compatible t → (ty.visit t y).Yields (ty.merge t y) (ty.SkipsNothing t y)
  | _, .bool, t, y, h => by
    simp only [ArtType.Compatible, ArtType.type] at h
    cases t with
    | value s =>
      cases s with
      | boolean b => exact yields_ok trivial
      | _ => exact absurd h Bool.false_ne_true
    | _ => exact absurd h Bool.false_ne_true
  | _, .integral i, t, y, h => by
    simp only [ArtType.Compatible, ArtType.type] at h
    obtain ⟨v, rfl⟩ := Toml.exists_of_isCompatibleTo h
    exact yields_ok trivial
  | _, .float, t, y, h => by
    simp only [ArtType.Compatible, ArtType.type] at h
    obtain ⟨v, rfl | rfl⟩ := Toml.exists_of_isCompatibleTo_floating (.inl rfl) h
    · exact yields_ok trivial
    · exact yields_ok trivial
  | _, .double, t, y, h => by
    simp only [ArtType.Compatible, ArtType.type] at h
    obtain ⟨v, rfl | rfl⟩ := Toml.exists_of_isCompatibleTo_floating (.inr rfl) h
    · exact yields_ok trivial
    · exact yields_ok trivial
  | _, .timePoint c, t, y, h => by
    simp only [ArtType.Compatible, ArtType.type] at h
    exact absurd h (t.not_isCompatibleTo_time (.inl rfl))
  | _, .duration c, t, y, h => by
    simp only [ArtType.Compatible, ArtType.type] at h
    exact absurd h (t.not_isCompatibleTo_time (.inr rfl))
  | _, .string, t, y, h => by
    simp only [ArtType.Compatible, ArtType.type] at h
    cases t with
    | value s =>
      cases s with
      | string k b => exact yields_ok trivial
      | _ => exact absurd h Bool.false_ne_true
    | _ => exact absurd h Bool.false_ne_true
  | _, .enumeration i es, t, y, h => by
    simp only [ArtType.Compatible, ArtType.type] at h
    obtain ⟨v, rfl⟩ := Toml.exists_of_isCompatibleTo h
    exact yields_ok trivial
  | _, .array n e, t, y, h => by
    simp only [ArtType.Compatible] at h
    obtain ⟨ht, hlen, helements⟩ := h
    obtain ⟨ts, rfl⟩ := Toml.exists_array_of_isCompatibleTo ht
    have hsize : ts.length = y.1.length := hlen.trans y.2.symm
    have hpeek : peek e.type y.1.length .arrayLike (.array ts) = some (.ok, ts.length) :=
      peek_ok (fun _ => hsize) fun u hu => (helements u hu).isCompatibleTo
    simp only [ArtType.visit, hpeek, tryReturn, hsize, ne_eq, not_true_eq_false, if_false,
      ArtType.merge, ArtType.SkipsNothing]
    exact yields_visitFixed hlen fun u hu a => e.yields_visit u a (helements u hu)
  | _, .vector e init, t, y, h => by
    simp only [ArtType.Compatible] at h
    obtain ⟨ht, helements⟩ := h
    obtain ⟨ts, rfl⟩ := Toml.exists_array_of_isCompatibleTo ht
    have hpeek : peek e.type y.length .vectorLike (.array ts) = some (.ok, ts.length) :=
      peek_ok (fun h => nomatch h) fun u hu => (helements u hu).isCompatibleTo
    simp only [ArtType.visit, hpeek, tryReturn, ArtType.merge, ArtType.SkipsNothing]
    refine yields_visitElements (length_resize init _ y).symm fun u hu a => ?_
    exact e.yields_visit u a (helements u hu)
  | _, .set eq K e init, t, y, h => by
    simp only [ArtType.Compatible, ArtType.type] at h
    exact absurd h t.not_isCompatibleTo_set
  | _, .object r, t, y, h => by
    simp only [ArtType.Compatible] at h
    simp only [ArtType.visit, ArtType.merge, ArtType.SkipsNothing]
    exact r.yields_visit t y h.2

theorem Reflection.yields_visit : {α : Type} → (r : Reflection α) → (t : Toml TomlScalar) →
    (y : α) →
    r.Compatible t → (r.visit t y).Yields (r.merge t y) (r.SkipsNothing t y)
  | _, .base fs, t, y, h => by
    simp only [Reflection.Compatible] at h
    simp only [Reflection.visit, Reflection.merge, Reflection.SkipsNothing]
    exact fs.yields_visit t y h
  | _, .derived s fs, t, (a, b), h => by
    simp only [Reflection.Compatible] at h
    simp only [Reflection.visit, Reflection.merge, Reflection.SkipsNothing]
    exact (s.yields_visit t a h.1).pair (fs.yields_visit t b h.2)

theorem Fields.yields_visit : {α : Type} → (fs : Fields α) → (t : Toml TomlScalar) → (y : α) →
    fs.Compatible t → (fs.visit t y).Yields (fs.merge t y) (fs.SkipsNothing t y)
  | _, .nil, t, y, _ => yields_ok trivial
  | _, .cons n ty rest, t, (a, b), h => by
    simp only [Fields.Compatible] at h
    cases hget : t.get? n with
    | none =>
      -- The loop over the fields of the class ends here.
      simp only [Fields.visit, push, hget, tryReturn, Fields.merge, Fields.SkipsNothing]
      exact ⟨(a, b), rfl, by rw [Prod.mk.injEq, eq_comm (a := b)]; simp⟩
    | some u =>
      have hu := h.1 u hget
      have hpush : push ty.type n t = some (.ok, u) := by
        simp only [push, hget]
        rw [if_pos hu.isCompatibleTo]
      simp only [Fields.visit, hpush, Fields.merge, Fields.SkipsNothing, hget]
      exact (ty.yields_visit u a hu).pair (rest.yields_visit t b h.2)

end

/-! ### The order of the fields -/

mutual

/-- Types that declare their fields in different orders, with the values of one as values of the
other. -/
inductive ArtType.Reordered : {α β : Type} → ArtType α → ArtType β → (α → β) → Prop where
  | same {α : Type} (ty : ArtType α) : ArtType.Reordered ty ty id
  | array {α β : Type} {e : ArtType α} {e' : ArtType β} {f : α → β} (n : ℕ) :
      ArtType.Reordered e e' f → ArtType.Reordered (.array n e) (.array n e')
        fun l => ⟨l.1.map f, (List.length_map f).trans l.2⟩
  | vector {α β : Type} {e : ArtType α} {e' : ArtType β} {f : α → β} (init : α) :
      ArtType.Reordered e e' f →
        ArtType.Reordered (.vector e init) (.vector e' (f init)) (List.map f)
  | object {α β : Type} {r : Reflection α} {r' : Reflection β} {f : α → β} :
      Reflection.Reordered r r' f → ArtType.Reordered (.object r) (.object r') f

inductive Reflection.Reordered : {α β : Type} → Reflection α → Reflection β → (α → β) → Prop where
  | base {α β : Type} {fs : Fields α} {fs' : Fields β} {f : α → β} :
      Fields.Reordered fs fs' f → Reflection.Reordered (.base fs) (.base fs') f
  | derived {α β γ δ : Type} {s : Reflection α} {s' : Reflection β} {fs : Fields γ}
      {fs' : Fields δ} {f : α → β} {g : γ → δ} :
      Reflection.Reordered s s' f → Fields.Reordered fs fs' g →
        Reflection.Reordered (.derived s fs) (.derived s' fs') (Prod.map f g)

inductive Fields.Reordered : {α β : Type} → Fields α → Fields β → (α → β) → Prop where
  | same {α : Type} (fs : Fields α) : Fields.Reordered fs fs id
  | cons {α β γ δ : Type} {ty : ArtType α} {ty' : ArtType β} {rest : Fields γ} {rest' : Fields δ}
      {f : α → β} {g : γ → δ} (n : StringView) :
      ArtType.Reordered ty ty' f → Fields.Reordered rest rest' g →
        Fields.Reordered (.cons n ty rest) (.cons n ty' rest') (Prod.map f g)
  | swap {α β γ : Type} (n m : StringView) (ty : ArtType α) (ty' : ArtType β) (rest : Fields γ) :
      Fields.Reordered (.cons n ty (.cons m ty' rest)) (.cons m ty' (.cons n ty rest))
        fun a => (a.2.1, a.1, a.2.2)
  | trans {α β γ : Type} {fs : Fields α} {fs' : Fields β} {fs'' : Fields γ} {f : α → β}
      {g : β → γ} : Fields.Reordered fs fs' f → Fields.Reordered fs' fs'' g →
        Fields.Reordered fs fs'' (g ∘ f)

end

/-- Every field has an entry. -/
def Fields.AllPresent : {α : Type} → Fields α → Toml TomlScalar → Prop
  | _, .nil, _ => True
  | _, .cons n _ rest, t => t.get? n ≠ none ∧ rest.AllPresent t

mutual

/-- Wherever a field has no entry, no field of the same class has something to read. -/
def ArtType.ReadInAnyOrder : {α : Type} → ArtType α → Toml TomlScalar → α → Prop
  | _, .array _ e, t, l => List.Forall₂ (fun u a => e.ReadInAnyOrder u a) t.elements l.1
  | _, .vector e init, t, l =>
    List.Forall₂ (fun u a => e.ReadInAnyOrder u a) t.elements (resize init t.elements.length l)
  | _, .object r, t, a => r.ReadInAnyOrder t a
  | _, _, _, _ => True

def Reflection.ReadInAnyOrder : {α : Type} → Reflection α → Toml TomlScalar → α → Prop
  | _, .base fs, t, a => (fs.AllPresent t ∨ fs.merge t a = a) ∧ fs.EntriesInAnyOrder t a
  | _, .derived s fs, t, (a, b) =>
    s.ReadInAnyOrder t a ∧ (fs.AllPresent t ∨ fs.merge t b = b) ∧ fs.EntriesInAnyOrder t b

def Fields.EntriesInAnyOrder : {α : Type} → Fields α → Toml TomlScalar → α → Prop
  | _, .nil, _, _ => True
  | _, .cons n ty rest, t, (a, b) =>
    (∀ u, t.get? n = some u → ty.ReadInAnyOrder u a) ∧ rest.EntriesInAnyOrder t b

end

namespace Fields

variable {α β γ : Type} {n : StringView} {ty : ArtType α} {rest : Fields β} {t : Toml TomlScalar}
variable {a : α} {b : β}

lemma merge_cons_of_none (h : t.get? n = none) :
    (Fields.cons n ty rest).merge t (a, b) = (a, rest.merge t b) := by
  rw [Fields.merge, h]

lemma merge_cons_of_some {u : Toml TomlScalar} (h : t.get? n = some u) :
    (Fields.cons n ty rest).merge t (a, b) = (ty.merge u a, rest.merge t b) := by
  rw [Fields.merge, h]

lemma skipsNothing_cons_of_none (h : t.get? n = none) :
    (Fields.cons n ty rest).SkipsNothing t (a, b) ↔ rest.merge t b = b := by
  rw [Fields.SkipsNothing, h]

lemma skipsNothing_cons_of_some {u : Toml TomlScalar} (h : t.get? n = some u) :
    (Fields.cons n ty rest).SkipsNothing t (a, b) ↔
      ty.SkipsNothing u a ∧ rest.SkipsNothing t b := by
  rw [Fields.SkipsNothing, h]

end Fields

/-! ### What stays the same -/

mutual

theorem ArtType.Reordered.injective : {α β : Type} → {ty : ArtType α} → {ty' : ArtType β} →
    {f : α → β} → ty.Reordered ty' f → Function.Injective f
  | _, _, _, _, _, .same _ => Function.injective_id
  | _, _, _, _, _, .array n h => fun _ _ heq =>
    Subtype.ext (List.map_injective_iff.2 h.injective (Subtype.mk.inj heq))
  | _, _, _, _, _, .vector init h => List.map_injective_iff.2 h.injective
  | _, _, _, _, _, .object h => h.injective

theorem Reflection.Reordered.injective : {α β : Type} → {r : Reflection α} →
    {r' : Reflection β} → {f : α → β} → r.Reordered r' f → Function.Injective f
  | _, _, _, _, _, .base h => h.injective
  | _, _, _, _, _, .derived h h' => h.injective.prodMap h'.injective

theorem Fields.Reordered.injective : {α β : Type} → {fs : Fields α} → {fs' : Fields β} →
    {f : α → β} → fs.Reordered fs' f → Function.Injective f
  | _, _, _, _, _, .same _ => Function.injective_id
  | _, _, _, _, _, .cons n h h' => h.injective.prodMap h'.injective
  | _, _, _, _, _, .swap n m ty ty' rest => by
    rintro ⟨a, b, c⟩ ⟨a', b', c'⟩ heq
    simp only [Prod.mk.injEq] at heq
    rw [heq.1, heq.2.1, heq.2.2]
  | _, _, _, _, _, .trans h h' => h'.injective.comp h.injective

end

lemma mergeElements_map {α β : Type} {merge : Toml TomlScalar → α → α}
    {merge' : Toml TomlScalar → β → β} {f : α → β} (h : ∀ t a, merge' t (f a) = f (merge t a))
    (ts : List (Toml TomlScalar)) (l : List α) :
    mergeElements merge' ts (l.map f) = (mergeElements merge ts l).map f := by
  induction l generalizing ts with
  | nil => cases ts <;> rfl
  | cons a l ih =>
    cases ts with
    | nil => rfl
    | cons t ts => simp [mergeElements, h, ih]

lemma resize_map {α β : Type} (f : α → β) (init : α) (size : ℕ) (l : List α) :
    resize (f init) size (l.map f) = (resize init size l).map f := by
  simp [resize]

mutual

/-- What the entries store does not depend on the order of the fields. -/
theorem ArtType.Reordered.merge : {α β : Type} → {ty : ArtType α} → {ty' : ArtType β} →
    {f : α → β} → ty.Reordered ty' f → (t : Toml TomlScalar) → (y : α) →
    ty'.merge t (f y) = f (ty.merge t y)
  | _, _, _, _, _, .same _, t, y => rfl
  | _, _, _, _, _, .array n h, t, y => by
    simp only [ArtType.merge]
    exact Subtype.ext (mergeElements_map (fun u a => h.merge u a) _ _)
  | _, _, _, _, _, .vector init h, t, y => by
    simp only [ArtType.merge]
    rw [resize_map, mergeElements_map fun u a => h.merge u a]
  | _, _, _, _, _, .object h, t, y => by
    simp only [ArtType.merge]
    exact h.merge t y

theorem Reflection.Reordered.merge : {α β : Type} → {r : Reflection α} → {r' : Reflection β} →
    {f : α → β} → r.Reordered r' f → (t : Toml TomlScalar) → (y : α) →
    r'.merge t (f y) = f (r.merge t y)
  | _, _, _, _, _, .base h, t, y => by
    simp only [Reflection.merge]
    exact h.merge t y
  | _, _, _, _, _, .derived h h', t, (a, b) => by
    simp only [Reflection.merge, Prod.map_apply, h.merge t a, h'.merge t b]

theorem Fields.Reordered.merge : {α β : Type} → {fs : Fields α} → {fs' : Fields β} →
    {f : α → β} → fs.Reordered fs' f → (t : Toml TomlScalar) → (y : α) →
    fs'.merge t (f y) = f (fs.merge t y)
  | _, _, _, _, _, .same _, t, y => rfl
  | _, _, _, _, _, .cons n h h', t, (a, b) => by
    rw [Prod.map_apply]
    cases hget : t.get? n with
    | none => rw [Fields.merge_cons_of_none hget, Fields.merge_cons_of_none hget, Prod.map_apply,
        h'.merge t b]
    | some u =>
      rw [Fields.merge_cons_of_some hget, Fields.merge_cons_of_some hget, Prod.map_apply,
        h.merge u a, h'.merge t b]
  | _, _, _, _, _, .swap n m ty ty' rest, t, (a, b, c) => by simp only [Fields.merge]
  | _, _, _, _, _, .trans h h', t, y => by
    rw [Function.comp_apply, h'.merge t, h.merge t, Function.comp_apply]

end

lemma ArtType.Reordered.type {α β : Type} {ty : ArtType α} {ty' : ArtType β} {f : α → β}
    (h : ty.Reordered ty' f) : ty'.type = ty.type := by
  cases h <;> rfl

mutual

theorem ArtType.Reordered.compatible : {α β : Type} → {ty : ArtType α} → {ty' : ArtType β} →
    {f : α → β} → ty.Reordered ty' f → {t : Toml TomlScalar} → ty.Compatible t → ty'.Compatible t
  | _, _, _, _, _, .same _, t, ht => ht
  | _, _, _, _, _, .array n h, t, ht => by
    simp only [ArtType.Compatible] at ht ⊢
    exact ⟨ht.1, ht.2.1, fun u hu => h.compatible (ht.2.2 u hu)⟩
  | _, _, _, _, _, .vector init h, t, ht => by
    simp only [ArtType.Compatible] at ht ⊢
    exact ⟨ht.1, fun u hu => h.compatible (ht.2 u hu)⟩
  | _, _, _, _, _, .object h, t, ht => by
    simp only [ArtType.Compatible] at ht ⊢
    exact ⟨ht.1, h.compatible ht.2⟩

theorem Reflection.Reordered.compatible : {α β : Type} → {r : Reflection α} →
    {r' : Reflection β} → {f : α → β} → r.Reordered r' f → {t : Toml TomlScalar} →
    r.Compatible t → r'.Compatible t
  | _, _, _, _, _, .base h, t, ht => by
    simp only [Reflection.Compatible] at ht ⊢
    exact h.compatible ht
  | _, _, _, _, _, .derived h h', t, ht => by
    simp only [Reflection.Compatible] at ht ⊢
    exact ⟨h.compatible ht.1, h'.compatible ht.2⟩

theorem Fields.Reordered.compatible : {α β : Type} → {fs : Fields α} → {fs' : Fields β} →
    {f : α → β} → fs.Reordered fs' f → {t : Toml TomlScalar} → fs.Compatible t → fs'.Compatible t
  | _, _, _, _, _, .same _, t, ht => ht
  | _, _, _, _, _, .cons n h h', t, ht => by
    simp only [Fields.Compatible] at ht ⊢
    exact ⟨fun u hu => h.compatible (ht.1 u hu), h'.compatible ht.2⟩
  | _, _, _, _, _, .swap n m ty ty' rest, t, ht => by
    simp only [Fields.Compatible] at ht ⊢
    exact ⟨ht.2.1, ht.1, ht.2.2⟩
  | _, _, _, _, _, .trans h h', t, ht => h'.compatible (h.compatible ht)

end

lemma Fields.Reordered.allPresent : {α β : Type} → {fs : Fields α} → {fs' : Fields β} →
    {f : α → β} → fs.Reordered fs' f → {t : Toml TomlScalar} → fs.AllPresent t → fs'.AllPresent t
  | _, _, _, _, _, .same _, t, ht => ht
  | _, _, _, _, _, .cons n _ h', t, ht => by
    simp only [Fields.AllPresent] at ht ⊢
    exact ⟨ht.1, h'.allPresent ht.2⟩
  | _, _, _, _, _, .swap n m ty ty' rest, t, ht => by
    simp only [Fields.AllPresent] at ht ⊢
    exact ⟨ht.2.1, ht.1, ht.2.2⟩
  | _, _, _, _, _, .trans h h', t, ht => h'.allPresent (h.allPresent ht)

lemma Fields.Reordered.settled {α β : Type} {fs : Fields α} {fs' : Fields β} {f : α → β}
    (h : fs.Reordered fs' f) {t : Toml TomlScalar} {y : α}
    (hy : fs.AllPresent t ∨ fs.merge t y = y) :
    fs'.AllPresent t ∨ fs'.merge t (f y) = f y := by
  refine hy.imp h.allPresent fun hy => ?_
  rw [h.merge t, hy]

mutual

theorem ArtType.Reordered.readInAnyOrder : {α β : Type} → {ty : ArtType α} → {ty' : ArtType β} →
    {f : α → β} → ty.Reordered ty' f → {t : Toml TomlScalar} → {y : α} →
    ty.ReadInAnyOrder t y → ty'.ReadInAnyOrder t (f y)
  | _, _, _, _, _, .same _, t, y, hy => hy
  | _, _, _, _, _, .array n h, t, y, hy => by
    simp only [ArtType.ReadInAnyOrder] at hy ⊢
    rw [List.forall₂_map_right_iff]
    exact hy.imp fun u a => h.readInAnyOrder
  | _, _, _, _, _, .vector init h, t, y, hy => by
    simp only [ArtType.ReadInAnyOrder] at hy ⊢
    rw [resize_map, List.forall₂_map_right_iff]
    exact hy.imp fun u a => h.readInAnyOrder
  | _, _, _, _, _, .object h, t, y, hy => by
    simp only [ArtType.ReadInAnyOrder] at hy ⊢
    exact h.readInAnyOrder hy

theorem Reflection.Reordered.readInAnyOrder : {α β : Type} → {r : Reflection α} →
    {r' : Reflection β} → {f : α → β} → r.Reordered r' f → {t : Toml TomlScalar} → {y : α} →
    r.ReadInAnyOrder t y → r'.ReadInAnyOrder t (f y)
  | _, _, _, _, _, .base h, t, y, hy => by
    simp only [Reflection.ReadInAnyOrder] at hy ⊢
    exact ⟨h.settled hy.1, h.entriesInAnyOrder hy.2⟩
  | _, _, _, _, _, .derived h h', t, (a, b), hy => by
    simp only [Reflection.ReadInAnyOrder, Prod.map_apply] at hy ⊢
    exact ⟨h.readInAnyOrder hy.1, h'.settled hy.2.1, h'.entriesInAnyOrder hy.2.2⟩

theorem Fields.Reordered.entriesInAnyOrder : {α β : Type} → {fs : Fields α} → {fs' : Fields β} →
    {f : α → β} → fs.Reordered fs' f → {t : Toml TomlScalar} → {y : α} →
    fs.EntriesInAnyOrder t y → fs'.EntriesInAnyOrder t (f y)
  | _, _, _, _, _, .same _, t, y, hy => hy
  | _, _, _, _, _, .cons n h h', t, (a, b), hy => by
    simp only [Fields.EntriesInAnyOrder, Prod.map_apply] at hy ⊢
    exact ⟨fun u hu => h.readInAnyOrder (hy.1 u hu), h'.entriesInAnyOrder hy.2⟩
  | _, _, _, _, _, .swap n m ty ty' rest, t, (a, b, c), hy => by
    simp only [Fields.EntriesInAnyOrder] at hy ⊢
    exact ⟨hy.2.1, hy.1, hy.2.2⟩
  | _, _, _, _, _, .trans h h', t, y, hy => h'.entriesInAnyOrder (h.entriesInAnyOrder hy)

end

/-! ### Nothing is skipped in any order -/

mutual

theorem ArtType.skipsNothing_of_readInAnyOrder : {α : Type} → (ty : ArtType α) →
    {t : Toml TomlScalar} → {y : α} → ty.ReadInAnyOrder t y → ty.SkipsNothing t y
  | _, .array n e, t, y, h => by
    simp only [ArtType.ReadInAnyOrder, ArtType.SkipsNothing] at h ⊢
    exact h.imp fun u a => e.skipsNothing_of_readInAnyOrder
  | _, .vector e init, t, y, h => by
    simp only [ArtType.ReadInAnyOrder, ArtType.SkipsNothing] at h ⊢
    exact h.imp fun u a => e.skipsNothing_of_readInAnyOrder
  | _, .object r, t, y, h => by
    simp only [ArtType.ReadInAnyOrder, ArtType.SkipsNothing] at h ⊢
    exact r.skipsNothing_of_readInAnyOrder h
  | _, .bool, _, _, _ | _, .integral _, _, _, _ | _, .float, _, _, _ | _, .double, _, _, _
  | _, .string, _, _, _ | _, .timePoint _, _, _, _ | _, .duration _, _, _, _
  | _, .enumeration _ _, _, _, _ | _, .set _ _ _ _, _, _, _ => by simp only [ArtType.SkipsNothing]

theorem Reflection.skipsNothing_of_readInAnyOrder : {α : Type} → (r : Reflection α) →
    {t : Toml TomlScalar} → {y : α} → r.ReadInAnyOrder t y → r.SkipsNothing t y
  | _, .base fs, t, y, h => by
    simp only [Reflection.ReadInAnyOrder, Reflection.SkipsNothing] at h ⊢
    exact fs.skipsNothing_of_settled h.1 h.2
  | _, .derived s fs, t, (a, b), h => by
    simp only [Reflection.ReadInAnyOrder, Reflection.SkipsNothing] at h ⊢
    exact ⟨s.skipsNothing_of_readInAnyOrder h.1, fs.skipsNothing_of_settled h.2.1 h.2.2⟩

theorem Fields.skipsNothing_of_settled : {α : Type} → (fs : Fields α) → {t : Toml TomlScalar} →
    {y : α} → fs.AllPresent t ∨ fs.merge t y = y → fs.EntriesInAnyOrder t y → fs.SkipsNothing t y
  | _, .nil, t, y, _, _ => by simp only [Fields.SkipsNothing]
  | _, .cons n ty rest, t, (a, b), h, hentries => by
    simp only [Fields.EntriesInAnyOrder] at hentries
    cases hget : t.get? n with
    | none =>
      rw [Fields.skipsNothing_cons_of_none hget]
      rcases h with hall | hmerge
      · exact absurd hget hall.1
      · rw [Fields.merge_cons_of_none hget] at hmerge
        exact congrArg Prod.snd hmerge
    | some u =>
      rw [Fields.skipsNothing_cons_of_some hget]
      refine ⟨ty.skipsNothing_of_readInAnyOrder (hentries.1 u hget),
        rest.skipsNothing_of_settled (h.imp (fun hall => hall.2) fun hmerge => ?_) hentries.2⟩
      rw [Fields.merge_cons_of_some hget] at hmerge
      exact congrArg Prod.snd hmerge

end

lemma Reflection.Reordered.same : {α : Type} → (r : Reflection α) → r.Reordered r id
  | _, .base fs => .base (.same fs)
  | _, .derived s fs => by
    have h := Reflection.Reordered.derived (same s) (.same fs)
    rwa [Prod.map_id] at h

namespace Fields

/-- A field without an entry can be declared first. -/
lemma exists_absent_front : {α : Type} → (fs : Fields α) → {t : Toml TomlScalar} →
    ¬ fs.AllPresent t → ∃ (β γ : Type) (n : StringView) (ty : ArtType β) (rest : Fields γ)
      (f : α → β × γ), fs.Reordered (.cons n ty rest) f ∧ t.get? n = none
  | _, .nil, t, h => absurd trivial h
  | _, .cons n ty rest, t, h => by
    by_cases hget : t.get? n = none
    · exact ⟨_, _, n, ty, rest, id, .same _, hget⟩
    · have hrest : ¬ rest.AllPresent t := fun hall => h ⟨hget, hall⟩
      obtain ⟨β, γ, m, ty', rest', f, hf, hm⟩ := rest.exists_absent_front hrest
      exact ⟨_, _, m, ty', _, _, (Reordered.cons n (.same ty) hf).trans (.swap ..), hm⟩

/-- If nothing is skipped with a field without an entry in front, nothing is stored. -/
lemma settled_of_skipsNothing {α : Type} {fs : Fields α} {t : Toml TomlScalar} {y : α}
    (h : ∀ {β : Type} (fs' : Fields β) (f : α → β), fs.Reordered fs' f →
      fs'.SkipsNothing t (f y)) : fs.AllPresent t ∨ fs.merge t y = y := by
  by_cases hall : fs.AllPresent t
  · exact .inl hall
  · obtain ⟨β, γ, n, ty, rest, f, hf, hn⟩ := fs.exists_absent_front hall
    have hskip := h _ f hf
    rcases hy : f y with ⟨a, b⟩
    rw [hy, skipsNothing_cons_of_none hn] at hskip
    refine .inr (hf.injective ?_)
    rw [← hf.merge t y, hy, merge_cons_of_none hn, hskip]

end Fields

mutual

theorem ArtType.readInAnyOrder_of_skipsNothing : {α : Type} → (ty : ArtType α) →
    {t : Toml TomlScalar} → {y : α} →
    (∀ {β : Type} (ty' : ArtType β) (f : α → β), ty.Reordered ty' f → ty'.SkipsNothing t (f y)) →
    ty.ReadInAnyOrder t y
  | _, .array n e, t, y, h => by
    have hall : ∀ {β : Type} (e' : ArtType β) (f : _ → β), e.Reordered e' f →
        List.Forall₂ (fun u a => e'.SkipsNothing u (f a)) t.elements y.1 := by
      intro β e' f hf
      have hskip := h _ _ (.array n hf)
      simp only [ArtType.SkipsNothing] at hskip
      rwa [List.forall₂_map_right_iff] at hskip
    simp only [ArtType.ReadInAnyOrder]
    refine List.forall₂_iff_get.2 ⟨(hall e id (.same e)).length_eq, fun i hi hi' => ?_⟩
    exact e.readInAnyOrder_of_skipsNothing fun e' f hf =>
      (List.forall₂_iff_get.1 (hall e' f hf)).2 i hi hi'
  | _, .vector e init, t, y, h => by
    have hall : ∀ {β : Type} (e' : ArtType β) (f : _ → β), e.Reordered e' f →
        List.Forall₂ (fun u a => e'.SkipsNothing u (f a)) t.elements
          (resize init t.elements.length y) := by
      intro β e' f hf
      have hskip := h _ _ (.vector init hf)
      simp only [ArtType.SkipsNothing] at hskip
      rwa [resize_map, List.forall₂_map_right_iff] at hskip
    simp only [ArtType.ReadInAnyOrder]
    refine List.forall₂_iff_get.2 ⟨(hall e id (.same e)).length_eq, fun i hi hi' => ?_⟩
    exact e.readInAnyOrder_of_skipsNothing fun e' f hf =>
      (List.forall₂_iff_get.1 (hall e' f hf)).2 i hi hi'
  | _, .object r, t, y, h => by
    simp only [ArtType.ReadInAnyOrder]
    refine r.readInAnyOrder_of_skipsNothing fun r' f hf => ?_
    have hskip := h _ _ (.object hf)
    simpa only [ArtType.SkipsNothing] using hskip
  | _, .bool, _, _, _ | _, .integral _, _, _, _ | _, .float, _, _, _ | _, .double, _, _, _
  | _, .string, _, _, _ | _, .timePoint _, _, _, _ | _, .duration _, _, _, _
  | _, .enumeration _ _, _, _, _ | _, .set _ _ _ _, _, _, _ => by
    simp only [ArtType.ReadInAnyOrder]

theorem Reflection.readInAnyOrder_of_skipsNothing : {α : Type} → (r : Reflection α) →
    {t : Toml TomlScalar} → {y : α} →
    (∀ {β : Type} (r' : Reflection β) (f : α → β), r.Reordered r' f → r'.SkipsNothing t (f y)) →
    r.ReadInAnyOrder t y
  | _, .base fs, t, y, h => by
    have hfs : ∀ {β : Type} (fs' : Fields β) (f : _ → β), fs.Reordered fs' f →
        fs'.SkipsNothing t (f y) := by
      intro β fs' f hf
      have hskip := h _ _ (.base hf)
      simpa only [Reflection.SkipsNothing] using hskip
    simp only [Reflection.ReadInAnyOrder]
    refine ⟨Fields.settled_of_skipsNothing hfs, fs.entriesInAnyOrder_of_skipsNothing ?_⟩
    intro β γ n ty rest f hf u hu
    exact ((Fields.skipsNothing_cons_of_some hu).1 (hfs _ f hf)).1
  | _, .derived s fs, t, (a, b), h => by
    have hfs : ∀ {β : Type} (fs' : Fields β) (f : _ → β), fs.Reordered fs' f →
        fs'.SkipsNothing t (f b) := by
      intro β fs' f hf
      have hskip := h _ _ (.derived (.same s) hf)
      simp only [Reflection.SkipsNothing] at hskip
      exact hskip.2
    simp only [Reflection.ReadInAnyOrder]
    refine ⟨s.readInAnyOrder_of_skipsNothing fun s' f hf => ?_,
      Fields.settled_of_skipsNothing hfs, fs.entriesInAnyOrder_of_skipsNothing ?_⟩
    · have hskip := h _ _ (.derived hf (.same fs))
      simp only [Reflection.SkipsNothing] at hskip
      exact hskip.1
    · intro β γ n ty rest f hf u hu
      exact ((Fields.skipsNothing_cons_of_some hu).1 (hfs _ f hf)).1

/-- Every field can be declared first. -/
theorem Fields.entriesInAnyOrder_of_skipsNothing : {α : Type} → (fs : Fields α) →
    {t : Toml TomlScalar} → {y : α} →
    (∀ {β γ : Type} (n : StringView) (ty : ArtType β) (rest : Fields γ) (f : α → β × γ),
      fs.Reordered (.cons n ty rest) f → ∀ u, t.get? n = some u → ty.SkipsNothing u (f y).1) →
    fs.EntriesInAnyOrder t y
  | _, .nil, t, y, _ => by simp only [Fields.EntriesInAnyOrder]
  | _, .cons n ty rest, t, (a, b), h => by
    simp only [Fields.EntriesInAnyOrder]
    refine ⟨fun u hu => ty.readInAnyOrder_of_skipsNothing fun ty' f hf =>
      h _ _ _ _ (.cons n hf (.same rest)) u hu, rest.entriesInAnyOrder_of_skipsNothing ?_⟩
    intro β γ m ty' rest' f hf u hu
    exact h _ _ _ _ ((Fields.Reordered.cons n (.same ty) hf).trans (.swap ..)) u hu

end

/-- In every order of the fields nothing is skipped that has something to read. -/
theorem Reflection.readInAnyOrder_iff {α : Type} {r : Reflection α} {t : Toml TomlScalar} {y : α} :
    r.ReadInAnyOrder t y ↔ ∀ {β : Type} (r' : Reflection β) (f : α → β), r.Reordered r' f →
      r'.SkipsNothing t (f y) :=
  ⟨fun h _ r' _ hf => r'.skipsNothing_of_readInAnyOrder (hf.readInAnyOrder h),
    r.readInAnyOrder_of_skipsNothing⟩

lemma Reflection.tomlDeserialize_eq_iff {α : Type} {r : Reflection α} {t : Toml TomlScalar}
    {y : α} (h : r.Compatible t) :
    r.tomlDeserialize t y = some (true, r.merge t y) ↔ r.SkipsNothing t y := by
  obtain ⟨x, hx, hiff⟩ := r.yields_visit t y h
  rw [tomlDeserialize, hx, ← hiff]
  simp

/-- A table whose entries are of the types of their fields is read field by field if and only if
no field is skipped that has something to read, and in whatever order the fields are declared if and
only if nothing is read where a field has no entry. -/
theorem Reflection.tomlDeserialize_eq_merge_iff {α : Type} (r : Reflection α) (t : Toml TomlScalar)
    (y : α) (h : r.Compatible t) :
    (r.tomlDeserialize t y = some (true, r.merge t y) ↔ r.SkipsNothing t y) ∧
      ((∀ {β : Type} (r' : Reflection β) (f : α → β), r.Reordered r' f →
        r'.tomlDeserialize t (f y) = some (true, f (r.merge t y))) ↔ r.ReadInAnyOrder t y) := by
  refine ⟨tomlDeserialize_eq_iff h, Iff.trans ?_ readInAnyOrder_iff.symm⟩
  constructor
  · intro hread β r' f hf
    rw [← tomlDeserialize_eq_iff (hf.compatible h), hf.merge t y]
    exact hread r' f hf
  · intro hskip β r' f hf
    rw [← hf.merge t y]
    exact (tomlDeserialize_eq_iff (hf.compatible h)).2 (hskip r' f hf)

/-- A name and integers, but neither the identifier of the `Super` nor what is declared behind -/
def partialTable : Toml TomlScalar :=
  .table [(['s'], .array [.value (.integer 1), .value (.integer 2)]),
    (['n'], .value (.string .basic ['z']))]

theorem tomlDeserialize_partialTable :
    plainReflection.tomlDeserialize partialTable
      ((7, ()), ['a'], [3], ⟨[true, false], rfl⟩, (9, ()), ()) =
        some (true, (7, ()), ['z'], [1, 2], ⟨[true, false], rfl⟩, (9, ()), ()) := by
  refine (plainReflection.tomlDeserialize_eq_merge_iff partialTable
    ((7, ()), ['a'], [3], ⟨[true, false], rfl⟩, (9, ()), ()) ?_).1.2 ?_
  · simp [plainReflection, partialTable, Reflection.Compatible, Fields.Compatible,
      ArtType.Compatible, Toml.get?, Toml.entries, Toml.elements, isCompatibleTo,
      Toml.type, TomlScalar.type, ArtType.type, Integral.type, MappedType.isArray,
      MappedType.isString, MappedType.isIntegral, List.lookup]
  · refine ⟨rfl, trivial, ⟨.cons trivial (.cons trivial .nil), ?_⟩⟩
    rfl

/-- A class with two integers -/
def pairReflection : Reflection (BitVec 8 × BitVec 8 × Unit) :=
  .base (.cons ['a'] (.integral .uint8) (.cons ['b'] (.integral .uint8) .nil))

/-- The first field has no entry, so the second is not read. -/
theorem tomlDeserialize_pairReflection_skips :
    pairReflection.Compatible (.table [(['b'], .value (.integer 1))]) ∧
      pairReflection.tomlDeserialize (.table [(['b'], .value (.integer 1))]) (0, 0, ()) =
        some (true, 0, 0, ()) ∧
      pairReflection.merge (.table [(['b'], .value (.integer 1))]) (0, 0, ()) = (0, 1, ()) := by
  refine ⟨?_, by decide⟩
  simp [pairReflection, Reflection.Compatible, Fields.Compatible, ArtType.Compatible, Toml.get?,
    Toml.entries, isCompatibleTo, Toml.type, TomlScalar.type, ArtType.type, Integral.type,
    MappedType.isIntegral, List.lookup]

end Idle
