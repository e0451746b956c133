import Idle.Service.Art

/-!
# Visiting a set

`SetTypeImpl::iterate` replaces the elements of a set while it iterates over the same set, and goes
on behind the element that was inserted. All elements are met once if every value is put where the
element that it replaces was. Elsewhere a value may be met again and overwritten by the next one,
and elements may be left out.
-/

namespace Idle

/-- `visitSet` behind the `peek` of a visitor that reports the size of `ts`. -/
def visitSet {α C : Type} [DecidableEq α] (K : SetContainer α C) (init : α)
    (visit : Toml TomlScalar → α → Visit α) (ts : List (Toml TomlScalar)) (s : C) : Visit C :=
  let s' := if ts.length < K.size s then K.clear s else s
  iterate K init visit ts (K.elements s').head? s'

lemma ArtType.visit_set {α C : Type} (eq : DecidableEq α) (K : SetContainer α C) (e : ArtType α)
    (init : α) {ts : List (Toml TomlScalar)}
    (h : ∀ t ∈ ts, isCompatibleTo t.type e.type = true) (s : C) :
    (ArtType.set eq K e init).visit (.array ts) s =
      visitSet K init (fun t a => e.visit t a) ts s := by
  rw [ArtType.visit, peek_ok (c := .setLike) (fun h => nomatch h) h]
  rfl

/-- The callback assigns `v` to the slot that it is given for `t`. -/
def Assigns {α : Type} (visit : Toml TomlScalar → α → Visit α) (t : Toml TomlScalar) (v : α) :
    Prop :=
  ∀ a, visit t a = some (.ok, v)

/-! ### Values in the places of elements -/

/-- Where the elements of a set are replaced by values one after the other, the place of each value
is right in front of the next element, and the value is none of those that are still to come. -/
def InPlace {α C : Type} [DecidableEq α] (K : SetContainer α C) : C → List α → List α → Prop
  | _, [], _ => True
  | _, _ :: _, [] => False
  | s, a :: rest, v :: vs =>
    let s' := K.replace a v s
    (K.elements s').behind? v = rest.head? ∧ v ∉ rest ∧ InPlace K s' rest vs

section InPlace

variable {α C : Type} [DecidableEq α] {K : SetContainer α C} {init : α}
variable {visit : Toml TomlScalar → α → Visit α} {ts : List (Toml TomlScalar)} {vs : List α}

variable (K init) in
/-- At its end, a set grows by the values that are left. -/
lemma iterate_none (h : List.Forall₂ (Assigns visit) ts vs) (s : C) :
    ∃ s', iterate K init visit ts none s = some (.ok, s') ∧
      ∀ x, x ∈ K.elements s' ↔ x ∈ K.elements s ∨ x ∈ vs := by
  induction h generalizing s with
  | nil => exact ⟨s, rfl, by simp⟩
  | @cons t v ts vs ht _ ih =>
    obtain ⟨s', hs', hmem⟩ := ih (K.insert v s)
    refine ⟨s', ?_, fun x => ?_⟩
    · rw [iterate, ht]
      exact hs'
    · rw [hmem, K.mem_insert, List.mem_cons]
      tauto

/-- A round at an element replaces it and goes on behind the value. -/
lemma iterate_some {t : Toml TomlScalar} {v : α} (ht : Assigns visit t v) (a : α) (s : C) :
    iterate K init visit (t :: ts) (some a) s =
      iterate K init visit ts ((K.elements (K.replace a v s)).behind? v) (K.replace a v s) := by
  rw [iterate, ht]
  by_cases hva : v = a
  · simp [hva, SetContainer.replace]
  · simp [hva, SetContainer.replace]

variable (init) in
/-- In place, the elements are replaced one after the other: what is in the set are the values that
were assigned, which `A` stands for, and the elements that are still to come. -/
lemma InPlace.iterate {rest : List α} {s : C} {A : Set α}
    (hmem : ∀ x, x ∈ K.elements s ↔ x ∈ A ∨ x ∈ rest) (hA : ∀ x ∈ rest, x ∉ A)
    (hrest : rest.Nodup) (hplace : InPlace K s rest vs)
    (h : List.Forall₂ (Assigns visit) ts vs) :
    ∃ s', Idle.iterate K init visit ts rest.head? s = some (.ok, s') ∧
      ∀ x, x ∈ K.elements s' ↔ x ∈ A ∨ x ∈ vs := by
  induction rest generalizing s ts vs A with
  | nil =>
    obtain ⟨s', hs', hmem'⟩ := iterate_none K init h s
    exact ⟨s', hs', fun x => by simp [hmem', hmem]⟩
  | cons a rest ih =>
    cases h with
    | nil => exact hplace.elim
    | @cons t v ts vs ht h =>
      obtain ⟨hnext, hv, hplace⟩ := hplace
      obtain ⟨ha, hrest⟩ := List.nodup_cons.1 hrest
      have has : a ∈ K.elements s := (hmem a).2 (.inr List.mem_cons_self)
      have hmem' : ∀ x, x ∈ K.elements (K.replace a v s) ↔ x ∈ insert v A ∨ x ∈ rest := by
        intro x
        rw [K.mem_replace has, hmem, List.mem_cons, Set.mem_insert_iff]
        have hxa : x ∈ A → x ≠ a := fun hx hxa => hA a List.mem_cons_self (hxa ▸ hx)
        have hxa' : x ∈ rest → x ≠ a := fun hx hxa => ha (hxa ▸ hx)
        tauto
      have hA' : ∀ x ∈ rest, x ∉ insert v A := by
        intro x hx
        rw [Set.mem_insert_iff, not_or]
        exact ⟨fun hxv => hv (hxv ▸ hx), hA x (List.mem_cons_of_mem _ hx)⟩
      obtain ⟨s', hs', hfinal⟩ := ih hmem' hA' hrest hplace h
      refine ⟨s', ?_, fun x => ?_⟩
      · rw [List.head?_cons, iterate_some ht, hnext]
        exact hs'
      · rw [hfinal, Set.mem_insert_iff, List.mem_cons]
        tauto

end InPlace

lemma exists_visitSet_eq {α C : Type} [DecidableEq α] {K : SetContainer α C} {init : α}
    {visit : Toml TomlScalar → α → Visit α} {ts : List (Toml TomlScalar)} {vs : List α} {s : C}
    (h : List.Forall₂ (Assigns visit) ts vs)
    (hs : vs.length < K.size s ∨ InPlace K s (K.elements s) vs) :
    ∃ s', visitSet K init visit ts s = some (.ok, s') ∧ ∀ x, x ∈ K.elements s' ↔ x ∈ vs := by
  have hvisit : ∀ s : C, InPlace K s (K.elements s) vs → ∃ s',
      iterate K init visit ts (K.elements s).head? s = some (.ok, s') ∧
        ∀ x, x ∈ K.elements s' ↔ x ∈ vs := by
    intro s hplace
    simpa using hplace.iterate init (A := ∅) (by simp) (by simp) (K.nodup s) h
  rw [visitSet, h.length_eq]
  by_cases hless : vs.length < K.size s
  · rw [if_pos hless]
    refine hvisit _ ?_
    rw [K.elements_clear, InPlace]
    trivial
  · rw [if_neg hless]
    exact hvisit s (hs.resolve_left hless)

/-! ### Ordered sets -/

section Ordered

variable {α : Type} [DecidableEq α] [LinearOrder α] {init : α}
variable {visit : Toml TomlScalar → α → Visit α} {ts : List (Toml TomlScalar)} {vs : List α}

/-- A round at the first of the elements that are still to come, behind smaller values. -/
structure Round (s : OrderedSet α) (new : Set α) (a : α) (rest : List α) : Prop where
  mem_iff : ∀ x, x ∈ s.1 ↔ x ∈ new ∨ x ∈ a :: rest
  new_lt : ∀ x ∈ new, x < a
  pairwise : (a :: rest).Pairwise (· < ·)

namespace Round

variable {s : OrderedSet α} {new : Set α} {a b v x : α} {rest : List α}

lemma mem_replace (h : Round s new a rest) :
    x ∈ ((OrderedSet.container α).replace a v s).1 ↔ x = v ∨ x ∈ new ∨ x ∈ rest := by
  have hne : x ∈ new → x ≠ a := fun hx => (h.new_lt x hx).ne
  have hne' : x ∈ rest → x ≠ a := fun hx => ((List.pairwise_cons.1 h.pairwise).1 x hx).ne'
  have ha : a ∈ s.1 := (h.mem_iff a).2 (.inr List.mem_cons_self)
  refine ((OrderedSet.container α).mem_replace ha).trans ?_
  change x = v ∨ x ≠ a ∧ x ∈ s.1 ↔ _
  rw [h.mem_iff, List.mem_cons]
  tauto

/-- The value is followed by the next element if it is between the values so far and that. -/
lemma behind?_eq_some_iff (h : Round s new a (b :: rest)) :
    ((OrderedSet.container α).replace a v s).1.behind? v = some b ↔
      v < b ∧ ∀ x ∈ new, x ≤ v := by
  obtain ⟨hab, hb⟩ := List.pairwise_cons.1 h.pairwise
  rw [List.behind?_eq_some_iff (Subtype.prop _) (h.mem_replace.2 (.inl rfl)), h.mem_replace]
  constructor
  · rintro ⟨-, hvb, hleast⟩
    refine ⟨hvb, fun x hx => not_lt.1 fun hvx => ?_⟩
    have hxb : x < b := (h.new_lt x hx).trans (hab b List.mem_cons_self)
    exact (hleast x (h.mem_replace.2 (.inr (.inl hx))) hvx).not_gt hxb
  · rintro ⟨hvb, hnew⟩
    refine ⟨.inr (.inr List.mem_cons_self), hvb, fun x hx hvx => ?_⟩
    rcases h.mem_replace.1 hx with rfl | hx | hx
    · exact absurd hvx (lt_irrefl _)
    · exact absurd hvx (hnew x hx).not_gt
    · rcases List.mem_cons.1 hx with rfl | hx
      · exact le_rfl
      · exact ((List.pairwise_cons.1 hb).1 x hx).le

lemma behind?_eq_none_iff (h : Round s new a []) :
    ((OrderedSet.container α).replace a v s).1.behind? v = none ↔ ∀ x ∈ new, x ≤ v := by
  rw [List.behind?_eq_none_iff (Subtype.prop _) (h.mem_replace.2 (.inl rfl))]
  constructor
  · exact fun hle x hx => hle x (h.mem_replace.2 (.inr (.inl hx)))
  · intro hnew x hx
    rcases h.mem_replace.1 hx with rfl | hx | hx
    · exact le_rfl
    · exact hnew x hx
    · cases hx

lemma next (h : Round s new a (b :: rest)) (hvb : v < b) :
    Round ((OrderedSet.container α).replace a v s) (insert v new) b rest := by
  obtain ⟨hab, hb⟩ := List.pairwise_cons.1 h.pairwise
  refine ⟨fun x => ?_, fun x hx => ?_, hb⟩
  · rw [h.mem_replace, Set.mem_insert_iff]
    tauto
  · rcases Set.mem_insert_iff.1 hx with rfl | hx
    · exact hvb
    · exact (h.new_lt x hx).trans (hab b List.mem_cons_self)

lemma inPlace_iff (h : Round s new a rest) (hlen : rest.length < vs.length) :
    InPlace (OrderedSet.container α) s (a :: rest) vs ↔
      (vs.take (rest.length + 1)).Pairwise (· ≤ ·) ∧
        (∀ x ∈ new, ∀ v ∈ vs.take (rest.length + 1), x ≤ v) ∧ ∀ p ∈ vs.zip rest, p.1 < p.2 := by
  induction rest generalizing s new a vs with
  | nil =>
    cases vs with
    | nil => simp at hlen
    | cons v vs =>
      have hnone := h.behind?_eq_none_iff (v := v)
      simp only [InPlace, List.head?_nil, OrderedSet.container] at hnone ⊢
      rw [hnone]
      simp
  | cons b rest ih =>
    cases vs with
    | nil => simp at hlen
    | cons v vs =>
      have hsome := h.behind?_eq_some_iff (v := v)
      have hvrest : v < b → v ∉ b :: rest := by
        intro hvb hv
        rcases List.mem_cons.1 hv with rfl | hv
        · exact lt_irrefl _ hvb
        · have hb := (List.pairwise_cons.1 (List.pairwise_cons.1 h.pairwise).2).1
          exact (hb v hv).asymm hvb
      rw [InPlace, List.head?_cons]
      change ((OrderedSet.container α).replace a v s).1.behind? v = some b ∧ _ ↔ _
      rw [hsome, List.length_cons, List.take_succ_cons, List.pairwise_cons, List.zip_cons_cons,
        List.forall_mem_cons]
      constructor
      · rintro ⟨⟨hvb, hnew⟩, -, hplace⟩
        obtain ⟨hpair, hle, hzip⟩ := (ih (h.next hvb) (by simpa using hlen)).1 hplace
        refine ⟨⟨fun w hw => hle v (Set.mem_insert v new) w hw, hpair⟩, fun x hx w hw => ?_,
          hvb, hzip⟩
        rcases List.mem_cons.1 hw with rfl | hw
        · exact hnew x hx
        · exact hle x (Set.mem_insert_of_mem v hx) w hw
      · rintro ⟨⟨hv, hpair⟩, hle, hvb, hzip⟩
        refine ⟨⟨hvb, fun x hx => hle x hx v List.mem_cons_self⟩, hvrest hvb,
          (ih (h.next hvb) (by simpa using hlen)).2 ⟨hpair, fun x hx w hw => ?_, hzip⟩⟩
        rcases Set.mem_insert_iff.1 hx with rfl | hx
        · exact hv w hw
        · exact hle x hx w (List.mem_cons_of_mem _ hw)

end Round

omit [DecidableEq α] in
lemma OrderedSet.round {a : α} {rest : List α} (h : (a :: rest).Pairwise (· < ·)) :
    Round ⟨a :: rest, h⟩ ∅ a rest := ⟨by simp, by simp, h⟩

/-- In an ordered set, values are in the places of the elements if they ascend and each is smaller
than the element behind the one that it replaces. -/
theorem inPlace_ordered_iff {s : OrderedSet α} (h : s.1.length ≤ vs.length) :
    InPlace (OrderedSet.container α) s s.1 vs ↔
      (vs.take s.1.length).Pairwise (· ≤ ·) ∧ ∀ p ∈ vs.zip s.1.tail, p.1 < p.2 := by
  obtain ⟨l, hl⟩ := s
  cases l with
  | nil => simp [InPlace]
  | cons a rest =>
    rw [(OrderedSet.round hl).inPlace_iff h]
    simp

/-- An element in front of the iterator stays if no smaller value follows. -/
lemma mem_of_iterate {s s' : OrderedSet α} {current : Option α} {b : α} (hb : b ∈ s.1)
    (hcurrent : ∀ a ∈ current, b < a ∧ a ∈ s.1) (hvs : ∀ v ∈ vs, b ≤ v)
    (h : List.Forall₂ (Assigns visit) ts vs)
    (hs : iterate (OrderedSet.container α) init visit ts current s = some (.ok, s')) :
    b ∈ s'.1 := by
  induction h generalizing s current with
  | nil =>
    cases current with
    | none => cases hs; exact hb
    | some a => cases hs; exact hb
  | @cons t v ts vs ht _ ih =>
    rw [List.forall_mem_cons] at hvs
    cases current with
    | none =>
      rw [iterate, ht] at hs
      refine ih (s := (OrderedSet.container α).insert v s) ?_ (by simp) hvs.2 hs
      exact (OrderedSet.container α).mem_insert.2 (.inr hb)
    | some a =>
      obtain ⟨hba, ha⟩ := hcurrent a rfl
      rw [iterate_some ht] at hs
      have hmem : ∀ x, x ∈ ((OrderedSet.container α).replace a v s).1 ↔ x = v ∨ x ≠ a ∧ x ∈ s.1 :=
        fun x => (OrderedSet.container α).mem_replace ha
      refine ih ((hmem b).2 (.inr ⟨hba.ne, hb⟩)) (fun c hc => ?_) hvs.2 hs
      obtain ⟨hcmem, hvc, -⟩ :=
        (List.behind?_eq_some_iff (Subtype.prop _) ((hmem v).2 (.inl rfl))).1 hc
      exact ⟨hvs.1.trans_lt hvc, hcmem⟩

lemma Round.forall_lt_of_iterate {s s' : OrderedSet α} {new : Set α} {a : α} {rest : List α}
    (hr : Round s new a rest) (hnew : ∀ x ∈ new, ∀ v ∈ vs, x ≤ v) (hvs : vs.Pairwise (· < ·))
    (hdisj : ∀ x ∈ rest, x ∉ vs) (h : List.Forall₂ (Assigns visit) ts vs)
    (hs : iterate (OrderedSet.container α) init visit ts (some a) s = some (.ok, s'))
    (hmem : ∀ x ∈ s'.1, x ∈ new ∨ x ∈ vs) : ∀ p ∈ vs.zip rest, p.1 < p.2 := by
  induction h generalizing s new a rest with
  | nil => simp
  | @cons t v ts vs ht h ih =>
    cases rest with
    | nil => simp
    | cons b rest =>
      rw [iterate_some ht] at hs
      obtain ⟨hv, hvs⟩ := List.pairwise_cons.1 hvs
      obtain ⟨hab, hb⟩ := List.pairwise_cons.1 hr.pairwise
      have hvb : v < b := by
        by_contra hbv
        have hbv : b ≤ v := not_lt.1 hbv
        -- The iterator goes on behind `v`, where no round meets `b`.
        have hmem' : b ∈ s'.1 := by
          refine mem_of_iterate (hr.mem_replace.2 (.inr (.inr List.mem_cons_self))) (fun c hc => ?_)
            (fun w hw => hbv.trans (hv w hw).le) h hs
          obtain ⟨hcmem, hvc, -⟩ := (List.behind?_eq_some_iff (Subtype.prop _)
            (hr.mem_replace.2 (.inl rfl))).1 hc
          exact ⟨hbv.trans_lt hvc, hcmem⟩
        rcases hmem b hmem' with hbnew | hbvs
        · exact (hr.new_lt b hbnew).asymm (hab b List.mem_cons_self)
        · exact hdisj b List.mem_cons_self hbvs
      have hnext : ((OrderedSet.container α).replace a v s).1.behind? v = some b :=
        hr.behind?_eq_some_iff.2 ⟨hvb, fun x hx => hnew x hx v List.mem_cons_self⟩
      change iterate _ _ _ _ (((OrderedSet.container α).replace a v s).1.behind? v) _ = _ at hs
      rw [hnext] at hs
      rw [List.zip_cons_cons, List.forall_mem_cons]
      refine ⟨hvb, ih (hr.next hvb) (fun x hx w hw => ?_) hvs (fun x hx hxvs => ?_) hs
        fun x hx => ?_⟩
      · rcases Set.mem_insert_iff.1 hx with rfl | hx
        · exact (hv w hw).le
        · exact hnew x hx w (List.mem_cons_of_mem _ hw)
      · exact hdisj x (List.mem_cons_of_mem _ hx) (List.mem_cons_of_mem _ hxvs)
      · rcases hmem x hx with hx | hx
        · exact .inl (Set.mem_insert_of_mem v hx)
        · rcases List.mem_cons.1 hx with rfl | hx
          · exact .inl (Set.mem_insert x new)
          · exact .inr hx

/-- If ascending values are visited that are not in the set, exactly these are left if and only if
the set is cleared before, or each is smaller than the element behind the one that it replaces. -/
theorem visitSet_ordered_iff (s : OrderedSet α) (h : List.Forall₂ (Assigns visit) ts vs)
    (hvs : vs.Pairwise (· < ·)) (hdisj : ∀ x ∈ s.1, x ∉ vs) :
    (∃ s', visitSet (OrderedSet.container α) init visit ts s = some (.ok, s') ∧
      ∀ x, x ∈ s'.1 ↔ x ∈ vs) ↔
    vs.length < s.1.length ∨ ∀ p ∈ vs.zip s.1.tail, p.1 < p.2 := by
  constructor
  · rintro ⟨s', hs', hmem⟩
    by_cases hless : vs.length < s.1.length
    · exact .inl hless
    · refine .inr ?_
      have hless' : ¬ ts.length < (OrderedSet.container α).size s := by rwa [h.length_eq]
      rw [visitSet, if_neg hless'] at hs'
      obtain ⟨l, hl⟩ := s
      cases l with
      | nil => simp
      | cons a rest =>
        exact (OrderedSet.round hl).forall_lt_of_iterate (by simp) hvs
          (fun x hx => hdisj x (List.mem_cons_of_mem _ hx)) h hs' fun x hx => .inr ((hmem x).1 hx)
  · intro hs
    have hplace : vs.length < s.1.length ∨ InPlace (OrderedSet.container α) s s.1 vs := by
      rcases lt_or_ge vs.length s.1.length with hless | hge
      · exact .inl hless
      · refine .inr ((inPlace_ordered_iff hge).2 ⟨?_, hs.resolve_left hge.not_gt⟩)
        exact (hvs.sublist (List.take_sublist _ _)).imp fun hlt => hlt.le
    exact exists_visitSet_eq h hplace

end Ordered

end Idle
