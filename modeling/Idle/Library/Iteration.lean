import Mathlib.Tactic

/-!
# Ranges of forward iterators

A range is given by its first iterator and by what an iterator is advanced to; there is no list
behind it. `Enumerates` says that the loop over a range ends and which elements it runs through.
The rules below find that list: for a range over a list, for a range that filters another one, for
the image of a range, and for ranges one after the other.
-/

namespace List

variable {α : Type*} {l₁ l₂ : List α} {a : α}

lemma after_append_cons [DecidableEq α] (h : a ∉ l₁) : (l₁ ++ a :: l₂).after (· == a) = l₂ := by
  induction l₁ with
  | nil => simp [List.after]
  | cons b l₁ ih =>
    obtain ⟨hb, h⟩ := not_or.1 (mt List.mem_cons.2 h)
    have hba : (b == a) = false := beq_eq_false_iff_ne.2 (Ne.symm hb)
    simpa [List.after, hba] using ih h

lemma Nodup.after_append_cons [DecidableEq α] (h : (l₁ ++ a :: l₂).Nodup) :
    (l₁ ++ a :: l₂).after (· == a) = l₂ :=
  List.after_append_cons fun ha => (List.nodup_append.1 h).2.2 a ha a List.mem_cons_self rfl

lemma after_of_notMem [DecidableEq α] (h : a ∉ l₁) : l₁.after (· == a) = [] := by
  induction l₁ with
  | nil => rfl
  | cons b l₁ ih =>
    obtain ⟨hb, h⟩ := not_or.1 (mt List.mem_cons.2 h)
    have hba : (b == a) = false := beq_eq_false_iff_ne.2 (Ne.symm hb)
    simpa [List.after, hba] using ih h

/-- Parts that have no element in common. -/
lemma nodup_flatMap_of_unique {β : Type*} {f : β → List α} {bs : List β} (hbs : bs.Nodup)
    (h : ∀ b ∈ bs, (f b).Nodup) (huniq : ∀ a b b', a ∈ f b → a ∈ f b' → b ∈ bs → b' ∈ bs → b = b') :
    (bs.flatMap f).Nodup :=
  List.nodup_flatMap.2
    ⟨h, hbs.imp_of_mem fun {b b'} hb hb' hne a ha ha' => hne (huniq a b b' ha ha' hb hb')⟩

end List

namespace Idle

/-- A pair of forward iterators, the second one past the end. -/
structure Range (α : Type*) where
  front : Option α
  next : α → Option α

namespace Range

variable {α β : Type*} {next : α → Option α} {o : Option α} {l : List α}

/-- From the iterator `o` on, the loop ends and runs through the list. -/
inductive Walk (next : α → Option α) : Option α → List α → Prop where
  | nil : Walk next none []
  | cons {a : α} {l : List α} (h : Walk next (next a) l) : Walk next (some a) (a :: l)

/-- The loop over the range ends and runs through `l`. -/
def Enumerates (r : Range α) (l : List α) : Prop := Walk r.next r.front l

/-- The first elements of a range. -/
def walk (next : α → Option α) : Nat → Option α → List α
  | 0, _ => []
  | _ + 1, none => []
  | n + 1, some a => a :: walk next n (next a)

namespace Walk

lemma unique {l' : List α} (h : Walk next o l) (h' : Walk next o l') : l = l' := by
  induction h generalizing l' with
  | nil =>
    cases h'
    rfl
  | cons _ ih =>
    cases h' with
    | cons h' => rw [ih h']

lemma head?_eq (h : Walk next o l) : l.head? = o := by
  cases h <;> rfl

/-- A loop that ends does so within the number of its elements. -/
lemma walk_eq (h : Walk next o l) {n : Nat} (hn : l.length ≤ n) : Range.walk next n o = l := by
  induction h generalizing n with
  | nil => cases n <;> rfl
  | cons _ ih =>
    obtain ⟨n, rfl⟩ : ∃ m, n = m + 1 := ⟨n - 1, by simp at hn; omega⟩
    rw [Range.walk, ih (by simpa using hn)]

/-- The rest of a loop. -/
lemma suffix {l₁ l₂ : List α} (h : Walk next o (l₁ ++ l₂)) : Walk next l₂.head? l₂ := by
  induction l₁ generalizing o with
  | nil =>
    have := h.head?_eq
    subst this
    exact h
  | cons a l₁ ih =>
    cases h with
    | cons h => exact ih h

lemma next_eq {l₁ l₂ : List α} {a : α} (h : Walk next o (l₁ ++ a :: l₂)) : next a = l₂.head? := by
  have := h.suffix
  rw [List.head?_cons] at this
  cases this with
  | cons h => exact h.head?_eq.symm

/-- Each element is followed by the next one of the list. -/
lemma of_next (h : ∀ l₁ a l₂, l = l₁ ++ a :: l₂ → next a = l₂.head?) : Walk next l.head? l := by
  induction l with
  | nil => exact .nil
  | cons a l ih =>
    refine .cons ?_
    rw [h [] a l rfl]
    exact ih fun l₁ b l₂ hl => h (a :: l₁) b l₂ (by rw [hl, List.cons_append])

/-- A list of things that know what comes after them. -/
lemma of_after [DecidableEq α] (hl : l.Nodup) (h : ∀ a ∈ l, next a = (l.after (· == a)).head?) :
    Walk next l.head? l := by
  refine of_next fun l₁ a l₂ e => ?_
  subst e
  rw [h a (by simp), hl.after_append_cons]

/-- Only the elements that pass a test, from some place of the list on. -/
lemma filter_of_after [DecidableEq α] (p : α → Bool) {m : List α} (hl : (m ++ l).Nodup)
    (h : ∀ a ∈ l, p a = true → next a = (((m ++ l).after (· == a)).filter p).head?) :
    Walk next (l.filter p).head? (l.filter p) := by
  induction l generalizing m with
  | nil => exact .nil
  | cons a l ih =>
    have ih := ih (m := m ++ [a]) (by simpa using hl) fun b hb hp => by
      simpa using h b (List.mem_cons_of_mem _ hb) hp
    by_cases hp : p a = true
    · rw [List.filter_cons_of_pos hp, List.head?_cons]
      refine .cons ?_
      rw [h a List.mem_cons_self hp, hl.after_append_cons]
      exact ih
    · rw [List.filter_cons_of_neg hp]
      exact ih

/-- The image of a range. -/
lemma map {g : α → β} {next' : β → Option β} (h : Walk next o l)
    (hn : ∀ a ∈ l, next' (g a) = (next a).map g) : Walk next' (o.map g) (l.map g) := by
  induction h with
  | nil => exact .nil
  | cons _ ih =>
    refine .cons ?_
    rw [hn _ List.mem_cons_self]
    exact ih fun a ha => hn a (List.mem_cons_of_mem _ ha)

/-- One range after the other. -/
lemma append {next' : α → Option α} {l' : List α} {o' : Option α} (h : Walk next o l)
    (h' : Walk next' o' l') (hn : ∀ a ∈ l, next' a = (next a).or o') :
    Walk next' (o.or o') (l ++ l') := by
  induction h with
  | nil => exact h'
  | cons _ ih =>
    refine .cons ?_
    rw [hn _ List.mem_cons_self]
    exact ih fun a ha => hn a (List.mem_cons_of_mem _ ha)

/-- Ranges one after the other, each of them possibly empty. -/
lemma flatMap {next' : α → Option α} {front : β → Option α} {f : β → List α} {bs : List β}
    (h : ∀ b ∈ bs, Walk next (front b) (f b))
    (hn : ∀ bs₁ b bs₂, bs = bs₁ ++ b :: bs₂ → ∀ a ∈ f b,
      next' a = (next a).or (bs₂.findSome? front)) :
    Walk next' (bs.findSome? front) (bs.flatMap f) := by
  induction bs with
  | nil => exact .nil
  | cons b bs ih =>
    have hb := h b List.mem_cons_self
    have hbs := ih (fun c hc => h c (List.mem_cons_of_mem _ hc)) fun bs₁ c bs₂ e =>
      hn (b :: bs₁) c bs₂ (by rw [e, List.cons_append])
    have := hb.append hbs (hn [] b bs rfl)
    rw [List.flatMap_cons, List.findSome?_cons]
    cases hf : front b <;> simpa [hf] using this

end Walk

/-! ### Ranges with an end of their own -/

/-- The loop from the iterator `o` up to the iterator `last` ends and runs through the list. An
iterator may need a loop of its own to advance; then it yields nothing if that loop does not end. -/
inductive Loop (next : α → Option (Option α)) (last : Option α) : Option α → List α → Prop where
  | done : Loop next last last []
  | step {a : α} {o : Option α} {l : List α} (hne : some a ≠ last) (hnext : next a = some o)
      (h : Loop next last o l) : Loop next last (some a) (a :: l)

namespace Loop

variable {next : α → Option (Option α)} {last : Option α}

lemma unique {l' : List α} (h : Loop next last o l) (h' : Loop next last o l') : l = l' := by
  induction h generalizing l' with
  | done =>
    cases h' with
    | done => rfl
    | step hne _ _ => exact absurd rfl hne
  | step hne hnext _ ih =>
    cases h' with
    | done => exact absurd rfl hne
    | step _ hnext' h' =>
      rw [hnext, Option.some.injEq] at hnext'
      subst hnext'
      rw [ih h']

lemma front_eq (h : Loop next last o l) : o = l.head?.or last := by
  cases h <;> rfl

/-- The rest of a loop. -/
lemma suffix {l₁ l₂ : List α} (h : Loop next last o (l₁ ++ l₂)) :
    Loop next last (l₂.head?.or last) l₂ := by
  induction l₁ generalizing o with
  | nil =>
    rw [List.nil_append] at h
    rw [← h.front_eq]
    exact h
  | cons a l₁ ih =>
    cases h with
    | step _ _ h => exact ih h

lemma next_eq {l₁ l₂ : List α} {a : α} (h : Loop next last o (l₁ ++ a :: l₂)) :
    next a = some (l₂.head?.or last) := by
  have hs := h.suffix
  rw [List.head?_cons, Option.some_or] at hs
  cases hs with
  | step _ hnext h => rw [hnext, h.front_eq]

/-- The elements that pass a test, if the loop skips the others and its end passes the test. -/
lemma filter {next' : α → Option (Option α)} {l₁ l₂ : List α} {p : α → Bool}
    (hnext : ∀ l₁' a l₂', l₁ = l₁' ++ a :: l₂' → p a = true →
      next' a = some ((l₂' ++ l₂).find? p))
    (hlast : ∀ a ∈ l₁, some a ≠ l₂.head?) (hp : ∀ a, l₂.head? = some a → p a = true) :
    Loop next' l₂.head? ((l₁ ++ l₂).find? p) (l₁.filter p) := by
  induction l₁ with
  | nil =>
    cases l₂ with
    | nil => exact .done
    | cons b l₂ =>
      rw [List.nil_append, List.find?_cons_of_pos (hp b rfl)]
      exact .done
  | cons a l₁ ih =>
    have ih := ih (fun l₁' b l₂' e => hnext (a :: l₁') b l₂' (by rw [e, List.cons_append]))
      fun b hb => hlast b (List.mem_cons_of_mem _ hb)
    by_cases ha : p a = true
    · rw [List.filter_cons_of_pos ha, List.cons_append, List.find?_cons_of_pos ha]
      exact .step (hlast a List.mem_cons_self) (hnext [] a l₁ rfl ha) ih
    · rw [List.filter_cons_of_neg ha, List.cons_append, List.find?_cons_of_neg ha]
      exact ih

/-- A loop that never meets its end does not end. -/
lemma front_of_invariant {P : Option α → Prop} (h : Loop next last o l)
    (hstep : ∀ a o, P (some a) → next a = some o → P o) (ho : P o) : P last := by
  induction h with
  | done => exact ho
  | step _ hnext _ ih => exact ih (hstep _ _ ho hnext)

end Loop

end Range

/-! ### Graphs given by iterators -/

/-- A bidirectional graph that is not stored: its vertices and edges are enumerated by iterators,
and the degrees are computed on their own. -/
structure GraphView (V E : Type*) where
  vertices : Range V
  edges : Range E
  outEdges : V → Range E
  inEdges : V → Range E
  outDegree : V → Nat
  inDegree : V → Nat
  source : E → V
  target : E → V

namespace GraphView

variable {V E : Type*} (G : GraphView V E)

/-- The ends of an edge. -/
def ends (e : E) : V × V := (G.source e, G.target e)

/-- What the four kinds of loops over a graph run through. -/
structure Listing (nodes : List V) (vs : List V) (es : List E) (outs ins : V → List E) : Prop where
  vertices : G.vertices.Enumerates vs
  edges : G.edges.Enumerates es
  outEdges : ∀ v ∈ nodes, (G.outEdges v).Enumerates (outs v)
  inEdges : ∀ v ∈ nodes, (G.inEdges v).Enumerates (ins v)

/-- The loops over a graph agree with each other and with the degrees: every node is a vertex once,
every edge that is enumerated is admitted, and each direction finds the same edges. -/
structure Agree (nodes : List V) (admitted : E → Prop) (vs : List V) (es : List E)
    (outs ins : V → List E) : Prop where
  vertices_nodup : vs.Nodup
  vertices_mem : ∀ v, v ∈ vs ↔ v ∈ nodes
  outDegree : ∀ v ∈ nodes, G.outDegree v = (outs v).length
  inDegree : ∀ v ∈ nodes, G.inDegree v = (ins v).length
  outEdges_admitted : ∀ v ∈ nodes, ∀ e ∈ outs v, admitted e
  inEdges_admitted : ∀ v ∈ nodes, ∀ e ∈ ins v, admitted e
  edges_admitted : ∀ e ∈ es, admitted e
  out_perm_in : ((vs.flatMap outs).map G.ends).Perm ((vs.flatMap ins).map G.ends)
  out_perm_edges : ((vs.flatMap outs).map G.ends).Perm (es.map G.ends)

/-- All loops over the graph end, and they agree. -/
def IsConsistent (nodes : List V) (admitted : E → Prop) : Prop :=
  ∃ vs es outs ins, G.Listing nodes vs es outs ins ∧ G.Agree nodes admitted vs es outs ins

variable {G} {nodes vs : List V} {es : List E} {outs ins : V → List E} {admitted : E → Prop}

/-- Nothing but the listing of a graph decides whether it is consistent. -/
theorem Listing.isConsistent_iff (h : G.Listing nodes vs es outs ins)
    (hmem : ∀ v, v ∈ vs → v ∈ nodes) :
    G.IsConsistent nodes admitted ↔ G.Agree nodes admitted vs es outs ins := by
  constructor
  · rintro ⟨vs', es', outs', ins', hl, ha⟩
    obtain rfl := h.vertices.unique hl.vertices
    obtain rfl := h.edges.unique hl.edges
    have houts : ∀ v ∈ nodes, outs' v = outs v := fun v hv =>
      (hl.outEdges v hv).unique (h.outEdges v hv)
    have hins : ∀ v ∈ nodes, ins' v = ins v := fun v hv =>
      (hl.inEdges v hv).unique (h.inEdges v hv)
    have hout : vs.flatMap outs' = vs.flatMap outs :=
      List.flatMap_congr fun v hv => houts v (hmem v hv)
    have hin : vs.flatMap ins' = vs.flatMap ins :=
      List.flatMap_congr fun v hv => hins v (hmem v hv)
    exact
      { vertices_nodup := ha.vertices_nodup
        vertices_mem := ha.vertices_mem
        outDegree := fun v hv => houts v hv ▸ ha.outDegree v hv
        inDegree := fun v hv => hins v hv ▸ ha.inDegree v hv
        outEdges_admitted := fun v hv => houts v hv ▸ ha.outEdges_admitted v hv
        inEdges_admitted := fun v hv => hins v hv ▸ ha.inEdges_admitted v hv
        edges_admitted := ha.edges_admitted
        out_perm_in := hout ▸ hin ▸ ha.out_perm_in
        out_perm_edges := hout ▸ ha.out_perm_edges }
  · exact fun ha => ⟨vs, es, outs, ins, h, ha⟩

end GraphView

/-! ### Loops that change what they run through -/

section StableForEach

variable {σ α : Type*} {next : σ → α → Option α} {call : σ → α → σ} {s s' : σ} {o : Option α}

/-- A loop that advances its iterator before the call, which may change the list; `none` when the
fuel does not suffice. -/
def stableForEach (next : σ → α → Option α) (call : σ → α → σ) : Nat → σ → Option α → Option σ
  | _, s, none => some s
  | 0, _, some _ => none
  | n + 1, s, some a => stableForEach next call n (call s a) (next s a)

lemma stableForEach_add {n : Nat} (h : stableForEach next call n s o = some s') (k : Nat) :
    stableForEach next call (n + k) s o = some s' := by
  induction n generalizing s o with
  | zero =>
    cases o with
    | none => simpa [stableForEach] using h
    | some a => cases h
  | succ n ih =>
    cases o with
    | none => simpa [stableForEach] using h
    | some a =>
      rw [Nat.add_right_comm]
      exact ih h

/-- More fuel does not change the result. -/
lemma stableForEach_unique {n n' : Nat} {s'' : σ} (h : stableForEach next call n s o = some s')
    (h' : stableForEach next call n' s o = some s'') : s' = s'' := by
  have h₁ := stableForEach_add h n'
  have h₂ := stableForEach_add h' n
  rw [Nat.add_comm, h₁] at h₂
  exact Option.some.inj h₂

variable {ahead : σ → List α → Prop} {rest l : List α}

/-- The loop runs through `l` when every call leaves what is still ahead in its place; `ahead` says
that it is. -/
lemma stableForEach_append (hnext : ∀ s a l, ahead s (a :: l) → next s a = (l ++ rest).head?)
    (hcall : ∀ s a l, ahead s (a :: l) → ahead (call s a) l) (h : ahead s l) (n : Nat) :
    stableForEach next call (l.length + n) s (l ++ rest).head? =
      stableForEach next call n (l.foldl call s) rest.head? := by
  induction l generalizing s with
  | nil => simp
  | cons a l ih =>
    have hlen : (a :: l).length + n = l.length + n + 1 := by
      simp only [List.length_cons]
      omega
    rw [hlen, List.cons_append, List.head?_cons, stableForEach, hnext s a l h]
    exact ih (hcall s a l h)

lemma ahead_foldl (hcall : ∀ s a l, ahead s (a :: l) → ahead (call s a) l) (h : ahead s l) :
    ahead (l.foldl call s) [] := by
  induction l generalizing s with
  | nil => exact h
  | cons a l ih => exact ih (hcall s a l h)

end StableForEach

end Idle
