import Idle.Core.DfsCount
import Idle.Core.DfsDefault

/-!
# The search that follows all paths

With both flags a search pushes a vertex once for every edge it follows, and calls the visitor at
once if the vertex is on the stack. It has no use for the answer of such a call, since the vertex
has been entered. If the visitor answers `true` once per vertex, this matters for the ancestors
only: all other vertices have been answered `true` before they are met on the stack.
-/

namespace Idle

open Relation Search

/-- What a visitor with a state of its own has answered, and the edges that were followed. -/
structure Trace (σ V E : Type) where
  visitor : σ
  answers : List (V × Bool) := []
  followed : List E := []

/-- The ancestors stay on the stack. -/
lemma Search.Stacked.ancestor {V : Type} {a next stack p : List V} {v : V}
    (h : Stacked a next stack p) (hv : v ∈ a) : v ∈ stack := by
  induction h with
  | nil => exact hv
  | pending _ _ ih => exact ih
  | active _ _ ih => exact List.mem_cons_of_mem _ ih

namespace FilteredGraph

variable {σ V E : Type}

/-- The search with `flag_traverse_all_paths` and `flag_post_cancel_cycles`. -/
def traced (G : FilteredGraph V E) (visit : σ → V → Bool × σ) : Search (Trace σ V E) V E where
  outEdges _ := G.outEdges
  target _ := G.target
  visit st v := ((visit st.visitor v).1,
    { st with
      visitor := (visit st.visitor v).2
      answers := st.answers ++ [(v, (visit st.visitor v).1)] })
  filter st e := (G.filter e,
    if G.filter e then { st with followed := st.followed ++ [e] } else st)
  flags := { traverseAllPaths := true, postCancelCycles := true }

variable [DecidableEq V] {G : FilteredGraph V E} {visit : σ → V → Bool × σ} {a p : List V}
variable {d : DFSData V} {st : Trace σ V E} {start v w top : V} {es : List E} {rest : List V}

/-- `dfs` with the initial ancestors `a`. -/
def tracedDfs (G : FilteredGraph V E) (visit : σ → V → Bool × σ) (a : List V) (start : V) (st : σ)
    (fuel : Nat) : DFSData V × Trace σ V E :=
  (G.traced visit).dfs fuel start ⟨true, a, a, []⟩ ⟨st, [], []⟩

/-- The vertices for which the visitor answered `true`. -/
def confirmed (answers : List (V × Bool)) : List V := (answers.filter Prod.snd).map Prod.fst

/-- The vertices for which the visitor answered `true` when they were entered. -/
def expanded (a : List V) (answers : List (V × Bool)) : List V :=
  (confirmed answers).filter (· ∉ a)

def visits (answers : List (V × Bool)) (v : V) : Nat := (answers.map Prod.fst).count v

omit [DecidableEq V] in
@[simp] lemma mem_confirmed {answers : List (V × Bool)} :
    v ∈ confirmed answers ↔ (v, true) ∈ answers := by
  simp [confirmed]

lemma expanded_append_of_false (answers : List (V × Bool)) :
    expanded a (answers ++ [(v, false)]) = expanded a answers := by
  simp [expanded, confirmed]

lemma expanded_append_of_mem {b : Bool} (answers : List (V × Bool)) (hv : v ∈ a) :
    expanded a (answers ++ [(v, b)]) = expanded a answers := by
  cases b <;> simp [expanded, confirmed, hv]

lemma expanded_append_of_notMem (answers : List (V × Bool)) (hv : v ∉ a) :
    expanded a (answers ++ [(v, true)]) = expanded a answers ++ [v] := by
  simp [expanded, confirmed, hv]

lemma visits_append {b : Bool} (answers : List (V × Bool)) (v w : V) :
    visits (answers ++ [(v, b)]) w = visits answers w + if w = v then 1 else 0 := by
  rw [visits, visits, List.map_append, List.count_append]
  by_cases h : w = v
  · simp [h]
  · simp [h, Ne.symm h]

lemma expand_traced_cons (e : E) (es : List E) (d : DFSData V) (st : Trace σ V E) :
    (G.traced visit).expand (e :: es) d st =
      if G.filter e then
        if G.target e ∈ d.visited ∧ G.target e ∈ d.stack then
          (G.traced visit).expand es d
            ⟨(visit st.visitor (G.target e)).2,
              st.answers ++ [(G.target e, (visit st.visitor (G.target e)).1)],
              st.followed ++ [e]⟩
        else
          (G.traced visit).expand es (d.push (G.target e))
            ⟨st.visitor, st.answers, st.followed ++ [e]⟩
      else (G.traced visit).expand es d st := by
  rw [Search.expand_cons]
  by_cases hf : G.filter e = true
  · by_cases hv : G.target e ∈ d.visited
    · by_cases hs : G.target e ∈ d.stack
      · simp [traced, hf, hv, hs]
      · simp [traced, hf, hv, hs]
    · simp [traced, hf, hv]
  · simp [traced, hf]

/-- The answers are only ever extended. -/
lemma answers_prefix_expand (es : List E) (d : DFSData V) (st : Trace σ V E) :
    st.answers <+: ((G.traced visit).expand es d st).2.1.answers := by
  induction es generalizing d st with
  | nil => exact List.prefix_rfl
  | cons e es ih =>
    rw [expand_traced_cons]
    split
    · split
      · exact (List.prefix_append _ _).trans (ih d ⟨_, _, _⟩)
      · exact ih (d.push (G.target e)) ⟨st.visitor, st.answers, st.followed ++ [e]⟩
    · exact ih _ _

/-- What an expansion does. -/
structure Expansion (G : FilteredGraph V E) (a p : List V) (es : List E) (d : DFSData V)
    (st : Trace σ V E) (d' : DFSData V) (st' : Trace σ V E) (p' : List V) : Prop where
  stack : d'.stack = d.stack
  visited : d'.visited = d.visited
  stacked : Stacked a d'.next d'.stack p'
  followed : st'.followed = st.followed ++ es.filter G.filter
  sum : ∀ v, visits st'.answers v + p'.count v =
    visits st.answers v + p.count v + (es.filter G.filter).countP fun e => G.target e = v
  expanded : expanded a st'.answers = expanded a st.answers
  length : d'.next.length + p.length = d.next.length + p'.length
  length_le : p'.length ≤ p.length + (es.filter G.filter).length
  keeps : ∀ R : V → Prop, (∀ e ∈ es.filter G.filter, R (G.target e)) → (∀ v ∈ p, R v) →
    (∀ x ∈ st.answers, R x.1) → (∀ v ∈ p', R v) ∧ ∀ x ∈ st'.answers, R x.1

/-- Every edge leads to a visit, now or later. What is on the stack has been answered `true`. -/
lemma expand_traced (hstack : Stacked a d.next d.stack p) (hvisited : ∀ v ∈ d.stack, v ∈ d.visited)
    (hactive : ∀ v ∈ d.stack, v ∈ a ∨ (v, true) ∈ st.answers)
    (honce : ∀ v, ((G.traced visit).expand es d st).2.1.answers.count (v, true) ≤ 1) :
    ∃ d' st' p', (G.traced visit).expand es d st = (d', st', true) ∧
      G.Expansion a p es d st d' st' p' := by
  -- by induction on the edges; the filter and the place of the target decide between three cases
  induction es generalizing d st p with
  | nil => exact ⟨d, st, p, rfl, rfl, rfl, hstack, by simp, by simp, rfl, rfl, by simp,
      fun _ _ hp ha => ⟨hp, ha⟩⟩
  | cons e es ih =>
    rw [expand_traced_cons] at honce ⊢
    by_cases hf : G.filter e = true
    · rw [if_pos hf] at honce ⊢
      by_cases hs : G.target e ∈ d.stack
      · -- the target is on the stack: it is visited at once
        rw [if_pos ⟨hvisited _ hs, hs⟩] at honce ⊢
        generalize hb : (visit st.visitor (G.target e)).1 = b at honce ⊢
        have hexp : FilteredGraph.expanded a (st.answers ++ [(G.target e, b)]) =
            FilteredGraph.expanded a st.answers := by
          rcases hactive _ hs with ha | ht
          · exact expanded_append_of_mem _ ha
          · -- a second answer `true` would be one too many
            cases b with
            | false => exact expanded_append_of_false _
            | true =>
              have hle := ((answers_prefix_expand _ _ _).sublist.count_le (G.target e, true)).trans
                (honce (G.target e))
              have hpos := List.count_pos_iff.2 ht
              rw [List.count_append, List.count_singleton_self] at hle
              omega
        obtain ⟨d', st', p', heq, h⟩ := ih hstack hvisited
          (fun v hv => (hactive v hv).imp_right (List.mem_append_left _)) honce
        refine ⟨d', st', p', heq, h.stack, h.visited, h.stacked, ?_, fun v => ?_,
          h.expanded.trans hexp, h.length, ?_, fun R hR hp ha => ?_⟩
        · rw [h.followed, List.filter_cons_of_pos hf, List.append_assoc]
          rfl
        · have := h.sum v
          rw [visits_append] at this
          rw [List.filter_cons_of_pos hf, List.countP_cons, this]
          simp only [decide_eq_true_eq, eq_comm (a := v)]
          omega
        · refine h.length_le.trans ?_
          rw [List.filter_cons_of_pos hf, List.length_cons]
          omega
        · rw [List.filter_cons_of_pos hf, List.forall_mem_cons] at hR
          refine h.keeps R hR.2 hp fun x hx => ?_
          rcases List.mem_append.1 hx with hx | hx
          · exact ha x hx
          · rw [List.mem_singleton.1 hx]
            exact hR.1
      · -- otherwise it has to be entered
        rw [if_neg fun h => hs h.2] at honce ⊢
        obtain ⟨d', st', p', heq, h⟩ := @ih _ (d.push (G.target e))
          ⟨st.visitor, st.answers, st.followed ++ [e]⟩ (hstack.pending hs) hvisited hactive honce
        refine ⟨d', st', p', heq, h.stack, h.visited, h.stacked, ?_, fun v => ?_, h.expanded,
          ?_, ?_, fun R hR hp ha => ?_⟩
        · rw [h.followed, List.filter_cons_of_pos hf, List.append_assoc]
          rfl
        · have := h.sum v
          rw [List.filter_cons_of_pos hf, List.countP_cons, this, List.count_cons]
          simp only [beq_iff_eq, decide_eq_true_eq]
          omega
        · have := h.length
          simp only [DFSData.push, List.length_cons] at this
          omega
        · have := h.length_le
          rw [List.filter_cons_of_pos hf]
          simp only [List.length_cons] at this ⊢
          omega
        · rw [List.filter_cons_of_pos hf, List.forall_mem_cons] at hR
          exact h.keeps R hR.2 (List.forall_mem_cons.2 ⟨hR.1, hp⟩) ha
    · rw [if_neg hf] at honce ⊢
      obtain ⟨d', st', p', heq, h⟩ := ih hstack hvisited hactive honce
      refine ⟨d', st', p', heq, h.stack, h.visited, h.stacked, ?_, ?_, h.expanded, h.length, ?_,
        fun R hR hp ha => ?_⟩
      · rw [h.followed, List.filter_cons_of_neg hf]
      · intro v
        rw [h.sum v, List.filter_cons_of_neg hf]
      · rw [List.filter_cons_of_neg hf]
        exact h.length_le
      · rw [List.filter_cons_of_neg hf] at hR
        exact h.keeps R hR hp ha

/-! ### The loop -/

/-- What the loop keeps. -/
structure Tracing (G : FilteredGraph V E) (a : List V) (start : V) (d : DFSData V)
    (st : Trace σ V E) (p : List V) : Prop where
  stacked : Stacked a d.next d.stack p
  visited : ∀ v ∈ d.stack, v ∈ d.visited
  active : ∀ v ∈ d.stack, v ∈ a ∨ (v, true) ∈ st.answers ∨ d.next.head? = some v
  followed : st.followed = (expanded a st.answers).flatMap G.accepted
  sum : ∀ v, visits st.answers v + p.count v =
    (if v = start then 1 else 0) + st.followed.countP fun e => G.target e = v
  pending : ∀ v ∈ p, G.Reaches start v
  answered : ∀ x ∈ st.answers, G.Reaches start x.1

/-- The vertex on top was entered before: it is left again. -/
lemma Tracing.leave (h : G.Tracing a start d st p) (hnext : d.next = top :: rest)
    (hmem : top ∈ d.stack) : G.Tracing a start (d.leave top) st p := by
  have hstk := h.stacked
  rw [hnext] at hstk
  obtain ⟨stack', hs, htop, hstk'⟩ := hstk.of_mem hmem
  have hleave : (d.leave top).stack = stack' := by
    rw [DFSData.leave, hs]
    exact List.erase_cons_head ..
  refine ⟨?_, fun v hv => ?_, fun v hv => ?_, h.followed, h.sum, h.pending,
    h.answered⟩
  · rw [hleave, DFSData.leave, hnext]
    exact hstk'
  · rw [hleave] at hv
    exact h.visited v (hs ▸ List.mem_cons_of_mem _ hv)
  · rw [hleave] at hv
    rcases h.active v (hs ▸ List.mem_cons_of_mem _ hv) with ha | ht | hhead
    · exact .inl ha
    · exact .inr (.inl ht)
    · rw [hnext, List.head?_cons, Option.some.injEq] at hhead
      exact absurd (hhead ▸ hv) htop

/-- The visitor answers `false`: nothing else is reached from the vertex. -/
lemma Tracing.enter (h : G.Tracing a start d st p) (hnext : d.next = top :: rest)
    (hmem : top ∉ d.stack) (hvisit : (visit st.visitor top).1 = false) :
    ∃ p', p = top :: p' ∧
      G.Tracing a start (d.enter top) ((G.traced visit).visit st top).2 p' := by
  have hstk := h.stacked
  rw [hnext] at hstk
  obtain ⟨p', rfl, hstk'⟩ := hstk.of_not_mem hmem
  obtain ⟨hreach, hpending⟩ := List.forall_mem_cons.1 h.pending
  refine ⟨p', rfl, ?_, fun v hv => ?_, fun v hv => ?_, ?_, fun v => ?_, hpending, ?_⟩
  · rw [DFSData.enter, hnext]
    exact hstk'.active hmem
  · rcases List.mem_cons.1 hv with rfl | hv
    · exact List.mem_cons_self
    · exact List.mem_cons_of_mem _ (h.visited v hv)
  · rcases List.mem_cons.1 hv with rfl | hv
    · exact .inr (.inr (congrArg List.head? hnext))
    · rcases h.active v hv with ha | ht | hhead
      · exact .inl ha
      · exact .inr (.inl (List.mem_append_left _ ht))
      · rw [hnext, List.head?_cons, Option.some.injEq] at hhead
        exact absurd (hhead ▸ hv) hmem
  · simp only [traced, hvisit]
    rw [expanded_append_of_false]
    exact h.followed
  · have := h.sum v
    simp only [traced]
    rw [visits_append, ← this]
    by_cases hv : v = top
    · subst hv
      rw [if_pos rfl, List.count_cons_self]
      omega
    · rw [if_neg hv, List.count_cons_of_ne (Ne.symm hv)]
      omega
  · intro x hx
    rcases List.mem_append.1 hx with hx | hx
    · exact h.answered x hx
    · rw [List.mem_singleton.1 hx]
      exact hreach

/-- The visitor answers `true`: all edges of the vertex are followed. -/
lemma Tracing.descend (h : G.Tracing a start d st p) (hnext : d.next = top :: rest)
    (hmem : top ∉ d.stack) (hvisit : (visit st.visitor top).1 = true)
    (honce : ∀ v, ((G.traced visit).expand (G.outEdges top) (d.enter top)
      ((G.traced visit).visit st top).2).2.1.answers.count (v, true) ≤ 1) :
    ∃ d' st' p', (G.traced visit).expand (G.outEdges top) (d.enter top)
        ((G.traced visit).visit st top).2 = (d', st', true) ∧ G.Tracing a start d' st' p' ∧
      d'.next.length + p.length = d.next.length + p'.length + 1 ∧
      p'.length + 1 ≤ p.length + (G.accepted top).length ∧
      top ∉ expanded a st.answers ∧
      expanded a st'.answers = expanded a st.answers ++ [top] := by
  have hstk := h.stacked
  rw [hnext] at hstk
  obtain ⟨p', rfl, hstk'⟩ := hstk.of_not_mem hmem
  have hanc : top ∉ a := fun ha => hmem (hstk.ancestor ha)
  have hst : ((G.traced visit).visit st top).2 =
      ⟨(visit st.visitor top).2, st.answers ++ [(top, true)], st.followed⟩ := by
    rw [← hvisit]
    rfl
  rw [hst] at honce ⊢
  -- what is answered before the edges are followed is a part of what is answered in the end
  have hbegin : st.answers ++ [(top, true)] <+:
      ((G.traced visit).expand (G.outEdges top) (d.enter top)
        ⟨(visit st.visitor top).2, st.answers ++ [(top, true)], st.followed⟩).2.1.answers :=
    answers_prefix_expand _ _
      ⟨(visit st.visitor top).2, st.answers ++ [(top, true)], st.followed⟩
  have hstack : Stacked a (d.enter top).next (d.enter top).stack p' := by
    rw [DFSData.enter, hnext]
    exact hstk'.active hmem
  have hvisited : ∀ v ∈ (d.enter top).stack, v ∈ (d.enter top).visited := by
    intro v hv
    rcases List.mem_cons.1 hv with rfl | hv
    · exact List.mem_cons_self
    · exact List.mem_cons_of_mem _ (h.visited v hv)
  have hactive : ∀ v ∈ (d.enter top).stack, v ∈ a ∨ (v, true) ∈ st.answers ++ [(top, true)] := by
    intro v hv
    rcases List.mem_cons.1 hv with rfl | hv
    · exact .inr (by simp)
    · rcases h.active v hv with ha | ht | hhead
      · exact .inl ha
      · exact .inr (List.mem_append_left _ ht)
      · rw [hnext, List.head?_cons, Option.some.injEq] at hhead
        exact absurd (hhead ▸ hv) hmem
  obtain ⟨d', st', p'', heq, hx⟩ := expand_traced hstack hvisited hactive honce
  rw [heq] at hbegin honce
  have hexp : expanded a st'.answers = expanded a st.answers ++ [top] :=
    hx.expanded.trans (expanded_append_of_notMem _ hanc)
  -- what is pushed or visited at once is reached over the vertex
  obtain ⟨hreach, hpending⟩ := List.forall_mem_cons.1 h.pending
  obtain ⟨hpending', hanswered⟩ := hx.keeps (G.Reaches start)
    (fun e he => hreach.tail ⟨e, he, rfl⟩) hpending
    (by
      intro x hx
      rcases List.mem_append.1 hx with hx | hx
      · exact h.answered x hx
      · rw [List.mem_singleton.1 hx]
        exact hreach)
  refine ⟨d', st', p'', heq, ⟨hx.stacked, ?_, ?_, ?_, fun v => ?_, hpending', hanswered⟩,
    ?_, ?_, ?_, hexp⟩
  · rw [hx.stack, hx.visited]
    exact hvisited
  · intro v hv
    rw [hx.stack] at hv
    exact (hactive v hv).imp_right fun ht => .inl (hbegin.subset ht)
  · rw [hx.followed, h.followed, hexp, List.flatMap_append]
    simp [accepted]
  · have h₁ := hx.sum v
    have h₂ := h.sum v
    rw [visits_append] at h₁
    have hfollowed : st'.followed = st.followed ++ (G.outEdges top).filter G.filter := hx.followed
    rw [h₁, hfollowed, List.countP_append]
    by_cases hv : v = top
    · subst hv
      rw [List.count_cons_self] at h₂
      rw [if_pos rfl]
      omega
    · rw [List.count_cons_of_ne (Ne.symm hv)] at h₂
      rw [if_neg hv]
      omega
  · have := hx.length
    simp only [DFSData.enter, List.length_cons] at this ⊢
    omega
  · have := hx.length_le
    simp only [List.length_cons, accepted] at this ⊢
    omega
  · -- otherwise the visitor would have answered `true` twice
    intro hin
    have hmem' : (top, true) ∈ st.answers := mem_confirmed.1 (List.mem_of_mem_filter hin)
    have hle := (hbegin.sublist.count_le (top, true)).trans (honce top)
    have hpos := List.count_pos_iff.2 hmem'
    rw [List.count_append, List.count_singleton_self] at hle
    omega

variable [Fintype V]

/-- The edges that can still be followed. -/
def unfollowed (G : FilteredGraph V E) (expanded : List V) : Nat :=
  ∑ v ∈ Finset.univ.filter (· ∉ expanded), (G.accepted v).length

lemma unfollowed_append {l : List V} (h : v ∉ l) :
    G.unfollowed (l ++ [v]) + (G.accepted v).length = G.unfollowed l := by
  have hset : Finset.univ.filter (· ∉ l) = insert v (Finset.univ.filter (· ∉ l ++ [v])) := by
    ext w
    by_cases hw : w = v
    · simp [hw, h]
    · simp [hw]
  rw [unfollowed, unfollowed, hset, Finset.sum_insert (by simp), Nat.add_comm]

/-- The rounds that are left. -/
def roundsTo (G : FilteredGraph V E) (a : List V) (d : DFSData V) (st : Trace σ V E) (p : List V) :
    Nat :=
  p.length + d.next.length + 2 * G.unfollowed (expanded a st.answers)

/-- The loop ends with everything that was pushed. -/
lemma loop_traced {m : Nat} (h : G.Tracing a start d st p) (hm : roundsTo G a d st p ≤ m)
    (honce : ∀ fuel v, ((G.traced visit).loop fuel d st).2.answers.count (v, true) ≤ 1) :
    ∃ d' st', (∀ fuel ≥ m, (G.traced visit).loop fuel d st = (d', st')) ∧ d'.next = [] ∧
      G.Tracing a start d' st' [] := by
  induction m generalizing d st p with
  | zero =>
    have hnext : d.next = [] := List.length_eq_zero_iff.1 (by unfold roundsTo at hm; omega)
    have hp : p = [] := List.length_eq_zero_iff.1 (by unfold roundsTo at hm; omega)
    subst hp
    refine ⟨d, st, fun fuel _ => ?_, hnext, h⟩
    cases fuel with
    | zero => rfl
    | succ fuel => simp only [Search.loop, hnext]
  | succ m ih =>
    rcases hnext : d.next with - | ⟨top, rest⟩
    · have hp : p = [] := by
        have hstk := h.stacked
        rw [hnext] at hstk
        exact hstk.eq_nil
      subst hp
      refine ⟨d, st, fun fuel _ => ?_, hnext, h⟩
      cases fuel with
      | zero => rfl
      | succ fuel => simp only [Search.loop, hnext]
    · -- one round leads to a state from which the rest of the loop runs
      have hround : ∃ d₁ st₁ p₁, (∀ fuel, (G.traced visit).loop (fuel + 1) d st =
          (G.traced visit).loop fuel d₁ st₁) ∧ G.Tracing a start d₁ st₁ p₁ ∧
          roundsTo G a d₁ st₁ p₁ < roundsTo G a d st p := by
        -- a vertex on the stack is left, any other one is entered
        by_cases hmem : top ∈ d.stack
        · refine ⟨d.leave top, st, p, fun fuel => ?_, h.leave hnext hmem, ?_⟩
          · rw [loop_cons _ _ _ _ hnext, if_pos hmem]
          · simp only [roundsTo, DFSData.leave, hnext, List.tail_cons, List.length_cons]
            omega
        · by_cases hvisit : (visit st.visitor top).1 = true
          · have hrun : ∀ fuel, (G.traced visit).loop (fuel + 1) d st =
                let r := (G.traced visit).expand (G.outEdges top) (d.enter top)
                  ((G.traced visit).visit st top).2
                if r.2.2 then (G.traced visit).loop fuel r.1 r.2.1 else (r.1, r.2.1) := by
              intro fuel
              rw [loop_cons _ _ _ _ hnext, if_neg hmem, if_pos (by exact hvisit)]
              rfl
            obtain ⟨d₁, st₁, p₁, heq, h₁, hlen, hle, hnot, hexp⟩ := h.descend hnext hmem hvisit
              (by
                intro v
                have := honce 1 v
                rw [hrun 0] at this
                simp only [Search.loop, ite_self] at this
                exact this)
            refine ⟨d₁, st₁, p₁, fun fuel => ?_, h₁, ?_⟩
            · rw [hrun, heq]
              exact if_pos rfl
            · have := unfollowed_append (G := G) hnot
              rw [← hexp] at this
              unfold roundsTo
              omega
          · rw [Bool.not_eq_true] at hvisit
            obtain ⟨p', rfl, h'⟩ := h.enter hnext hmem hvisit
            refine ⟨d.enter top, _, p', fun fuel => ?_, h', ?_⟩
            · rw [loop_cons _ _ _ _ hnext, if_neg hmem, if_neg (by simp [traced, hvisit])]
            · have hexp : expanded a ((G.traced visit).visit st top).2.answers =
                  expanded a st.answers := by
                simp only [traced, hvisit]
                exact expanded_append_of_false _
              simp only [roundsTo, hexp, DFSData.enter, List.length_cons]
              omega
      obtain ⟨d₁, st₁, p₁, hrun, h₁, hlt⟩ := hround
      obtain ⟨d', st', hloop, hd, h'⟩ := ih h₁ (by omega) fun fuel v => hrun fuel ▸ honce _ v
      refine ⟨d', st', fun fuel hle => ?_, hd, h'⟩
      obtain ⟨k, rfl⟩ : ∃ k, fuel = k + 1 := Nat.exists_eq_succ_of_ne_zero (by omega)
      rw [hrun, hloop k (by omega)]

/-! ### The whole search -/

omit [Fintype V] in
/-- A longer run only adds answers. -/
lemma answers_prefix_loop (fuel k : Nat) (d : DFSData V) (st : Trace σ V E) :
    ((G.traced visit).loop fuel d st).2.answers <+:
      ((G.traced visit).loop (fuel + k) d st).2.answers := by
  -- a round appends to the answers, whatever it does
  have hall : ∀ n d (st : Trace σ V E),
      st.answers <+: ((G.traced visit).loop n d st).2.answers := by
    intro n
    induction n with
    | zero => exact fun _ _ => List.prefix_rfl
    | succ n ih =>
      intro d st
      rcases hnext : d.next with - | ⟨top, rest⟩
      · simp only [Search.loop, hnext]
        exact List.prefix_rfl
      · have hvisit : st.answers <+: ((G.traced visit).visit st top).2.answers :=
          List.prefix_append _ _
        have hexpand : ((G.traced visit).visit st top).2.answers <+:
            ((G.traced visit).expand (G.outEdges top) (d.enter top)
              ((G.traced visit).visit st top).2).2.1.answers := answers_prefix_expand _ _ _
        rw [loop_cons _ _ _ _ hnext]
        split
        · exact ih _ _
        · split
          · dsimp only
            split
            · exact (hvisit.trans hexpand).trans (ih _ _)
            · exact hvisit.trans hexpand
          · exact hvisit.trans (ih _ _)
  induction fuel generalizing d st with
  | zero =>
    rw [Nat.zero_add]
    exact hall k d st
  | succ fuel ih =>
    rw [Nat.add_right_comm]
    rcases hnext : d.next with - | ⟨top, rest⟩
    · simp only [Search.loop, hnext]
      exact List.prefix_rfl
    · rw [loop_cons _ _ _ _ hnext, loop_cons _ _ _ _ hnext]
      split
      · exact ih _ _
      · split
        · dsimp only
          split
          · exact ih _ _
          · exact List.prefix_rfl
        · exact ih _ _

section Follows

variable (G) (visit : σ → V → Bool × σ) (a : List V) (start : V) (s : σ)

/-- The visitor answers `true` at most once for every vertex. -/
def AnswersOnce : Prop :=
  ∀ fuel v, (G.tracedDfs visit a start s fuel).2.answers.count (v, true) ≤ 1

/-- The visitor answers `true` for `v`. -/
def Confirms (v : V) : Prop := ∃ fuel, (v, true) ∈ (G.tracedDfs visit a start s fuel).2.answers

/-- The search ends, it visits the start once and every vertex once more for every edge that leaves
a vertex that was answered `true`, and it follows all these edges. -/
def FollowsAll : Prop :=
  ∃ n, ∀ fuel ≥ n, ∀ d t, G.tracedDfs visit a start s fuel = (d, t) →
    d.next = [] ∧
    (∀ v, visits t.answers v = (if v = start then 1 else 0) +
      ((confirmed t.answers).flatMap G.accepted).countP fun e => G.target e = v) ∧
    ∀ v, (v, true) ∈ t.answers → ∀ e ∈ G.accepted v, e ∈ t.followed

end Follows

variable {s : σ}

omit [DecidableEq V] [Fintype V] in
lemma countP_flatMap_filter {α : Type} (q : α → Bool) (f : α → List E) (pr : E → Bool)
    (l : List α) : (l.flatMap f).countP pr =
      ((l.filter q).flatMap f).countP pr + ((l.filter (!q ·)).flatMap f).countP pr := by
  induction l with
  | nil => rfl
  | cons x l ih =>
    cases hq : q x
    · simp [hq, ih]
      omega
    · simp [hq, ih]
      omega

lemma dfs_traced (honce : G.AnswersOnce visit a start s) (h : start ∉ a) :
    ∃ n d t, (∀ fuel ≥ n, G.tracedDfs visit a start s fuel = (d, t)) ∧ d.next = [] ∧
      G.Tracing a start d t [] := by
  have hstart : G.Tracing a start ((⟨true, a, a, []⟩ : DFSData V).push start)
      (⟨s, [], []⟩ : Trace σ V E) [start] := by
    refine ⟨Stacked.nil.pending h, fun v hv => hv, fun v hv => .inl hv, rfl, fun v => ?_, ?_, ?_⟩
    · by_cases hv : v = start
      · simp [hv, visits]
      · simp [hv, visits, Ne.symm hv]
    · intro v hv
      rw [List.mem_singleton.1 hv]
      exact .refl
    · simp
  obtain ⟨d, t, hrun, hd, ht⟩ := loop_traced hstart le_rfl honce
  exact ⟨_, d, t, hrun, hd, ht⟩

/-- The counts are right if no edges of an ancestor are missing. -/
lemma followsAll_iff_of_notMem (honce : G.AnswersOnce visit a start s) (h : start ∉ a) :
    G.FollowsAll visit a start s ↔
      ∀ v ∈ a, G.accepted v ≠ [] → ¬ G.Confirms visit a start s v := by
  obtain ⟨n, d, t, hrun, hd, ht⟩ := dfs_traced honce h
  have hconfirms : ∀ v, G.Confirms visit a start s v ↔ (v, true) ∈ t.answers := by
    intro v
    constructor
    · rintro ⟨fuel, hfuel⟩
      have hle := (answers_prefix_loop fuel n _ _).subset hfuel
      rw [← Search.dfs, ← tracedDfs, hrun _ (Nat.le_add_left _ _)] at hle
      exact hle
    · intro hv
      refine ⟨n, ?_⟩
      rw [hrun n le_rfl]
      exact hv
  simp only [hconfirms]
  have hsplit : ∀ v, (((confirmed t.answers).flatMap G.accepted).countP fun e => G.target e = v) =
      (((confirmed t.answers).filter (· ∈ a)).flatMap G.accepted).countP
        (fun e => G.target e = v) + t.followed.countP fun e => G.target e = v := by
    intro v
    rw [ht.followed, countP_flatMap_filter (fun u => decide (u ∈ a))]
    simp [expanded]
  have hsum : ∀ v, visits t.answers v =
      (if v = start then 1 else 0) + t.followed.countP fun e => G.target e = v := by
    intro v
    simpa using ht.sum v
  constructor
  · -- the edge `e` is not counted at its target
    rintro ⟨n', hall⟩ v hv hne htrue
    obtain ⟨-, hcount, -⟩ := hall (n + n') (Nat.le_add_left _ _) d t (hrun _ (Nat.le_add_right _ _))
    obtain ⟨e, he⟩ := List.exists_mem_of_ne_nil _ hne
    have h₁ := hcount (G.target e)
    rw [hsplit, hsum] at h₁
    have h₂ : 0 < (((confirmed t.answers).filter (· ∈ a)).flatMap G.accepted).countP
        fun e' => G.target e' = G.target e := by
      rw [List.countP_pos_iff]
      refine ⟨e, List.mem_flatMap.2 ⟨v, ?_, he⟩, decide_eq_true rfl⟩
      simp [htrue, hv]
    omega
  · intro hcond
    have hempty : ((confirmed t.answers).filter (· ∈ a)).flatMap G.accepted = [] := by
      rw [List.flatMap_eq_nil_iff]
      intro v hv
      have hv' : (v, true) ∈ t.answers ∧ v ∈ a := by simpa using hv
      by_contra hne
      exact hcond v hv'.2 hne hv'.1
    refine ⟨n, fun fuel hn d' t' heq => ?_⟩
    rw [hrun fuel hn, Prod.mk.injEq] at heq
    obtain ⟨rfl, rfl⟩ := heq
    refine ⟨hd, fun v => ?_, fun v hv e he => ?_⟩
    · rw [hsplit, hempty, hsum]
      simp
    · have hva : v ∉ a := fun ha => hcond v ha (List.ne_nil_of_mem he) hv
      rw [ht.followed]
      refine List.mem_flatMap.2 ⟨v, ?_, he⟩
      simp [expanded, hv, hva]

omit [Fintype V] in
/-- A start that is an ancestor is not visited. -/
lemma tracedDfs_of_mem (h : start ∈ a) (n : Nat) : G.tracedDfs visit a start s (n + 1) =
    (⟨true, a, a.erase start, []⟩, ⟨s, [], []⟩) := by
  have hnext : ((⟨true, a, a, []⟩ : DFSData V).push start).next = [start] := rfl
  have hstack : start ∈ ((⟨true, a, a, []⟩ : DFSData V).push start).stack := h
  rw [tracedDfs, Search.dfs, loop_cons _ _ _ _ hnext, if_pos hstack]
  cases n <;> rfl

omit [Fintype V] in
lemma not_followsAll_of_mem (h : start ∈ a) : ¬ G.FollowsAll visit a start s := by
  rintro ⟨n, hall⟩
  obtain ⟨-, hcount, -⟩ := hall (n + 1) (Nat.le_succ n) _ _ (tracedDfs_of_mem h n)
  have := hcount start
  rw [if_pos rfl] at this
  simp only [visits, List.map_nil, List.count_nil] at this
  omega

/-- The visitor that answers `true` when it meets a vertex for the first time. -/
def firstTime (met : List V) (v : V) : Bool × List V := (v ∉ met, v :: met)

omit [Fintype V] in
lemma firstTime_keeps (fuel : Nat) :
    let t := (G.tracedDfs firstTime a start [] fuel).2
    (∀ v, t.answers.count (v, true) = if v ∈ t.visitor then 1 else 0) ∧
      ∀ x ∈ t.answers, x.1 ∈ t.visitor := by
  refine Search.dfs_keeps (P := fun t : Trace (List V) V E =>
    (∀ v, t.answers.count (v, true) = if v ∈ t.visitor then 1 else 0) ∧
      ∀ x ∈ t.answers, x.1 ∈ t.visitor) ?_ ?_ ⟨by simp, by simp⟩
  · rintro t v ⟨hcount, hmem⟩
    refine ⟨fun w => ?_, fun x hx => ?_⟩
    · simp only [traced, firstTime]
      rw [List.count_append, hcount w]
      by_cases hv : v ∈ t.visitor
      · by_cases hw : w = v <;> simp [hv, hw]
      · by_cases hw : w = v
        · simp [hv, hw]
        · simp [hv, hw, Ne.symm hw]
    · rcases List.mem_append.1 hx with hx | hx
      · exact List.mem_cons_of_mem _ (hmem x hx)
      · rw [List.mem_singleton.1 hx]
        exact List.mem_cons_self
  · intro t e h
    simp only [traced]
    split
    · exact h
    · exact h

omit [Fintype V] in
lemma firstTime_answersOnce (G : FilteredGraph V E) (a : List V) (start : V) :
    G.AnswersOnce firstTime a start [] := by
  intro fuel v
  rw [(firstTime_keeps fuel).1 v]
  split <;> omega

omit [Fintype V] in
/-- A search that follows all edges reaches everything with the visitor `firstTime`. -/
lemma firstTime_confirms (h : G.FollowsAll firstTime a start []) (hv : G.Reaches start v) :
    G.Confirms firstTime a start [] v := by
  obtain ⟨n, hall⟩ := h
  have hkeeps := @firstTime_keeps V E _ G a start n
  rcases hrun : G.tracedDfs firstTime a start [] n with ⟨d, t⟩
  rw [hrun] at hkeeps
  dsimp only at hkeeps
  obtain ⟨htrue, hmem⟩ := hkeeps
  obtain ⟨-, hcount, -⟩ := hall n le_rfl d t hrun
  have hvisited : ∀ w, 0 < visits t.answers w → (w, true) ∈ t.answers := by
    intro w hw
    obtain ⟨x, hx, rfl⟩ := List.mem_map.1 (List.count_pos_iff.1 hw)
    have := htrue x.1
    rw [if_pos (hmem x hx)] at this
    exact List.count_pos_iff.1 (by omega)
  refine ⟨n, ?_⟩
  rw [hrun]
  induction hv with
  | refl =>
    refine hvisited start ?_
    rw [hcount, if_pos rfl]
    omega
  | @tail u w _ hedge ih =>
    obtain ⟨e, he, rfl⟩ := hedge
    refine hvisited _ ?_
    have hpos : 0 < ((confirmed t.answers).flatMap G.accepted).countP
        fun e' => G.target e' = G.target e := by
      rw [List.countP_pos_iff]
      exact ⟨e, List.mem_flatMap.2 ⟨u, mem_confirmed.2 ih, he⟩, decide_eq_true rfl⟩
    rw [hcount]
    omega

/-- The search ends. It visits the start once, unless it is an ancestor, and every vertex once more
for every edge that leaves a vertex that was answered `true` and that is no ancestor. It follows all
these edges. -/
theorem dfs_follows_expanded (honce : G.AnswersOnce visit a start s) :
    ∃ n, ∀ fuel ≥ n, ∀ d t, G.tracedDfs visit a start s fuel = (d, t) →
      d.next = [] ∧
      (∀ v, visits t.answers v = (if v = start ∧ start ∉ a then 1 else 0) +
        ((expanded a t.answers).flatMap G.accepted).countP fun e => G.target e = v) ∧
      ∀ v ∉ a, (v, true) ∈ t.answers → ∀ e ∈ G.accepted v, e ∈ t.followed := by
  by_cases h : start ∈ a
  · refine ⟨1, fun fuel hn d t heq => ?_⟩
    obtain ⟨n, rfl⟩ : ∃ n, fuel = n + 1 := Nat.exists_eq_succ_of_ne_zero (by omega)
    rw [tracedDfs_of_mem h, Prod.mk.injEq] at heq
    obtain ⟨rfl, rfl⟩ := heq
    refine ⟨rfl, fun v => ?_, fun v _ hv => absurd hv List.not_mem_nil⟩
    rw [if_neg fun hc => hc.2 h]
    rfl
  · obtain ⟨n, d, t, hrun, hd, ht⟩ := dfs_traced honce h
    refine ⟨n, fun fuel hn d' t' heq => ?_⟩
    rw [hrun fuel hn, Prod.mk.injEq] at heq
    obtain ⟨rfl, rfl⟩ := heq
    refine ⟨hd, fun v => ?_, fun v hva hv e he => ?_⟩
    · have := ht.sum v
      rw [ht.followed, List.count_nil, Nat.add_zero] at this
      simpa [h] using this
    · rw [ht.followed]
      refine List.mem_flatMap.2 ⟨v, ?_, he⟩
      simp [expanded, hv, hva]

/-- The visitor answers `true` for the first visit of each vertex of the triangle. -/
theorem dfs_follows_expanded_triangle :
    ∃ n, ∀ fuel ≥ n, ∀ d t, triangle.tracedDfs firstTime [] 0 [] fuel = (d, t) →
      d.next = [] ∧
      (∀ v, visits t.answers v = (if v = 0 ∧ (0 : Fin 3) ∉ [] then 1 else 0) +
        ((expanded [] t.answers).flatMap triangle.accepted).countP fun e => triangle.target e = v) ∧
      ∀ v ∉ ([] : List (Fin 3)), (v, true) ∈ t.answers → ∀ e ∈ triangle.accepted v,
        e ∈ t.followed :=
  dfs_follows_expanded (firstTime_answersOnce triangle [] 0)

/-- The visitor answers `true` for the ancestor `1`, but the edge that leaves it is not followed. -/
theorem not_followsAll_throughAncestor :
    throughAncestor.AnswersOnce firstTime [1] 2 [] ∧
      ¬ throughAncestor.FollowsAll firstTime [1] 2 [] := by
  refine ⟨firstTime_answersOnce _ _ _, ?_⟩
  · rintro ⟨n, hall⟩
    have hrun : throughAncestor.tracedDfs firstTime [1] 2 [] (n + 3) =
        (⟨true, [2, 1], [1], []⟩, ⟨[1, 2], [(2, true), (1, true)], [(2, 1)]⟩) := rfl
    obtain ⟨-, -, hall⟩ := hall (n + 3) (Nat.le_add_right _ _) _ _ hrun
    exact absurd (hall 1 (by decide) (1, 0) (by decide)) (by decide)

/-- With a visitor that answers `true` at most once for every vertex, the search follows all edges
unless the start is an ancestor, or the visitor answers `true` for an ancestor that edges leave. It
does so with every such visitor unless the start is an ancestor or such an ancestor is reached. -/
theorem followsAll_iff (G : FilteredGraph V E) (a : List V) (start : V) :
    (∀ (σ : Type) (visit : σ → V → Bool × σ) (s : σ), G.AnswersOnce visit a start s →
      (G.FollowsAll visit a start s ↔
        start ∉ a ∧ ∀ v ∈ a, G.accepted v ≠ [] → ¬ G.Confirms visit a start s v)) ∧
    ((∀ (σ : Type) (visit : σ → V → Bool × σ) (s : σ), G.AnswersOnce visit a start s →
      G.FollowsAll visit a start s) ↔
        start ∉ a ∧ ∀ v ∈ a, G.accepted v ≠ [] → ¬ G.Reaches start v) := by
  have hiff : ∀ (σ : Type) (visit : σ → V → Bool × σ) (s : σ), G.AnswersOnce visit a start s →
      (G.FollowsAll visit a start s ↔
        start ∉ a ∧ ∀ v ∈ a, G.accepted v ≠ [] → ¬ G.Confirms visit a start s v) := by
    intro σ visit s honce
    by_cases h : start ∈ a
    · exact iff_of_false (not_followsAll_of_mem h) fun hc => hc.1 h
    · rw [followsAll_iff_of_notMem honce h]
      exact (and_iff_right h).symm
  refine ⟨hiff, fun hall => ?_, fun ⟨h, hreach⟩ σ visit s honce => ?_⟩
  · have honce := firstTime_answersOnce G a start
    have hfollows := hall _ firstTime [] honce
    obtain ⟨h, hcond⟩ := (hiff _ firstTime [] honce).1 hfollows
    exact ⟨h, fun v hv hne hr => hcond v hv hne (firstTime_confirms hfollows hr)⟩
  · -- only vertices that can be reached are visited
    refine (hiff _ visit s honce).2 ⟨h, fun v hv hne hc => hreach v hv hne ?_⟩
    obtain ⟨n, d, t, hrun, -, ht⟩ := dfs_traced honce h
    obtain ⟨fuel, hfuel⟩ := hc
    have hmem := (answers_prefix_loop fuel n _ _).subset hfuel
    rw [← Search.dfs, ← tracedDfs, hrun _ (Nat.le_add_left _ _)] at hmem
    exact ht.answered _ hmem

end FilteredGraph

end Idle
