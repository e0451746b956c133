import Mathlib.Logic.Relation
import Idle.Core.DfsCount

/-!
# Searches that mark

A search that marks every vertex it visits and only follows edges to vertices without a mark. The
search pushes a vertex without marking it, so it may visit a vertex several times. Still it meets
no cycle, it marks exactly what can be reached through vertices without a mark, and a second visit
of a vertex pushes nothing.
-/

namespace Idle

/-- The graph of a marking search. Only `free` edges are followed, and no `blocked` vertex is
entered. -/
structure MarkGraph (V E : Type) where
  edges : List E
  src : E → V
  tgt : E → V
  free : E → Bool
  blocked : V → Bool

namespace MarkGraph

variable {V E : Type}

/-- An edge to a vertex that had no mark. -/
def Step (G : MarkGraph V E) (mark : V → Bool) (v t : V) : Prop :=
  ∃ e ∈ G.edges, G.free e = true ∧ G.src e = v ∧ G.tgt e = t ∧ G.blocked t = false ∧ mark t = false

/-- Every vertex after the first one had no mark. -/
def Reached (G : MarkGraph V E) (mark : V → Bool) (start : V) : V → Prop :=
  Relation.ReflTransGen (G.Step mark) start

end MarkGraph

namespace Search

/-- Vertices that are pushed have to be entered. -/
lemma Stacked.append {V : Type} {a next stack p new : List V} (h : Stacked a next stack p)
    (hnew : ∀ v ∈ new, v ∉ stack) : Stacked a (new ++ next) stack (new ++ p) := by
  induction new with
  | nil => exact h
  | cons v new ih =>
    exact (ih fun w hw => hnew w (List.mem_cons_of_mem _ hw)).pending (hnew v List.mem_cons_self)

variable {σ V E : Type} [DecidableEq V]

/-- The search `g` marks the vertices of `G` that it visits. The states satisfy `ok`, and the edges
that wait for the filter are `present`. Every vertex that is visited is `noted`, and every edge of
such a vertex is `handled`: by the filter that refuses it, or by the visit it leads to. -/
structure Marks (g : Search σ V E) (G : MarkGraph V E) (reached : V → Prop) (ok : σ → Prop)
    (present : σ → E → Prop) (marked : σ → V → Bool) (noted : σ → V → Prop)
    (handled : σ → E → Prop) : Prop where
  postCancel : g.flags.postCancelCycles = false
  target : ∀ {st e}, ok st → e ∈ G.edges → g.target st e = G.tgt e
  outEdges_subperm : ∀ {st v}, ok st → reached v →
    (g.outEdges st v).Subperm (G.edges.filter fun e => G.src e = v)
  outEdges_nodup : ∀ {st v}, ok st → reached v → (g.outEdges st v).Nodup
  outEdges_or : ∀ {st v e}, ok st → reached v → e ∈ G.edges → G.src e = v →
    e ∈ g.outEdges st v ∨ handled st e ∧ G.free e = false
  outEdges_present : ∀ {st v e}, ok st → reached v → e ∈ g.outEdges st v → present st e
  visit : ∀ {st v}, ok st → reached v → (g.visit st v).1 = true ∧ ok (g.visit st v).2 ∧
    marked (g.visit st v).2 = Function.update (marked st) v true
  visit_noted : ∀ {st v t}, ok st → reached v → t = v ∨ noted st t → noted (g.visit st v).2 t
  visit_handled : ∀ {st v e}, ok st → reached v → e ∈ G.edges → G.tgt e = v ∨ handled st e →
    handled (g.visit st v).2 e
  filter : ∀ {st e}, ok st → e ∈ G.edges → present st e → reached (G.src e) →
    ok (g.filter st e).2 ∧ marked (g.filter st e).2 = marked st ∧
      ((g.filter st e).1 = true ↔
        G.free e = true ∧ G.blocked (G.tgt e) = false ∧ marked st (G.tgt e) = false)
  filter_present : ∀ {st e e'}, ok st → e ∈ G.edges → present st e → reached (G.src e) → e' ≠ e →
    present st e' → present (g.filter st e).2 e'
  filter_noted : ∀ {st e t}, ok st → e ∈ G.edges → present st e → reached (G.src e) →
    noted st t → noted (g.filter st e).2 t
  filter_handled : ∀ {st e e'}, ok st → e ∈ G.edges → present st e → reached (G.src e) →
    e' ∈ G.edges → (e' = e ∧ (g.filter st e).1 = false) ∨ handled st e' →
      handled (g.filter st e).2 e'

variable {g : Search σ V E} {G : MarkGraph V E} {reached : V → Prop} {ok : σ → Prop}
variable {present : σ → E → Prop} {marked : σ → V → Bool} {noted : σ → V → Prop}
variable {handled : σ → E → Prop} {st : σ} {d : DFSData V} {p : List V}

/-- The edge was handled, and if it could be followed there was no need to. -/
def Seen (G : MarkGraph V E) (marked : σ → V → Bool) (handled : σ → E → Prop) (st : σ) (e : E) :
    Prop :=
  handled st e ∧ (G.free e = true → marked st (G.tgt e) = true ∨ G.blocked (G.tgt e) = true)

/-! ### One vertex -/

/-- What the expansion of a vertex leaves: `new` was pushed. -/
structure Expanded (G : MarkGraph V E) (ok : σ → Prop) (marked : σ → V → Bool)
    (noted : σ → V → Prop) (handled : σ → E → Prop) (es : List E) (st st' : σ) (new : List V) :
    Prop where
  isOk : ok st'
  sameMarks : marked st' = marked st
  length : new.length ≤ es.length
  fresh : ∀ t ∈ new, marked st t = false ∧
    ∃ e ∈ es, G.free e = true ∧ G.tgt e = t ∧ G.blocked t = false
  seen : ∀ e ∈ es, Seen G marked handled st' e ∨ G.tgt e ∈ new
  stayNoted : ∀ t, noted st t → noted st' t
  stayHandled : ∀ e ∈ G.edges, handled st e → handled st' e

/-- The edges of a vertex only lead to vertices that have to be entered, so no cycle is met. -/
lemma expand_marks (hg : g.Marks G reached ok present marked noted handled) {es : List E}
    (hes : ∀ e ∈ es, e ∈ G.edges ∧ reached (G.src e) ∧ present st e) (hnodup : es.Nodup)
    (hok : ok st) (hvis : ∀ v ∈ d.visited, marked st v = true) :
    ∃ st' new, g.expand es d st = ({ d with next := new ++ d.next }, st', true) ∧
      Expanded G ok marked noted handled es st st' new := by
  induction es generalizing d st with
  | nil =>
    exact ⟨st, [], rfl, hok, rfl, le_rfl, by simp, by simp, fun _ h => h, fun _ _ h => h⟩
  | cons e es ih =>
    obtain ⟨he, hsrc, hpre⟩ := hes e List.mem_cons_self
    obtain ⟨hne, hnodup'⟩ := List.nodup_cons.1 hnodup
    obtain ⟨hok', hmark', hacc⟩ := hg.filter hok he hpre hsrc
    have hnoted : ∀ t, noted st t → noted (g.filter st e).2 t := fun t =>
      hg.filter_noted hok he hpre hsrc
    have hhandled : ∀ e' ∈ G.edges, handled st e' → handled (g.filter st e).2 e' := fun e' he' h =>
      hg.filter_handled hok he hpre hsrc he' (.inr h)
    have hes' : ∀ e' ∈ es, e' ∈ G.edges ∧ reached (G.src e') ∧ present (g.filter st e).2 e' := by
      intro e' he'
      obtain ⟨h₁, h₂, h₃⟩ := hes e' (List.mem_cons_of_mem _ he')
      exact ⟨h₁, h₂, hg.filter_present hok he hpre hsrc (fun h => hne (h ▸ he')) h₃⟩
    rw [expand_cons]
    cases hb : (g.filter st e).1 with
    -- a refused edge pushes nothing
    | false =>
      simp only [Bool.false_eq_true, if_false]
      obtain ⟨st', new, heq, h⟩ :=
          ih hes' hnodup' hok' (fun v hv => by rw [hmark']; exact hvis v hv)
      refine ⟨st', new, heq, h.isOk, h.sameMarks.trans hmark', ?_, ?_, ?_, ?_, ?_⟩
      · exact h.length.trans (Nat.le_succ _)
      · intro t ht
        obtain ⟨hm, e', he', h'⟩ := h.fresh t ht
        exact ⟨by rwa [hmark'] at hm, e', List.mem_cons_of_mem _ he', h'⟩
      · intro e' he'
        rcases List.mem_cons.1 he' with rfl | he'
        · -- the filter refused the edge, so its target is marked or blocked
          have hrefused := hg.filter_handled hok he hpre hsrc he (.inl ⟨rfl, hb⟩)
          refine .inl ⟨h.stayHandled _ he hrefused, fun hfree => ?_⟩
          rw [h.sameMarks, hmark']
          by_contra hno
          simp only [not_or, Bool.not_eq_true] at hno
          exact absurd (hacc.2 ⟨hfree, hno.2, hno.1⟩) (by simp [hb])
        · exact h.seen e' he'
      · exact fun t ht => h.stayNoted t (hnoted t ht)
      · exact fun e' he' hh => h.stayHandled e' he' (hhandled e' he' hh)
    | true =>
      -- an accepted edge has a target without a mark, which was therefore not visited
      obtain ⟨hfree, hblocked, hunmarked⟩ := hacc.1 hb
      have hnot : G.tgt e ∉ d.visited := fun hmem => by
        simp [hvis _ hmem] at hunmarked
      simp only [if_true, hg.target hok' he, hnot, not_false_eq_true]
      obtain ⟨st', new, heq, h⟩ := ih (d := d.push (G.tgt e)) hes' hnodup' hok'
        (fun v hv => by rw [hmark']; exact hvis v hv)
      refine ⟨st', new ++ [G.tgt e], ?_, h.isOk, h.sameMarks.trans hmark', ?_, ?_, ?_, ?_, ?_⟩
      · rw [heq]
        simp [DFSData.push]
      · simpa using h.length
      · intro t ht
        rcases List.mem_append.1 ht with ht | ht
        · obtain ⟨hm, e', he', h'⟩ := h.fresh t ht
          exact ⟨by rwa [hmark'] at hm, e', List.mem_cons_of_mem _ he', h'⟩
        · rw [List.mem_singleton.1 ht]
          exact ⟨hunmarked, e, List.mem_cons_self, hfree, rfl, hblocked⟩
      · intro e' he'
        rcases List.mem_cons.1 he' with rfl | he'
        · exact .inr (by simp)
        · exact (h.seen e' he').imp_right (List.mem_append_left _)
      · exact fun t ht => h.stayNoted t (hnoted t ht)
      · exact fun e' he' hh => h.stayHandled e' he' (hhandled e' he' hh)

/-! ### The whole search -/

/-- What the loop of a marking search keeps. The targets of a vertex on the stack that were not
seen yet are pending above it. -/
structure Marking (G : MarkGraph V E) (reached : V → Prop) (ok : σ → Prop) (marked : σ → V → Bool)
    (noted : σ → V → Prop) (handled : σ → E → Prop) (start : V) (old : V → Bool) (d : DFSData V)
    (st : σ) (p : List V) : Prop where
  isOk : ok st
  acyclic : d.acyclic = true
  stacked : Stacked [] d.next d.stack p
  stackVisited : ∀ v ∈ d.stack, v ∈ d.visited
  marks : ∀ v, marked st v = true ↔ old v = true ∨ v ∈ d.visited
  visitedReached : ∀ v ∈ d.visited, reached v
  pendingReached : ∀ v ∈ p, reached v
  started : start ∈ d.visited ∨ start ∈ p
  visitedNoted : ∀ v ∈ d.visited, noted st v
  visitedHandled : ∀ e ∈ G.edges, G.tgt e ∈ d.visited → handled st e
  closed : ∀ e ∈ G.edges, G.src e ∈ d.visited → Seen G marked handled st e ∨
    (G.src e ∈ d.stack ∧ G.tgt e ∈ d.next.takeWhile (· ≠ G.src e))

/-- The edges of vertices that were not visited yet. -/
def edgesLeft (G : MarkGraph V E) (visited : List V) : Nat :=
  G.edges.countP fun e => G.src e ∉ visited

/-- The rounds that are left: only the first visit of a vertex pushes anything. -/
def markRounds (G : MarkGraph V E) (d : DFSData V) (p : List V) : Nat :=
  p.length + d.next.length + 2 * edgesLeft G d.visited

lemma edgesLeft_cons_le (v : V) (visited : List V) :
    edgesLeft G (v :: visited) ≤ edgesLeft G visited :=
  List.countP_mono_left fun e _ he => by
    simp only [List.mem_cons, not_or, decide_eq_true_eq] at he ⊢
    exact he.2

lemma edgesLeft_eq_add {v : V} {visited : List V} (hv : v ∉ visited) :
    edgesLeft G visited = edgesLeft G (v :: visited) + G.edges.countP fun e => G.src e = v := by
  refine List.countP_eq_add_of_disjoint (fun e _ => ?_) (fun e _ => ?_)
  · rw [Bool.eq_iff_iff]
    simp only [List.mem_cons, not_or, Bool.or_eq_true, decide_eq_true_eq]
    by_cases hs : G.src e = v
    · simp [hs, hv]
    · simp [hs]
  · simp only [List.mem_cons, not_or, decide_eq_true_eq, not_and]
    exact fun hs => hs.1

namespace Marking

variable {start top : V} {old : V → Bool} {rest : List V}

/-- The vertex on top was entered before: all its targets were seen and it is left again. -/
lemma leave (h : Marking G reached ok marked noted handled start old d st p)
    (hnext : d.next = top :: rest)
    (hmem : top ∈ d.stack) :
    Marking G reached ok marked noted handled start old (d.leave top) st p ∧
      markRounds G (d.leave top) p < markRounds G d p := by
  have hstk := h.stacked
  rw [hnext] at hstk
  obtain ⟨stack', hs, -, hstk'⟩ := hstk.of_mem hmem
  refine ⟨⟨h.isOk, h.acyclic, ?_, ?_, h.marks, h.visitedReached, h.pendingReached, h.started,
    h.visitedNoted, h.visitedHandled, ?_⟩, ?_⟩
  · simpa [DFSData.leave, hs, hnext] using hstk'
  · exact fun v hv => h.stackVisited v (List.mem_of_mem_erase hv)
  · intro e he hsrc
    rcases h.closed e he hsrc with hseen | ⟨hstack, habove⟩
    · exact .inl hseen
    · rw [hnext, List.takeWhile_cons] at habove
      by_cases htop : top = G.src e
      · simp [htop] at habove
      · simp only [ne_eq, htop, not_false_eq_true, decide_true, if_true, List.mem_cons] at habove
        rcases habove with heq | habove
        · have hvis : G.tgt e ∈ d.visited := heq ▸ h.stackVisited top hmem
          exact .inl ⟨h.visitedHandled e he hvis, fun _ => .inl ((h.marks _).2 (.inr hvis))⟩
        · refine .inr ⟨(List.mem_erase_of_ne (Ne.symm htop)).2 hstack, ?_⟩
          simpa [DFSData.leave, hnext] using habove
  · unfold markRounds
    simp only [DFSData.leave, hnext, List.tail_cons, List.length_cons]
    omega

/-- The vertex on top is entered, visited and expanded. -/
lemma enter (hg : g.Marks G reached ok present marked noted handled)
    (hstep : ∀ e ∈ G.edges, reached (G.src e) → G.free e = true → G.blocked (G.tgt e) = false →
      old (G.tgt e) = false → reached (G.tgt e))
    (h : Marking G reached ok marked noted handled start old d st p) (hnext : d.next = top :: rest)
    (hmem : top ∉ d.stack) :
    ∃ d' st' p', g.expand (g.outEdges (g.visit st top).2 top) (d.enter top) (g.visit st top).2 =
        (d', st', true) ∧ Marking G reached ok marked noted handled start old d' st' p' ∧
      markRounds G d' p' < markRounds G d p := by
  have hstk := h.stacked
  rw [hnext] at hstk
  obtain ⟨p', rfl, hstk'⟩ := hstk.of_not_mem hmem
  have htop := h.pendingReached top List.mem_cons_self
  obtain ⟨-, hok₁, hmark₁⟩ := hg.visit h.isOk htop
  have hmarks₁ : ∀ v, marked (g.visit st top).2 v = true ↔ old v = true ∨ v ∈ top :: d.visited := by
    intro v
    rw [hmark₁]
    by_cases hv : v = top
    · simp [hv]
    · simpa [hv] using h.marks v
  have hsub := hg.outEdges_subperm hok₁ htop
  have hes : ∀ e ∈ g.outEdges (g.visit st top).2 top, e ∈ G.edges ∧ reached (G.src e) ∧
      present (g.visit st top).2 e := by
    intro e he
    obtain ⟨hedge, hsrc⟩ := List.mem_filter.1 (hsub.subset he)
    simp only [decide_eq_true_eq] at hsrc
    exact ⟨hedge, hsrc ▸ htop, hg.outEdges_present hok₁ htop he⟩
  obtain ⟨st', new, heq, hexp⟩ := expand_marks (d := d.enter top) hg hes
    (hg.outEdges_nodup hok₁ htop) hok₁ (fun v hv => (hmarks₁ v).2 (.inr hv))
  have hfreshVisited : ∀ t ∈ new, t ∉ top :: d.visited := by
    intro t ht hvis
    have := (hexp.fresh t ht).1
    rw [(hmarks₁ t).2 (.inr hvis)] at this
    exact absurd this (by simp)
  have habove : ∀ v ∈ top :: d.visited, (new ++ d.next).takeWhile (· ≠ v) =
      new ++ d.next.takeWhile (· ≠ v) := by
    intro v hv
    refine List.takeWhile_append_of_pos fun t ht => ?_
    simp only [ne_eq, decide_eq_true_eq]
    rintro rfl
    exact hfreshVisited t ht hv
  refine ⟨_, st', new ++ p', heq, ⟨hexp.isOk, h.acyclic, ?_, ?_, ?_, ?_, ?_, ?_, ?_, ?_, ?_⟩, ?_⟩
  · refine Stacked.append ?_ fun t ht hs => hfreshVisited t ht ?_
    · simpa [DFSData.enter, hnext] using hstk'.active hmem
    · rcases List.mem_cons.1 hs with rfl | hs
      · exact List.mem_cons_self
      · exact List.mem_cons_of_mem _ (h.stackVisited t hs)
  · intro v hv
    rcases List.mem_cons.1 hv with rfl | hv
    · exact List.mem_cons_self
    · exact List.mem_cons_of_mem _ (h.stackVisited v hv)
  · intro v
    rw [hexp.sameMarks]
    exact hmarks₁ v
  · intro v hv
    rcases List.mem_cons.1 hv with rfl | hv
    · exact htop
    · exact h.visitedReached v hv
  · intro v hv
    rcases List.mem_append.1 hv with hv | hv
    · obtain ⟨hm, e, he, hfree, rfl, hblocked⟩ := hexp.fresh v hv
      obtain ⟨hedge, hsrc, -⟩ := hes e he
      refine hstep e hedge hsrc hfree hblocked ?_
      by_contra hold
      rw [(hmarks₁ _).2 (.inl (by simpa using hold))] at hm
      exact absurd hm (by simp)
    · exact h.pendingReached v (List.mem_cons_of_mem _ hv)
  · rcases h.started with hs | hs
    · exact .inl (List.mem_cons_of_mem _ hs)
    · rcases List.mem_cons.1 hs with rfl | hs
      · exact .inl List.mem_cons_self
      · exact .inr (List.mem_append_right _ hs)
  · intro v hv
    refine hexp.stayNoted v (hg.visit_noted h.isOk htop ?_)
    rcases List.mem_cons.1 hv with rfl | hv
    · exact .inl rfl
    · exact .inr (h.visitedNoted v hv)
  · intro e he htgt
    refine hexp.stayHandled e he (hg.visit_handled h.isOk htop he ?_)
    rcases List.mem_cons.1 htgt with htgt | htgt
    · exact .inl htgt
    · exact .inr (h.visitedHandled e he htgt)
  · intro e he hsrc
    by_cases htopsrc : G.src e = top
    · rcases hg.outEdges_or hok₁ htop he htopsrc with hout | ⟨hh, hfree⟩
      · refine (hexp.seen e hout).imp_right fun hnew => ⟨htopsrc ▸ List.mem_cons_self, ?_⟩
        simp only [DFSData.enter, habove _ hsrc]
        exact List.mem_append_left _ hnew
      · exact .inl ⟨hexp.stayHandled e he hh, fun hf => absurd (hfree.symm.trans hf) (by simp)⟩
    · have hvis : G.src e ∈ d.visited := (List.mem_cons.1 hsrc).resolve_left htopsrc
      rcases h.closed e he hvis with ⟨hh, hseen⟩ | ⟨hstack, hpend⟩
      · refine .inl ⟨hexp.stayHandled e he (hg.visit_handled h.isOk htop he (.inr hh)),
          fun hf => ?_⟩
        rw [hexp.sameMarks]
        refine (hseen hf).imp_left fun hm => (hmarks₁ _).2 ?_
        exact ((h.marks _).1 hm).imp_right (List.mem_cons_of_mem _)
      · refine .inr ⟨List.mem_cons_of_mem _ hstack, ?_⟩
        simp only [DFSData.enter, habove _ hsrc]
        exact List.mem_append_right _ hpend
  · have hlen : new.length ≤ G.edges.countP fun e => G.src e = top := by
      rw [List.countP_eq_length_filter]
      exact hexp.length.trans hsub.length_le
    unfold markRounds
    simp only [DFSData.enter, List.length_append, List.length_cons]
    by_cases hvis : top ∈ d.visited
    · have hnil : new = [] := by
        refine List.eq_nil_iff_forall_not_mem.2 fun t ht => ?_
        obtain ⟨hm, e, he, hfree, rfl, hblocked⟩ := hexp.fresh t ht
        have hsrc : G.src e = top := by simpa using (List.mem_filter.1 (hsub.subset he)).2
        -- the first visit of the vertex saw all its targets
        rcases h.closed e (hes e he).1 (hsrc ▸ hvis) with ⟨-, hseen⟩ | ⟨hs, -⟩
        · rcases hseen hfree with hseen | hseen
          · rw [(hmarks₁ _).2 (((h.marks _).1 hseen).imp_right (List.mem_cons_of_mem _))] at hm
            exact absurd hm (by simp)
          · exact absurd (hseen.symm.trans hblocked) (by simp)
        · exact hmem (hsrc ▸ hs)
      have hcount : edgesLeft G (top :: d.visited) ≤ edgesLeft G d.visited :=
        edgesLeft_cons_le top d.visited
      rw [hnil]
      simp only [List.length_nil]
      omega
    · have hcount := edgesLeft_eq_add (G := G) hvis
      omega

end Marking

lemma loop_marks {start : V} {old : V → Bool} {fuel : Nat}
    (hg : g.Marks G reached ok present marked noted handled)
    (hstep : ∀ e ∈ G.edges, reached (G.src e) → G.free e = true → G.blocked (G.tgt e) = false →
      old (G.tgt e) = false → reached (G.tgt e))
    (h : Marking G reached ok marked noted handled start old d st p)
    (hfuel : markRounds G d p ≤ fuel) :
    (g.loop fuel d st).1.next = [] ∧
      Marking G reached ok marked noted handled start old (g.loop fuel d st).1
        (g.loop fuel d st).2 [] := by
  induction fuel generalizing d st p with
  | zero =>
    have hp : p = [] := List.length_eq_zero_iff.1 (by unfold markRounds at hfuel; omega)
    have hn : d.next = [] := List.length_eq_zero_iff.1 (by unfold markRounds at hfuel; omega)
    subst hp
    exact ⟨hn, h⟩
  | succ fuel ih =>
    rcases hn : d.next with - | ⟨top, rest⟩
    · have hstk := h.stacked
      rw [hn] at hstk
      obtain rfl := hstk.eq_nil
      simp only [loop, hn]
      exact ⟨trivial, h⟩
    · rw [loop_cons _ _ _ _ hn]
      by_cases hmem : top ∈ d.stack
      · rw [if_pos hmem]
        obtain ⟨h', hlt⟩ := h.leave hn hmem
        exact ih h' (by omega)
      · -- whatever is pushed was reached
        rw [if_neg hmem]
        have htop : reached top := by
          have hstk := h.stacked
          rw [hn] at hstk
          obtain ⟨p', rfl, -⟩ := hstk.of_not_mem hmem
          exact h.pendingReached top List.mem_cons_self
        obtain ⟨d', st', p', heq, h', hlt⟩ := h.enter hg hstep hn hmem
        simp only [(hg.visit h.isOk htop).1, if_true, heq]
        exact ih h' (by omega)

variable (marked) in
/-- A marking search ends without a cycle and marks what it reaches. It notes every vertex that it
reaches, and handles every edge that starts at one. -/
theorem dfs_marks {start : V} {fuel : Nat}
    (hg : g.Marks G (G.Reached (marked st) start) ok present marked noted handled) (hok : ok st)
    (hfuel : 2 * G.edges.length + 2 ≤ fuel) :
    (g.dfs fuel start {} st).1.acyclic = true ∧ (g.dfs fuel start {} st).1.next = [] ∧
      ok (g.dfs fuel start {} st).2 ∧
      (∀ v, marked (g.dfs fuel start {} st).2 v = true ↔
        marked st v = true ∨ G.Reached (marked st) start v) ∧
      (∀ v, G.Reached (marked st) start v → noted (g.dfs fuel start {} st).2 v) ∧
      ∀ e ∈ G.edges, G.Reached (marked st) start (G.src e) →
        handled (g.dfs fuel start {} st).2 e := by
  have hinit : Marking G (G.Reached (marked st) start) ok marked noted handled start (marked st)
      (({} : DFSData V).push start) st [start] := by
    refine ⟨hok, rfl, Stacked.nil.pending (by simp), ?_, ?_, ?_, ?_, ?_, ?_, ?_, ?_⟩
    · simp [DFSData.push]
    · simp [DFSData.push]
    · simp [DFSData.push]
    · intro v hv
      rw [List.mem_singleton.1 hv]
      exact .refl
    · exact .inr List.mem_cons_self
    · simp [DFSData.push]
    · simp [DFSData.push]
    · simp [DFSData.push]
  have hrounds : markRounds G (({} : DFSData V).push start) [start] ≤ fuel := by
    have : edgesLeft G (({} : DFSData V).push start).visited ≤ G.edges.length :=
      List.countP_le_length
    unfold markRounds
    simp only [DFSData.push, List.length_cons, List.length_nil] at this ⊢
    omega
  obtain ⟨hnext, h⟩ := loop_marks hg
    (fun e he hsrc hfree hb hm => hsrc.tail ⟨e, he, hfree, rfl, rfl, hb, hm⟩) hinit hrounds
  change (g.dfs fuel start {} st).1.next = [] at hnext
  change Marking _ _ _ _ _ _ _ _ (g.dfs fuel start {} st).1 (g.dfs fuel start {} st).2 [] at h
  generalize g.dfs fuel start {} st = r at *
  -- nothing is pending, so all edges were seen
  have hclosed : ∀ e ∈ G.edges, G.src e ∈ r.1.visited → Seen G marked handled r.2 e := by
    intro e he hsrc
    rcases h.closed e he hsrc with hseen | ⟨-, hpend⟩
    · exact hseen
    · simp [hnext] at hpend
  have hvisited : ∀ v, G.Reached (marked st) start v → v ∈ r.1.visited := by
    intro v hv
    induction hv with
    | refl => exact h.started.resolve_right (by simp)
    | tail _ hstep ih =>
      obtain ⟨e, he, hfree, rfl, rfl, hblocked, hold⟩ := hstep
      rcases (hclosed e he ih).2 hfree with hm | hb
      · exact ((h.marks _).1 hm).resolve_left (by simp [hold])
      · exact absurd (hb.symm.trans hblocked) (by simp)
  refine ⟨h.acyclic, hnext, h.isOk, fun v => ?_, fun v hv => ?_, fun e he hsrc => ?_⟩
  · rw [h.marks v]
    exact or_congr_right ⟨h.visitedReached v, hvisited v⟩
  · exact h.visitedNoted v (hvisited v hv)
  · exact (hclosed e he (hvisited _ hsrc)).1

end Search

end Idle
