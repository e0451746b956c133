import Idle.Core.Dfs

/-!
# The default mode of the search

Without flags the search leaves as soon as an edge leads back into the stack. It decides whether
a target has been seen when the target is pushed and not when it is entered, so a vertex that is
pushed twice before it is entered is visited twice.

The search always follows the last edge first. It visits a vertex `v` once if, on the walk that
always takes the last edge through which `v` can be reached, only that edge leads to `v`.
-/

namespace Idle

open Relation

/-- A graph and the edges that the filter of a search accepts. -/
structure FilteredGraph (V E : Type) where
  outEdges : V → List E
  target : E → V
  filter : E → Bool

namespace FilteredGraph

variable {V E : Type} (G : FilteredGraph V E)

def accepted (v : V) : List E := (G.outEdges v).filter G.filter

def Edge (v t : V) : Prop := ∃ e ∈ G.accepted v, G.target e = t

def Reaches : V → V → Prop := ReflTransGen G.Edge

def CycleFrom (start : V) : Prop := ∃ v, G.Reaches start v ∧ TransGen G.Edge v v

/-- The last edge of `u` through which `v` can be reached leads to `t`. -/
def LastTo (v u t : V) : Prop :=
  ∃ l₁ e l₂, G.accepted u = l₁ ++ e :: l₂ ∧ G.target e = t ∧ G.Reaches t v ∧
    ∀ e' ∈ l₂, ¬ G.Reaches (G.target e') v

/-- `u` is on the way from `start` to `v` that always takes the last edge. -/
def OnLastWalk (start v u : V) : Prop := ReflTransGen (G.LastTo v) start u

/-- The search in its default mode, with a visitor that descends everywhere and writes down the
vertices it is called with. -/
def search : Search (List V) V E where
  outEdges _ := G.outEdges
  target _ := G.target
  visit log v := (true, log ++ [v])
  filter log e := (G.filter e, log)

variable {G} {u v w t s : V}

/-! ### The last walk -/

lemma exists_last {α : Type} {p : α → Prop} {l : List α} {x : α} (hx : x ∈ l) (hp : p x) :
    ∃ l₁ y l₂, l = l₁ ++ y :: l₂ ∧ p y ∧ ∀ z ∈ l₂, ¬ p z := by
  induction l generalizing x with
  | nil => cases hx
  | cons a l ih =>
    by_cases hl : ∃ y ∈ l, p y
    · obtain ⟨y, hy, hpy⟩ := hl
      obtain ⟨l₁, z, l₂, rfl, hz⟩ := ih hy hpy
      exact ⟨a :: l₁, z, l₂, rfl, hz⟩
    · push Not at hl
      rcases List.mem_cons.1 hx with rfl | hx
      · exact ⟨[], x, l, rfl, hp, hl⟩
      · exact absurd hp (hl x hx)

/-- Two ways to split a list at an element. -/
lemma split_cases {α : Type} {l₁ l₂ l₃ l₄ : List α} {x y : α} (h : l₁ ++ x :: l₂ = l₃ ++ y :: l₄) :
    (x = y ∧ l₂ = l₄) ∨ (x ∈ l₃ ∧ y ∈ l₂) ∨ y ∈ l₁ ∧ x ∈ l₄ ∧ ∀ z ∈ l₂, z ∈ l₄ := by
  rcases List.append_eq_append_iff.1 h with ⟨l, rfl, hl⟩ | ⟨l, rfl, hl⟩
  · cases l with
    | nil =>
      rw [List.nil_append, List.cons.injEq] at hl
      exact .inl hl
    | cons z l =>
      rw [List.cons_append, List.cons.injEq] at hl
      obtain ⟨rfl, rfl⟩ := hl
      exact .inr (.inl ⟨by simp, by simp⟩)
  · cases l with
    | nil =>
      rw [List.nil_append, List.cons.injEq] at hl
      exact .inl ⟨hl.1.symm, hl.2.symm⟩
    | cons z l =>
      rw [List.cons_append, List.cons.injEq] at hl
      obtain ⟨rfl, rfl⟩ := hl
      exact .inr (.inr ⟨by simp, by simp, fun z hz => by simp [hz]⟩)

/-- Something that can be reached can be reached through a last edge. -/
lemma exists_last_edge (h : G.Reaches v w) (hne : v ≠ w) :
    ∃ l₁ e l₂, G.accepted v = l₁ ++ e :: l₂ ∧ G.Reaches (G.target e) w ∧
      ∀ e' ∈ l₂, ¬ G.Reaches (G.target e') w := by
  obtain rfl | ⟨t, ⟨e, he, rfl⟩, ht⟩ := h.cases_head
  · exact absurd rfl hne
  · exact exists_last (p := fun e => G.Reaches (G.target e) w) he ht

lemma LastTo.edge (h : G.LastTo w v t) : G.Edge v t := by
  obtain ⟨l₁, e, l₂, hacc, rfl, -, -⟩ := h
  exact ⟨e, hacc ▸ List.mem_append_right _ List.mem_cons_self, rfl⟩

lemma LastTo.reaches (h : G.LastTo w v t) : G.Reaches t w := by
  obtain ⟨l₁, e, l₂, -, -, ht, -⟩ := h
  exact ht

lemma LastTo.unique (h : G.LastTo w v t) (h' : G.LastTo w v s) : t = s := by
  obtain ⟨l₁, e, l₂, hacc, rfl, ht, hlast⟩ := h
  obtain ⟨l₁', e', l₂', hacc', rfl, ht', hlast'⟩ := h'
  rw [hacc] at hacc'
  rcases split_cases hacc' with ⟨rfl, -⟩ | ⟨-, he⟩ | ⟨-, he, -⟩
  · rfl
  · exact absurd ht' (hlast e' he)
  · exact absurd ht (hlast' e he)

variable [DecidableEq V]

/-- The edges that lead from `u` directly to `v`. -/
def direct (G : FilteredGraph V E) (u v : V) : Nat :=
  (G.accepted u).countP fun e => G.target e = v

/-- A search that enters `v` before it has seen `w` pushes `w` that many times. -/
inductive Pushed (G : FilteredGraph V E) (w : V) : V → Nat → Prop where
  | here : Pushed G w w 0
  | step {v t : V} {k : Nat} : v ≠ w → G.LastTo w v t → Pushed G w t k →
      Pushed G w v (G.direct v w + k)

/-- The last edge to `w` counts, and so does every edge before it. -/
lemma direct_of_last {l₁ l₂ : List E} {e : E} (hacc : G.accepted v = l₁ ++ e :: l₂)
    (hlast : ∀ e' ∈ l₂, ¬ G.Reaches (G.target e') w) :
    G.direct v w = (l₁.countP fun e => G.target e = w) + if G.target e = w then 1 else 0 := by
  have hzero : (l₂.countP fun e => G.target e = w) = 0 := by
    rw [List.countP_eq_zero]
    intro e' he' heq
    rw [decide_eq_true_iff] at heq
    refine hlast e' he' ?_
    rw [heq]
    exact .refl
  rw [direct, hacc, List.countP_append, List.countP_cons, hzero]
  simp

lemma Pushed.pos {k : Nat} (h : G.Pushed w v k) (hne : v ≠ w) : 0 < k := by
  induction h with
  | here => exact absurd rfl hne
  | @step v t k _ hlast _ ih =>
    by_cases ht : t = w
    · obtain ⟨l₁, e, l₂, hacc, rfl, -, hl⟩ := hlast
      rw [direct_of_last hacc hl, if_pos ht]
      omega
    · have := ih ht
      omega

/-- On the walk to `v` the edges to `v` are last. -/
def LastOnWalk (G : FilteredGraph V E) (start v : V) : Prop :=
  ∀ u l₁ e l₂, G.OnLastWalk start v u → G.accepted u = l₁ ++ e :: l₂ → G.target e = v →
    ∀ e' ∈ l₂, ¬ G.Reaches (G.target e') v

/-- If an edge to `w` is not the last way to `w`, then `w` is pushed again. -/
lemma Pushed.lastOnWalk {k : Nat} (h : G.Pushed w v k) (hk : k ≤ 1)
    (hcyc : ¬ TransGen G.Edge w w) : G.LastOnWalk v w := by
  induction h with
  | here =>
    rintro u l₁ e l₂ hu hacc rfl e' -
    -- the walk does not leave its end
    exfalso
    rcases hu.cases_head with rfl | ⟨t, ht, -⟩
    · exact hcyc (.single ⟨e, hacc ▸ List.mem_append_right _ List.mem_cons_self, rfl⟩)
    · exact hcyc (.head' ht.edge ht.reaches)
  | @step v t k hne hlast hp ih =>
    intro u l₁ e l₂ hu hacc he e' he' hreach
    rcases hu.cases_head with rfl | ⟨t', ht', hu⟩
    · -- the last way to `w` comes after `e`
      obtain ⟨l₃, x, l₄, hacc', rfl, hx, hl⟩ := hlast
      have hdirect := direct_of_last hacc' hl
      have hmem : e ∈ l₃ := by
        rw [hacc] at hacc'
        rcases split_cases hacc' with ⟨-, rfl⟩ | ⟨hmem, -⟩ | ⟨-, -, hsub⟩
        · exact absurd hreach (hl e' he')
        · exact hmem
        · exact absurd hreach (hl e' (hsub e' he'))
      have hpos : 0 < l₃.countP fun e => G.target e = w := by
        rw [List.countP_pos_iff]
        exact ⟨e, hmem, decide_eq_true he⟩
      by_cases hxw : G.target x = w
      · rw [if_pos hxw] at hdirect
        omega
      · have := hp.pos hxw
        omega
    · rw [ht'.unique hlast] at hu
      exact ih (by omega) u l₁ e l₂ hu hacc he e' he' hreach

/-- If the edges to `w` are the last ways to `w`, then `w` is pushed once. -/
lemma Pushed.eq_one {k : Nat} (h : G.Pushed w v k) (hne : v ≠ w) (hl : G.LastOnWalk v w) :
    k = 1 := by
  induction h with
  | here => exact absurd rfl hne
  | @step v t k _ hlast hp ih =>
    have hwalk : ∀ u, G.OnLastWalk t w u → G.OnLastWalk v w u := fun u hu => .head hlast hu
    have hstep : ∀ e ∈ G.accepted v, G.target e = w → t = w := by
      intro e he heq
      obtain ⟨l₃, l₄, hacc'⟩ := List.append_of_mem he
      have : G.LastTo w v w := ⟨l₃, e, l₄, hacc', heq, .refl, hl v l₃ e l₄ .refl hacc' heq⟩
      exact hlast.unique this
    by_cases ht : t = w
    · obtain ⟨l₁, e, l₂, hacc, rfl, -, hl₂⟩ := hlast
      have hk : k = 0 := by
        cases hp with
        | here => rfl
        | step hne' _ _ => exact absurd ht hne'
      have hzero : (l₁.countP fun e => G.target e = w) = 0 := by
        rw [List.countP_eq_zero]
        intro e' he' heq
        obtain ⟨l₃, l₄, rfl⟩ := List.append_of_mem he'
        refine hl v l₃ e' (l₄ ++ e :: l₂) .refl (by simp [hacc]) (of_decide_eq_true heq) e
          (List.mem_append_right _ List.mem_cons_self) ?_
        rw [ht]
        exact .refl
      rw [direct_of_last hacc hl₂, if_pos ht, hzero, hk]
    · have hzero : G.direct v w = 0 := by
        rw [direct, List.countP_eq_zero]
        intro e he heq
        exact ht (hstep e he (of_decide_eq_true heq))
      rw [hzero, ih ht fun u l₁ e l₂ hu => hl u l₁ e l₂ (hwalk u hu)]

/-! ### One vertex -/

variable {d d' d₁ : DFSData V} {log log' log₁ : List V} {vs rest : List V}

/-- What has been left leads only to what has been left, and not into a cycle. -/
structure Closed (G : FilteredGraph V E) (d : DFSData V) : Prop where
  edge : ∀ v ∈ d.visited, v ∉ d.stack → ∀ t, G.Edge v t → t ∈ d.visited ∧ t ∉ d.stack
  noCycle : ∀ v ∈ d.visited, v ∉ d.stack → ¬ TransGen G.Edge v v

omit [DecidableEq V] in
lemma Closed.reaches (h : G.Closed d) (hv : v ∈ d.visited) (hs : v ∉ d.stack)
    (hr : G.Reaches v w) : w ∈ d.visited ∧ w ∉ d.stack := by
  induction hr with
  | refl => exact ⟨hv, hs⟩
  | tail _ he ih => exact h.edge _ ih.1 ih.2 _ he

/-- The vertices `vs` on top of `next` are about to be explored. -/
structure Ready (G : FilteredGraph V E) (vs rest : List V) (d : DFSData V) : Prop where
  acyclic : d.acyclic = true
  next : d.next = vs ++ rest
  nodup : d.stack.Nodup
  visited : ∀ v ∈ d.stack, v ∈ d.visited
  closed : G.Closed d
  notMem : ∀ v ∈ vs, v ∉ d.stack
  path : ∀ s ∈ d.stack, ∀ v ∈ vs, TransGen G.Edge s v

/-- The vertices `vs` on top of `next` have been explored. -/
structure Explored (G : FilteredGraph V E) (vs rest : List V) (d : DFSData V) (log : List V)
    (d' : DFSData V) (log' : List V) : Prop where
  acyclic : d'.acyclic = true
  next : d'.next = rest
  stack : d'.stack = d.stack
  visited : ∀ w, w ∈ d'.visited ↔ w ∈ d.visited ∨ ∃ v ∈ vs, G.Reaches v w
  closed : G.Closed d'
  again : ∀ w ∈ d.visited, log'.count w = log.count w + vs.count w
  unreached : ∀ w, (∀ v ∈ vs, ¬ G.Reaches v w) → log'.count w = log.count w
  reached : ∀ w ∉ d.visited, ∀ l₁ v l₂, vs = l₁ ++ v :: l₂ → (∀ u ∈ l₁, ¬ G.Reaches u w) →
    G.Reaches v w → ∃ k, G.Pushed w v k ∧ log'.count w = log.count w + vs.count w + k

/-- A search explores `vs`, or it meets a cycle that can be reached from there. -/
def Explores (G : FilteredGraph V E) (vs rest : List V) (d : DFSData V) (log : List V) : Prop :=
  ∃ n, ((∀ fuel, (G.search.loop (n + fuel) d log).1.acyclic = false) ∧ ∃ v ∈ vs, G.CycleFrom v) ∨
    ∃ d' log', (∀ fuel, G.search.loop (n + fuel) d log = G.search.loop fuel d' log') ∧
      G.Explored vs rest d log d' log'

/-- The targets that an expansion pushes, the last one first. -/
def pushes (G : FilteredGraph V E) (visited : List V) (es : List E) : List V :=
  (((es.filter G.filter).map G.target).filter (· ∉ visited)).reverse

lemma expand_cons (e : E) (es : List E) (d : DFSData V) (log : List V) :
    G.search.expand (e :: es) d log =
      if G.filter e then
        if G.target e ∉ d.visited then G.search.expand es (d.push (G.target e)) log
        else if G.target e ∈ d.stack then ({ d with acyclic := false }, log, false)
        else G.search.expand es d log
      else G.search.expand es d log := rfl

/-- An edge into the stack ends the search. -/
lemma expand_of_mem (es : List E) (d : DFSData V) (log : List V)
    (h : ∃ e ∈ es.filter G.filter, G.target e ∈ d.visited ∧ G.target e ∈ d.stack) :
    (G.search.expand es d log).1.acyclic = false ∧ (G.search.expand es d log).2.2 = false := by
  induction es generalizing d with
  | nil => simp at h
  | cons e es ih =>
    obtain ⟨x, hx, hxv, hxs⟩ := h
    rw [expand_cons]
    by_cases hf : G.filter e = true
    · rw [if_pos hf]
      rw [List.filter_cons_of_pos hf] at hx
      by_cases hv : G.target e ∈ d.visited
      · rw [if_neg (not_not.2 hv)]
        by_cases hs : G.target e ∈ d.stack
        · rw [if_pos hs]
          exact ⟨rfl, rfl⟩
        · rw [if_neg hs]
          rcases List.mem_cons.1 hx with rfl | hx
          · exact absurd hxs hs
          · exact ih _ ⟨x, hx, hxv, hxs⟩
      · rw [if_pos hv]
        rcases List.mem_cons.1 hx with rfl | hx
        · exact absurd hxv hv
        · exact ih _ ⟨x, hx, hxv, hxs⟩
    · rw [if_neg hf]
      rw [List.filter_cons_of_neg hf] at hx
      exact ih _ ⟨x, hx, hxv, hxs⟩

lemma expand_of_notMem (es : List E) (d : DFSData V) (log : List V)
    (h : ∀ e ∈ es.filter G.filter, G.target e ∈ d.visited → G.target e ∉ d.stack) :
    G.search.expand es d log = ({ d with next := G.pushes d.visited es ++ d.next }, log, true) := by
  induction es generalizing d with
  | nil => rfl
  | cons e es ih =>
    rw [expand_cons]
    by_cases hf : G.filter e = true
    · have he := h e (by simp [hf])
      have h' : ∀ e ∈ es.filter G.filter, G.target e ∈ d.visited → G.target e ∉ d.stack :=
        fun x hx => h x (by simpa [hf] using .inr (List.mem_filter.1 hx))
      rw [if_pos hf]
      by_cases hv : G.target e ∈ d.visited
      · rw [if_neg (not_not.2 hv), if_neg (he hv), ih _ h']
        simp [pushes, hf, hv]
      · have hpush : G.pushes d.visited (e :: es) = G.pushes d.visited es ++ [G.target e] := by
          simp [pushes, hf, hv]
        rw [if_pos hv, ih (d.push (G.target e)) h', hpush, List.append_assoc]
        rfl
    · rw [if_neg hf, ih _ fun x hx => h x (by simpa [hf] using List.mem_filter.1 hx)]
      simp [pushes, hf]

lemma mem_pushes {visited : List V} :
    t ∈ G.pushes visited (G.outEdges v) ↔ G.Edge v t ∧ t ∉ visited := by
  simp [pushes, Edge, accepted]

lemma count_pushes {visited : List V} (h : w ∉ visited) :
    (G.pushes visited (G.outEdges v)).count w = G.direct v w := by
  rw [pushes, List.count_reverse, List.count_filter (by simpa using h), direct, accepted,
    List.count, List.countP_map]
  exact List.countP_congr fun e _ => by simp

/-- The last edge through which `w` can be reached is followed first. -/
lemma exists_pushes_eq {visited : List V} (hvisited : ∀ t ∈ visited, G.Edge v t → ¬ G.Reaches t w)
    (h : G.Reaches v w) (hne : v ≠ w) :
    ∃ l₁ t l₂, G.pushes visited (G.outEdges v) = l₁ ++ t :: l₂ ∧ (∀ u ∈ l₁, ¬ G.Reaches u w) ∧
      G.LastTo w v t := by
  obtain ⟨l₁, e, l₂, hacc, he, hlast⟩ := exists_last_edge h hne
  have hedge : G.Edge v (G.target e) := ⟨e, hacc ▸ by simp, rfl⟩
  have hnot : G.target e ∉ visited := fun hmem => hvisited _ hmem hedge he
  refine ⟨((l₂.map G.target).filter (· ∉ visited)).reverse, G.target e,
    ((l₁.map G.target).filter (· ∉ visited)).reverse, ?_, ?_, l₁, e, l₂, hacc, rfl, he, hlast⟩
  · rw [pushes, ← accepted, hacc]
    simp [hnot]
  · intro u hu
    obtain ⟨⟨e', he', rfl⟩, -⟩ : (∃ e' ∈ l₂, G.target e' = u) ∧ u ∉ visited := by
      simpa using hu
    exact hlast e' he'

/-! ### The loop -/

lemma loop_enter (fuel : Nat) {v : V} (hnext : d.next = v :: rest) (hv : v ∉ d.stack) :
    G.search.loop (fuel + 1) d log =
      if (G.search.expand (G.outEdges v) (d.enter v) (log ++ [v])).2.2 then
        G.search.loop fuel (G.search.expand (G.outEdges v) (d.enter v) (log ++ [v])).1
          (G.search.expand (G.outEdges v) (d.enter v) (log ++ [v])).2.1
      else ((G.search.expand (G.outEdges v) (d.enter v) (log ++ [v])).1,
        (G.search.expand (G.outEdges v) (d.enter v) (log ++ [v])).2.1) := by
  rw [Search.loop_cons _ _ _ _ hnext, if_neg hv]
  rfl

lemma loop_leave (fuel : Nat) {v : V} (hnext : d.next = v :: rest) (hv : v ∈ d.stack) :
    G.search.loop (fuel + 1) d log = G.search.loop fuel (d.leave v) log := by
  rw [Search.loop_cons _ _ _ _ hnext, if_pos hv]

lemma loop_nil (fuel : Nat) (hnext : d.next = []) : G.search.loop fuel d log = (d, log) := by
  cases fuel with
  | zero => rfl
  | succ fuel => simp only [Search.loop, hnext]

/-- The vertex on top has been left before: its targets have been left as well, and nothing is
pushed. -/
lemma explores_again (h : G.Ready [v] rest d) (hv : v ∈ d.visited) :
    ∃ d' log', (∀ fuel, G.search.loop (2 + fuel) d log = G.search.loop fuel d' log') ∧
      G.Explored [v] rest d log d' log' := by
  have hvs : v ∉ d.stack := h.notMem v List.mem_cons_self
  have hclosed : ∀ t, G.Edge v t → t ∈ d.visited ∧ t ∉ d.stack := h.closed.edge v hv hvs
  have hpushes : G.pushes (d.enter v).visited (G.outEdges v) = [] := by
    rw [List.eq_nil_iff_forall_not_mem]
    intro t ht
    obtain ⟨he, hnot⟩ := mem_pushes.1 ht
    exact hnot (List.mem_cons_of_mem _ (hclosed t he).1)
  -- no edge leads into the stack: a vertex that was left lies on no cycle
  have hexpand := G.expand_of_notMem (G.outEdges v) (d.enter v) (log ++ [v])
    (by
      intro e he _ hs
      have hedge : G.Edge v (G.target e) := ⟨e, he, rfl⟩
      rcases List.mem_cons.1 hs with heq | hs
      · rw [heq] at hedge
        exact h.closed.noCycle v hv hvs (.single hedge)
      · exact (hclosed _ hedge).2 hs)
  rw [hpushes, List.nil_append] at hexpand
  have hnext : (d.enter v).next = v :: rest := h.next
  refine ⟨(d.enter v).leave v, log ++ [v], fun fuel => ?_, ?_⟩
  · rw [show 2 + fuel = (fuel + 1) + 1 by omega, loop_enter _ h.next hvs, hexpand]
    exact loop_leave _ hnext List.mem_cons_self
  · have hstack : ((d.enter v).leave v).stack = d.stack := List.erase_cons_head ..
    have hvisited : ∀ w, w ∈ ((d.enter v).leave v).visited ↔ w ∈ d.visited := by
      intro w
      refine List.mem_cons.trans ⟨?_, .inr⟩
      rintro (rfl | hw)
      · exact hv
      · exact hw
    refine ⟨h.acyclic, ?_, hstack, fun w => ?_, ⟨?_, ?_⟩, ?_, ?_, ?_⟩
    · exact congrArg List.tail h.next
    · rw [hvisited]
      refine ⟨.inl, ?_⟩
      rintro (hw | ⟨u, hu, hr⟩)
      · exact hw
      · rw [List.mem_singleton.1 hu] at hr
        exact (h.closed.reaches hv hvs hr).1
    · intro u hu hs t ht
      rw [hvisited] at hu ⊢
      rw [hstack] at hs ⊢
      exact h.closed.edge u hu hs t ht
    · intro u hu hs
      rw [hvisited] at hu
      rw [hstack] at hs
      exact h.closed.noCycle u hu hs
    · intro w _
      exact List.count_append
    · intro w hw
      have hne : v ≠ w := by
        rintro rfl
        exact hw v List.mem_cons_self .refl
      simp [hne]
    · intro w hw l₁ u l₂ hl _ hr
      have hu : u = v := by
        rw [← List.mem_singleton, hl]
        simp
      exact absurd (h.closed.reaches hv hvs (hu ▸ hr)).1 hw

/-- A new vertex is entered and its targets are pushed. -/
def descend (G : FilteredGraph V E) (d : DFSData V) (v : V) : DFSData V :=
  { d.enter v with next := G.pushes (v :: d.visited) (G.outEdges v) ++ d.next }

lemma ready_descend (h : G.Ready [v] rest d) (hv : v ∉ d.visited) :
    G.Ready (G.pushes (v :: d.visited) (G.outEdges v)) (v :: rest) (G.descend d v) := by
  have hvs : v ∉ d.stack := h.notMem v List.mem_cons_self
  have hstack : (G.descend d v).stack = v :: d.stack := rfl
  have hvisited : (G.descend d v).visited = v :: d.visited := rfl
  refine ⟨h.acyclic, ?_, ?_, ?_, ⟨?_, ?_⟩, ?_, ?_⟩
  · exact congrArg _ h.next
  · exact List.nodup_cons.2 ⟨hvs, h.nodup⟩
  · intro u hu
    rw [hstack] at hu
    rw [hvisited]
    rcases List.mem_cons.1 hu with rfl | hu
    · exact List.mem_cons_self
    · exact List.mem_cons_of_mem _ (h.visited u hu)
  · intro u hu hs t ht
    rw [hstack, List.mem_cons, not_or] at hs
    rw [hvisited] at hu
    obtain ⟨htv, hts⟩ := h.closed.edge u ((List.mem_cons.1 hu).resolve_left hs.1) hs.2 t ht
    have hne : t ≠ v := fun heq => hv (heq ▸ htv)
    rw [hstack, List.mem_cons, not_or]
    exact ⟨List.mem_cons_of_mem _ htv, hne, hts⟩
  · intro u hu hs
    rw [hstack, List.mem_cons, not_or] at hs
    rw [hvisited] at hu
    exact h.closed.noCycle u ((List.mem_cons.1 hu).resolve_left hs.1) hs.2
  · intro t ht hs
    rw [hstack] at hs
    refine (mem_pushes.1 ht).2 ?_
    rcases List.mem_cons.1 hs with rfl | hs
    · exact List.mem_cons_self
    · exact List.mem_cons_of_mem _ (h.visited t hs)
  · intro u hu t ht
    have hedge := (mem_pushes.1 ht).1
    rw [hstack] at hu
    rcases List.mem_cons.1 hu with rfl | hu
    · exact .single hedge
    · exact (h.path u hu v List.mem_cons_self).tail hedge

/-- The targets of a new vertex have been explored, and it is left. -/
lemma explored_descend (h : G.Ready [v] rest d) (hv : v ∉ d.visited)
    (hstack : ∀ t, G.Edge v t → t ∈ v :: d.visited → t ∉ v :: d.stack)
    (hts : G.Explored (G.pushes (v :: d.visited) (G.outEdges v)) (v :: rest) (G.descend d v)
      (log ++ [v]) d' log') :
    G.Explored [v] rest d log (d'.leave v) log' := by
  have hvs : v ∉ d.stack := h.notMem v List.mem_cons_self
  have hst : d'.stack = v :: d.stack := hts.stack
  have hleave : (d'.leave v).stack = d.stack := by
    rw [DFSData.leave, hst]
    exact List.erase_cons_head ..
  have hmem : ∀ w, w ∈ d'.visited ↔ w ∈ v :: d.visited ∨
      ∃ t ∈ G.pushes (v :: d.visited) (G.outEdges v), G.Reaches t w := hts.visited
  have hvd : v ∈ d'.visited := (hmem v).2 (.inl List.mem_cons_self)
  -- every target of `v` has been left
  have htarget : ∀ t, G.Edge v t → t ∈ d'.visited ∧ t ∉ d'.stack := by
    intro t ht
    by_cases htv : t ∈ v :: d.visited
    · exact ⟨(hmem t).2 (.inl htv), hst ▸ hstack t ht htv⟩
    · refine ⟨(hmem t).2 (.inr ⟨t, mem_pushes.2 ⟨ht, htv⟩, .refl⟩), fun hs => htv ?_⟩
      rw [hst] at hs
      rcases List.mem_cons.1 hs with rfl | hs
      · exact List.mem_cons_self
      · exact List.mem_cons_of_mem _ (h.visited t hs)
  have hreach : ∀ w, G.Reaches v w → w = v ∨ w ∈ d'.visited ∧ w ∉ d'.stack := by
    intro w hw
    rcases hw.cases_head with rfl | ⟨t, ht, hw⟩
    · exact .inl rfl
    · exact .inr (hts.closed.reaches (htarget t ht).1 (htarget t ht).2 hw)
  have hcycle : ¬ TransGen G.Edge v v := by
    intro hc
    obtain ⟨t, ht, hr⟩ := TransGen.head'_iff.1 hc
    have hleft := hts.closed.reaches (htarget t ht).1 (htarget t ht).2 hr
    rw [hst] at hleft
    exact hleft.2 List.mem_cons_self
  -- what was left before does not lead to anything new
  have hold : ∀ w, w ∉ v :: d.visited → ∀ t ∈ v :: d.visited, G.Edge v t → ¬ G.Reaches t w := by
    intro w hw t ht hedge hr
    have hne := hstack t hedge ht
    rw [List.mem_cons, not_or] at hne
    exact hw (List.mem_cons_of_mem _
      (h.closed.reaches ((List.mem_cons.1 ht).resolve_left hne.1) hne.2 hr).1)
  refine ⟨hts.acyclic, ?_, hleave, fun w => ?_, ⟨?_, ?_⟩, ?_, ?_, ?_⟩
  · exact congrArg List.tail hts.next
  · refine (hmem w).trans ⟨?_, ?_⟩
    · rintro (hw | ⟨t, ht, hw⟩)
      · rcases List.mem_cons.1 hw with rfl | hw
        · exact .inr ⟨w, List.mem_cons_self, .refl⟩
        · exact .inl hw
      · exact .inr ⟨v, List.mem_cons_self, .head (mem_pushes.1 ht).1 hw⟩
    · rintro (hw | ⟨u, hu, hw⟩)
      · exact .inl (List.mem_cons_of_mem _ hw)
      · rw [List.mem_singleton.1 hu] at hw
        rcases hreach w hw with rfl | hw
        · exact .inl List.mem_cons_self
        · exact (hmem w).1 hw.1
  · intro u hu hs t ht
    rw [hleave] at hs ⊢
    by_cases huv : u = v
    · obtain ⟨htv, hts⟩ := htarget t (huv ▸ ht)
      rw [hst, List.mem_cons, not_or] at hts
      exact ⟨htv, hts.2⟩
    · obtain ⟨htv, hts⟩ := hts.closed.edge u hu (by simp [hst, huv, hs]) t ht
      rw [hst, List.mem_cons, not_or] at hts
      exact ⟨htv, hts.2⟩
  · intro u hu hs
    rw [hleave] at hs
    by_cases huv : u = v
    · exact huv ▸ hcycle
    · exact hts.closed.noCycle u hu (by simp [hst, huv, hs])
  · intro w hw
    have hne : v ≠ w := fun heq => hv (heq ▸ hw)
    have hmemw : w ∈ v :: d.visited := List.mem_cons_of_mem _ hw
    have hcount : (G.pushes (v :: d.visited) (G.outEdges v)).count w = 0 :=
      List.count_eq_zero.2 fun hc => (mem_pushes.1 hc).2 hmemw
    rw [hts.again w hmemw, hcount, List.count_append]
    rfl
  · intro w hw
    have hvw : ¬ G.Reaches v w := hw v List.mem_cons_self
    have hne : v ≠ w := by
      rintro rfl
      exact hvw .refl
    rw [hts.unreached w fun t ht hr => hvw (.head (mem_pushes.1 ht).1 hr)]
    simp [hne]
  · intro w hw l₁ u l₂ hl hbefore hr
    obtain ⟨rfl, rfl, rfl⟩ : l₁ = [] ∧ u = v ∧ l₂ = [] := by
      cases l₁ with
      | nil => simpa [eq_comm] using hl
      | cons x l₁ => simp at hl
    by_cases huw : u = w
    · subst huw
      have hcount : (G.pushes (u :: d.visited) (G.outEdges u)).count u = 0 :=
        List.count_eq_zero.2 fun hc => (mem_pushes.1 hc).2 List.mem_cons_self
      refine ⟨0, .here, ?_⟩
      rw [hts.again u List.mem_cons_self, hcount, List.count_append]
    · have hmemw : w ∉ u :: d.visited := by simp [Ne.symm huw, hw]
      obtain ⟨l₁, t, l₂, heq, hfirst, hlast⟩ := exists_pushes_eq (hold w hmemw) hr huw
      obtain ⟨k, hk, hcount⟩ := hts.reached w hmemw l₁ t l₂ heq hfirst hlast.reaches
      refine ⟨_, .step huw hlast hk, ?_⟩
      rw [hcount, count_pushes hmemw, List.count_append]
      simp [huw]
      omega

/-! ### The whole search -/

omit [DecidableEq V] in
lemma Ready.head (h : G.Ready (v :: vs) rest d) : G.Ready [v] (vs ++ rest) d := by
  refine ⟨h.acyclic, h.next, h.nodup, h.visited, h.closed, fun u hu => ?_, fun s hs u hu => ?_⟩
  · exact h.notMem u (by simp [List.mem_singleton.1 hu])
  · exact h.path s hs u (by simp [List.mem_singleton.1 hu])

lemma Ready.tail (h : G.Ready (v :: vs) rest d)
    (h₁ : G.Explored [v] (vs ++ rest) d log d₁ log₁) : G.Ready vs rest d₁ := by
  refine ⟨h₁.acyclic, h₁.next, h₁.stack ▸ h.nodup, ?_, h₁.closed, ?_, ?_⟩
  · intro u hu
    rw [h₁.stack] at hu
    exact (h₁.visited u).2 (.inl (h.visited u hu))
  · intro u hu
    rw [h₁.stack]
    exact h.notMem u (List.mem_cons_of_mem _ hu)
  · intro s hs u hu
    rw [h₁.stack] at hs
    exact h.path s hs u (List.mem_cons_of_mem _ hu)

lemma explored_nil (h : G.Ready [] rest d) : G.Explored [] rest d log d log := by
  refine ⟨h.acyclic, h.next, rfl, ?_, h.closed, ?_, ?_, ?_⟩
  · simp
  · simp
  · exact fun _ _ => rfl
  · intro w _ l₁ v l₂ hl
    simp at hl

lemma explored_cons (h₁ : G.Explored [v] (vs ++ rest) d log d₁ log₁)
    (h₂ : G.Explored vs rest d₁ log₁ d' log') : G.Explored (v :: vs) rest d log d' log' := by
  have hcount : ∀ w, (v :: vs).count w = [v].count w + vs.count w := fun w => by
    rw [← List.singleton_append, List.count_append]
  have hvisited : ∀ w, w ∈ d₁.visited ↔ w ∈ d.visited ∨ G.Reaches v w := by
    intro w
    rw [h₁.visited w]
    simp
  refine ⟨h₂.acyclic, h₂.next, h₂.stack.trans h₁.stack, ?_, h₂.closed, ?_, ?_, ?_⟩
  · intro w
    rw [h₂.visited w, hvisited w]
    simp [or_assoc]
  · intro w hw
    rw [h₂.again w ((hvisited w).2 (.inl hw)), h₁.again w hw, hcount, Nat.add_assoc]
  · intro w hw
    rw [h₂.unreached w fun u hu => hw u (List.mem_cons_of_mem _ hu)]
    exact h₁.unreached w fun u hu => hw u (by simp [List.mem_singleton.1 hu])
  · intro w hw l₁ u l₂ hl hbefore hr
    cases l₁ with
    | nil =>
      -- `v` leads to `w`, so `w` has been seen when the others are explored
      rw [List.nil_append, List.cons.injEq] at hl
      obtain ⟨rfl, rfl⟩ := hl
      obtain ⟨k, hk, hc⟩ := h₁.reached w hw [] v [] rfl (by simp) hr
      refine ⟨k, hk, ?_⟩
      rw [h₂.again w ((hvisited w).2 (.inr hr)), hc, hcount]
      omega
    | cons x l₁ =>
      rw [List.cons_append, List.cons.injEq] at hl
      obtain ⟨rfl, rfl⟩ := hl
      have hv : ¬ G.Reaches v w := hbefore v List.mem_cons_self
      have hne : v ≠ w := by
        rintro rfl
        exact hv .refl
      have hw₁ : w ∉ d₁.visited := by
        rw [hvisited]
        exact not_or.2 ⟨hw, hv⟩
      obtain ⟨k, hk, hc⟩ := h₂.reached w hw₁ l₁ u l₂ rfl
        (fun y hy => hbefore y (List.mem_cons_of_mem _ hy)) hr
      refine ⟨k, hk, ?_⟩
      rw [hc, hcount, h₁.unreached w fun y hy => List.mem_singleton.1 hy ▸ hv]
      simp [hne]

variable [Fintype V]

def unseen (visited : List V) : Nat := (Finset.univ.filter fun v => v ∉ visited).card

lemma unseen_cons_lt {visited : List V} (hv : v ∉ visited) :
    unseen (v :: visited) < unseen visited := by
  refine Finset.card_lt_card (Finset.ssubset_iff_subset_ne.2 ⟨fun w hw => ?_, fun heq => ?_⟩)
  · simp only [Finset.mem_filter, Finset.mem_univ, true_and, List.mem_cons, not_or] at hw ⊢
    exact hw.2
  · have : v ∈ Finset.univ.filter fun w => w ∉ v :: visited := by
      rw [heq]
      simpa using hv
    simp at this

lemma unseen_mono {visited visited' : List V} (h : ∀ w ∈ visited, w ∈ visited') :
    unseen visited' ≤ unseen visited := by
  refine Finset.card_le_card fun w hw => ?_
  simp only [Finset.mem_filter, Finset.mem_univ, true_and] at hw ⊢
  exact fun hmem => hw (h w hmem)

/-- One vertex is explored if the targets of a new vertex are. -/
lemma explores_singleton (h : G.Ready [v] rest d)
    (ih : v ∉ d.visited → G.Explores (G.pushes (v :: d.visited) (G.outEdges v)) (v :: rest)
      (G.descend d v) (log ++ [v])) : G.Explores [v] rest d log := by
  have hvs : v ∉ d.stack := h.notMem v List.mem_cons_self
  by_cases hv : v ∈ d.visited
  · exact ⟨2, .inr (explores_again h hv)⟩
  -- without a cycle the targets are explored first, and the vertex is left after them
  by_cases hstack : ∀ t, G.Edge v t → t ∈ v :: d.visited → t ∉ v :: d.stack
  · have hexpand := expand_of_notMem (G.outEdges v) (d.enter v) (log ++ [v])
      fun e he => hstack _ ⟨e, he, rfl⟩
    have hloop : ∀ fuel, G.search.loop (fuel + 1) d log =
        G.search.loop fuel (G.descend d v) (log ++ [v]) := by
      intro fuel
      rw [loop_enter _ h.next hvs, hexpand, if_pos rfl]
      rfl
    obtain ⟨n, ⟨hfail, t, ht, hc⟩ | ⟨d', log', hrun, hd⟩⟩ := ih hv
    · obtain ⟨w, hw, hww⟩ := hc
      refine ⟨n + 1, .inl ⟨fun fuel => ?_, v, List.mem_cons_self, w,
        .head (mem_pushes.1 ht).1 hw, hww⟩⟩
      rw [Nat.add_right_comm, hloop]
      exact hfail fuel
    · refine ⟨n + 2, .inr ⟨d'.leave v, log', fun fuel => ?_, explored_descend h hv hstack hd⟩⟩
      have hleave : v ∈ d'.stack := hd.stack ▸ List.mem_cons_self
      rw [show n + 2 + fuel = n + (fuel + 1) + 1 by omega, hloop, hrun]
      exact loop_leave _ hd.next hleave
  · -- an edge leads back into the stack
    push Not at hstack
    obtain ⟨t, ht, htv, hts⟩ := hstack
    have hcycle : TransGen G.Edge v v := by
      rcases List.mem_cons.1 hts with rfl | hs
      · exact .single ht
      · exact .head ht (h.path t hs v List.mem_cons_self)
    obtain ⟨e, he, rfl⟩ := ht
    obtain ⟨hfail, hstop⟩ := expand_of_mem (G.outEdges v) (d.enter v) (log ++ [v])
      ⟨e, he, htv, hts⟩
    refine ⟨1, .inl ⟨fun fuel => ?_, v, List.mem_cons_self, v, .refl, hcycle⟩⟩
    rw [Nat.add_comm, loop_enter _ h.next hvs, hstop]
    exact hfail

/-- By induction on the vertices that have not been seen, and on those to be explored. -/
lemma explores_of_ready (h : G.Ready vs rest d) : G.Explores vs rest d log := by
  obtain ⟨m, hm⟩ : ∃ m, unseen d.visited ≤ m := ⟨_, le_rfl⟩
  induction m using Nat.strong_induction_on generalizing vs rest d log with
  | _ m ih =>
    induction vs generalizing d log with
    | nil => exact ⟨0, .inr ⟨d, log, fun fuel => by rw [Nat.zero_add], explored_nil h⟩⟩
    | cons v vs ihvs =>
      have hhead : G.Explores [v] (vs ++ rest) d log := by
        refine explores_singleton h.head fun hv => ?_
        exact ih _ (lt_of_lt_of_le (unseen_cons_lt hv) hm) (ready_descend h.head hv) le_rfl
      obtain ⟨n, ⟨hfail, u, hu, hc⟩ | ⟨d₁, log₁, hrun, h₁⟩⟩ := hhead
      · refine ⟨n, .inl ⟨hfail, v, List.mem_cons_self, ?_⟩⟩
        rwa [List.mem_singleton.1 hu] at hc
      · have hle : unseen d₁.visited ≤ m :=
          (unseen_mono fun w hw => (h₁.visited w).2 (.inl hw)).trans hm
        obtain ⟨n', ⟨hfail, u, hu, hc⟩ | ⟨d', log', hrun', h₂⟩⟩ :=
          (ihvs (h.tail h₁) hle : G.Explores vs rest d₁ log₁)
        · refine ⟨n + n', .inl ⟨fun fuel => ?_, u, List.mem_cons_of_mem _ hu, hc⟩⟩
          rw [Nat.add_assoc, hrun]
          exact hfail fuel
        · refine ⟨n + n', .inr ⟨d', log', fun fuel => ?_, explored_cons h₁ h₂⟩⟩
          rw [Nat.add_assoc, hrun, hrun']

omit [DecidableEq V] [Fintype V] in
lemma ready_start (start : V) : G.Ready [start] [] (({} : DFSData V).push start) :=
  ⟨rfl, rfl, List.nodup_nil, fun _ h => absurd h List.not_mem_nil,
    ⟨fun _ h => absurd h List.not_mem_nil, fun _ h => absurd h List.not_mem_nil⟩,
    fun _ _ => List.not_mem_nil, fun _ h => absurd h List.not_mem_nil⟩

/-- What the search in its default mode is for: it ends, it visits what it can reach once unless
it reports a cycle, and it reports a cycle if there is one. -/
def Decides (G : FilteredGraph V E) (start : V) : Prop :=
  ∃ n, ∀ fuel ≥ n, ∀ d log, G.search.dfs fuel start {} [] = (d, log) →
    (d.next = [] ∨ d.acyclic = false) ∧
    (d.acyclic = true → (∀ v, G.Reaches start v → log.count v = 1) ∧
      ∀ v ∈ log, G.Reaches start v) ∧
    (d.acyclic = false ↔ G.CycleFrom start)

/-- A search that ends without a cycle has visited a vertex once, and once more for every time it
was pushed again. -/
lemma dfs_cases (start : V) :
    (∃ n, (∀ fuel ≥ n, (G.search.dfs fuel start {} []).1.acyclic = false) ∧ G.CycleFrom start) ∨
    ∃ n d log, (∀ fuel ≥ n, G.search.dfs fuel start {} [] = (d, log)) ∧ d.acyclic = true ∧
      d.next = [] ∧ ¬ G.CycleFrom start ∧ (∀ v ∈ log, G.Reaches start v) ∧
      ∀ v, G.Reaches start v → ∃ k, G.Pushed v start k ∧ log.count v = [start].count v + k := by
  obtain ⟨n, ⟨hfail, u, hu, hc⟩ | ⟨d, log, hrun, hd⟩⟩ :=
    (explores_of_ready (G.ready_start start) : G.Explores [start] [] _ [])
  · rw [List.mem_singleton.1 hu] at hc
    refine .inl ⟨n, fun fuel hn => ?_, hc⟩
    obtain ⟨k, rfl⟩ := Nat.exists_eq_add_of_le hn
    exact hfail k
  · have hleft : ∀ v, G.Reaches start v → v ∈ d.visited ∧ v ∉ d.stack := by
      intro v hv
      refine ⟨(hd.visited v).2 (.inr ⟨start, List.mem_cons_self, hv⟩), ?_⟩
      rw [hd.stack]
      exact List.not_mem_nil
    refine .inr ⟨n, d, log, fun fuel hn => ?_, hd.acyclic, hd.next, ?_, fun v hv => ?_,
      fun v hv => ?_⟩
    · obtain ⟨k, rfl⟩ := Nat.exists_eq_add_of_le hn
      rw [Search.dfs, hrun, loop_nil _ hd.next]
    · rintro ⟨v, hv, hc⟩
      exact hd.closed.noCycle v (hleft v hv).1 (hleft v hv).2 hc
    · by_contra hno
      have hcount := hd.unreached v fun u hu => (List.mem_singleton.1 hu).symm ▸ hno
      exact List.count_eq_zero.1 hcount hv
    · obtain ⟨k, hk, hcount⟩ :=
        hd.reached v List.not_mem_nil [] start [] rfl (fun _ h => absurd h List.not_mem_nil) hv
      refine ⟨k, hk, hcount.trans ?_⟩
      rw [List.count_nil, Nat.zero_add]

/-- The search decides whether there is a cycle, and when there is none, it visits every vertex
once if and only if on the last walk to a vertex every edge to that vertex is the last way. -/
theorem decides_iff (start : V) : G.Decides start ↔
    G.CycleFrom start ∨ ∀ v, G.Reaches start v → G.LastOnWalk start v := by
  obtain ⟨n, hfail, hc⟩ | ⟨n, d, log, hrun, hacyclic, hnext, hno, hlog, hcount⟩ :=
    dfs_cases (G := G) start
  · refine iff_of_true ⟨n, fun fuel hn d log heq => ?_⟩ (.inl hc)
    have := hfail fuel hn
    rw [heq] at this
    simp only at this
    simp [this, hc]
  constructor
  · rintro ⟨n', h⟩
    obtain ⟨-, h, -⟩ := h (n + n') (Nat.le_add_left _ _) d log (hrun _ (Nat.le_add_right _ _))
    refine .inr fun v hv => ?_
    have hone := (h hacyclic).1 v hv
    obtain ⟨k, hk, hk'⟩ := hcount v hv
    exact hk.lastOnWalk (by omega) fun hc => hno ⟨v, hv, hc⟩
  · rintro (hc | h)
    · exact absurd hc hno
    refine ⟨n, fun fuel hn d' log' heq => ?_⟩
    rw [hrun fuel hn, Prod.mk.injEq] at heq
    obtain ⟨rfl, rfl⟩ := heq
    refine ⟨.inl hnext, fun _ => ⟨fun v hv => ?_, hlog⟩, by simp [hacyclic, hno]⟩
    obtain ⟨k, hk, hk'⟩ := hcount v hv
    rw [hk']
    by_cases hne : start = v
    · subst hne
      cases hk with
      | here => simp
      | step hne _ _ => exact absurd rfl hne
    · rw [hk.eq_one hne (h v hv)]
      simp [hne]

/-- Both edges of `0` lead to `1`, the second one through `2`. -/
def triangle : FilteredGraph (Fin 3) (Fin 3 × Fin 3) where
  outEdges v := [(0, 1), (0, 2), (2, 1)].filter fun e => e.1 = v
  target := Prod.snd
  filter _ := true

/-- The edge from `2` to `1` meets `1` on the stack if the search begins with `1` as an ancestor of
`2`. -/
def throughAncestor : FilteredGraph (Fin 3) (Fin 3 × Fin 3) where
  outEdges v := [(2, 1), (1, 0)].filter fun e => e.1 = v
  target := Prod.snd
  filter _ := true

/-- The search has pushed `1` before it reaches it through `2`: it visits `1` twice. -/
theorem not_decides_triangle : ¬ triangle.Decides 0 := by
  rintro ⟨n, h⟩
  have hrun : triangle.search.dfs (n + 9) 0 {} [] = (⟨true, [1, 1, 2, 0], [], []⟩, [0, 2, 1, 1]) :=
    rfl
  obtain ⟨-, h, -⟩ := h (n + 9) (Nat.le_add_right _ _) _ _ hrun
  have hreach : triangle.Reaches 0 1 := .single ⟨(0, 1), by decide, rfl⟩
  exact absurd ((h rfl).1 1 hreach) (by decide)

end FilteredGraph

end Idle
