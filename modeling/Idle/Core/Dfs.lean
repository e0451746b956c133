import Mathlib.Tactic

/-!
# The depth first search of `graph/dfs.hpp`

The search is generic in the graph, the visitor and the filter. All three may look at a state `σ`
that the visitor and the filter change while the search runs: the traversals of the scheduler
decide with the marks they set themselves which edges to follow.

`next` is a vector that is only used at its end; here its last element is the head of the list.
The sets `visited` and `stack` are only asked for membership.
-/

namespace Idle

/-- `DFSData` -/
structure DFSData (V : Type) where
  acyclic : Bool := true
  visited : List V := []
  stack : List V := []
  next : List V := []

/-- `DFSFlags` -/
structure DFSFlags where
  traverseAllPaths : Bool := false
  postCancelCycles : Bool := false

/-- The graph a search runs on, with its visitor and its edge filter. -/
structure Search (σ V E : Type) where
  outEdges : σ → V → List E
  target : σ → E → V
  visit : σ → V → Bool × σ
  filter : σ → E → Bool × σ
  flags : DFSFlags := {}

namespace DFSData

variable {V : Type} [DecidableEq V]

/-- `DFSData::ancestors` for a single vertex. -/
def ancestor (d : DFSData V) (v : V) : DFSData V :=
  { d with visited := v :: d.visited, stack := v :: d.stack }

def push (d : DFSData V) (v : V) : DFSData V := { d with next := v :: d.next }

/-- `top` is entered: it becomes visited and moves to the stack. -/
def enter (d : DFSData V) (v : V) : DFSData V :=
  { d with visited := v :: d.visited, stack := v :: d.stack }

/-- `top` is left again. -/
def leave (d : DFSData V) (v : V) : DFSData V :=
  { d with stack := d.stack.erase v, next := d.next.tail }

end DFSData

namespace Search

variable {σ V E : Type} [DecidableEq V]

/-- The loop over the out edges of a vertex. The last component is false when the search returns
from within the loop because it met a cycle. -/
def expand (g : Search σ V E) : List E → DFSData V → σ → DFSData V × σ × Bool
  | [], d, st => (d, st, true)
  | e :: es, d, st =>
    let (accepted, st) := g.filter st e
    if accepted then
      let tar := g.target st e
      if tar ∉ d.visited then
        expand g es (d.push tar) st
      else if tar ∈ d.stack then
        if g.flags.postCancelCycles then
          expand g es d (g.visit st tar).2
        else
          ({ d with acyclic := false }, st, false)
      else if g.flags.traverseAllPaths then
        expand g es (d.push tar) st
      else
        expand g es d st
    else
      expand g es d st

lemma expand_cons (g : Search σ V E) (e : E) (es : List E) (d : DFSData V) (st : σ) :
    g.expand (e :: es) d st =
      if (g.filter st e).1 then
        if g.target (g.filter st e).2 e ∉ d.visited then
          g.expand es (d.push (g.target (g.filter st e).2 e)) (g.filter st e).2
        else if g.target (g.filter st e).2 e ∈ d.stack then
          if g.flags.postCancelCycles then
            g.expand es d (g.visit (g.filter st e).2 (g.target (g.filter st e).2 e)).2
          else
            ({ d with acyclic := false }, (g.filter st e).2, false)
        else if g.flags.traverseAllPaths then
          g.expand es (d.push (g.target (g.filter st e).2 e)) (g.filter st e).2
        else
          g.expand es d (g.filter st e).2
      else
        g.expand es d (g.filter st e).2 := rfl

/-- The main loop of `dfs`, for at most `fuel` rounds. -/
def loop (g : Search σ V E) : Nat → DFSData V → σ → DFSData V × σ
  | 0, d, st => (d, st)
  | fuel + 1, d, st =>
    match d.next with
    | [] => (d, st)
    | top :: _ =>
      if top ∈ d.stack then
        loop g fuel (d.leave top) st
      else
        let d := d.enter top
        let (descend, st) := g.visit st top
        if descend then
          match g.expand (g.outEdges st top) d st with
          | (d, st, true) => loop g fuel d st
          | (d, st, false) => (d, st)
        else
          loop g fuel d st

lemma loop_cons (g : Search σ V E) (fuel : Nat) (d : DFSData V) (st : σ) {top : V} {rest : List V}
    (h : d.next = top :: rest) :
    g.loop (fuel + 1) d st =
      if top ∈ d.stack then g.loop fuel (d.leave top) st
      else if (g.visit st top).1 then
        let r := g.expand (g.outEdges (g.visit st top).2 top) (d.enter top) (g.visit st top).2
        if r.2.2 then g.loop fuel r.1 r.2.1 else (r.1, r.2.1)
      else g.loop fuel (d.enter top) (g.visit st top).2 := by
  simp only [loop, h]
  split
  · rfl
  · split
    · split
      · rename_i heq
        simp [heq]
      · rename_i heq
        simp [heq]
    · rfl

/-- `dfs` -/
def dfs (g : Search σ V E) (fuel : Nat) (start : V) (d : DFSData V) (st : σ) : DFSData V × σ :=
  g.loop fuel (d.push start) st

/-- A search from a vertex without out edges visits nothing else. -/
lemma dfs_leaf {g : Search σ V E} {start : V} {st : σ}
    (hout : g.outEdges (g.visit st start).2 start = []) (fuel : Nat) :
    (g.dfs (fuel + 1) start {} st).2 = (g.visit st start).2 := by
  have hloop : ∀ st' : σ,
      (g.loop fuel ((({} : DFSData V).push start).enter start) st').2 = st' := by
    intro st'
    cases fuel with
    | zero => rfl
    | succ fuel =>
      have hstack : start ∈ ((({} : DFSData V).push start).enter start).stack := List.mem_cons_self
      rw [loop_cons _ _ _ _ rfl, if_pos hstack]
      cases fuel <;> rfl
  have hstack : start ∉ (({} : DFSData V).push start).stack := List.not_mem_nil
  rw [dfs, loop_cons _ _ _ _ rfl, if_neg hstack, hout]
  split
  · exact hloop _
  · exact hloop _

/-! ### What the visitor and the filter keep, the search keeps -/

section Keeps

variable {g : Search σ V E} {P : σ → Prop} {R : V → Prop}

/-- `R` holds of every vertex that the edges lead to, so the visitor only has to keep `P` there. -/
lemma expand_keeps (hvisit : ∀ st v, R v → P st → P (g.visit st v).2)
    (hfilter : ∀ st e, P st → P (g.filter st e).2) {es : List E} {d : DFSData V} {st : σ}
    (htarget : ∀ st e, P st → e ∈ es → R (g.target st e)) (hnext : ∀ v ∈ d.next, R v) (h : P st) :
    P (g.expand es d st).2.1 ∧ ∀ v ∈ (g.expand es d st).1.next, R v := by
  induction es generalizing d st with
  | nil => exact ⟨h, hnext⟩
  | cons e es ih =>
    have he := hfilter st e h
    have ht := htarget _ e he List.mem_cons_self
    have ih : ∀ {d : DFSData V} {st : σ}, (∀ v ∈ d.next, R v) → P st →
        P (g.expand es d st).2.1 ∧ ∀ v ∈ (g.expand es d st).1.next, R v :=
      ih fun st e h hmem => htarget st e h (List.mem_cons_of_mem _ hmem)
    have hpush : ∀ v ∈ (d.push (g.target (g.filter st e).2 e)).next, R v := by
      intro v hv
      rcases List.mem_cons.1 hv with rfl | hv
      · exact ht
      · exact hnext v hv
    simp only [expand]
    split
    · split
      · exact ih hpush he
      · split
        · split
          · exact ih hnext (hvisit _ _ ht he)
          · exact ⟨he, hnext⟩
        · split
          · exact ih hpush he
          · exact ih hnext he
    · exact ih hnext he

lemma loop_keeps (hvisit : ∀ st v, R v → P st → P (g.visit st v).2)
    (hfilter : ∀ st e, P st → P (g.filter st e).2)
    (htarget : ∀ st st' v e, P st → P st' → R v → e ∈ g.outEdges st v → R (g.target st' e))
    {fuel : Nat} {d : DFSData V} {st : σ} (hnext : ∀ v ∈ d.next, R v) (h : P st) :
    P (g.loop fuel d st).2 := by
  induction fuel generalizing d st with
  | zero => exact h
  | succ fuel ih =>
    simp only [loop]
    split
    · exact h
    · rename_i top rest heqn
      have htop : R top := hnext top (heqn ▸ List.mem_cons_self)
      split
      · exact ih (fun v hv => hnext v (List.mem_of_mem_tail hv)) h
      · have hv := hvisit st top htop h
        split
        · have henter : ∀ v ∈ (d.enter top).next, R v := hnext
          have he := expand_keeps hvisit hfilter
            (fun st' e h' hmem => htarget _ st' top e hv h' htop hmem) henter hv
          split
          · rename_i d' st' heq
            rw [heq] at he
            exact ih he.2 he.1
          · rename_i d' st' heq
            rw [heq] at he
            exact he.1
        · exact ih hnext hv

/-- A search only visits what it can reach from its start. -/
theorem dfs_keeps_on (hvisit : ∀ st v, R v → P st → P (g.visit st v).2)
    (hfilter : ∀ st e, P st → P (g.filter st e).2)
    (htarget : ∀ st st' v e, P st → P st' → R v → e ∈ g.outEdges st v → R (g.target st' e))
    {fuel : Nat} {start : V} {d : DFSData V} {st : σ} (hstart : R start) (hnext : d.next = [])
    (h : P st) : P (g.dfs fuel start d st).2 := by
  refine loop_keeps hvisit hfilter htarget (fun v hv => ?_) h
  rw [DFSData.push, hnext] at hv
  rwa [List.mem_singleton.1 hv]

theorem dfs_keeps (hvisit : ∀ st v, P st → P (g.visit st v).2)
    (hfilter : ∀ st e, P st → P (g.filter st e).2) {fuel : Nat} {start : V} {d : DFSData V}
    {st : σ} (h : P st) : P (g.dfs fuel start d st).2 :=
  loop_keeps (R := fun _ => True) (fun st v _ => hvisit st v) hfilter
    (fun _ _ _ _ _ _ _ _ => trivial) (fun _ _ => trivial) h

end Keeps

/-! ### Searches whose filter changes the graph -/

section Pending

variable {g : Search σ V E} {P : List E → σ → Prop} {R : V → Prop}
variable (hflags : g.flags.postCancelCycles = false)
  (hfilter : ∀ e es st, P (e :: es) st → P es (g.filter st e).2 ∧ R (g.target (g.filter st e).2 e))
  (hdrop : ∀ es st, P es st → P [] st)
include hflags hfilter hdrop

/-- `P es` holds while the edges `es` of a vertex are still to be followed. -/
lemma expand_keeps_pending {es : List E} {d : DFSData V} {st : σ} (hnext : ∀ v ∈ d.next, R v)
    (h : P es st) : P [] (g.expand es d st).2.1 ∧ ∀ v ∈ (g.expand es d st).1.next, R v := by
  induction es generalizing d st with
  | nil => exact ⟨h, hnext⟩
  | cons e es ih =>
    obtain ⟨he, ht⟩ := hfilter e es st h
    have hpush : ∀ v ∈ (d.push (g.target (g.filter st e).2 e)).next, R v := by
      intro v hv
      rcases List.mem_cons.1 hv with rfl | hv
      · exact ht
      · exact hnext v hv
    rw [expand_cons, hflags]
    split
    · split
      · exact ih hpush he
      · split
        · exact ⟨hdrop es _ he, hnext⟩
        · split
          · exact ih hpush he
          · exact ih hnext he
    · exact ih hnext he

/-- The rule for searches whose filter removes the edge it looks at. -/
theorem dfs_keeps_pending (hvisit : ∀ st v, R v → P [] st → P [] (g.visit st v).2)
    (hout : ∀ st v, R v → P [] st → P (g.outEdges st v) st) {fuel : Nat} {start : V}
    {d : DFSData V} {st : σ} (hstart : R start) (hnext : d.next = []) (h : P [] st) :
    P [] (g.dfs fuel start d st).2 := by
  have hloop : ∀ fuel (d : DFSData V) st, (∀ v ∈ d.next, R v) → P [] st →
      P [] (g.loop fuel d st).2 := by
    intro fuel
    induction fuel with
    | zero => exact fun _ _ _ h => h
    | succ fuel ih =>
      intro d st hnext h
      rcases hn : d.next with - | ⟨top, rest⟩
      · simpa only [loop, hn] using h
      · have htop : R top := hnext top (hn ▸ List.mem_cons_self)
        rw [loop_cons _ _ _ _ hn]
        split
        · exact ih _ _ (fun v hv => hnext v (List.mem_of_mem_tail hv)) h
        · have hv := hvisit st top htop h
          split
          · have he := expand_keeps_pending hflags hfilter hdrop (d := d.enter top) hnext
              (hout _ top htop hv)
            simp only
            split
            · exact ih _ _ he.2 he.1
            · exact he.1
          · exact ih _ _ hnext hv
  refine hloop _ _ _ (fun v hv => ?_) h
  rw [DFSData.push, hnext] at hv
  rwa [List.mem_singleton.1 hv]

end Pending

/-! ### Searches that know more -/

/-- `g'` does on a part of its states what `g` does. -/
structure Extends {σ' : Type} (g' : Search σ' V E) (g : Search σ V E) (part : σ' → σ) : Prop where
  flags : g'.flags = g.flags
  outEdges : ∀ st v, g'.outEdges st v = g.outEdges (part st) v
  target : ∀ st e, g'.target st e = g.target (part st) e
  visit : ∀ st v, g.visit (part st) v = ((g'.visit st v).1, part (g'.visit st v).2)
  filter : ∀ st e, g.filter (part st) e = ((g'.filter st e).1, part (g'.filter st e).2)

section Extends

variable {σ' : Type} {g' : Search σ' V E} {g : Search σ V E} {part : σ' → σ}

lemma Extends.expand (h : g'.Extends g part) (es : List E) (d : DFSData V) (st : σ') :
    g.expand es d (part st) =
      ((g'.expand es d st).1, part (g'.expand es d st).2.1, (g'.expand es d st).2.2) := by
  induction es generalizing d st with
  | nil => rfl
  | cons e es ih =>
    rw [expand_cons, expand_cons, h.filter, h.flags, h.target]
    dsimp only
    split
    · split
      · exact ih _ _
      · split
        · split
          · rw [h.visit]
            exact ih _ _
          · rfl
        · split
          · exact ih _ _
          · exact ih _ _
    · exact ih _ _

lemma Extends.loop (h : g'.Extends g part) (fuel : Nat) (d : DFSData V) (st : σ') :
    g.loop fuel d (part st) = ((g'.loop fuel d st).1, part (g'.loop fuel d st).2) := by
  induction fuel generalizing d st with
  | zero => rfl
  | succ fuel ih =>
    rcases hn : d.next with - | ⟨top, rest⟩
    · simp only [Search.loop, hn]
    · rw [loop_cons _ _ _ _ hn, loop_cons _ _ _ _ hn, h.visit, ← h.outEdges, h.expand]
      dsimp only
      split
      · exact ih _ _
      · split
        · split
          · exact ih _ _
          · rfl
        · exact ih _ _

theorem Extends.dfs (h : g'.Extends g part) (fuel : Nat) (start : V) (d : DFSData V) (st : σ') :
    g.dfs fuel start d (part st) = ((g'.dfs fuel start d st).1, part (g'.dfs fuel start d st).2) :=
  h.loop _ _ _

end Extends

/-- The search that also tells whether `bad` held at a visit. -/
def watch (g : Search σ V E) (bad : σ → V → Bool) : Search (σ × Bool) V E where
  outEdges st v := g.outEdges st.1 v
  target st e := g.target st.1 e
  visit st v := ((g.visit st.1 v).1, ((g.visit st.1 v).2, st.2 || bad st.1 v))
  filter st e := ((g.filter st.1 e).1, ((g.filter st.1 e).2, st.2))
  flags := g.flags

/-- Watching does not change the search. -/
theorem watch_dfs {g : Search σ V E} {bad : σ → V → Bool} (fuel : Nat) (start : V) (d : DFSData V)
    (st : σ) (b : Bool) :
    ((g.watch bad).dfs fuel start d (st, b)).2.1 = (g.dfs fuel start d st).2 := by
  have h : (g.watch bad).Extends g Prod.fst :=
    ⟨rfl, fun _ _ => rfl, fun _ _ => rfl, fun _ _ => rfl, fun _ _ => rfl⟩
  rw [h.dfs fuel start d (st, b)]

/-- The search that also writes down what the filter does. -/
def record {β : Type} (g : Search σ V E) (note : σ → E → List β) : Search (σ × List β) V E where
  outEdges st v := g.outEdges st.1 v
  target st e := g.target st.1 e
  visit st v := ((g.visit st.1 v).1, ((g.visit st.1 v).2, st.2))
  filter st e := ((g.filter st.1 e).1, ((g.filter st.1 e).2, st.2 ++ note st.1 e))
  flags := g.flags

/-- Recording does not change the search. -/
theorem record_dfs {β : Type} {g : Search σ V E} {note : σ → E → List β} (fuel : Nat) (start : V)
    (d : DFSData V) (st : σ) (l : List β) :
    g.dfs fuel start d st = (((g.record note).dfs fuel start d (st, l)).1,
      ((g.record note).dfs fuel start d (st, l)).2.1) := by
  have h : (g.record note).Extends g Prod.fst :=
    ⟨rfl, fun _ _ => rfl, fun _ _ => rfl, fun _ _ => rfl, fun _ _ => rfl⟩
  exact h.dfs fuel start d (st, l)

end Search

end Idle
