import Idle.Core.Dfs
import Idle.Library.Count

/-!
# Searches that count

A search that follows all paths and revisits the vertices of its stack applies the visitor once
for every edge it follows, and once to the start. When the visitor changes a counter and descends
only if the counter leaves or reaches zero, the search follows the edges into exactly those
vertices whose counter did so.
-/

namespace Idle

namespace Search

variable {σ V E : Type}

/-! ### The shape of the pending vertices -/

/-- `next` consists of the vertices on the stack, above its `ancestors`, and of those that still
have to be entered. Nothing that has to be entered stands above itself on the stack. -/
inductive Stacked (ancestors : List V) : (next stack pending : List V) → Prop where
  | nil : Stacked ancestors [] ancestors []
  | pending {next stack pending : List V} {v : V} : Stacked ancestors next stack pending →
      v ∉ stack → Stacked ancestors (v :: next) stack (v :: pending)
  | active {next stack pending : List V} {v : V} : Stacked ancestors next stack pending →
      v ∉ stack → Stacked ancestors (v :: next) (v :: stack) pending

variable {a next stack p : List V} {v : V}

lemma Stacked.of_not_mem (h : Stacked a (v :: next) stack p) (hv : v ∉ stack) :
    ∃ p', p = v :: p' ∧ Stacked a next stack p' := by
  cases h with
  | pending h _ => exact ⟨_, rfl, h⟩
  | active _ _ => exact absurd List.mem_cons_self hv

lemma Stacked.of_mem (h : Stacked a (v :: next) stack p) (hv : v ∈ stack) :
    ∃ stack', stack = v :: stack' ∧ v ∉ stack' ∧ Stacked a next stack' p := by
  cases h with
  | pending _ h => exact absurd hv h
  | active h hnot => exact ⟨_, rfl, hnot, h⟩

lemma Stacked.eq_nil (h : Stacked a [] stack p) : p = [] := by
  cases h with
  | nil => rfl

variable [DecidableEq V]

/-! ### Counting graphs -/

/-- The graph of a search, as one list of edges that are followed from their target to their
source. States satisfy `ok`, the vertices that are reached satisfy `vertex`. -/
structure Follows (g : Search σ V E) (ok : σ → Prop) (vertex : V → Prop) (edges : List E)
    (src tgt : E → V) : Prop where
  allPaths : g.flags.traverseAllPaths = true
  postCancel : g.flags.postCancelCycles = true
  filter : ∀ st e, g.filter st e = (true, st)
  outEdges : ∀ st v, ok st → vertex v → (g.outEdges st v).Perm (edges.filter fun e => tgt e = v)
  target : ∀ st e, ok st → g.target st e = src e
  vertex_src : ∀ e ∈ edges, vertex (src e)

/-- The visitor increments the counter and descends if it was zero. -/
def Increments (g : Search σ V E) (ok : σ → Prop) (vertex : V → Prop) (cnt : σ → V → Nat)
    (bound : Nat) : Prop :=
  ∀ st v, ok st → vertex v → cnt st v + 1 < bound →
    ok (g.visit st v).2 ∧ cnt (g.visit st v).2 = Function.update (cnt st) v (cnt st v + 1) ∧
      (g.visit st v).1 = decide (cnt st v = 0)

/-- The visitor decrements the counter and descends if it gets zero. -/
def Decrements (g : Search σ V E) (ok : σ → Prop) (vertex : V → Prop) (cnt : σ → V → Nat) : Prop :=
  ∀ st v, ok st → vertex v → cnt st v ≠ 0 →
    ok (g.visit st v).2 ∧ cnt (g.visit st v).2 = Function.update (cnt st) v (cnt st v - 1) ∧
      (g.visit st v).1 = decide (cnt st v = 1)

variable {g : Search σ V E} {ok : σ → Prop} {vertex : V → Prop} {edges es : List E}
variable {src tgt : E → V} {cnt : σ → V → Nat} {bound : Nat} {st : σ} {d : DFSData V}

/-! ### Incrementing -/

/-- Every edge of an expansion is counted at its source, now or later. -/
lemma expand_increments (hg : g.Follows ok vertex edges src tgt)
    (hv : g.Increments ok vertex cnt bound) (hes : ∀ e ∈ es, e ∈ edges) (hok : ok st)
    (hstack : Stacked a d.next d.stack p) (hvisited : ∀ v ∈ d.stack, v ∈ d.visited)
    (hactive : ∀ v ∈ d.stack, cnt st v ≠ 0) (hp : ∀ v ∈ p, vertex v)
    (hbound : ∀ v, cnt st v + es.countP (fun e => src e = v) < bound) :
    ∃ d' st' p', g.expand es d st = (d', st', true) ∧ ok st' ∧
      d'.stack = d.stack ∧ (∀ v ∈ d'.stack, v ∈ d'.visited) ∧ Stacked a d'.next d'.stack p' ∧
      (∀ v ∈ p', vertex v) ∧
      (∀ v, cnt st' v + p'.count v = cnt st v + p.count v + es.countP fun e => src e = v) ∧
      (∀ v, cnt st' v = 0 ↔ cnt st v = 0) ∧ (∀ v, cnt st v ≤ cnt st' v) ∧
      d'.next.length + p.length = d.next.length + p'.length ∧
      p'.length ≤ p.length + es.length := by
  -- by induction on the edges that are left; `p` grows by the sources that have to be entered
  induction es generalizing d st p with
  | nil =>
    exact ⟨d, st, p, rfl, hok, rfl, hvisited, hstack, hp, by simp, by simp, by simp, rfl, by simp⟩
  | cons e es ih =>
    have hes' : ∀ e ∈ es, e ∈ edges := fun x hx => hes x (List.mem_cons_of_mem _ hx)
    have hvert := hg.vertex_src e (hes e List.mem_cons_self)
    by_cases hmem : src e ∈ d.stack
    · -- the source is on the stack: it is visited at once
      have hb := hbound (src e)
      simp only [List.countP_cons, decide_true, if_true] at hb
      obtain ⟨hok', hcnt, -⟩ := hv st (src e) hok hvert (by omega)
      obtain ⟨d', st', p', heq, h⟩ := ih hes' hok' hstack hvisited
        (by
          intro v hvm
          rw [hcnt]
          by_cases hvs : v = src e
          · simp [hvs]
          · simpa [hvs] using hactive v hvm)
        hp
        (by
          intro v
          have := hbound v
          rw [hcnt]
          by_cases hvs : v = src e
          · subst hvs
            simp only [Function.update_self]
            omega
          · have hse : src e ≠ v := Ne.symm hvs
            simp only [List.countP_cons, hse, decide_false, Bool.false_eq_true, if_false] at this
            simpa [Function.update_of_ne hvs] using this)
      obtain ⟨hok'', hst, hvis, hstk, hpv, hsum, hzero, hmono, hlen, hle⟩ := h
      refine ⟨d', st', p', ?_, hok'', hst, hvis, hstk, hpv, ?_, ?_, ?_, hlen, ?_⟩
      · rw [expand]
        simp only [hg.filter, if_true, hg.target st e hok, hmem, hvisited _ hmem,
          not_true_eq_false, if_false, hg.postCancel]
        exact heq
      · intro v
        have := hsum v
        rw [hcnt] at this
        by_cases hvs : v = src e
        · subst hvs
          simp only [Function.update_self] at this
          simp only [List.countP_cons, decide_true, if_true]
          omega
        · have hse : src e ≠ v := Ne.symm hvs
          simpa [Function.update_of_ne hvs, List.countP_cons, hse] using this
      · intro v
        rw [hzero v, hcnt]
        by_cases hvs : v = src e
        · subst hvs
          simp [hactive _ hmem]
        · simp [hvs]
      · intro v
        refine le_trans ?_ (hmono v)
        rw [hcnt]
        by_cases hvs : v = src e <;> simp [hvs]
      · simp only [List.length_cons]
        omega
    · -- otherwise it has to be entered
      obtain ⟨d', st', p', heq, h⟩ := ih (d := d.push (src e)) hes' hok (hstack.pending hmem)
        hvisited hactive
        (by
          intro v hvm
          rcases List.mem_cons.1 hvm with rfl | hvm
          · exact hvert
          · exact hp v hvm)
        (by
          intro v
          have := hbound v
          simp only [List.countP_cons] at this
          omega)
      obtain ⟨hok'', hst, hvis, hstk, hpv, hsum, hzero, hmono, hlen, hle⟩ := h
      refine ⟨d', st', p', ?_, hok'', hst, hvis, hstk, hpv, ?_, hzero, hmono, ?_, ?_⟩
      · rw [expand]
        simp only [hg.filter, if_true, hg.target st e hok, hmem, if_false, hg.allPaths]
        split <;> exact heq
      · intro v
        have := hsum v
        simp only [List.count_cons, List.countP_cons, beq_iff_eq] at this ⊢
        by_cases hvs : src e = v <;> simp [hvs] at this ⊢ <;> omega
      · simp only [DFSData.push, List.length_cons] at hlen ⊢
        omega
      · simp only [List.length_cons] at hle ⊢
        omega

/-- The edges into the vertices whose counter left zero. -/
def flipped (edges : List E) (src tgt : E → V) (old new : V → Nat) (v : V) : Nat :=
  edges.countP fun e => src e = v ∧ old (tgt e) = 0 ∧ new (tgt e) ≠ 0

lemma flipped_congr {old new new' : V → Nat} (h : ∀ v, new' v = 0 ↔ new v = 0) (v : V) :
    flipped edges src tgt old new' v = flipped edges src tgt old new v :=
  List.countP_congr fun e _ => by simp [h]

/-- One more vertex leaves zero. -/
lemma flipped_update {old new new' : V → Nat} {t : V} (hold : old t = 0) (hnew : new t = 0)
    (hnew' : ∀ w, new' w = 0 ↔ new w = 0 ∧ w ≠ t) (v : V) :
    flipped edges src tgt old new' v =
      flipped edges src tgt old new v + edges.countP fun e => src e = v ∧ tgt e = t := by
  refine List.countP_eq_add_of_disjoint (fun e _ => ?_) (fun e _ => ?_)
  · rw [Bool.eq_iff_iff]
    simp only [Bool.or_eq_true, decide_eq_true_eq, ne_eq, hnew', not_and, not_not]
    by_cases ht : tgt e = t
    · simp only [ht, hold, hnew, not_true_eq_false, and_true, and_false, false_or, implies_true]
    · simp [ht]
  · simp only [decide_eq_true_eq, not_and]
    rintro ⟨-, -, hne⟩ - ht
    exact hne (ht ▸ hnew)

lemma countP_filter_src {t : V} (h : es.Perm (edges.filter fun e => tgt e = t)) (v : V) :
    (es.countP fun e => src e = v) = edges.countP fun e => src e = v ∧ tgt e = t := by
  rw [h.countP_eq, List.countP_filter]
  exact List.countP_congr fun e _ => by simp

/-- What the loop of an incrementing search keeps. -/
structure Incrementing (ok : σ → Prop) (vertex : V → Prop) (edges : List E) (src tgt : E → V)
    (cnt : σ → V → Nat) (a : List V) (old : V → Nat) (start : V) (d : DFSData V) (st : σ)
    (p : List V) : Prop where
  ok : ok st
  stacked : Stacked a d.next d.stack p
  visited : ∀ v ∈ d.stack, v ∈ d.visited
  active : ∀ v ∈ d.stack, cnt st v ≠ 0
  vertex : ∀ v ∈ p, vertex v
  mono : ∀ v, old v ≤ cnt st v
  sum : ∀ v, cnt st v + p.count v =
    old v + (if v = start then 1 else 0) + flipped edges src tgt old (cnt st) v

/-- The rounds that are left. -/
def rounds (edges : List E) (tgt : E → V) (cnt : V → Nat) (d : DFSData V) (p : List V) : Nat :=
  p.length + d.next.length + 2 * edges.countP fun e => cnt (tgt e) = 0

namespace Incrementing

variable {old : V → Nat} {start top : V} {rest : List V}

lemma flipped_le (new : V → Nat) (v : V) : flipped edges src tgt old new v ≤
    edges.countP fun e => src e = v ∧ old (tgt e) = 0 := by
  refine List.countP_mono_left fun e _ he => ?_
  simp only [decide_eq_true_eq] at he ⊢
  exact ⟨he.1, he.2.1⟩

/-- The vertex on top was entered before: it is left again. -/
lemma leave (h : Incrementing ok vertex edges src tgt cnt a old start d st p)
    (hnext : d.next = top :: rest) (hmem : top ∈ d.stack) :
    Incrementing ok vertex edges src tgt cnt a old start (d.leave top) st p ∧
      rounds edges tgt (cnt st) (d.leave top) p < rounds edges tgt (cnt st) d p := by
  have hstk := h.stacked
  rw [hnext] at hstk
  obtain ⟨stack', hs, -, hstk'⟩ := hstk.of_mem hmem
  refine ⟨⟨h.ok, ?_, ?_, ?_, h.vertex, h.mono, h.sum⟩, ?_⟩
  · simpa [DFSData.leave, hs, hnext] using hstk'
  · intro v hv
    exact h.visited v (List.mem_of_mem_erase hv)
  · intro v hv
    exact h.active v (List.mem_of_mem_erase hv)
  · unfold rounds
    simp only [DFSData.leave, hnext, List.tail_cons, List.length_cons]
    omega

/-- The vertex on top is entered and visited. -/
lemma visit (hv : g.Increments ok vertex cnt bound)
    (hbound : ∀ v, old v + (if v = start then 1 else 0) +
      edges.countP (fun e => src e = v ∧ old (tgt e) = 0) < bound)
    (h : Incrementing ok vertex edges src tgt cnt a old start d st p)
    (hnext : d.next = top :: rest) (hmem : top ∉ d.stack) :
    ∃ p', p = top :: p' ∧ vertex top ∧ ok (g.visit st top).2 ∧
      cnt (g.visit st top).2 = Function.update (cnt st) top (cnt st top + 1) ∧
      (g.visit st top).1 = decide (cnt st top = 0) ∧
      Stacked a (d.enter top).next (d.enter top).stack p' ∧
      (∀ v ∈ (d.enter top).stack, v ∈ (d.enter top).visited) ∧
      ∀ v ∈ (d.enter top).stack, cnt (g.visit st top).2 v ≠ 0 := by
  have hstk := h.stacked
  rw [hnext] at hstk
  obtain ⟨p', rfl, hstk'⟩ := hstk.of_not_mem hmem
  have hvert := h.vertex top List.mem_cons_self
  have hlt : cnt st top + 1 < bound := by
    have hsum := h.sum top
    have hb := hbound top
    have hf : flipped edges src tgt old (cnt st) top ≤ _ := flipped_le (cnt st) top
    simp only [List.count_cons_self] at hsum
    omega
  obtain ⟨hok, hcnt, hdesc⟩ := hv st top h.ok hvert hlt
  refine ⟨p', rfl, hvert, hok, hcnt, hdesc, ?_, fun v hv => ?_, fun v hv => ?_⟩
  · simpa [DFSData.enter, hnext] using hstk'.active hmem
  · rcases List.mem_cons.1 hv with rfl | hv
    · exact List.mem_cons_self
    · exact List.mem_cons_of_mem _ (h.visited v hv)
  · rw [hcnt]
    by_cases hvt : v = top
    · simp [hvt]
    · simpa [hvt] using h.active v ((List.mem_cons.1 hv).resolve_left hvt)

/-- The counter of the vertex on top was not zero: nothing else is reached from it. -/
lemma enter (hv : g.Increments ok vertex cnt bound)
    (hbound : ∀ v, old v + (if v = start then 1 else 0) +
      edges.countP (fun e => src e = v ∧ old (tgt e) = 0) < bound)
    (h : Incrementing ok vertex edges src tgt cnt a old start d st p)
    (hnext : d.next = top :: rest) (hmem : top ∉ d.stack) (hzero : cnt st top ≠ 0) :
    ∃ p', Incrementing ok vertex edges src tgt cnt a old start (d.enter top) (g.visit st top).2 p' ∧
      rounds edges tgt (cnt (g.visit st top).2) (d.enter top) p' <
        rounds edges tgt (cnt st) d p := by
  -- the counter was positive before, so no edge turns from zero
  obtain ⟨p', rfl, -, hok, hcnt, -, hstk, hvisited, hactive⟩ := h.visit hv hbound hnext hmem
  have hzero' : ∀ w, cnt (g.visit st top).2 w = 0 ↔ cnt st w = 0 := by
    intro w
    rw [hcnt]
    by_cases hw : w = top <;> simp [hw, hzero]
  refine ⟨p', ⟨hok, hstk, hvisited, hactive, ?_, ?_, ?_⟩, ?_⟩
  · exact fun v hv => h.vertex v (List.mem_cons_of_mem _ hv)
  · intro v
    rw [hcnt]
    by_cases hvt : v = top
    · subst hvt
      simpa using Nat.le_succ_of_le (h.mono v)
    · simpa [hvt] using h.mono v
  · intro v
    rw [flipped_congr hzero', hcnt, ← h.sum v]
    by_cases hvt : v = top
    · subst hvt
      simp only [Function.update_self, List.count_cons_self]
      omega
    · simp [hvt, Ne.symm hvt]
  · have : (edges.countP fun e => decide (cnt (g.visit st top).2 (tgt e) = 0)) =
        edges.countP fun e => cnt st (tgt e) = 0 :=
      List.countP_congr fun e _ => by simp [hzero']
    unfold rounds
    rw [this]
    simp only [DFSData.enter, List.length_cons]
    omega

/-- The counter of the vertex on top left zero: the edges into it are followed. -/
lemma descend (hg : g.Follows ok vertex edges src tgt) (hv : g.Increments ok vertex cnt bound)
    (hbound : ∀ v, old v + (if v = start then 1 else 0) +
      edges.countP (fun e => src e = v ∧ old (tgt e) = 0) < bound)
    (h : Incrementing ok vertex edges src tgt cnt a old start d st p)
    (hnext : d.next = top :: rest) (hmem : top ∉ d.stack) (hzero : cnt st top = 0) :
    ∃ d' st' p', g.expand (g.outEdges (g.visit st top).2 top) (d.enter top) (g.visit st top).2 =
        (d', st', true) ∧ Incrementing ok vertex edges src tgt cnt a old start d' st' p' ∧
      rounds edges tgt (cnt st') d' p' < rounds edges tgt (cnt st) d p := by
  obtain ⟨p', rfl, hvert, hok, hcnt, -, hstk, hvisited, hactive⟩ := h.visit hv hbound hnext hmem
  have hperm := hg.outEdges (g.visit st top).2 top hok hvert
  have hes : ∀ e ∈ g.outEdges (g.visit st top).2 top, e ∈ edges := fun e he =>
    List.mem_of_mem_filter (hperm.mem_iff.1 he)
  have hcount : ∀ v, ((g.outEdges (g.visit st top).2 top).countP fun e => src e = v) =
      edges.countP fun e => src e = v ∧ tgt e = top := countP_filter_src hperm
  have hold : old top = 0 := by have := h.mono top; omega
  have hzero' : ∀ w, cnt (g.visit st top).2 w = 0 ↔ cnt st w = 0 ∧ w ≠ top := by
    intro w
    rw [hcnt]
    by_cases hw : w = top <;> simp [hw]
  have hflip : ∀ v, flipped edges src tgt old (cnt (g.visit st top).2) v =
      flipped edges src tgt old (cnt st) v + edges.countP fun e => src e = v ∧ tgt e = top :=
    flipped_update hold hzero hzero'
  -- the visit is one of the increments that were pending
  have hvisit : ∀ v, cnt (g.visit st top).2 v + p'.count v = cnt st v + (top :: p').count v := by
    intro v
    rw [hcnt]
    by_cases hvt : v = top
    · subst hvt
      simp only [Function.update_self, List.count_cons_self]
      omega
    · simp [hvt, Ne.symm hvt]
  obtain ⟨d', st', p'', heq, hok', hst, hvis, hstk', hpv, hsum, hcongr, hmono, hlen, hle⟩ :=
    expand_increments hg hv hes hok hstk hvisited hactive
      (fun v hv => h.vertex v (List.mem_cons_of_mem _ hv))
      (fun v => by
        have h₁ := h.sum v
        have h₂ := hvisit v
        have h₃ := hflip v
        have h₄ : flipped edges src tgt old (cnt (g.visit st top).2) v ≤ _ := flipped_le _ v
        have h₅ := hbound v
        have h₆ := hcount v
        omega)
  refine ⟨d', st', p'', heq, ⟨hok', hstk', hvis, ?_, hpv, ?_, ?_⟩, ?_⟩
  · intro v hv
    rw [Ne, hcongr]
    exact hactive v (hst ▸ hv)
  · intro v
    refine le_trans (h.mono v) (le_trans ?_ (hmono v))
    rw [hcnt]
    by_cases hvt : v = top <;> simp [hvt]
  · intro v
    have h₁ := h.sum v
    have h₂ := hvisit v
    have h₃ := hflip v
    have h₄ := hsum v
    have h₅ := hcount v
    rw [flipped_congr hcongr]
    omega
  · have hrest : (edges.countP fun e => decide (cnt st (tgt e) = 0)) =
        (edges.countP fun e => cnt st' (tgt e) = 0) + edges.countP fun e => tgt e = top := by
      refine List.countP_eq_add_of_disjoint (fun e _ => ?_) (fun e _ => ?_)
      · rw [Bool.eq_iff_iff]
        simp only [Bool.or_eq_true, decide_eq_true_eq, hcongr, hzero']
        by_cases ht : tgt e = top
        · simp [ht, hzero]
        · simp [ht]
      · simp only [decide_eq_true_eq, hcongr, hzero', not_and]
        exact fun h₁ => h₁.2
    have hlength : (g.outEdges (g.visit st top).2 top).length =
        edges.countP fun e => tgt e = top := by
      rw [hperm.length_eq, List.countP_eq_length_filter]
    unfold rounds
    rw [hrest]
    simp only [DFSData.enter, List.length_cons] at hlen ⊢
    omega

end Incrementing

lemma loop_increments {old : V → Nat} {start : V} {fuel : Nat}
    (hg : g.Follows ok vertex edges src tgt) (hv : g.Increments ok vertex cnt bound)
    (hbound : ∀ v, old v + (if v = start then 1 else 0) +
      edges.countP (fun e => src e = v ∧ old (tgt e) = 0) < bound)
    (h : Incrementing ok vertex edges src tgt cnt a old start d st p)
    (hfuel : rounds edges tgt (cnt st) d p ≤ fuel) :
    ok (g.loop fuel d st).2 ∧ ∀ v, cnt (g.loop fuel d st).2 v =
      old v + (if v = start then 1 else 0) +
        flipped edges src tgt old (cnt (g.loop fuel d st).2) v := by
  induction fuel generalizing d st p with
  | zero =>
    have hp : p = [] := List.length_eq_zero_iff.1 (by unfold rounds at hfuel; omega)
    subst hp
    exact ⟨h.ok, fun v => by simpa [loop] using h.sum v⟩
  -- each kind of round lowers `rounds`, which bounds the fuel
  | succ fuel ih =>
    rw [loop]
    split
    · rename_i hnext
      have hp : p = [] := by
        have hstk := h.stacked
        rw [hnext] at hstk
        exact hstk.eq_nil
      subst hp
      exact ⟨h.ok, fun v => by simpa using h.sum v⟩
    · rename_i top rest hnext
      by_cases hmem : top ∈ d.stack
      · rw [if_pos hmem]
        obtain ⟨h', hlt⟩ := h.leave hnext hmem
        exact ih h' (by omega)
      · rw [if_neg hmem]
        obtain ⟨-, -, -, -, -, hdesc, -⟩ := h.visit hv hbound hnext hmem
        by_cases hzero : cnt st top = 0
        · obtain ⟨d', st', p', heq, h', hlt⟩ := h.descend hg hv hbound hnext hmem hzero
          simp only [hdesc, hzero, decide_true, if_true, heq]
          exact ih h' (by omega)
        · obtain ⟨p', h', hlt⟩ := h.enter hv hbound hnext hmem hzero
          simp only [hdesc, hzero, decide_false, Bool.false_eq_true, if_false]
          exact ih h' (Nat.le_of_lt_succ (lt_of_lt_of_le hlt hfuel))

/-- An incrementing search counts its start and the edges into the vertices that left zero. -/
theorem dfs_increments {start : V} {fuel : Nat} (hg : g.Follows ok vertex edges src tgt)
    (hv : g.Increments ok vertex cnt bound)
    (hbound : ∀ v, cnt st v + (if v = start then 1 else 0) +
      edges.countP (fun e => src e = v ∧ cnt st (tgt e) = 0) < bound) (hok : ok st)
    (hstart : vertex start) (hanc : start ∉ a) (hactive : ∀ v ∈ a, cnt st v ≠ 0)
    (hfuel : 2 * edges.length + 2 ≤ fuel) :
    ok (g.dfs fuel start ⟨true, a, a, []⟩ st).2 ∧
      ∀ v, cnt (g.dfs fuel start ⟨true, a, a, []⟩ st).2 v =
        cnt st v + (if v = start then 1 else 0) +
          flipped edges src tgt (cnt st) (cnt (g.dfs fuel start ⟨true, a, a, []⟩ st).2) v := by
  refine loop_increments (a := a) (p := [start]) hg hv hbound ⟨hok, ?_, fun v hv => hv, hactive, ?_,
    fun v => le_rfl, fun v => ?_⟩ ?_
  · exact Stacked.nil.pending hanc
  · intro v hv
    rwa [List.mem_singleton.1 hv]
  · have : flipped edges src tgt (cnt st) (cnt st) v = 0 := by
      simp only [flipped, List.countP_eq_zero, decide_eq_true_eq, not_and]
      exact fun e _ _ h hne => hne h
    rw [this]
    by_cases hvs : v = start
    · simp [hvs]
    · simp [hvs, Ne.symm hvs]
  · have : edges.countP (fun e => decide (cnt st (tgt e) = 0)) ≤ edges.length :=
      List.countP_le_length
    unfold rounds
    simp only [DFSData.push, List.length_cons, List.length_nil]
    omega

/-! ### Decrementing -/

variable {keep : List V}

/-- Every edge of an expansion is discounted at its source, now or later. A vertex of the stack is
visited at once; it is one that keeps a positive counter. -/
lemma expand_decrements (hg : g.Follows ok vertex edges src tgt)
    (hv : g.Decrements ok vertex cnt) (hes : ∀ e ∈ es, e ∈ edges) (hok : ok st)
    (hstack : Stacked a d.next d.stack p) (hvisited : ∀ v ∈ d.stack, v ∈ d.visited)
    (hactive : ∀ v ∈ d.stack, v ∈ keep ∨ cnt st v = 0) (hp : ∀ v ∈ p, vertex v)
    (hpos : ∀ v, p.count v + es.countP (fun e => src e = v) ≤ cnt st v)
    (hkeep : ∀ v ∈ keep, p.count v + es.countP (fun e => src e = v) < cnt st v) :
    ∃ d' st' p', g.expand es d st = (d', st', true) ∧ ok st' ∧
      d'.stack = d.stack ∧ (∀ v ∈ d'.stack, v ∈ d'.visited) ∧ Stacked a d'.next d'.stack p' ∧
      (∀ v ∈ p', vertex v) ∧
      (∀ v, cnt st' v + p.count v + es.countP (fun e => src e = v) = cnt st v + p'.count v) ∧
      (∀ v, cnt st' v = 0 ↔ cnt st v = 0) ∧ (∀ v, cnt st' v ≤ cnt st v) ∧
      d'.next.length + p.length = d.next.length + p'.length ∧
      p'.length ≤ p.length + es.length := by
  induction es generalizing d st p with
  | nil =>
    exact ⟨d, st, p, rfl, hok, rfl, hvisited, hstack, hp, by simp, by simp, by simp, rfl, by simp⟩
  | cons e es ih =>
    have hes' : ∀ e ∈ es, e ∈ edges := fun x hx => hes x (List.mem_cons_of_mem _ hx)
    have hvert := hg.vertex_src e (hes e List.mem_cons_self)
    have hcountP : ∀ v, ((e :: es).countP fun e => decide (src e = v)) =
        (es.countP fun e => src e = v) + if v = src e then 1 else 0 := by
      intro v
      by_cases hvs : v = src e
      · simp [hvs]
      · simp [hvs, Ne.symm hvs]
    simp only [hcountP] at hpos hkeep ⊢
    by_cases hmem : src e ∈ d.stack
    · -- the source is on the stack: it is visited at once
      have hb := hpos (src e)
      rw [if_pos rfl] at hb
      -- its counter is positive, so it is one of those that keep it
      have hk : src e ∈ keep := (hactive _ hmem).resolve_right (by omega)
      have hbk := hkeep _ hk
      rw [if_pos rfl] at hbk
      obtain ⟨hok', hcnt, -⟩ := hv st (src e) hok hvert (by omega)
      have hne : cnt (g.visit st (src e)).2 (src e) ≠ 0 := by
        rw [hcnt, Function.update_self]
        omega
      have hval : ∀ v, cnt (g.visit st (src e)).2 v + (if v = src e then 1 else 0) = cnt st v := by
        intro v
        rw [hcnt]
        by_cases hvs : v = src e
        · subst hvs
          simp only [Function.update_self, if_true]
          omega
        · simp [hvs]
      obtain ⟨d', st', p', heq, h⟩ := ih hes' hok' hstack hvisited
        (by
          intro v hvm
          refine (hactive v hvm).imp id fun h0 => ?_
          have := hval v
          omega)
        hp
        (by
          intro v
          have h₁ := hpos v
          have h₂ := hval v
          omega)
        (by
          intro v hvk
          have h₁ := hkeep v hvk
          have h₂ := hval v
          omega)
      obtain ⟨hok'', hst, hvis, hstk, hpv, hsum, hzero, hmono, hlen, hle⟩ := h
      refine ⟨d', st', p', ?_, hok'', hst, hvis, hstk, hpv, ?_, ?_, ?_, hlen, ?_⟩
      · rw [expand]
        simp only [hg.filter, if_true, hg.target st e hok, hmem, hvisited _ hmem,
          not_true_eq_false, if_false, hg.postCancel]
        exact heq
      · intro v
        have h₁ := hsum v
        have h₂ := hval v
        omega
      · intro v
        rw [hzero v]
        have h₂ := hval v
        by_cases hvs : v = src e
        · subst hvs
          rw [if_pos rfl] at h₂
          omega
        · rw [if_neg hvs] at h₂
          omega
      · intro v
        have h₁ := hmono v
        have h₂ := hval v
        omega
      · simp only [List.length_cons]
        omega
    · -- otherwise it has to be entered
      have hcount : ∀ v, (src e :: p).count v = p.count v + if v = src e then 1 else 0 := by
        intro v
        by_cases hvs : v = src e
        · simp [hvs]
        · simp [hvs, Ne.symm hvs]
      obtain ⟨d', st', p', heq, h⟩ := ih (d := d.push (src e)) hes' hok (hstack.pending hmem)
        hvisited hactive
        (by
          intro v hvm
          rcases List.mem_cons.1 hvm with rfl | hvm
          · exact hvert
          · exact hp v hvm)
        (by
          intro v
          have h₁ := hpos v
          rw [hcount]
          omega)
        (by
          intro v hvk
          have h₁ := hkeep v hvk
          rw [hcount]
          omega)
      obtain ⟨hok'', hst, hvis, hstk, hpv, hsum, hzero, hmono, hlen, hle⟩ := h
      refine ⟨d', st', p', ?_, hok'', hst, hvis, hstk, hpv, ?_, hzero, hmono, ?_, ?_⟩
      · rw [expand]
        simp only [hg.filter, if_true, hg.target st e hok, hmem, if_false, hg.allPaths]
        split <;> exact heq
      · intro v
        have h₁ := hsum v
        rw [hcount] at h₁
        omega
      · simp only [DFSData.push, List.length_cons] at hlen ⊢
        omega
      · simp only [List.length_cons] at hle ⊢
        omega

/-- The edges into the vertices whose counter reached zero. -/
def dropped (edges : List E) (src tgt : E → V) (old new : V → Nat) (v : V) : Nat :=
  edges.countP fun e => src e = v ∧ old (tgt e) ≠ 0 ∧ new (tgt e) = 0

lemma dropped_congr {old new new' : V → Nat} (h : ∀ v, new' v = 0 ↔ new v = 0) (v : V) :
    dropped edges src tgt old new' v = dropped edges src tgt old new v :=
  List.countP_congr fun e _ => by simp [h]

/-- One more vertex reaches zero. -/
lemma dropped_update {old new new' : V → Nat} {t : V} (hold : old t ≠ 0) (hnew : new t ≠ 0)
    (hnew' : ∀ w, new' w = 0 ↔ new w = 0 ∨ w = t) (v : V) :
    dropped edges src tgt old new' v =
      dropped edges src tgt old new v + edges.countP fun e => src e = v ∧ tgt e = t := by
  refine List.countP_eq_add_of_disjoint (fun e _ => ?_) (fun e _ => ?_)
  · rw [Bool.eq_iff_iff]
    simp only [Bool.or_eq_true, decide_eq_true_eq, hnew']
    by_cases ht : tgt e = t
    · simp [ht, hold, hnew]
    · simp [ht]
  · simp only [decide_eq_true_eq, not_and]
    rintro ⟨-, -, hne⟩ - ht
    exact hnew (ht ▸ hne)

/-- The edges that can be dropped at most. -/
def droppable (edges : List E) (src tgt : E → V) (keep : List V) (old : V → Nat) (v : V) : Nat :=
  edges.countP fun e => src e = v ∧ old (tgt e) ≠ 0 ∧ tgt e ∉ keep

/-- What the loop of a decrementing search keeps. -/
structure Decrementing (ok : σ → Prop) (vertex : V → Prop) (edges : List E) (src tgt : E → V)
    (cnt : σ → V → Nat) (a keep : List V) (old : V → Nat) (start : V) (d : DFSData V) (st : σ)
    (p : List V) : Prop where
  ok : ok st
  stacked : Stacked a d.next d.stack p
  visited : ∀ v ∈ d.stack, v ∈ d.visited
  active : ∀ v ∈ d.stack, v ∈ keep ∨ cnt st v = 0 ∨ d.next.head? = some v
  vertex : ∀ v ∈ p, vertex v
  mono : ∀ v, cnt st v ≤ old v
  kept : ∀ v ∈ keep, cnt st v ≠ 0
  sum : ∀ v, cnt st v + (if v = start then 1 else 0) + dropped edges src tgt old (cnt st) v =
    old v + p.count v

/-- The rounds that are left. -/
def roundsLeft (edges : List E) (tgt : E → V) (cnt : V → Nat) (d : DFSData V) (p : List V) : Nat :=
  p.length + d.next.length + 2 * edges.countP fun e => cnt (tgt e) ≠ 0

/-- The counters are large enough for everything that can be dropped; those of `keep` are larger. -/
structure Enough (edges : List E) (src tgt : E → V) (keep : List V) (old : V → Nat) (start : V) :
    Prop where
  all : ∀ v, (if v = start then 1 else 0) + droppable edges src tgt keep old v ≤ old v
  keep : ∀ v ∈ keep, (if v = start then 1 else 0) + droppable edges src tgt keep old v < old v

lemma dropped_le {old new : V → Nat} (h : ∀ v ∈ keep, new v ≠ 0) (v : V) :
    dropped edges src tgt old new v ≤ droppable edges src tgt keep old v := by
  refine List.countP_mono_left fun e _ he => ?_
  simp only [decide_eq_true_eq] at he ⊢
  exact ⟨he.1, he.2.1, fun hk => h _ hk he.2.2⟩

namespace Decrementing

variable {old : V → Nat} {start top : V} {rest : List V}

/-- What is pending can still be taken from the counters. -/
lemma count_le (he : Enough edges src tgt keep old start)
    (h : Decrementing ok vertex edges src tgt cnt a keep old start d st p) (v : V) :
    p.count v ≤ cnt st v ∧ (v ∈ keep → p.count v < cnt st v) := by
  have h₁ := h.sum v
  have h₂ := he.all v
  have h₃ : dropped edges src tgt old (cnt st) v ≤ _ := dropped_le h.kept v
  refine ⟨by omega, fun hk => ?_⟩
  have h₄ := he.keep v hk
  omega

/-- The vertex on top was entered before: it is left again. -/
lemma leave (h : Decrementing ok vertex edges src tgt cnt a keep old start d st p)
    (hnext : d.next = top :: rest) (hmem : top ∈ d.stack) :
    Decrementing ok vertex edges src tgt cnt a keep old start (d.leave top) st p ∧
      roundsLeft edges tgt (cnt st) (d.leave top) p < roundsLeft edges tgt (cnt st) d p := by
  have hstk := h.stacked
  rw [hnext] at hstk
  obtain ⟨stack', hs, htop, hstk'⟩ := hstk.of_mem hmem
  refine ⟨⟨h.ok, ?_, ?_, ?_, h.vertex, h.mono, h.kept, h.sum⟩, ?_⟩
  · simpa [DFSData.leave, hs, hnext] using hstk'
  · intro v hv
    exact h.visited v (List.mem_of_mem_erase hv)
  · intro v hv
    have hv' : v ∈ stack' := by simpa [DFSData.leave, hs] using hv
    rcases h.active v (List.mem_of_mem_erase hv) with hk | h0 | hhead
    · exact .inl hk
    · exact .inr (.inl h0)
    · rw [hnext, List.head?_cons, Option.some.injEq] at hhead
      exact absurd (hhead ▸ hv') htop
  · unfold roundsLeft
    simp only [DFSData.leave, hnext, List.tail_cons, List.length_cons]
    omega

/-- The vertex on top is entered and visited. -/
lemma visit (hv : g.Decrements ok vertex cnt) (he : Enough edges src tgt keep old start)
    (h : Decrementing ok vertex edges src tgt cnt a keep old start d st p)
    (hnext : d.next = top :: rest) (hmem : top ∉ d.stack) :
    ∃ p', p = top :: p' ∧ vertex top ∧ cnt st top ≠ 0 ∧ ok (g.visit st top).2 ∧
      (∀ v, cnt (g.visit st top).2 v + (if v = top then 1 else 0) = cnt st v) ∧
      (g.visit st top).1 = decide (cnt st top = 1) ∧
      Stacked a (d.enter top).next (d.enter top).stack p' ∧
      (∀ v ∈ (d.enter top).stack, v ∈ (d.enter top).visited) ∧
      (∀ v ∈ d.stack, v ∈ keep ∨ cnt (g.visit st top).2 v = 0) ∧
      (∀ v ∈ keep, cnt (g.visit st top).2 v ≠ 0) ∧
      ∀ v, (top :: p').count v = p'.count v + if v = top then 1 else 0 := by
  have hstk := h.stacked
  rw [hnext] at hstk
  obtain ⟨p', rfl, hstk'⟩ := hstk.of_not_mem hmem
  have hvert := h.vertex top List.mem_cons_self
  have hle := fun v => h.count_le he v
  have hcount : ∀ v, (top :: p').count v = p'.count v + if v = top then 1 else 0 := by
    intro v
    by_cases hvt : v = top
    · simp [hvt]
    · simp [hvt, Ne.symm hvt]
  simp only [hcount] at hle
  -- what is pending has not been counted down yet, so the counter is positive
  have htop : cnt st top ≠ 0 := by
    have := (hle top).1
    rw [if_pos rfl] at this
    omega
  obtain ⟨hok, hcnt, hdesc⟩ := hv st top h.ok hvert htop
  have hval : ∀ v, cnt (g.visit st top).2 v + (if v = top then 1 else 0) = cnt st v := by
    intro v
    rw [hcnt]
    by_cases hvt : v = top
    · subst hvt
      simp only [Function.update_self, if_true]
      omega
    · simp [hvt]
  refine ⟨p', rfl, hvert, htop, hok, hval, hdesc, ?_, fun v hv => ?_, fun v hv => ?_,
    fun v hv => ?_, hcount⟩
  · simpa [DFSData.enter, hnext] using hstk'.active hmem
  · rcases List.mem_cons.1 hv with rfl | hv
    · exact List.mem_cons_self
    · exact List.mem_cons_of_mem _ (h.visited v hv)
  · have hvt : v ≠ top := fun heq => hmem (heq ▸ hv)
    have hval := hval v
    rw [if_neg hvt] at hval
    rcases h.active v hv with hk | h0 | hhead
    · exact .inl hk
    · exact .inr (by omega)
    · rw [hnext, List.head?_cons, Option.some.injEq] at hhead
      exact absurd hhead.symm hvt
  · have h₁ := (hle v).2 hv
    have h₂ := hval v
    omega

/-- The counter of the vertex on top stays positive: nothing else is reached from it. -/
lemma enter (hv : g.Decrements ok vertex cnt) (he : Enough edges src tgt keep old start)
    (h : Decrementing ok vertex edges src tgt cnt a keep old start d st p)
    (hnext : d.next = top :: rest) (hmem : top ∉ d.stack) (hone : cnt st top ≠ 1) :
    ∃ p', Decrementing ok vertex edges src tgt cnt a keep old start (d.enter top)
        (g.visit st top).2 p' ∧
      roundsLeft edges tgt (cnt (g.visit st top).2) (d.enter top) p' <
        roundsLeft edges tgt (cnt st) d p := by
  obtain ⟨p', rfl, -, htop, hok, hval, -, hstk, hvisited, hactive, hkept, hcount⟩ :=
    h.visit hv he hnext hmem
  have hzero : ∀ w, cnt (g.visit st top).2 w = 0 ↔ cnt st w = 0 := by
    intro w
    have := hval w
    by_cases hw : w = top
    · subst hw
      rw [if_pos rfl] at this
      omega
    · rw [if_neg hw] at this
      omega
  refine ⟨p', ⟨hok, hstk, hvisited, ?_, ?_, ?_, hkept, ?_⟩, ?_⟩
  · intro v hv
    rcases List.mem_cons.1 hv with rfl | hv
    · exact .inr (.inr (by simp [DFSData.enter, hnext]))
    · exact (hactive v hv).imp id .inl
  · exact fun v hv => h.vertex v (List.mem_cons_of_mem _ hv)
  · intro v
    have h₁ := h.mono v
    have h₂ := hval v
    omega
  · intro v
    have h₁ := h.sum v
    have h₂ := hval v
    rw [hcount] at h₁
    rw [dropped_congr hzero]
    omega
  · have : (edges.countP fun e => decide (cnt (g.visit st top).2 (tgt e) ≠ 0)) =
        edges.countP fun e => cnt st (tgt e) ≠ 0 :=
      List.countP_congr fun e _ => by simp [hzero]
    unfold roundsLeft
    rw [this]
    simp only [DFSData.enter, List.length_cons]
    omega

/-- The counter of the vertex on top reached zero: the edges into it are followed. -/
lemma descend (hg : g.Follows ok vertex edges src tgt) (hv : g.Decrements ok vertex cnt)
    (he : Enough edges src tgt keep old start)
    (h : Decrementing ok vertex edges src tgt cnt a keep old start d st p)
    (hnext : d.next = top :: rest) (hmem : top ∉ d.stack) (hone : cnt st top = 1) :
    ∃ d' st' p', g.expand (g.outEdges (g.visit st top).2 top) (d.enter top) (g.visit st top).2 =
        (d', st', true) ∧ Decrementing ok vertex edges src tgt cnt a keep old start d' st' p' ∧
      roundsLeft edges tgt (cnt st') d' p' < roundsLeft edges tgt (cnt st) d p := by
  obtain ⟨p', rfl, hvert, htop, hok, hval, -, hstk, hvisited, hactive, hkept, hpending⟩ :=
    h.visit hv he hnext hmem
  have hperm := hg.outEdges (g.visit st top).2 top hok hvert
  have hes : ∀ e ∈ g.outEdges (g.visit st top).2 top, e ∈ edges := fun e he =>
    List.mem_of_mem_filter (hperm.mem_iff.1 he)
  have hcount : ∀ v, ((g.outEdges (g.visit st top).2 top).countP fun e => src e = v) =
      edges.countP fun e => src e = v ∧ tgt e = top := countP_filter_src hperm
  have hold : old top ≠ 0 := by have := h.mono top; omega
  have hzero : ∀ w, cnt (g.visit st top).2 w = 0 ↔ cnt st w = 0 ∨ w = top := by
    intro w
    have := hval w
    by_cases hw : w = top
    · subst hw
      rw [if_pos rfl] at this
      simp only [or_true, iff_true]
      omega
    · rw [if_neg hw] at this
      simp only [hw, or_false]
      omega
  -- the edges into the vertex join those that were followed
  have hdrop : ∀ v, dropped edges src tgt old (cnt (g.visit st top).2) v =
      dropped edges src tgt old (cnt st) v + edges.countP fun e => src e = v ∧ tgt e = top :=
    dropped_update hold htop hzero
  have hsum : ∀ v, cnt (g.visit st top).2 v + (if v = start then 1 else 0) +
      dropped edges src tgt old (cnt (g.visit st top).2) v =
        old v + p'.count v + (g.outEdges (g.visit st top).2 top).countP fun e => src e = v := by
    intro v
    have h₁ := h.sum v
    have h₂ := hval v
    have h₃ := hdrop v
    have h₄ := hcount v
    rw [hpending] at h₁
    omega
  have hle : ∀ v, dropped edges src tgt old (cnt (g.visit st top).2) v ≤
      droppable edges src tgt keep old v := dropped_le hkept
  obtain ⟨d', st', p'', heq, hok', hst, hvis, hstk', hpv, hexp, hcongr, hmono, hlen, hlen'⟩ :=
    expand_decrements hg hv hes hok hstk hvisited
      (by
        intro v hv
        rcases List.mem_cons.1 hv with rfl | hv
        · exact .inr ((hzero v).2 (.inr rfl))
        · exact hactive v hv)
      (fun v hv => h.vertex v (List.mem_cons_of_mem _ hv))
      (fun v => by
        have h₁ := hsum v
        have h₂ := hle v
        have h₃ := he.all v
        omega)
      (fun v hk => by
        have h₁ := hsum v
        have h₂ := hle v
        have h₃ := he.keep v hk
        omega)
  refine ⟨d', st', p'', heq, ⟨hok', hstk', hvis, ?_, hpv, ?_, ?_, ?_⟩, ?_⟩
  · intro v hv
    rw [hst] at hv
    rw [hcongr]
    rcases List.mem_cons.1 hv with rfl | hv
    · exact .inr (.inl ((hzero v).2 (.inr rfl)))
    · exact (hactive v hv).imp id .inl
  · intro v
    have h₁ := hmono v
    have h₂ := hval v
    have h₃ := h.mono v
    omega
  · intro v hk
    rw [Ne, hcongr]
    exact hkept v hk
  · intro v
    have h₁ := hsum v
    have h₂ := hexp v
    rw [dropped_congr hcongr]
    omega
  · -- its edges are counted in `roundsLeft` no more
    have hrest : (edges.countP fun e => decide (cnt st (tgt e) ≠ 0)) =
        (edges.countP fun e => cnt st' (tgt e) ≠ 0) + edges.countP fun e => tgt e = top := by
      refine List.countP_eq_add_of_disjoint (fun e _ => ?_) (fun e _ => ?_)
      · rw [Bool.eq_iff_iff]
        simp only [Bool.or_eq_true, decide_eq_true_eq, ne_eq, hcongr, hzero, not_or]
        by_cases ht : tgt e = top
        · simp [ht, htop]
        · simp [ht]
      · simp only [decide_eq_true_eq, ne_eq, hcongr, hzero, not_or, not_and]
        exact fun h₁ => h₁.2
    have hlength : (g.outEdges (g.visit st top).2 top).length =
        edges.countP fun e => tgt e = top := by
      rw [hperm.length_eq, List.countP_eq_length_filter]
    unfold roundsLeft
    rw [hrest]
    simp only [DFSData.enter, List.length_cons] at hlen ⊢
    omega

end Decrementing

lemma loop_decrements {old : V → Nat} {start : V} {fuel : Nat}
    (hg : g.Follows ok vertex edges src tgt) (hv : g.Decrements ok vertex cnt)
    (he : Enough edges src tgt keep old start)
    (h : Decrementing ok vertex edges src tgt cnt a keep old start d st p)
    (hfuel : roundsLeft edges tgt (cnt st) d p ≤ fuel) :
    ok (g.loop fuel d st).2 ∧ (∀ v ∈ keep, cnt (g.loop fuel d st).2 v ≠ 0) ∧
      ∀ v, cnt (g.loop fuel d st).2 v + (if v = start then 1 else 0) +
        dropped edges src tgt old (cnt (g.loop fuel d st).2) v = old v := by
  induction fuel generalizing d st p with
  | zero =>
    have hp : p = [] := List.length_eq_zero_iff.1 (by unfold roundsLeft at hfuel; omega)
    subst hp
    exact ⟨h.ok, h.kept, fun v => by simpa [loop] using h.sum v⟩
  | succ fuel ih =>
    rw [loop]
    split
    · rename_i hnext
      have hp : p = [] := by
        have hstk := h.stacked
        rw [hnext] at hstk
        exact hstk.eq_nil
      subst hp
      exact ⟨h.ok, h.kept, fun v => by simpa using h.sum v⟩
    · rename_i top rest hnext
      by_cases hmem : top ∈ d.stack
      · rw [if_pos hmem]
        obtain ⟨h', hlt⟩ := h.leave hnext hmem
        exact ih h' (by omega)
      · rw [if_neg hmem]
        obtain ⟨-, -, -, -, -, -, hdesc, -⟩ := h.visit hv he hnext hmem
        by_cases hone : cnt st top = 1
        · obtain ⟨d', st', p', heq, h', hlt⟩ := h.descend hg hv he hnext hmem hone
          simp only [hdesc, hone, decide_true, if_true, heq]
          exact ih h' (by omega)
        · obtain ⟨p', h', hlt⟩ := h.enter hv he hnext hmem hone
          simp only [hdesc, hone, decide_false, Bool.false_eq_true, if_false]
          exact ih h' (Nat.le_of_lt_succ (lt_of_lt_of_le hlt hfuel))

/-- A decrementing search discounts its start and the edges into the vertices that reached zero,
provided that the counters are large enough and the ancestors keep a positive one. -/
theorem dfs_decrements {start : V} {fuel : Nat} (hg : g.Follows ok vertex edges src tgt)
    (hv : g.Decrements ok vertex cnt) (he : Enough edges src tgt keep (cnt st) start) (hok : ok st)
    (hstart : vertex start) (hanc : start ∉ a) (ha : ∀ v ∈ a, v ∈ keep)
    (hfuel : 2 * edges.length + 2 ≤ fuel) :
    ok (g.dfs fuel start ⟨true, a, a, []⟩ st).2 ∧
      (∀ v ∈ keep, cnt (g.dfs fuel start ⟨true, a, a, []⟩ st).2 v ≠ 0) ∧
      ∀ v, cnt (g.dfs fuel start ⟨true, a, a, []⟩ st).2 v + (if v = start then 1 else 0) +
        dropped edges src tgt (cnt st) (cnt (g.dfs fuel start ⟨true, a, a, []⟩ st).2) v =
          cnt st v := by
  refine loop_decrements (a := a) (p := [start]) hg hv he ⟨hok, ?_, fun v hv => hv,
    fun v hv => .inl (ha v hv), ?_, fun v => le_rfl, ?_, fun v => ?_⟩ ?_
  · exact Stacked.nil.pending hanc
  · intro v hv
    rwa [List.mem_singleton.1 hv]
  · intro v hk
    have := he.keep v hk
    omega
  · have : dropped edges src tgt (cnt st) (cnt st) v = 0 := by
      simp only [dropped, List.countP_eq_zero, decide_eq_true_eq, not_and]
      exact fun e _ _ h hne => h hne
    rw [this]
    by_cases hvs : v = start
    · simp [hvs]
    · simp [hvs, Ne.symm hvs]
  · have : edges.countP (fun e => decide (cnt st (tgt e) ≠ 0)) ≤ edges.length :=
      List.countP_le_length
    unfold roundsLeft
    simp only [DFSData.push, List.length_cons, List.length_nil]
    omega

end Search

end Idle
