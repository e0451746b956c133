import Mathlib.Data.List.Basic
import Mathlib.Data.List.Nodup
import Mathlib.Data.Set.Insert

/-!
# Doubly linked chains

Nodes are linked by two partial functions. A chain is a list of nodes in which one of the functions
leads to the element behind and the other one to the element before. The chains that are considered
together have every node once, so a node without links is a chain of its own. A node moves from its
own chain into another one, and back.
-/

namespace Chain

variable {N : Type*} [DecidableEq N]

/-- The element behind another one. -/
def after : List N → N → Option N
  | [], _ => none
  | a :: l, x => if a = x then l.head? else after l x

/-- What is reached by following links, for so many steps at most. -/
def follow (f : N → Option N) : Nat → Option N → List N
  | 0, _ => []
  | _ + 1, none => []
  | n + 1, some x => x :: follow f n (f x)

variable {l xs ys zs : List N} {v x : N}

omit [DecidableEq N] in
lemma mem_middle : x ∈ xs ++ v :: ys ↔ x = v ∨ x ∈ xs ++ ys :=
  List.perm_middle.mem_iff.trans List.mem_cons

omit [DecidableEq N] in
lemma reverse_middle : (xs ++ v :: ys).reverse = ys.reverse ++ v :: xs.reverse := by
  rw [List.reverse_append, List.reverse_cons, List.append_assoc, List.singleton_append]

omit [DecidableEq N] in
lemma notMem_of_nodup_middle (h : (xs ++ v :: ys).Nodup) : v ∉ xs ++ ys :=
  (List.nodup_cons.1 (List.nodup_middle.1 h)).1

lemma after_append_cons (h : v ∉ xs) : after (xs ++ v :: ys) v = ys.head? := by
  induction xs with
  | nil => exact if_pos rfl
  | cons a xs ih =>
    obtain ⟨hne, hxs⟩ := not_or.1 (mt List.mem_cons.2 h)
    rw [List.cons_append, after, if_neg (Ne.symm hne)]
    exact ih hxs

/-- Before the last element of a part, the element behind is what it was. -/
lemma after_append (hx : x ∈ xs) (hlast : xs.getLast? ≠ some x) :
    after (xs ++ ys) x = after xs x := by
  induction xs with
  | nil => simp at hx
  | cons a xs ih =>
    rw [List.cons_append, after, after]
    split
    · rename_i heq
      cases xs with
      | nil => exact absurd (congrArg some heq) hlast
      | cons b xs => rfl
    · rename_i hne
      have hxs := (List.mem_cons.1 hx).resolve_left fun heq => hne heq.symm
      refine ih hxs fun heq => hlast ?_
      rw [List.getLast?_cons, heq]
      rfl

lemma after_append_right (h : x ∉ xs) : after (xs ++ ys) x = after ys x := by
  induction xs with
  | nil => rfl
  | cons a xs ih =>
    obtain ⟨hne, hxs⟩ := not_or.1 (mt List.mem_cons.2 h)
    rw [List.cons_append, after, if_neg (Ne.symm hne)]
    exact ih hxs

/-- The last element of a part is before the first one of the rest. -/
lemma after_getLast (h : xs.Nodup) (hx : xs.getLast? = some x) :
    after (xs ++ ys) x = ys.head? := by
  obtain ⟨zs, rfl⟩ := List.getLast?_eq_some_iff.1 hx
  have hnot : x ∉ zs := fun hmem =>
    (List.nodup_append.1 h).2.2 x hmem x (List.mem_singleton_self x) rfl
  rw [List.append_assoc, List.singleton_append, after_append_cons hnot]

/-- An element that is put in between is behind the one before it. -/
lemma after_insert (h : xs.Nodup) (hne : x ≠ v) :
    after (xs ++ v :: ys) x = if xs.getLast? = some x then some v else after (xs ++ ys) x := by
  split
  · rename_i hlast
    exact after_getLast h hlast
  · rename_i hlast
    by_cases hmem : x ∈ xs
    · rw [after_append hmem hlast, after_append hmem hlast]
    · rw [after_append_right hmem, after_append_right hmem, after, if_neg hne.symm]

/-- The links of a list: to the element behind, and to the element before. -/
structure Linked (next previous : N → Option N) (l : List N) : Prop where
  next_eq : ∀ x ∈ l, next x = after l x
  previous_eq : ∀ x ∈ l, previous x = after l.reverse x

variable {next previous next' previous' : N → Option N}

lemma Linked.symm (h : Linked next previous l) : Linked previous next l.reverse :=
  ⟨fun x hx => h.previous_eq x (List.mem_reverse.1 hx), fun x hx => by
    rw [List.reverse_reverse]
    exact h.next_eq x (List.mem_reverse.1 hx)⟩

/-- A node without links is a list of its own. -/
lemma linked_singleton_iff : Linked next previous [v] ↔ next v = none ∧ previous v = none := by
  have hafter : after [v] v = none := if_pos rfl
  constructor
  · intro h
    have hmem := List.mem_singleton_self v
    exact ⟨(h.next_eq v hmem).trans hafter, (h.previous_eq v hmem).trans hafter⟩
  · rintro ⟨hnext, hprevious⟩
    refine ⟨fun x hx => ?_, fun x hx => ?_⟩
    · rw [List.mem_singleton.1 hx, hnext, hafter]
    · rw [List.mem_singleton.1 hx, hprevious]
      exact hafter.symm

/-- Following the links from the first element enumerates the list. -/
lemma Linked.follow_next (h : Linked next previous l) (hnodup : l.Nodup) {n : Nat}
    (hn : l.length ≤ n) : follow next n l.head? = l := by
  suffices hsuffix : ∀ ys xs, l = xs ++ ys → ∀ n, ys.length ≤ n → follow next n ys.head? = ys from
    hsuffix l [] rfl n hn
  intro ys
  induction ys with
  | nil =>
    intro xs _ n _
    cases n <;> rfl
  | cons y ys ih =>
    rintro xs rfl n hn
    have hnot : y ∉ xs := fun hmem =>
      (List.nodup_append.1 hnodup).2.2 y hmem y List.mem_cons_self rfl
    cases n with
    | zero => simp at hn
    | succ n =>
      have hnext : next y = ys.head? :=
        (h.next_eq y (by simp)).trans (after_append_cons hnot)
      rw [List.head?_cons, follow, hnext]
      rw [ih (xs ++ [y]) (by simp) n (Nat.succ_le_succ_iff.1 hn)]

/-- Following the links from the last element enumerates the list backwards. -/
lemma Linked.follow_previous (h : Linked next previous l) (hnodup : l.Nodup) {n : Nat}
    (hn : l.length ≤ n) : follow previous n l.getLast? = l.reverse := by
  rw [← List.head?_reverse]
  exact h.symm.follow_next (List.nodup_reverse.2 hnodup) (by simpa using hn)

/-! ### A node moves between chains -/

/-- A node is put between two parts. -/
structure Inserted (next previous next' previous' : N → Option N) (xs : List N) (v : N)
    (ys : List N) : Prop where
  next_eq : ∀ x, next' x =
    if x = v then ys.head? else if xs.getLast? = some x then some v else next x
  previous_eq : ∀ x, previous' x =
    if x = v then xs.getLast? else if ys.head? = some x then some v else previous x

/-- A node is taken from between two parts. -/
structure Removed (next previous next' previous' : N → Option N) (xs : List N) (v : N)
    (ys : List N) : Prop where
  next_eq : ∀ x, next' x =
    if x = v then none else if xs.getLast? = some x then ys.head? else next x
  previous_eq : ∀ x, previous' x =
    if x = v then none else if ys.head? = some x then xs.getLast? else previous x

lemma Inserted.symm (h : Inserted next previous next' previous' xs v ys) :
    Inserted previous next previous' next' ys.reverse v xs.reverse :=
  ⟨fun x => by rw [h.previous_eq, List.head?_reverse, List.getLast?_reverse], fun x => by
    rw [h.next_eq, List.head?_reverse, List.getLast?_reverse]⟩

lemma Removed.symm (h : Removed next previous next' previous' xs v ys) :
    Removed previous next previous' next' ys.reverse v xs.reverse :=
  ⟨fun x => by rw [h.previous_eq, List.head?_reverse, List.getLast?_reverse], fun x => by
    rw [h.next_eq, List.head?_reverse, List.getLast?_reverse]⟩

lemma Inserted.after_eq (h : Inserted next previous next' previous' xs v ys)
    (hl : ∀ x ∈ xs ++ ys, next x = after (xs ++ ys) x) (hnodup : (xs ++ ys).Nodup)
    (hv : v ∉ xs ++ ys) (hx : x ∈ xs ++ v :: ys) : next' x = after (xs ++ v :: ys) x := by
  rw [h.next_eq]
  split
  · rename_i heq
    subst heq
    exact (after_append_cons fun hmem => hv (List.mem_append_left ys hmem)).symm
  · rename_i hne
    have hmem : x ∈ xs ++ ys := (mem_middle.1 hx).resolve_left hne
    rw [after_insert (List.nodup_append.1 hnodup).1 hne, hl x hmem]

lemma Removed.after_eq (h : Removed next previous next' previous' xs v ys)
    (hl : ∀ x ∈ xs ++ v :: ys, next x = after (xs ++ v :: ys) x) (hnodup : (xs ++ v :: ys).Nodup)
    (hx : x ∈ xs ++ ys) : next' x = after (xs ++ ys) x := by
  have hxs := (List.nodup_append.1 hnodup).1
  have hmem : x ∈ xs ++ v :: ys := mem_middle.2 (.inr hx)
  have hne : x ≠ v := by
    rintro rfl
    exact notMem_of_nodup_middle hnodup hx
  rw [h.next_eq, if_neg hne]
  split
  · rename_i hlast
    exact (after_getLast hxs hlast).symm
  · rename_i hlast
    rw [hl x hmem, after_insert hxs hne, if_neg hlast]

/-- The links of a list with the node that is put into it. -/
lemma Linked.insert (hl : Linked next previous (xs ++ ys))
    (h : Inserted next previous next' previous' xs v ys) (hnodup : (xs ++ ys).Nodup)
    (hv : v ∉ xs ++ ys) : Linked next' previous' (xs ++ v :: ys) := by
  refine ⟨fun x hx => h.after_eq hl.next_eq hnodup hv hx, fun x hx => ?_⟩
  have hsymm := hl.symm.next_eq
  rw [List.reverse_append] at hsymm
  have heq := h.symm.after_eq (x := x) hsymm (by
    rw [← List.reverse_append]
    exact List.nodup_reverse.2 hnodup) (by simpa [or_comm] using hv) (by
    simpa [or_comm, or_left_comm, or_assoc] using hx)
  rw [heq, reverse_middle]

/-- The links of a list without the node that is taken from it. -/
lemma Linked.remove (hl : Linked next previous (xs ++ v :: ys))
    (h : Removed next previous next' previous' xs v ys) (hnodup : (xs ++ v :: ys).Nodup) :
    Linked next' previous' (xs ++ ys) := by
  refine ⟨fun x hx => h.after_eq hl.next_eq hnodup hx, fun x hx => ?_⟩
  have hsymm := hl.symm.next_eq
  have hnodup' := List.nodup_reverse.2 hnodup
  rw [reverse_middle] at hsymm hnodup'
  have heq := h.symm.after_eq (x := x) hsymm hnodup' (by simpa [or_comm] using hx)
  rw [heq, List.reverse_append]

/-- Other lists are not touched when a node is put between two parts. -/
lemma Linked.insert_frame (hl : Linked next previous zs)
    (h : Inserted next previous next' previous' xs v ys) (hv : v ∉ zs)
    (hdisjoint : ∀ x ∈ zs, x ∉ xs ++ ys) : Linked next' previous' zs := by
  refine ⟨fun x hx => ?_, fun x hx => ?_⟩
  · have hlast : xs.getLast? ≠ some x := fun hlast =>
      hdisjoint x hx (List.mem_append_left ys (List.mem_of_getLast? hlast))
    rw [h.next_eq, if_neg (ne_of_mem_of_not_mem hx hv), if_neg hlast, hl.next_eq x hx]
  · have hhead : ys.head? ≠ some x := fun hhead =>
      hdisjoint x hx (List.mem_append_right xs (List.mem_of_head? hhead))
    rw [h.previous_eq, if_neg (ne_of_mem_of_not_mem hx hv), if_neg hhead, hl.previous_eq x hx]

/-- Other lists are not touched when a node is taken from between two parts. -/
lemma Linked.remove_frame (hl : Linked next previous zs)
    (h : Removed next previous next' previous' xs v ys)
    (hdisjoint : ∀ x ∈ zs, x ∉ xs ++ v :: ys) : Linked next' previous' zs := by
  have hne : ∀ x ∈ zs, x ≠ v := fun x hx heq =>
    hdisjoint x hx (by simp [heq])
  refine ⟨fun x hx => ?_, fun x hx => ?_⟩
  · have hlast : xs.getLast? ≠ some x := fun hlast =>
      hdisjoint x hx (List.mem_append_left _ (List.mem_of_getLast? hlast))
    rw [h.next_eq, if_neg (hne x hx), if_neg hlast, hl.next_eq x hx]
  · have hhead : ys.head? ≠ some x := fun hhead =>
      hdisjoint x hx (List.mem_append_right xs (List.mem_cons_of_mem v (List.mem_of_head? hhead)))
    rw [h.previous_eq, if_neg (hne x hx), if_neg hhead, hl.previous_eq x hx]

/-- When a node without links is taken out, nothing changes. -/
lemma Removed.alone (hnext : next v = none) (hprevious : previous v = none) :
    Removed next previous next previous [] v [] := by
  refine ⟨fun x => ?_, fun x => ?_⟩
  · split
    · rename_i heq
      exact heq ▸ hnext
    · rfl
  · split
    · rename_i heq
      exact heq ▸ hprevious
    · rfl

/-! ### All chains -/

/-- The chains that there are have every node once. -/
structure Chained (next previous : N → Option N) (chains : Set (List N)) : Prop where
  nil_notMem : [] ∉ chains
  nodup : ∀ xs ∈ chains, xs.Nodup
  eq_of_mem : ∀ xs ∈ chains, ∀ ys ∈ chains, ∀ x ∈ xs, x ∈ ys → xs = ys
  covers : ∀ x, ∃ xs ∈ chains, x ∈ xs
  linked : ∀ xs ∈ chains, Linked next previous xs

variable {chains : Set (List N)}

/-- The chains after a node was put between two parts of a chain. -/
def insertChain (chains : Set (List N)) (xs : List N) (v : N) (ys : List N) : Set (List N) :=
  {c | c = xs ++ v :: ys ∨ c ∈ chains ∧ c ≠ xs ++ ys ∧ c ≠ [v]}

/-- The chains after a node was taken from between two parts of a chain. -/
def removeChain (chains : Set (List N)) (xs : List N) (v : N) (ys : List N) : Set (List N) :=
  {c | c = [v] ∨ c = xs ++ ys ∧ c ≠ [] ∨ c ∈ chains ∧ c ≠ xs ++ v :: ys}

theorem Chained.insert (h : Chained next previous chains)
    (hins : Inserted next previous next' previous' xs v ys)
    (hl : xs ++ ys = [] ∨ xs ++ ys ∈ chains) (hv : [v] ∈ chains) (hne : v ∉ xs ++ ys) :
    Chained next' previous' (insertChain chains xs v ys) := by
  have hnodup : (xs ++ ys).Nodup := hl.elim (fun heq => heq ▸ List.nodup_nil) (h.nodup _)
  have hlinked : Linked next previous (xs ++ ys) := hl.elim (fun heq => by
    rw [heq]
    exact ⟨nofun, nofun⟩) (h.linked _)
  -- what else there is has none of the nodes
  have hother : ∀ c ∈ chains, c ≠ xs ++ ys → c ≠ [v] → ∀ x ∈ c, x ∉ xs ++ v :: ys := by
    intro c hc hcl hcv x hx hmem'
    rcases mem_middle.1 hmem' with rfl | hmem'
    · exact hcv (h.eq_of_mem c hc _ hv x hx (List.mem_singleton_self x))
    · rcases hl with heq | hl
      · simp [heq] at hmem'
      · exact hcl (h.eq_of_mem c hc _ hl x hx hmem')
  refine ⟨?_, ?_, ?_, fun x => ?_, ?_⟩
  · rintro (heq | ⟨hnil, -⟩)
    · simp at heq
    · exact h.nil_notMem hnil
  · rintro c (rfl | ⟨hc, -⟩)
    · exact List.nodup_middle.2 (List.nodup_cons.2 ⟨hne, hnodup⟩)
    · exact h.nodup c hc
  · rintro c (rfl | ⟨hc, hcl, hcv⟩) d (rfl | ⟨hd, hdl, hdv⟩) x hx hx'
    · rfl
    · exact absurd hx (hother d hd hdl hdv x hx')
    · exact absurd hx' (hother c hc hcl hcv x hx)
    · exact h.eq_of_mem c hc d hd x hx hx'
  · obtain ⟨c, hc, hx⟩ := h.covers x
    by_cases hx' : x ∈ xs ++ v :: ys
    · exact ⟨_, .inl rfl, hx'⟩
    · refine ⟨c, .inr ⟨hc, ?_, ?_⟩, hx⟩
      · rintro rfl
        exact hx' (mem_middle.2 (.inr hx))
      · rintro rfl
        exact hx' (mem_middle.2 (.inl (List.mem_singleton.1 hx)))
  · rintro c (rfl | ⟨hc, hcl, hcv⟩)
    · exact hlinked.insert hins hnodup hne
    · refine (h.linked c hc).insert_frame hins (fun hvc => ?_) fun x hx hx' => ?_
      · exact hother c hc hcl hcv v hvc (mem_middle.2 (.inl rfl))
      · exact hother c hc hcl hcv x hx (mem_middle.2 (.inr hx'))

theorem Chained.remove (h : Chained next previous chains)
    (hrem : Removed next previous next' previous' xs v ys) (hl : xs ++ v :: ys ∈ chains) :
    Chained next' previous' (removeChain chains xs v ys) := by
  have hnodup := h.nodup _ hl
  have hv : v ∉ xs ++ ys := notMem_of_nodup_middle hnodup
  have hother : ∀ c ∈ chains, c ≠ xs ++ v :: ys → ∀ x ∈ c, x ∉ xs ++ v :: ys :=
    fun c hc hne x hx hx' => hne (h.eq_of_mem c hc _ hl x hx hx')
  refine ⟨?_, ?_, ?_, fun x => ?_, ?_⟩
  · rintro (heq | ⟨-, hnil⟩ | ⟨hnil, -⟩)
    · simp at heq
    · exact hnil rfl
    · exact h.nil_notMem hnil
  · rintro c (rfl | ⟨rfl, -⟩ | ⟨hc, -⟩)
    · exact List.nodup_singleton v
    · exact (List.nodup_cons.1 (List.nodup_middle.1 hnodup)).2
    · exact h.nodup c hc
  · rintro c (rfl | ⟨rfl, -⟩ | ⟨hc, hcl⟩) d (rfl | ⟨rfl, -⟩ | ⟨hd, hdl⟩) x hx hx'
    · rfl
    · exact absurd (List.mem_singleton.1 hx ▸ hx') hv
    · exact absurd (mem_middle.2 (.inl (List.mem_singleton.1 hx))) (hother d hd hdl x hx')
    · exact absurd (List.mem_singleton.1 hx' ▸ hx) hv
    · rfl
    · exact absurd (mem_middle.2 (.inr hx)) (hother d hd hdl x hx')
    · exact absurd (mem_middle.2 (.inl (List.mem_singleton.1 hx'))) (hother c hc hcl x hx)
    · exact absurd (mem_middle.2 (.inr hx')) (hother c hc hcl x hx)
    · exact h.eq_of_mem c hc d hd x hx hx'
  · obtain ⟨c, hc, hx⟩ := h.covers x
    by_cases hcl : c = xs ++ v :: ys
    · rcases mem_middle.1 (hcl ▸ hx) with rfl | hx
      · exact ⟨[x], .inl rfl, List.mem_singleton_self x⟩
      · exact ⟨_, .inr (.inl ⟨rfl, List.ne_nil_of_mem hx⟩), hx⟩
    · exact ⟨c, .inr (.inr ⟨hc, hcl⟩), hx⟩
  · rintro c (rfl | ⟨rfl, -⟩ | ⟨hc, hcl⟩)
    · exact linked_singleton_iff.2 ⟨by rw [hrem.next_eq, if_pos rfl], by
        rw [hrem.previous_eq, if_pos rfl]⟩
    · exact (h.linked _ hl).remove hrem hnodup
    · exact (h.linked c hc).remove_frame hrem (hother c hc hcl)

end Chain
