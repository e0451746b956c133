import Idle.Library.Iteration
import Idle.Core.Sample
import Idle.Core.Tree

/-!
# The iterators over services

The iterators of `iterators.cpp` keep nothing but the service they are at. To advance, they go down
into the children of a part, right to the next child or part, or up to the owner of the parent,
and look there for what comes next. The loops in which they go up or down are given with a bound
and yield nothing when they run into it.
-/

namespace Idle

/-- `iteration_flags_t` -/
structure IterationFlags where
  iterateImports : Bool
  iterateExports : Bool

namespace IterationFlags

def all : IterationFlags := ⟨true, true⟩

def imports : IterationFlags := ⟨true, false⟩

/-- The parts that `next_child_of_parts` does not skip. -/
def enters (flags : IterationFlags) (p : Part) : Bool :=
  if p.isImport then flags.iterateImports else flags.iterateExports

end IterationFlags

namespace ServiceTree

variable (c : ServiceTree) (flags : IterationFlags)

/-- `Service::isRoot` -/
def isRoot (s : ServiceId) : Bool := (c.layout.parent s).owner == s

/-- `neighbors().next()` of a part -/
def partNeighbors (p : Part) : List Part := (c.layout.parts p.owner).after (· == p)

/-- `neighbors().next()` of a service -/
def serviceNeighbors (s : ServiceId) : List ServiceId :=
  (c.children (c.layout.parent s)).after (· == s)

/-- `next_child_of_parts` -/
def nextChildOfParts : List Part → Option ServiceId
  | [] => none
  | current :: parts =>
    if current.isExport && !flags.iterateExports then nextChildOfParts parts
    else if current.isImport && !flags.iterateImports then nextChildOfParts parts
    else match c.children current with
      | child :: _ => some child
      | [] => nextChildOfParts parts

/-- `next_neighbour_or_child` -/
def nextNeighbourOrChild (current : ServiceId) : Option ServiceId :=
  match c.serviceNeighbors current with
  | neighbor :: _ => some neighbor
  | [] => c.nextChildOfParts flags (c.partNeighbors (c.layout.parent current))

/-- The loop of `next_parent_or_neighbour`. -/
def parentOrNeighbour : Nat → ServiceId → Option (Option ServiceId)
  | 0, _ => none
  | n + 1, current =>
    if c.isRoot current then some none
    else match c.nextNeighbourOrChild flags current with
      | some next => some (some next)
      | none => parentOrNeighbour n (c.layout.parent current).owner

/-- `next_parent_or_neighbour` -/
def nextParentOrNeighbour (current : ServiceId) : Option (Option ServiceId) :=
  c.parentOrNeighbour flags c.services.length current

/-- `next_child_or_up` -/
def nextChildOrUp (current : ServiceId) : Option (Option ServiceId) :=
  match c.nextChildOfParts flags (c.layout.parts current) with
  | some child => some (some child)
  | none => c.nextParentOrNeighbour flags current

/-- `transitive_service_iterator::increment` -/
def transitiveIncrement : ServiceId → Option (Option ServiceId) := c.nextChildOrUp .all

/-- `cluster_service_iterator::increment` -/
def clusterServiceIncrement : ServiceId → Option (Option ServiceId) := c.nextChildOrUp .imports

/-- The loop that goes down to the first service without children. -/
def firstLeaf : Nat → ServiceId → Option ServiceId
  | 0, _ => none
  | n + 1, actual =>
    match c.nextChildOfParts .all (c.layout.parts actual) with
    | none => some actual
    | some child => firstLeaf n child

/-- `transitive_postorder_service_iterator::increment` -/
def postorderIncrement (current : ServiceId) : Option (Option ServiceId) :=
  match c.nextNeighbourOrChild .all current with
  | some next => (c.firstLeaf c.services.length next).map some
  | none => if c.isRoot current then some none else some (some (c.layout.parent current).owner)

/-- The loop of `cluster_iterator::increment`. -/
def nextClusterHead : Nat → ServiceId → Option (Option ServiceId)
  | 0, _ => none
  | n + 1, current =>
    match c.nextChildOrUp .all current with
    | none => none
    | some none => some none
    | some (some next) =>
      if c.layout.isClusterHead next then some (some next) else nextClusterHead n next

/-- `cluster_iterator::increment` -/
def clusterIncrement (current : ServiceId) : Option (Option ServiceId) :=
  c.nextClusterHead c.services.length current

/-! ### The children of a service -/

/-- The children that a walk enters from `s`, in its order. -/
def entered (enter : Part → Bool) (s : ServiceId) : List ServiceId :=
  ((c.layout.parts s).filter enter).flatMap c.children

variable {c flags} {enter : Part → Bool} {s t u : ServiceId} {n m : Nat}

lemma preorder_succ : c.preorder enter (n + 1) s =
    s :: (c.entered enter s).flatMap (c.preorder enter n) := by
  rw [preorder, entered, List.flatMap_assoc]

lemma mem_entered : t ∈ c.entered enter s ↔ c.IsChild enter s t := by
  simp only [entered, List.mem_flatMap, List.mem_filter, mem_children]
  constructor
  · rintro ⟨p, ⟨hp, he⟩, ht, hr, rfl⟩
    exact ⟨ht, hr, c.layout.parts_owner hp, hp, he⟩
  · rintro ⟨ht, hr, -, hp, he⟩
    exact ⟨_, ⟨hp, he⟩, ht, hr, rfl⟩

lemma nextChildOfParts_eq (parts : List Part) : c.nextChildOfParts flags parts =
    ((parts.filter flags.enters).flatMap c.children).head? := by
  induction parts with
  | nil => rfl
  | cons p parts ih =>
    rw [nextChildOfParts, ih]
    cases hi : p.isImport
    · cases hf : flags.iterateExports
      · simp [IterationFlags.enters, hi, hf]
      · cases hc : c.children p <;> simp [IterationFlags.enters, hi, hf, hc]
    · cases hf : flags.iterateImports
      · simp [IterationFlags.enters, hi, hf]
      · cases hc : c.children p <;> simp [IterationFlags.enters, hi, hf, hc]

lemma nextNeighbourOrChild_eq (s : ServiceId) : c.nextNeighbourOrChild flags s =
    (c.serviceNeighbors s ++
      ((c.partNeighbors (c.layout.parent s)).filter flags.enters).flatMap c.children).head? := by
  rw [nextNeighbourOrChild, nextChildOfParts_eq]
  cases c.serviceNeighbors s <;> rfl

namespace IsTree

variable (hc : c.IsTree)
include hc

lemma nodup_entered : (c.entered enter s).Nodup := by
  have h : (c.preorder enter 2 s).Nodup := hc.nodup_preorder
  have hone : c.preorder enter 1 = fun t => [t] := by
    funext t
    rw [preorder_succ, List.cons.injEq]
    exact ⟨rfl, List.flatMap_eq_nil_iff.2 fun _ _ => rfl⟩
  rw [preorder_succ, hone, List.flatMap_singleton'] at h
  exact (List.nodup_cons.1 h).2

lemma isRoot_iff (hs : s ∈ c.services) : c.isRoot s = true ↔ s = c.layout.root := by
  rw [isRoot, beq_iff_eq]
  constructor
  · intro h
    by_contra hr
    exact hc.parent_ne hs hr h
  · rintro rfl
    exact c.layout.root_owner

/-- To the right of a child are the children that the walk enters after it. -/
lemma nextNeighbourOrChild_of_split {l₁ l₂ : List ServiceId}
    (h : c.entered flags.enters s = l₁ ++ t :: l₂) :
    c.nextNeighbourOrChild flags t = l₂.head? := by
  obtain ⟨ht, hr, ho, hp, he⟩ : c.IsChild flags.enters s t := mem_entered.1 (h ▸ by simp)
  obtain ⟨m₁, m₂, hparts⟩ := List.append_of_mem hp
  obtain ⟨k₁, k₂, hchildren⟩ := List.append_of_mem (mem_children.2 ⟨ht, hr, rfl⟩)
  have hnodup : (c.entered flags.enters s).Nodup := hc.nodup_entered
  have hneighbors : c.serviceNeighbors t = k₂ := by
    have : (k₁ ++ t :: k₂).Nodup := hchildren ▸ hc.nodup.filter _
    rw [serviceNeighbors, hchildren, this.after_append_cons]
  have hpartNeighbors : c.partNeighbors (c.layout.parent t) = m₂ := by
    have : (m₁ ++ c.layout.parent t :: m₂).Nodup := hparts ▸ c.layout.parts_nodup s
    rw [partNeighbors, ho, hparts, this.after_append_cons]
  have heq : c.entered flags.enters s = ((m₁.filter flags.enters).flatMap c.children ++ k₁) ++
      t :: (k₂ ++ (m₂.filter flags.enters).flatMap c.children) := by
    rw [entered, hparts, List.filter_append, List.filter_cons_of_pos he, List.flatMap_append,
      List.flatMap_cons, hchildren]
    simp
  rw [nextNeighbourOrChild_eq, hneighbors, hpartNeighbors]
  have h₁ : (l₁ ++ t :: l₂).Nodup := h ▸ hnodup
  rw [heq] at h hnodup
  rw [← h₁.after_append_cons, ← h, hnodup.after_append_cons]

/-! ### Going up -/

lemma parentOrNeighbour_stable (hs : s ∈ c.services) (hm : c.services.idxOf s < m)
    (hn : c.services.idxOf s < n) :
    ∃ o, c.parentOrNeighbour flags m s = some o ∧ c.parentOrNeighbour flags n s = some o := by
  induction m generalizing n s with
  | zero => omega
  | succ m ih =>
    obtain ⟨n, rfl⟩ : ∃ k, n = k + 1 := Nat.exists_eq_succ_of_ne_zero (by omega)
    rw [parentOrNeighbour, parentOrNeighbour]
    by_cases hr : c.isRoot s = true
    · exact ⟨none, if_pos hr, if_pos hr⟩
    · rw [if_neg hr, if_neg hr]
      cases c.nextNeighbourOrChild flags s with
      | some next => exact ⟨some next, rfl, rfl⟩
      | none =>
        have hlt := hc.parent_before hs ((hc.isRoot_iff hs).not.1 hr)
        exact ih (hc.parent_mem hs) (by omega) (by omega)

/-- The loop that goes up ends. -/
lemma exists_nextParentOrNeighbour (hs : s ∈ c.services) :
    ∃ o, c.nextParentOrNeighbour flags s = some o := by
  have hlt := List.idxOf_lt_length_of_mem hs
  exact (hc.parentOrNeighbour_stable hs hlt hlt).imp fun o ho => ho.1

/-- From the last child the loop goes on at the parent. -/
lemma nextParentOrNeighbour_eq (hs : s ∈ c.services) : c.nextParentOrNeighbour flags s =
    if s = c.layout.root then some none
    else match c.nextNeighbourOrChild flags s with
      | some next => some (some next)
      | none => c.nextParentOrNeighbour flags (c.layout.parent s).owner := by
  have hlt := List.idxOf_lt_length_of_mem hs
  obtain ⟨n, hn⟩ : ∃ k, c.services.length = k + 1 := Nat.exists_eq_succ_of_ne_zero (by omega)
  have hstep : c.nextParentOrNeighbour flags s = c.parentOrNeighbour flags (n + 1) s := by
    rw [nextParentOrNeighbour, hn]
  rw [hstep, parentOrNeighbour]
  by_cases hr : s = c.layout.root
  · rw [if_pos ((hc.isRoot_iff hs).2 hr), if_pos hr]
  · rw [if_neg ((hc.isRoot_iff hs).not.2 hr), if_neg hr]
    cases c.nextNeighbourOrChild flags s with
    | some next => rfl
    | none =>
      have hbefore := hc.parent_before hs hr
      have hstable : ∃ o, c.parentOrNeighbour flags n (c.layout.parent s).owner = some o ∧
          c.parentOrNeighbour flags c.services.length (c.layout.parent s).owner = some o :=
        hc.parentOrNeighbour_stable (hc.parent_mem hs) (by omega) (by omega)
      obtain ⟨o, h₁, h₂⟩ := hstable
      exact h₁.trans h₂.symm

lemma nextParentOrNeighbour_root : c.nextParentOrNeighbour flags c.layout.root = some none := by
  rw [hc.nextParentOrNeighbour_eq hc.root_mem, if_pos rfl]

/-- After the walk below a child comes the next child, or what comes after the parent. -/
lemma nextParentOrNeighbour_of_split {o : Option ServiceId} {l₁ l₂ : List ServiceId}
    (ho : c.nextParentOrNeighbour flags s = some o)
    (h : c.entered flags.enters s = l₁ ++ t :: l₂) :
    c.nextParentOrNeighbour flags t = some (l₂.head?.or o) := by
  obtain ⟨ht, hr, hp, -, -⟩ : c.IsChild flags.enters s t := mem_entered.1 (h ▸ by simp)
  rw [hc.nextParentOrNeighbour_eq ht, if_neg hr, hc.nextNeighbourOrChild_of_split h, hp, ho]
  cases l₂ <;> rfl

omit hc in
/-- Down to the first child, or up. -/
lemma nextChildOrUp_eq {o : Option ServiceId} (ho : c.nextParentOrNeighbour flags s = some o) :
    c.nextChildOrUp flags s = some ((c.entered flags.enters s).head?.or o) := by
  rw [nextChildOrUp, nextChildOfParts_eq, ← entered, ho]
  cases c.entered flags.enters s <;> rfl

/-- The walk through everything below `s`, and on from what comes after it. -/
lemma loop_preorder {o last : Option ServiceId} {l : List ServiceId} (hs : s ∈ c.services)
    (hn : c.services.length ≤ n + c.services.idxOf s)
    (ho : c.nextParentOrNeighbour flags s = some o)
    (hne : ∀ t ∈ c.preorder flags.enters n s, some t ≠ last)
    (h : Range.Loop (c.nextChildOrUp flags) last o l) :
    Range.Loop (c.nextChildOrUp flags) last (some s) (c.preorder flags.enters n s ++ l) := by
  induction n generalizing s o l with
  | zero =>
    have := List.idxOf_lt_length_of_mem hs
    omega
  | succ n ih =>
    rw [preorder_succ] at hne ⊢
    -- the children from some child on
    have hchildren : ∀ l₁ l₂, c.entered flags.enters s = l₁ ++ l₂ →
        Range.Loop (c.nextChildOrUp flags) last (l₂.head?.or o)
          (l₂.flatMap (c.preorder flags.enters n) ++ l) := by
      intro l₁ l₂
      induction l₂ generalizing l₁ with
      | nil => exact fun _ => h
      | cons t l₂ ihl =>
        intro heq
        have hchild : c.IsChild flags.enters s t := mem_entered.1 (heq ▸ by simp)
        have hlt := hc.idxOf_lt hchild
        have hrest := ihl (l₁ ++ [t]) (by rw [heq]; simp)
        rw [List.flatMap_cons, List.append_assoc]
        refine ih hchild.1 (by omega) (hc.nextParentOrNeighbour_of_split ho heq) ?_ hrest
        intro u hu
        refine hne u (List.mem_cons_of_mem _ ?_)
        rw [heq, List.flatMap_append, List.flatMap_cons]
        simp [hu]
    exact .step (hne s List.mem_cons_self) (nextChildOrUp_eq ho) (hchildren [] _ rfl)

/-- What comes after the walk below `s` hangs above `s`. -/
lemma of_nextParentOrNeighbour (hs : s ∈ c.services)
    (h : c.nextParentOrNeighbour flags s = some (some t)) :
    t ∈ c.services ∧ c.services.idxOf (c.layout.parent t).owner < c.services.idxOf s ∧ t ≠ s := by
  induction hi : c.services.idxOf s using Nat.strong_induction_on generalizing s with
  | _ i ih =>
    rw [hc.nextParentOrNeighbour_eq hs] at h
    by_cases hr : s = c.layout.root
    · rw [if_pos hr] at h
      simp at h
    rw [if_neg hr] at h
    have hbefore := hc.parent_before hs hr
    cases hnext : c.nextNeighbourOrChild flags s with
    | none =>
      rw [hnext] at h
      obtain ⟨hts, hlt, -⟩ := ih _ (hi ▸ hbefore) (hc.parent_mem hs) h rfl
      refine ⟨hts, by omega, fun hts => ?_⟩
      rw [hts] at hlt
      omega
    | some next =>
      rw [hnext] at h
      simp only [Option.some.injEq] at h
      subst h
      -- a later child of the same service
      have hmem : next ∈ c.serviceNeighbors s ++
          ((c.partNeighbors (c.layout.parent s)).filter flags.enters).flatMap c.children := by
        rw [nextNeighbourOrChild_eq] at hnext
        exact List.mem_of_mem_head? hnext
      have hparts := List.append_of_mem (hc.parent_parts hs hr)
      have hchildren := List.append_of_mem (mem_children.2 ⟨hs, hr, rfl⟩)
      obtain ⟨m₁, m₂, hm⟩ := hparts
      obtain ⟨k₁, k₂, hk⟩ := hchildren
      have hmn : (m₁ ++ c.layout.parent s :: m₂).Nodup := hm ▸ c.layout.parts_nodup _
      have hkn : (k₁ ++ s :: k₂).Nodup := hk ▸ hc.nodup.filter _
      rw [serviceNeighbors, hk, hkn.after_append_cons, partNeighbors, hm, hmn.after_append_cons]
        at hmem
      rcases List.mem_append.1 hmem with hmem | hmem
      · have hin : next ∈ c.children (c.layout.parent s) := by
          rw [hk]
          simp [hmem]
        rw [(mem_children.1 hin).2.2]
        refine ⟨(mem_children.1 hin).1, hi ▸ hbefore, fun hns => ?_⟩
        exact (List.nodup_cons.1 (List.nodup_append.1 hkn).2.1).1 (hns ▸ hmem)
      · obtain ⟨p, hp, hmem⟩ := List.mem_flatMap.1 hmem
        have hpm := (List.mem_filter.1 hp).1
        have hparent := (mem_children.1 hmem).2.2
        have hin : p ∈ c.layout.parts (c.layout.parent s).owner := by
          rw [hm]
          simp [hpm]
        have howner := c.layout.parts_owner hin
        refine ⟨(mem_children.1 hmem).1, by rw [hparent, howner]; omega, fun hns => ?_⟩
        rw [hns] at hparent
        exact (List.nodup_cons.1 (List.nodup_append.1 hmn).2.1).1 (hparent ▸ hpm)

/-- What comes after the walk below `s` is not below `s`. -/
lemma notMem_preorder_of_next (hs : s ∈ c.services)
    (h : c.nextParentOrNeighbour flags s = some (some t)) :
    t ∉ c.preorder flags.enters n s := by
  intro ht
  obtain ⟨-, hlt, hne⟩ := hc.of_nextParentOrNeighbour hs h
  have hle := hc.idxOf_le (owner_mem_preorder ht hne).2
  omega

omit hc in
lemma enters_all : IterationFlags.all.enters = fun _ => true := by
  funext p
  simp [IterationFlags.enters, IterationFlags.all]

omit hc in
lemma enters_imports : IterationFlags.imports.enters = Part.isImport := by
  funext p
  cases h : p.isImport <;> simp [IterationFlags.enters, IterationFlags.imports, h]

lemma loop_transitiveServices :
    Range.Loop c.transitiveIncrement none (some c.layout.root) c.transitiveServices := by
  have h : Range.Loop (c.nextChildOrUp .all) none (some c.layout.root)
      (c.preorder IterationFlags.all.enters c.services.length c.layout.root ++ []) :=
    hc.loop_preorder hc.root_mem (Nat.le_add_right _ _) hc.nextParentOrNeighbour_root (by simp)
      .done
  rw [List.append_nil, enters_all] at h
  exact h

/-! ### The order of a walk -/

omit hc in
/-- Nothing that is related by a part is found below two different children. -/
lemma pairwise_flatMap_entered (hc : c.IsTree) {f : ServiceId → List ServiceId}
    {R : ServiceId → ServiceId → Prop} (hf : ∀ t, ∀ u ∈ f t, u ∈ c.preorder enter n t)
    (hR : ∀ t u, ¬ c.IsChild enter t u → ¬ c.IsChild enter u t → R t u)
    (hfR : ∀ t, (f t).Pairwise R) : ((c.entered enter s).flatMap f).Pairwise R := by
  refine List.pairwise_flatMap.2 ⟨fun t _ => hfR t, ?_⟩
  refine hc.nodup_entered.imp_of_mem ?_
  intro t u ht hu hne x hx y hy
  have hdisjoint := hc.disjoint_preorder (n := n + 1) (mem_entered.1 ht) (mem_entered.1 hu) hne
  have hx := hf t x hx
  have hy := hf u y hy
  refine hR x y (fun hxy => ?_) fun hyx => ?_
  · exact hdisjoint y (hxy.mem_preorder hx) (mem_preorder_mono hy (Nat.le_succ n))
  · exact hdisjoint x (mem_preorder_mono hx (Nat.le_succ n)) (hyx.mem_preorder hy)

/-- In a preorder no service comes before its parent. -/
lemma pairwise_preorder :
    (c.preorder enter n s).Pairwise fun t u => ¬ c.IsChild enter u t := by
  induction n generalizing s with
  | zero => exact .nil
  | succ n ih =>
    rw [preorder_succ, List.pairwise_cons]
    refine ⟨fun t ht hchild => ?_, ?_⟩
    · obtain ⟨u, hu, ht⟩ := List.mem_flatMap.1 ht
      have h₁ := hc.idxOf_lt hchild
      have h₂ := hc.idxOf_lt (mem_entered.1 hu)
      have h₃ := hc.idxOf_le ht
      omega
    · exact pairwise_flatMap_entered hc (fun _ _ h => h) (fun _ _ _ h => h) fun _ => ih

lemma owner_mem_of_split {l₁ l₂ : List ServiceId} (h : c.preorder enter n s = l₁ ++ t :: l₂)
    (hts : t ≠ s) : (c.layout.parent t).owner ∈ l₁ := by
  have hpair : (c.preorder enter n s).Pairwise fun t u => ¬ c.IsChild enter u t :=
    hc.pairwise_preorder
  obtain ⟨hchild, ho⟩ := owner_mem_preorder (h ▸ by simp : t ∈ c.preorder enter n s) hts
  rw [h] at hpair ho
  rcases List.mem_append.1 ho with ho | ho
  · exact ho
  · rcases List.mem_cons.1 ho with ho | ho
    · have := hc.idxOf_lt hchild
      rw [ho] at this
      omega
    · exact absurd hchild ((List.pairwise_cons.1 (List.pairwise_append.1 hpair).2.1).1 _ ho)

end IsTree

/-! ### The postorder -/

/-- The postorder walk below a service. -/
def postorder (c : ServiceTree) : Nat → ServiceId → List ServiceId
  | 0, _ => []
  | n + 1, s => (c.entered (fun _ => true) s).flatMap (postorder c n) ++ [s]

/-- All services, each after the services below it. -/
def postorderServices (c : ServiceTree) (s : ServiceId) : List ServiceId :=
  c.postorder c.services.length s

lemma postorder_perm (n : Nat) (s : ServiceId) :
    (c.postorder n s).Perm (c.preorder (fun _ => true) n s) := by
  induction n generalizing s with
  | zero => exact .nil
  | succ n ih =>
    rw [postorder, preorder_succ]
    have hflat : ∀ l : List ServiceId,
        (l.flatMap (c.postorder n)).Perm (l.flatMap (c.preorder (fun _ => true) n)) := by
      intro l
      induction l with
      | nil => exact .nil
      | cons t l ihl => exact (ih t).append ihl
    exact (List.perm_append_singleton _ _).trans ((hflat _).cons _)

namespace IsTree

variable (hc : c.IsTree)
include hc

lemma postorder_stable (hs : s ∈ c.services) (hn : c.services.length ≤ n + c.services.idxOf s)
    (hm : c.services.length ≤ m + c.services.idxOf s) : c.postorder n s = c.postorder m s := by
  have hlt := List.idxOf_lt_length_of_mem hs
  induction n generalizing m s with
  | zero => omega
  | succ n ih =>
    obtain ⟨m, rfl⟩ : ∃ k, m = k + 1 := Nat.exists_eq_succ_of_ne_zero (by omega)
    rw [postorder, postorder]
    refine congrArg (· ++ [s]) (List.flatMap_congr fun t ht => ?_)
    have hchild := mem_entered.1 ht
    have hidx := hc.idxOf_lt hchild
    exact ih hchild.1 (by omega) (by omega) (List.idxOf_lt_length_of_mem hchild.1)

lemma postorderServices_eq (hs : s ∈ c.services) : c.postorderServices s =
    (c.entered (fun _ => true) s).flatMap c.postorderServices ++ [s] := by
  have hlt := List.idxOf_lt_length_of_mem hs
  obtain ⟨n, hn⟩ : ∃ k, c.services.length = k + 1 := Nat.exists_eq_succ_of_ne_zero (by omega)
  have hstep : c.postorderServices s = c.postorder (n + 1) s := by rw [postorderServices, hn]
  rw [hstep, postorder]
  refine congrArg (· ++ [s]) (List.flatMap_congr fun t ht => ?_)
  have hchild := mem_entered.1 ht
  have hidx := hc.idxOf_lt hchild
  exact hc.postorder_stable hchild.1 (by omega) (Nat.le_add_right _ _)

/-- The loop that goes down finds the first service of the postorder. -/
lemma firstLeaf_eq (hs : s ∈ c.services) (hn : c.services.length ≤ n + c.services.idxOf s) :
    ∃ t l, c.firstLeaf n s = some t ∧ c.postorderServices s = t :: l := by
  induction n generalizing s with
  | zero =>
    have := List.idxOf_lt_length_of_mem hs
    omega
  | succ n ih =>
    rw [hc.postorderServices_eq hs, firstLeaf, nextChildOfParts_eq, enters_all, ← entered]
    cases hl : c.entered (fun _ => true) s with
    | nil => exact ⟨s, [], rfl, rfl⟩
    | cons t l =>
      have hchild : c.IsChild (fun _ => true) s t := mem_entered.1 (hl ▸ List.mem_cons_self)
      have hidx := hc.idxOf_lt hchild
      obtain ⟨u, l', hu, hl'⟩ := ih hchild.1 (by omega)
      refine ⟨u, l' ++ l.flatMap c.postorderServices ++ [s], hu, ?_⟩
      rw [List.flatMap_cons, hl']
      simp

/-- The walk to `s` through everything below it, and on from what comes after it. -/
lemma loop_postorder {o : Option ServiceId} {l : List ServiceId} (hs : s ∈ c.services)
    (hn : c.services.length ≤ n + c.services.idxOf s) (ho : c.postorderIncrement s = some o)
    (h : Range.Loop c.postorderIncrement none o l) :
    Range.Loop c.postorderIncrement none (c.postorderServices s).head?
      (c.postorderServices s ++ l) := by
  induction n generalizing s o l with
  | zero =>
    have := List.idxOf_lt_length_of_mem hs
    omega
  | succ n ih =>
    rw [hc.postorderServices_eq hs]
    have hchildren : ∀ l₁ l₂, c.entered (fun _ => true) s = l₁ ++ l₂ →
        Range.Loop c.postorderIncrement none (l₂.flatMap c.postorderServices ++ [s]).head?
          (l₂.flatMap c.postorderServices ++ [s] ++ l) := by
      intro l₁ l₂
      induction l₂ generalizing l₁ with
      | nil => exact fun _ => .step (by simp) ho h
      | cons t l₂ ihl =>
        intro heq
        have hchild : c.IsChild (fun _ => true) s t := mem_entered.1 (heq ▸ by simp)
        have hidx := hc.idxOf_lt hchild
        have hrest := ihl (l₁ ++ [t]) (by rw [heq]; simp)
        obtain ⟨u, l', -, hu⟩ := hc.firstLeaf_eq hchild.1 (Nat.le_add_right _ _)
        have hnext : c.postorderIncrement t =
            some (l₂.flatMap c.postorderServices ++ [s]).head? := by
          rw [← enters_all] at heq
          rw [postorderIncrement, hc.nextNeighbourOrChild_of_split heq]
          cases l₂ with
          | nil =>
            have hroot : c.isRoot t = false := by
              rw [Bool.eq_false_iff]
              exact (hc.isRoot_iff hchild.1).not.2 hchild.2.1
            simp [hroot, hchild.2.2.1]
          | cons v l₂ =>
            have hv : c.IsChild IterationFlags.all.enters s v := mem_entered.1 (heq ▸ by simp)
            obtain ⟨w, l'', hw, hl''⟩ := hc.firstLeaf_eq hv.1 (Nat.le_add_right _ _)
            simp [hw, hl'']
        have hloop := ih hchild.1 (by omega) hnext hrest
        rw [List.flatMap_cons, List.append_assoc, List.append_assoc]
        rw [hu] at hloop ⊢
        simpa using hloop
    exact hchildren [] _ rfl

/-- In a postorder no service comes after its parent. -/
lemma pairwise_postorder :
    (c.postorder n s).Pairwise fun t u => ¬ c.IsChild (fun _ => true) t u := by
  induction n generalizing s with
  | zero => exact .nil
  | succ n ih =>
    rw [postorder, List.pairwise_append]
    refine ⟨?_, List.pairwise_singleton _ _, fun t ht u hu hchild => ?_⟩
    · exact pairwise_flatMap_entered hc (fun _ _ h => (postorder_perm _ _).mem_iff.1 h)
        (fun _ _ h _ => h) fun _ => ih
    · rw [List.mem_singleton.1 hu] at hchild
      obtain ⟨v, hv, ht⟩ := List.mem_flatMap.1 ht
      have h₁ := hc.idxOf_lt hchild
      have h₂ := hc.idxOf_lt (mem_entered.1 hv)
      have h₃ := hc.idxOf_le ((postorder_perm _ _).mem_iff.1 ht)
      omega

/-- Children come before their parent. -/
lemma mem_of_isChild {l₁ l₂ : List ServiceId}
    (h : c.postorderServices c.layout.root = l₁ ++ s :: l₂) (ht : c.IsChild (fun _ => true) s t) :
    t ∈ l₁ := by
  have hpair := hc.pairwise_postorder (n := c.services.length) (s := c.layout.root)
  have hmem : t ∈ c.postorderServices c.layout.root :=
    (postorder_perm _ _).mem_iff.2 (hc.mem_transitiveServices.2 ht.1)
  rw [← postorderServices, h] at hpair
  rw [h] at hmem
  rcases List.mem_append.1 hmem with hmem | hmem
  · exact hmem
  · rcases List.mem_cons.1 hmem with rfl | hmem
    · exact absurd (hc.idxOf_lt ht) (lt_irrefl _)
    · exact absurd ht ((List.pairwise_cons.1 (List.pairwise_append.1 hpair).2.1).1 t hmem)

/-- Everything below a service comes before it. -/
lemma mem_of_below {l₁ l₂ : List ServiceId}
    (h : c.postorderServices c.layout.root = l₁ ++ s :: l₂)
    (ht : Relation.TransGen (fun t u => c.IsChild (fun _ => true) u t) t s) : t ∈ l₁ := by
  induction ht using Relation.TransGen.head_induction_on with
  | single hchild => exact hc.mem_of_isChild h hchild
  | head hchild _ ih =>
    obtain ⟨k₁, k₂, rfl⟩ := List.append_of_mem ih
    rw [List.append_assoc, List.cons_append] at h
    exact List.mem_append_left _ (hc.mem_of_isChild h hchild)

end IsTree

/-! ### What the iterators run through -/

/-- `t` is a child of an import of `u`. -/
def ImportParent (c : ServiceTree) (t u : ServiceId) : Prop :=
  t ∈ c.services ∧ c.layout.isMember t = true ∧ (c.layout.parent t).owner = u

/-- A context implements `Container`, and this container is the parent of the context. It is
constructed before the other parts, and each later part is pushed to the front of the list. -/
def RootPartLast (c : ServiceTree) : Prop :=
  ∃ parts, c.layout.parts c.layout.root = parts ++ [c.layout.parent c.layout.root]

/-- The end of the range `cluster_members`. -/
def clusterMembersEnd (c : ServiceTree) (current : ServiceId) : Option (Option ServiceId) :=
  c.nextParentOrNeighbour .imports (c.cluster current)

namespace IsTree

variable (hc : c.IsTree)
include hc

lemma postorderIncrement_root (hroot : c.RootPartLast) :
    c.postorderIncrement c.layout.root = some none := by
  obtain ⟨parts, hparts⟩ := hroot
  have hnodup := c.layout.parts_nodup c.layout.root
  rw [hparts] at hnodup
  have hneighbors : c.serviceNeighbors c.layout.root = [] :=
    List.after_of_notMem fun h => (mem_children.1 h).2.1 rfl
  have hpartNeighbors : c.partNeighbors (c.layout.parent c.layout.root) = [] := by
    rw [partNeighbors, c.layout.root_owner, hparts, hnodup.after_append_cons]
  have hr : c.isRoot c.layout.root = true := (hc.isRoot_iff hc.root_mem).2 rfl
  rw [postorderIncrement, nextNeighbourOrChild_eq, hneighbors, hpartNeighbors]
  simp [hr]

/-- The members of a cluster are connected to its head through imports. -/
lemma mem_preorder_imports {h : ServiceId} (hh : h ∈ c.services)
    (hhead : c.layout.isClusterHead h = true) :
    t ∈ c.preorder Part.isImport c.services.length h ↔
      Relation.ReflTransGen c.ImportParent t h := by
  have hcluster := hc.cluster_of_isClusterHead hh hhead
  rw [hc.mem_preorder_cluster hh hcluster]
  constructor
  · rintro ⟨ht, hct⟩
    induction hi : c.services.idxOf t using Nat.strong_induction_on generalizing t with
    | _ i ih =>
      by_cases hm : c.layout.isMember t = true
      · have hr : t ≠ c.layout.root := fun hr => by
          have := (hc.isMember_iff ht).1 hm
          rw [hr] at this
          exact this hc.cluster_root
        rw [hc.cluster_of_isMember ht hm] at hct
        exact .head ⟨ht, hm, rfl⟩
          (ih _ (hi ▸ hc.parent_before ht hr) (hc.parent_mem ht) hct rfl)
      · rw [Bool.not_eq_true] at hm
        have hth : c.cluster t = t := by
          rw [hc.cluster_eq ht, hm]
          rfl
        rw [← hct, hth]
  · intro ht
    induction ht using Relation.ReflTransGen.head_induction_on with
    | refl => exact ⟨hh, hcluster⟩
    | head hstep _ ih =>
      obtain ⟨ht, hm, rfl⟩ := hstep
      exact ⟨ht, (hc.cluster_of_isMember ht hm).trans ih.2⟩

/-- The iterators run through what they are for, each service once: all services in preorder; all
services with what is below a service before it and the root last; the services that are connected
to the head of a cluster through imports, the head first and each parent before its children. -/
theorem iterators_enumerate (hroot : c.RootPartLast) :
    (Range.Loop c.transitiveIncrement none (some c.layout.root) c.transitiveServices ∧
      c.transitiveServices.Perm c.services) ∧
    (∃ first l, c.firstLeaf c.services.length c.layout.root = some first ∧
      Range.Loop c.postorderIncrement none (some first) l ∧ l.Perm c.services ∧
      (∀ l₁ s l₂, l = l₁ ++ s :: l₂ →
        ∀ t, Relation.TransGen (fun t u => c.IsChild (fun _ => true) u t) t s → t ∈ l₁) ∧
      l.getLast? = some c.layout.root) ∧
    ∀ h ∈ c.services, c.layout.isClusterHead h = true →
      ∃ last l, c.clusterMembersEnd h = some last ∧
        Range.Loop c.clusterServiceIncrement last (some h) l ∧ l.Nodup ∧ l.head? = some h ∧
        (∀ t, t ∈ l ↔ Relation.ReflTransGen c.ImportParent t h) ∧
        ∀ l₁ t l₂, l = l₁ ++ t :: l₂ → t ≠ h → (c.layout.parent t).owner ∈ l₁ := by
  refine ⟨⟨hc.loop_transitiveServices, hc.transitiveServices_perm⟩, ?_, fun h hh hhead => ?_⟩
  · obtain ⟨first, l, hfirst, hl⟩ := hc.firstLeaf_eq hc.root_mem (Nat.le_add_right _ _)
    have hloop := hc.loop_postorder hc.root_mem (Nat.le_add_right _ _)
      (hc.postorderIncrement_root hroot) .done
    refine ⟨first, c.postorderServices c.layout.root, hfirst, ?_, ?_, ?_, ?_⟩
    · rw [List.append_nil, hl, List.head?_cons, ← hl] at hloop
      exact hloop
    · exact (postorder_perm _ _).trans hc.transitiveServices_perm
    · exact fun l₁ s l₂ hs t ht => hc.mem_of_below hs ht
    · rw [hc.postorderServices_eq hc.root_mem, List.getLast?_append]
      rfl
  · obtain ⟨last, hlast⟩ : ∃ last, c.nextParentOrNeighbour .imports h = some last :=
      hc.exists_nextParentOrNeighbour hh
    have hloop := hc.loop_preorder (n := c.services.length) hh (Nat.le_add_right _ _) hlast
      (fun t ht heq => hc.notMem_preorder_of_next hh (heq ▸ hlast) ht) .done
    rw [List.append_nil, enters_imports] at hloop
    refine ⟨last, _, ?_, hloop, hc.nodup_preorder, ?_, fun t => hc.mem_preorder_imports hh hhead,
      fun l₁ t l₂ => hc.owner_mem_of_split⟩
    · rw [clusterMembersEnd, hc.cluster_of_isClusterHead hh hhead]
      exact hlast
    · obtain ⟨n, hn⟩ : ∃ k, c.services.length = k + 1 :=
        Nat.exists_eq_succ_of_ne_zero (List.length_pos_of_mem hh).ne'
      rw [hn, preorder_succ]
      rfl

end IsTree

/-- A member of a cluster that exports a service and has a sibling. -/
def nested : ServiceTree where
  layout := .small fun s =>
    if s = 2 ∨ s = 4 then Layout.importOf 1
    else if s = 3 then Layout.exportOf 2
    else Layout.exportOf 0
  services := [0, 1, 2, 3, 4, 5]
  cluster s := if s = 2 ∨ s = 4 then 1 else s

lemma nested_isTree : nested.IsTree where
  nodup := by decide
  root_mem := by decide
  parent_mem := by
    intro s hs
    revert s
    decide
  parent_parts := by
    intro s hs
    revert s
    decide
  parent_ne := by
    intro s hs
    revert s
    decide
  ordered := by decide
  cluster_eq := by
    intro s hs
    revert s
    decide

/-- The cluster of service 1 goes past the service that its member 2 exports. -/
theorem iterators_enumerate_nested :
    ∃ last l, nested.clusterMembersEnd 1 = some last ∧
      Range.Loop nested.clusterServiceIncrement last (some 1) l ∧ l.Nodup ∧ l.head? = some 1 ∧
      (∀ t, t ∈ l ↔ Relation.ReflTransGen nested.ImportParent t 1) ∧
      ∀ l₁ t l₂, l = l₁ ++ t :: l₂ → t ≠ 1 → (nested.layout.parent t).owner ∈ l₁ :=
  (nested_isTree.iterators_enumerate ⟨[], rfl⟩).2.2 1 (by decide) (by decide)

end ServiceTree

end Idle
