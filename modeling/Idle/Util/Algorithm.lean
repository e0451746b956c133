import Mathlib.Tactic

/-!
# Sorting and searching

The algorithms of `algorithm.hpp`, which also run at compile time: a comb sort, whose loop ends as
soon as a pass over neighbours swaps nothing, and the binary search for a lower bound. The sort is
given the number of its passes, and how the gap is reduced. It needs finitely many passes if no two
elements are equivalent, and otherwise it does not end.
-/

namespace Idle

variable {α : Type*}

/-- The body of the inner loop of `sort`. -/
def sortStep (pred : α → α → Bool) (gap : Nat) (st : List α × Bool) (i : Nat) : List α × Bool :=
  match st.1[i]?, st.1[i + gap]? with
  | some left, some right =>
    if pred left right then st else ((st.1.set i right).set (i + gap) left, true)
  | _, _ => st

/-- The inner loop of `sort`, with what `swapped` is after it. -/
def sortPass (pred : α → α → Bool) (gap : Nat) (l : List α) : List α × Bool :=
  (List.range (l.length - gap)).foldl (sortStep pred gap) (l, false)

/-- `gap / 1.247330950103979`, where the rounding of the division is left out. -/
def shrink (gap : Nat) : Nat := gap * 1000000000000000 / 1247330950103979

/-- The outer loop of `sort`, for so many passes at most. -/
def sortLoop (reduce : Nat → Nat) (pred : α → α → Bool) :
    Nat → Nat → Bool → List α → Option (List α)
  | 0, gap, swapped, l => if 1 < gap ∨ swapped = true then none else some l
  | fuel + 1, gap, swapped, l =>
    if 1 < gap ∨ swapped = true then
      let gap := if 1 < gap then reduce gap else gap
      let pass := sortPass pred gap l
      sortLoop reduce pred fuel gap pass.2 pass.1
    else some l

/-- `sort`, with any reduction of the gap. -/
def sortWith (reduce : Nat → Nat) (fuel : Nat) (pred : α → α → Bool) (l : List α) :
    Option (List α) :=
  sortLoop reduce pred fuel l.length false l

def sort (fuel : Nat) (pred : α → α → Bool) (l : List α) : Option (List α) :=
  sortWith shrink fuel pred l

/-- What is assumed of a reduction of the gap. -/
def Shrinks (reduce : Nat → Nat) : Prop :=
  ∀ gap, 1 < gap → 0 < reduce gap ∧ reduce gap < gap

/-- The loop of `lower_bound`, where `before` compares the element at a position. -/
def lowerBound (before : Nat → Bool) (begin count : Nat) : Nat :=
  if _h : 0 < count then
    let step := count / 2
    let itr := begin + step
    if before itr then lowerBound before (itr + 1) (count - (step + 1))
    else lowerBound before begin step
  else begin
termination_by count
decreasing_by all_goals omega

/-- `find_first_lower_bound_of`, where `before` and `after` compare an element with the value. -/
def findFirstLowerBoundOf (l : List α) (before after : α → Bool) : Option α :=
  match l[lowerBound (fun i => l[i]?.any before) 0 l.length]? with
  | some a => if after a then none else some a
  | none => none

/-! ### Passes -/

section

variable {reduce : Nat → Nat} {pred : α → α → Bool} {gap : Nat} {l : List α}

lemma sortStep_perm (st : List α × Bool) (i : Nat) : (sortStep pred gap st i).1.Perm st.1 := by
  unfold sortStep
  split
  · rename_i left right hleft hright
    split
    · exact .refl _
    · obtain ⟨hi, rfl⟩ := List.getElem?_eq_some_iff.1 hleft
      obtain ⟨hj, rfl⟩ := List.getElem?_eq_some_iff.1 hright
      exact List.set_set_perm hi hj
  · exact .refl _

lemma foldl_sortStep_perm (is : List Nat) (st : List α × Bool) :
    (is.foldl (sortStep pred gap) st).1.Perm st.1 := by
  induction is generalizing st with
  | nil => exact .refl _
  | cons i is ih => exact (ih _).trans (sortStep_perm st i)

lemma sortPass_perm (gap : Nat) (l : List α) : (sortPass pred gap l).1.Perm l :=
  foldl_sortStep_perm _ _

lemma sortStep_eq_self {st : List α × Bool} {i : Nat} (h : (sortStep pred gap st i).2 = false) :
    sortStep pred gap st i = st ∧ ∀ left right, st.1[i]? = some left → st.1[i + gap]? = some right →
      pred left right = true := by
  unfold sortStep at h ⊢
  split
  · rename_i left right hleft hright
    by_cases hp : pred left right = true
    · rw [if_pos hp]
      refine ⟨rfl, fun a b ha hb => ?_⟩
      rw [hleft] at ha
      rw [hright] at hb
      cases ha
      cases hb
      exact hp
    · simp [hleft, hright, hp] at h
  · rename_i hnot
    exact ⟨rfl, fun a b ha hb => absurd hb fun hb => hnot a b ha hb⟩

lemma foldl_sortStep_eq_self {is : List Nat} {st : List α × Bool}
    (h : (is.foldl (sortStep pred gap) st).2 = false) :
    is.foldl (sortStep pred gap) st = st ∧ ∀ i ∈ is, ∀ left right, st.1[i]? = some left →
      st.1[i + gap]? = some right → pred left right = true := by
  induction is generalizing st with
  | nil => exact ⟨rfl, by simp⟩
  | cons i is ih =>
    obtain ⟨heq, hrest⟩ := ih h
    rw [List.foldl_cons, heq] at h
    obtain ⟨hstep, hfirst⟩ := sortStep_eq_self h
    rw [hstep] at heq hrest
    rw [List.foldl_cons, hstep]
    exact ⟨heq, List.forall_mem_cons.2 ⟨hfirst, hrest⟩⟩

/-- A pass over neighbours that swaps nothing finds them in order. -/
lemma isChain_of_sortPass (h : (sortPass pred 1 l).2 = false) :
    (sortPass pred 1 l).1 = l ∧ l.IsChain (pred · · = true) := by
  obtain ⟨heq, hpred⟩ := foldl_sortStep_eq_self h
  refine ⟨congrArg Prod.fst heq, List.isChain_iff_getElem.2 fun i hi => ?_⟩
  refine hpred i (List.mem_range.2 (Nat.lt_sub_of_add_lt hi)) _ _
    (List.getElem?_eq_getElem (Nat.lt_of_succ_lt hi)) ?_
  exact List.getElem?_eq_getElem hi

/-! ### Inversions -/

/-- The pairs that are not in order. -/
def inversions (pred : α → α → Bool) : List α → Nat
  | [] => 0
  | a :: l => l.countP (fun b => !pred a b) + inversions pred l

lemma inversions_append_lt {m m' : List α} (hperm : m'.Perm m)
    (h : inversions pred m' < inversions pred m) (l : List α) :
    inversions pred (l ++ m') < inversions pred (l ++ m) := by
  induction l with
  | nil => exact h
  | cons a l ih =>
    simp only [List.cons_append, inversions]
    rw [(hperm.append_left l).countP_eq]
    omega

lemma inversions_swap_lt {a b : α} (hab : pred a b = false) (hba : pred b a = true) (l : List α) :
    inversions pred (b :: a :: l) < inversions pred (a :: b :: l) := by
  simp only [inversions, List.countP_cons, hab, hba]
  simp
  omega

/-- Swapping neighbours. -/
lemma set_set_neighbours {i : Nat} {l : List α} {a b : α} (ha : l[i]? = some a)
    (hb : l[i + 1]? = some b) : ∃ l₁ l₂, l = l₁ ++ a :: b :: l₂ ∧
      (l.set i b).set (i + 1) a = l₁ ++ b :: a :: l₂ := by
  induction i generalizing l with
  | zero =>
    match l with
    | [] => simp at ha
    | [_] => simp at hb
    | c :: d :: l =>
      simp only [List.getElem?_cons_zero, Option.some.injEq, Nat.zero_add,
        List.getElem?_cons_succ] at ha hb
      subst ha hb
      exact ⟨[], l, rfl, rfl⟩
  | succ i ih =>
    match l with
    | [] => simp at ha
    | c :: l =>
      simp only [List.getElem?_cons_succ] at ha hb
      obtain ⟨l₁, l₂, rfl, hset⟩ := ih ha hb
      exact ⟨c :: l₁, l₂, rfl, by rw [List.set_cons_succ, List.set_cons_succ, hset]; rfl⟩

/-- A strict order of the elements of a list. -/
def Orders (pred : α → α → Bool) (l : List α) : Prop :=
  l.Pairwise fun a b => pred a b = true ∨ pred b a = true

lemma Orders.perm {l' : List α} (h : Orders pred l) (hperm : l'.Perm l) : Orders pred l' :=
  (hperm.pairwise_iff fun h => h.symm).2 h

lemma sortStep_inversions {st : List α × Bool} {i : Nat} (h : Orders pred st.1) :
    sortStep pred 1 st i = st ∨
      inversions pred (sortStep pred 1 st i).1 < inversions pred st.1 := by
  unfold sortStep
  split
  · rename_i left right hleft hright
    by_cases hp : pred left right = true
    · rw [if_pos hp]
      exact .inl rfl
    · rw [if_neg hp]
      obtain ⟨l₁, l₂, heq, hset⟩ := set_set_neighbours hleft hright
      rw [hset, heq]
      rw [heq] at h
      have hpair := (List.pairwise_append.1 h).2.1
      have hswap : pred right left = true :=
        ((List.pairwise_cons.1 hpair).1 right List.mem_cons_self).resolve_left hp
      refine .inr (inversions_append_lt (.swap left right l₂) ?_ l₁)
      exact inversions_swap_lt (Bool.eq_false_of_not_eq_true hp) hswap l₂
  · exact .inl rfl

lemma foldl_sortStep_inversions {is : List Nat} {st : List α × Bool} (h : Orders pred st.1) :
    is.foldl (sortStep pred 1) st = st ∨
      inversions pred (is.foldl (sortStep pred 1) st).1 < inversions pred st.1 := by
  induction is generalizing st with
  | nil => exact .inl rfl
  | cons i is ih =>
    rw [List.foldl_cons]
    have hstep : Orders pred (sortStep pred 1 st i).1 := h.perm (sortStep_perm st i)
    rcases sortStep_inversions (i := i) h with heq | hlt
    · rw [heq]
      exact ih h
    · rcases ih hstep with heq | hlt'
      · rw [heq]
        exact .inr hlt
      · exact .inr (hlt'.trans hlt)

/-- A pass over neighbours either swaps nothing or leaves fewer inversions. -/
lemma sortPass_inversions (h : Orders pred l) (hs : (sortPass pred 1 l).2 = true) :
    inversions pred (sortPass pred 1 l).1 < inversions pred l := by
  have hfold : ∀ is : List Nat, is.foldl (sortStep pred 1) (l, false) = (l, false) ∨
      inversions pred (is.foldl (sortStep pred 1) (l, false)).1 < inversions pred l :=
    fun _ => foldl_sortStep_inversions h
  rcases hfold (List.range (l.length - 1)) with heq | hlt
  · rw [sortPass, heq] at hs
    exact absurd hs (by simp)
  · exact hlt

/-! ### The sort -/

lemma shrinks_shrink : Shrinks shrink := by
  intro gap h
  constructor
  · exact Nat.div_pos (by omega) (by norm_num)
  · exact Nat.div_lt_of_lt_mul (by omega)

lemma sortLoop_perm {fuel : Nat} {swapped : Bool} {l' : List α}
    (h : sortLoop reduce pred fuel gap swapped l = some l') : l'.Perm l := by
  induction fuel generalizing gap swapped l with
  | zero =>
    unfold sortLoop at h
    split at h
    · cases h
    · cases h
      exact .refl _
  | succ fuel ih =>
    unfold sortLoop at h
    split at h
    · exact (ih h).trans (sortPass_perm _ _)
    · cases h
      exact .refl _

/-- When the loop ends, the last pass went over neighbours and swapped nothing. -/
lemma sortLoop_isChain (hreduce : Shrinks reduce) {fuel : Nat} {swapped : Bool} {l' : List α}
    (h : sortLoop reduce pred fuel gap swapped l = some l') (hgap : 0 < gap)
    (hchain : gap = 1 → swapped = false → l.IsChain (pred · · = true)) :
    l'.IsChain (pred · · = true) := by
  induction fuel generalizing gap swapped l with
  | zero =>
    unfold sortLoop at h
    split at h
    · cases h
    · rename_i hend
      cases h
      exact hchain (by omega) (by simpa using fun hs => hend (.inr hs))
  | succ fuel ih =>
    unfold sortLoop at h
    split at h
    · refine ih h ?_ fun hone hs => ?_
      · split
        · exact (hreduce _ ‹_›).1
        · exact hgap
      · rw [hone] at hs ⊢
        obtain ⟨heq, hsorted⟩ := isChain_of_sortPass hs
        rwa [heq]
    · rename_i hend
      cases h
      exact hchain (by omega) (by simpa using fun hs => hend (.inr hs))

lemma sortLoop_of_not {fuel : Nat} {swapped : Bool} (h : ¬ (1 < gap ∨ swapped = true)) :
    sortLoop reduce pred fuel gap swapped l = some l := by
  cases fuel with
  | zero => rw [sortLoop, if_neg h]
  | succ fuel => rw [sortLoop, if_neg h]

/-- One more pass. -/
lemma exists_sortLoop_succ {swapped : Bool} {gap' : Nat}
    (hgap : gap' = if 1 < gap then reduce gap else gap)
    (h : ∃ n, ∀ fuel ≥ n, ∃ l',
      sortLoop reduce pred fuel gap' (sortPass pred gap' l).2 (sortPass pred gap' l).1 = some l') :
    ∃ n, ∀ fuel ≥ n, ∃ l', sortLoop reduce pred fuel gap swapped l = some l' := by
  obtain ⟨n, hn⟩ := h
  refine ⟨n + 1, fun fuel hfuel => ?_⟩
  by_cases hgo : 1 < gap ∨ swapped = true
  · obtain ⟨fuel, rfl⟩ := Nat.exists_eq_add_of_le' (Nat.le_of_succ_le hfuel : n ≤ fuel)
    cases fuel with
    | zero => omega
    | succ fuel =>
      rw [Nat.add_right_comm, sortLoop, if_pos hgo]
      simp only [← hgap]
      exact hn _ (by omega)
  · exact ⟨l, sortLoop_of_not hgo⟩

lemma exists_sortLoop_one (reduce : Nat → Nat) (h : Orders pred l) (swapped : Bool) :
    ∃ n, ∀ fuel ≥ n, ∃ l', sortLoop reduce pred fuel 1 swapped l = some l' := by
  induction hn : inversions pred l using Nat.strong_induction_on generalizing l swapped with
  | _ n ih =>
    refine exists_sortLoop_succ (if_neg (lt_irrefl 1)).symm ?_
    cases hs : (sortPass pred 1 l).2 with
    | false => exact ⟨0, fun fuel _ => ⟨_, sortLoop_of_not (by simp)⟩⟩
    | true =>
      have hlt := sortPass_inversions h hs
      exact ih _ (hn ▸ hlt) (h.perm (sortPass_perm 1 l)) true rfl

/-- The gap shrinks to one, and from then on the inversions become fewer. -/
lemma exists_sortLoop (hreduce : Shrinks reduce) (h : Orders pred l) (hgap : 0 < gap)
    (swapped : Bool) :
    ∃ n, ∀ fuel ≥ n, ∃ l', sortLoop reduce pred fuel gap swapped l = some l' := by
  induction gap using Nat.strong_induction_on generalizing l swapped with
  | _ gap ih =>
    by_cases hone : 1 < gap
    · refine exists_sortLoop_succ (if_pos hone).symm ?_
      obtain ⟨hpos, hlt⟩ := hreduce _ hone
      exact ih _ hlt (h.perm (sortPass_perm _ l)) hpos _
    · obtain rfl : gap = 1 := by omega
      exact exists_sortLoop_one reduce h swapped

lemma isChain_of_length_eq_one (h : l.length = 1) : l.IsChain (pred · · = true) := by
  match l, h with
  | [a], _ => exact .singleton a

/-- Where the loop ends, the elements are in strict order. -/
lemma sortWith_spec (hreduce : Shrinks reduce)
    (htrans : ∀ a b c, pred a b = true → pred b c = true → pred a c = true) {fuel : Nat}
    {l' : List α} (h : sortWith reduce fuel pred l = some l') :
    l'.Perm l ∧ l'.Pairwise (pred · · = true) := by
  have : Trans (pred · · = true) (pred · · = true) (pred · · = true) := ⟨htrans _ _ _⟩
  refine ⟨sortLoop_perm h, ?_⟩
  rcases Nat.eq_zero_or_pos l.length with hzero | hpos
  · have hperm := sortLoop_perm h
    rw [List.length_eq_zero_iff.1 hzero] at hperm
    rw [hperm.eq_nil]
    exact .nil
  · refine List.isChain_iff_pairwise.1 (sortLoop_isChain hreduce h hpos fun hone _ => ?_)
    exact isChain_of_length_eq_one hone

lemma exists_sortWith (hreduce : Shrinks reduce) (h : Orders pred l) :
    ∃ n, ∀ fuel ≥ n, ∃ l', sortWith reduce fuel pred l = some l' := by
  rcases Nat.eq_zero_or_pos l.length with hzero | hpos
  · exact ⟨0, fun fuel _ => ⟨l, sortLoop_of_not (by simp [hzero])⟩⟩
  · exact exists_sortLoop hreduce h hpos false

/-- With enough passes a list is sorted. -/
theorem exists_sort (h : Orders pred l)
    (htrans : ∀ a b c, pred a b = true → pred b c = true → pred a c = true) :
    ∃ n, ∀ fuel ≥ n, ∃ l', sort fuel pred l = some l' ∧ l'.Perm l ∧
      l'.Pairwise (pred · · = true) := by
  obtain ⟨n, hn⟩ := exists_sortWith shrinks_shrink h
  refine ⟨n, fun fuel hfuel => ?_⟩
  obtain ⟨l', hl'⟩ := hn fuel hfuel
  exact ⟨l', hl', sortWith_spec shrinks_shrink htrans hl'⟩

end

/-- The sort ends with a sorted permutation of the elements just if no two of them are equivalent.
Elements that are equivalent are swapped in every pass over neighbours. -/
theorem sort_sorts_iff {reduce : Nat → Nat} (hreduce : Shrinks reduce) (pred : α → α → Bool)
    [IsStrictWeakOrder α (pred · · = true)] (l : List α) :
    (∃ n, ∀ fuel ≥ n, ∃ l', sortWith reduce fuel pred l = some l' ∧ l'.Perm l ∧
      l'.Pairwise fun a b => pred b a = false) ↔ Orders pred l := by
  have htrans : ∀ a b c, pred a b = true → pred b c = true → pred a c = true := fun a b c hab hbc =>
    trans_of (pred · · = true) hab hbc
  constructor
  · rintro ⟨n, hn⟩
    obtain ⟨l', hsort, -⟩ := hn n le_rfl
    obtain ⟨hperm, hsorted⟩ := sortWith_spec hreduce htrans hsort
    have horders : Orders pred l' := hsorted.imp .inl
    exact horders.perm hperm.symm
  · intro h
    obtain ⟨n, hn⟩ := exists_sortWith hreduce h
    refine ⟨n, fun fuel hfuel => ?_⟩
    obtain ⟨l', hsort⟩ := hn fuel hfuel
    obtain ⟨hperm, hsorted⟩ := sortWith_spec hreduce htrans hsort
    refine ⟨l', hsort, hperm, hsorted.imp fun hab => ?_⟩
    exact Bool.eq_false_iff.2 fun hba => asymm_of (pred · · = true) hab hba

/-- `std::less` -/
instance isStrictWeakOrder_lt {β : Type*} [LinearOrder β] :
    IsStrictWeakOrder β fun a b => decide (a < b) = true where
  irrefl a := by simp
  trans a b c := by simpa using lt_trans
  incomp_trans a b c := by
    simp only [decide_eq_true_eq, not_lt]
    exact fun hab hbc => ⟨hbc.1.trans hab.1, hab.2.trans hbc.2⟩

/-- Three values that are not in order. -/
theorem sort_sorts_values :
    ∃ n, ∀ fuel ≥ n, ∃ l', sortWith shrink fuel (fun a b : Nat => a < b) [3, 1, 2] = some l' ∧
      l'.Perm [3, 1, 2] ∧ l'.Pairwise fun a b => decide (b < a) = false :=
  (sort_sorts_iff shrinks_shrink (fun a b : Nat => decide (a < b)) [3, 1, 2]).2 (by
    simp [Orders])

/-- Two equal values are swapped for ever. -/
theorem equal_not_sorted : ¬ ∃ fuel l', sort fuel (fun a b : Nat => a < b) [0, 0] = some l' := by
  rintro ⟨fuel, l', h⟩
  obtain ⟨hperm, hsorted⟩ :=
    sortWith_spec shrinks_shrink (by simpa using fun a b c => lt_trans) h
  have horders : Orders (fun a b : Nat => decide (a < b)) l' := hsorted.imp .inl
  simpa [Orders] using horders.perm hperm.symm

section

variable {pred : α → α → Bool} {l : List α}

/-! ### The search -/

/-- The lower bound of a value separates what is before it from what is not. -/
lemma lowerBound_spec {before : Nat → Bool} (begin count : Nat)
    (hmono : ∀ i j, i ≤ j → before j = true → before i = true) :
    begin ≤ lowerBound before begin count ∧ lowerBound before begin count ≤ begin + count ∧
      (∀ i, begin ≤ i → i < lowerBound before begin count → before i = true) ∧
      (lowerBound before begin count < begin + count →
        before (lowerBound before begin count) = false) := by
  fun_induction lowerBound before begin count with
  | case1 begin count h step itr hbefore ih =>
    obtain ⟨hle, hge, hall, hend⟩ := ih
    refine ⟨by omega, by omega, fun i hi hlt => ?_, fun hlt => hend (by omega)⟩
    rcases Nat.lt_or_ge itr i with hitr | hitr
    · exact hall i hitr hlt
    · exact hmono i itr hitr hbefore
  | case2 begin count h step itr hbefore ih =>
    obtain ⟨hle, hge, hall, hend⟩ := ih
    refine ⟨hle, by omega, hall, fun hlt => ?_⟩
    rcases Nat.lt_or_ge (lowerBound before begin step) itr with hitr | hitr
    · exact hend hitr
    · have heq : lowerBound before begin step = itr := by omega
      rw [heq]
      exact Bool.eq_false_of_not_eq_true hbefore
  | case3 begin count h => exact ⟨le_rfl, by omega, fun i hi hlt => by omega, by omega⟩

/-- The lower bound is where the elements end that are before the value. -/
lemma lowerBound_eq {before : Nat → Bool} {k begin count : Nat} (hbegin : begin ≤ k)
    (hcount : k ≤ begin + count) (hbefore : ∀ i, before i = decide (i < k)) :
    lowerBound before begin count = k := by
  have hmono : ∀ i j, i ≤ j → before j = true → before i = true := fun i j hij hj => by
    rw [hbefore] at hj ⊢
    exact decide_eq_true (hij.trans_lt (of_decide_eq_true hj))
  obtain ⟨-, -, hall, hend⟩ := lowerBound_spec begin count hmono
  refine le_antisymm (not_lt.1 fun hlt => ?_) (not_lt.1 fun hlt => ?_)
  · have hk := hall k hbegin hlt
    rw [hbefore] at hk
    exact lt_irrefl k (of_decide_eq_true hk)
  · have hk := hend (hlt.trans_le hcount)
    rw [hbefore] at hk
    exact of_decide_eq_false hk hlt

/-- In a sorted list the search finds the element that is neither before nor after the value, and
only that. -/
theorem findFirstLowerBoundOf_eq_some_iff {before after : α → Bool} {a : α}
    (hsorted : l.Pairwise (pred · · = true))
    (hbefore : ∀ a b, pred a b = true → before b = true → before a = true)
    (hafter : ∀ a b, pred a b = true → before a = false → after b = true) :
    findFirstLowerBoundOf l before after = some a ↔
      a ∈ l ∧ before a = false ∧ after a = false := by
  have hmono : ∀ i j : Nat, i ≤ j → l[j]?.any before = true → l[i]?.any before = true := by
    intro i j hij hj
    obtain ⟨b, hb, hbef⟩ := (Option.any_eq_true _ _).1 hj
    obtain ⟨hjlt, rfl⟩ := List.getElem?_eq_some_iff.1 hb
    rcases Nat.lt_or_eq_of_le hij with hlt | rfl
    · refine (Option.any_eq_true _ _).2 ⟨_, List.getElem?_eq_getElem (hlt.trans hjlt), ?_⟩
      exact hbefore _ _ (List.pairwise_iff_getElem.1 hsorted i j (hlt.trans hjlt) hjlt hlt) hbef
    · exact hj
  obtain ⟨-, hle, hall, hend⟩ := lowerBound_spec 0 l.length hmono
  unfold findFirstLowerBoundOf
  generalize lowerBound (fun i => l[i]?.any before) 0 l.length = r at hle hall hend
  rw [Nat.zero_add] at hle hend
  constructor
  · intro h
    split at h
    · rename_i b hb
      split at h
      · cases h
      · rename_i hnot
        cases h
        obtain ⟨hr, rfl⟩ := List.getElem?_eq_some_iff.1 hb
        refine ⟨List.getElem_mem hr, ?_, Bool.eq_false_of_not_eq_true hnot⟩
        simpa [hb] using hend hr
    · cases h
  · -- it is the first element that is not before the value
    rintro ⟨hmem, hbef, haft⟩
    obtain ⟨k, hk, rfl⟩ := List.getElem_of_mem hmem
    have hrk : ¬ k < r := by
      intro hlt
      have htrue := hall k (Nat.zero_le k) hlt
      rw [List.getElem?_eq_getElem hk, Option.any_some, hbef] at htrue
      cases htrue
    have hr : r < l.length := by omega
    have hrbef : before l[r] = false := by simpa [List.getElem?_eq_getElem hr] using hend hr
    have heq : r = k := by
      by_contra hne
      have hpred := List.pairwise_iff_getElem.1 hsorted r k hr hk (by omega)
      exact absurd (haft.symm.trans (hafter _ _ hpred hrbef)) (by simp)
    subst heq
    rw [List.getElem?_eq_getElem hr]
    exact if_neg (Bool.eq_false_iff.1 haft)

end
end Idle
