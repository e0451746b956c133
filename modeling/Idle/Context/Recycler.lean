import Idle.Context.Guid
import Idle.Util.FlatSet

/-!
# Recycled ids

`id_recycler` hands out ids from below and takes them back in any order. The ids below the largest
one that is in use are either in use or remembered; when the largest one comes back, the range
shrinks over all that were remembered behind it. The ids have 64 bits.
-/

namespace Idle

/-- `ContextImpl::id_recycler` -/
structure IdRecycler where
  current : Nat
  recycled : FlatSet fun a b : Nat => a < b

namespace IdRecycler

def initial : IdRecycler := ⟨0, .empty⟩

/-- What is left when the last element is erased. -/
def eraseLast (recycled : FlatSet fun a b : Nat => a < b) : FlatSet fun a b : Nat => a < b :=
  (recycled.eraseAt (recycled.size - 1)).2

def allocate (r : IdRecycler) : Nat × IdRecycler :=
  match r.recycled.storage.getLast? with
  | none => (r.current, { r with current := (r.current + 1) % 2 ^ 64 })
  | some id => (id, { r with recycled := eraseLast r.recycled })

/-- The loop of `recycle`. -/
def recycleLoop (current : Nat) (recycled : FlatSet fun a b : Nat => a < b) : IdRecycler :=
  match h : recycled.storage.getLast? with
  | none => ⟨current, recycled⟩
  | some id =>
    if id ≠ (current + 2 ^ 64 - 1) % 2 ^ 64 then ⟨current, recycled⟩
    else recycleLoop ((current + 2 ^ 64 - 1) % 2 ^ 64) (eraseLast recycled)
termination_by recycled.size
decreasing_by
  have hpos : 0 < recycled.storage.length := List.length_pos_of_mem (List.mem_of_getLast? h)
  simp only [eraseLast, FlatSet.eraseAt, FlatSet.size, List.length_eraseIdx]
  split <;> omega

def recycle (r : IdRecycler) (id : Nat) : IdRecycler :=
  recycleLoop r.current (r.recycled.insert id).2

end IdRecycler

inductive IdOp where
  | allocate
  | recycle (id : Nat)

namespace IdOp

/-- Only an id that is in use is taken back. -/
def Pre (c : IdRecycler × Finset Nat) : IdOp → Prop
  | allocate => True
  | recycle id => id ∈ c.2

/-- The recycler, and which ids are in use. -/
def exec (c : IdRecycler × Finset Nat) : IdOp → IdRecycler × Finset Nat
  | allocate => (c.1.allocate.2, insert c.1.allocate.1 c.2)
  | recycle id => (c.1.recycle id, c.2.erase id)

/-- Not every id but the last one is in use. -/
def InRange (c : IdRecycler × Finset Nat) : IdOp → Prop
  | allocate => c.1.recycled.storage ≠ [] ∨ c.1.current ≠ 2 ^ 64 - 1
  | recycle _ => True

end IdOp

/-- All orders in which ids are handed out and taken back. -/
def ids : Machine (IdRecycler × Finset Nat) IdOp where
  init c := c = (.initial, ∅)
  pre := IdOp.Pre
  step := IdOp.exec

namespace IdRecycler

/-- The ids that are in use are all ids below `current` but those that are remembered. -/
structure Tracks (c : IdRecycler × Finset Nat) : Prop where
  current_eq : c.1.current = c.2.sup (· + 1)
  recycled_iff : ∀ id, id ∈ c.1.recycled.storage ↔ id < c.1.current ∧ id ∉ c.2

/-- What is handed out is not in use. -/
def Fresh (c : IdRecycler × Finset Nat) : IdOp → Prop
  | .allocate => c.1.allocate.1 ∉ c.2
  | .recycle _ => True

/-! ### The invariant -/

/-- What holds as long as the counter does not run over. -/
structure Valid (c : IdRecycler × Finset Nat) : Prop extends Tracks c where
  sorted : c.1.recycled.storage.Pairwise (· < ·)
  current_lt : c.1.current < 2 ^ 64

variable {c : IdRecycler × Finset Nat} {r : IdRecycler} {live : Finset Nat}

lemma storage_eraseLast (recycled : FlatSet fun a b : Nat => a < b) :
    (eraseLast recycled).storage = recycled.storage.dropLast := by
  rw [eraseLast, FlatSet.eraseAt, FlatSet.size, List.eraseIdx_length_sub_one]

lemma lt_sup_succ {id : Nat} (h : id ∈ live) : id < live.sup (· + 1) :=
  Finset.le_sup (f := (· + 1)) h

/-- The last id that is remembered is the largest one. -/
lemma le_getLast {l : List Nat} {last id : Nat} (hsorted : l.Pairwise (· < ·))
    (hlast : l.getLast? = some last) (hid : id ∈ l) : id ≤ last := by
  obtain ⟨l', rfl⟩ := List.getLast?_eq_some_iff.1 hlast
  obtain ⟨-, -, hbetween⟩ := List.pairwise_append.1 hsorted
  rcases List.mem_append.1 hid with hid | hid
  · exact (hbetween id hid last (List.mem_singleton_self last)).le
  · exact (List.mem_singleton.1 hid).le

lemma mem_dropLast_iff {l : List Nat} {last id : Nat} (hsorted : l.Pairwise (· < ·))
    (hlast : l.getLast? = some last) : id ∈ l.dropLast ↔ id ∈ l ∧ id ≠ last := by
  obtain ⟨l', rfl⟩ := List.getLast?_eq_some_iff.1 hlast
  obtain ⟨-, -, hbetween⟩ := List.pairwise_append.1 hsorted
  rw [List.dropLast_concat, List.mem_append, List.mem_singleton]
  refine ⟨fun h => ⟨.inl h, ?_⟩, fun h => h.1.resolve_right h.2⟩
  exact (hbetween id h last (List.mem_singleton_self last)).ne

lemma eraseLast_concat (l : List Nat) (id : Nat) : eraseLast ⟨l ++ [id]⟩ = ⟨l⟩ :=
  congrArg FlatSet.mk ((storage_eraseLast _).trans List.dropLast_concat)

lemma recycleLoop_concat (current : Nat) (l : List Nat) (id : Nat) :
    recycleLoop current ⟨l ++ [id]⟩ =
      if id ≠ (current + 2 ^ 64 - 1) % 2 ^ 64 then ⟨current, ⟨l ++ [id]⟩⟩
      else recycleLoop ((current + 2 ^ 64 - 1) % 2 ^ 64) ⟨l⟩ := by
  rw [recycleLoop]
  split
  · rename_i hlast
    simp at hlast
  · rename_i last hlast
    obtain rfl := Option.some.inj (List.getLast?_concat.symm.trans hlast)
    rw [eraseLast_concat]

/-- The counter is right if the id below it is in use. -/
lemma eq_sup_succ {current : Nat} (hlive : ∀ id ∈ live, id < current)
    (hlast : current = 0 ∨ current - 1 ∈ live) : current = live.sup (· + 1) := by
  refine le_antisymm ?_ (Finset.sup_le hlive)
  rcases hlast with h | h
  · exact h ▸ Nat.zero_le _
  · have hlt := lt_sup_succ h
    omega

lemma Valid.allocate (h : Valid c) (hrange : IdOp.InRange c .allocate) :
    Valid (IdOp.exec c .allocate) ∧ Fresh c .allocate := by
  obtain ⟨⟨current, recycled⟩, live⟩ := c
  obtain ⟨⟨hcurrent, hrecycled⟩, hsorted, hlt⟩ := h
  simp only at hcurrent hrecycled hsorted hlt
  simp only [IdOp.InRange] at hrange
  simp only [IdOp.exec, Fresh]
  cases hlast : recycled.storage.getLast? with
  | none =>
    have hnil : recycled.storage = [] := List.getLast?_eq_none_iff.1 hlast
    have hsucc : current + 1 < 2 ^ 64 := by
      have hne := hrange.resolve_left fun h => h hnil
      omega
    have hmod : (current + 1) % 2 ^ 64 = current + 1 := Nat.mod_eq_of_lt hsucc
    have hall : ∀ id < current, id ∈ live := fun id hid => by
      by_contra hnot
      have hmem := (hrecycled id).2 ⟨hid, hnot⟩
      simp [hnil] at hmem
    have hfresh : current ∉ live := fun hmem => (hcurrent ▸ lt_sup_succ hmem).false
    simp only [IdRecycler.allocate, hlast, hmod]
    refine ⟨⟨⟨?_, fun id => ?_⟩, hsorted, hsucc⟩, hfresh⟩
    · simp [← hcurrent]
    · simp only [hnil, List.not_mem_nil, false_iff, Finset.mem_insert, not_and, not_not]
      intro hid
      exact (Nat.lt_succ_iff_lt_or_eq.1 hid).symm.imp_right (hall id)
  | some last =>
    obtain ⟨hlastlt, hfresh⟩ := (hrecycled last).1 (List.mem_of_getLast? hlast)
    simp only [IdRecycler.allocate, hlast]
    refine ⟨⟨⟨?_, fun id => ?_⟩, ?_, hlt⟩, hfresh⟩
    · rw [Finset.sup_insert, ← hcurrent]
      exact (max_eq_right hlastlt).symm
    · rw [storage_eraseLast, mem_dropLast_iff hsorted hlast, hrecycled, Finset.mem_insert, not_or,
        and_assoc, and_comm (a := id ∉ live)]
    · rw [storage_eraseLast]
      exact hsorted.sublist (List.dropLast_sublist _)

/-- The loop ends behind the largest id that is in use. -/
lemma recycleLoop_valid {current : Nat} {recycled : FlatSet fun a b : Nat => a < b}
    (hsorted : recycled.storage.Pairwise (· < ·)) (hcurrent : current < 2 ^ 64)
    (hmem : ∀ id, id ∈ recycled.storage ↔ id < current ∧ id ∉ live)
    (hlive : ∀ id ∈ live, id < current) : Valid (recycleLoop current recycled, live) := by
  fun_induction recycleLoop current recycled with
  | case1 current recycled hlast =>
    have hnil : recycled.storage = [] := List.getLast?_eq_none_iff.1 hlast
    refine ⟨⟨eq_sup_succ hlive ?_, hmem⟩, hsorted, hcurrent⟩
    by_contra hnot
    rw [not_or] at hnot
    have hrecycled := (hmem (current - 1)).2 ⟨Nat.sub_one_lt hnot.1, hnot.2⟩
    simp [hnil] at hrecycled
  | case2 current recycled last hlast hne =>
    obtain ⟨hlt, -⟩ := (hmem last).1 (List.mem_of_getLast? hlast)
    refine ⟨⟨eq_sup_succ hlive (.inr ?_), hmem⟩, hsorted, hcurrent⟩
    by_contra hnot
    have hle := le_getLast hsorted hlast ((hmem (current - 1)).2 ⟨by omega, hnot⟩)
    omega
  | case3 current recycled last hlast heq ih =>
    obtain ⟨hlt, hnot⟩ := (hmem last).1 (List.mem_of_getLast? hlast)
    have heq : last = current - 1 := by omega
    have hmod : (current + 2 ^ 64 - 1) % 2 ^ 64 = current - 1 := by omega
    rw [hmod] at ih ⊢
    refine ih ?_ (by omega) (fun id => ?_) fun id hid => ?_
    · rw [storage_eraseLast]
      exact hsorted.sublist (List.dropLast_sublist _)
    · rw [storage_eraseLast, mem_dropLast_iff hsorted hlast, hmem]
      refine ⟨fun ⟨⟨hid, hlive⟩, hne⟩ => ⟨by omega, hlive⟩, fun ⟨hid, hlive⟩ => ?_⟩
      exact ⟨⟨by omega, hlive⟩, by omega⟩
    · have hidlt := hlive id hid
      have hne : id ≠ last := fun heq => hnot (heq ▸ hid)
      omega

lemma Valid.recycle {id : Nat} (h : Valid c) (hid : id ∈ c.2) :
    Valid (IdOp.exec c (.recycle id)) := by
  have hlive : ∀ id ∈ c.2, id < c.1.current := fun id hid => h.current_eq ▸ lt_sup_succ hid
  refine recycleLoop_valid (FlatSet.insert_sorted h.sorted id) h.current_lt (fun id' => ?_)
    fun id' hid' => hlive id' (Finset.mem_of_mem_erase hid')
  rw [FlatSet.mem_insert_storage h.sorted, h.recycled_iff, Finset.mem_erase, not_and]
  by_cases heq : id' = id
  · subst heq
    simp [hlive id' hid]
  · simp [heq]

lemma valid_initial : Valid (initial, ∅) :=
  ⟨⟨rfl, by simp [initial, FlatSet.empty]⟩, .nil, by simp [initial]⟩

end IdRecycler

open IdRecycler

/-- The recycler tracks which ids are in use along just those runs in which no id is handed out when
all ids but the last one are in use. -/
theorem ids_tracked_iff {as : List IdOp}
    (h : ids.Admissible (fun _ _ => True) (.initial, ∅) as) :
    ids.Always Tracks Fresh (.initial, ∅) as ↔ ids.Admissible IdOp.InRange (.initial, ∅) as := by
  refine Machine.always_iff valid_initial h (fun _ hc => hc.toTracks) ?_ ?_ ?_
  · intro c op hc hpre hrange
    cases op with
    | allocate => exact (hc.allocate hrange).2
    | recycle id => trivial
  · intro c op hc hpre hrange
    cases op with
    | allocate => exact (hc.allocate hrange).1
    | recycle id => exact hc.recycle hpre
  · intro c op hc hpre hfresh htracks
    cases op with
    | allocate =>
      by_contra hrange
      obtain ⟨hnil, hcurrent⟩ := not_or.1 hrange
      have hnil := not_not.1 hnil
      have hcurrent := not_not.1 hcurrent
      have hmem : c.1.allocate.1 ∈ (IdOp.exec c .allocate).2 := Finset.mem_insert_self _ _
      have hlt := lt_sup_succ hmem
      have htracks : Tracks (IdOp.exec c .allocate) := htracks
      rw [← htracks.current_eq] at hlt
      simp [IdOp.exec, IdRecycler.allocate, hnil, hcurrent] at hlt
    | recycle id => trivial

/-! ### The recycler of a context -/

namespace GuidContext

variable {c : GuidContext} {low : Nat}

/-- The recycler that a context uses, where the largest id is the last one. -/
def recycler (c : GuidContext) : IdRecycler := ⟨c.current, ⟨c.recycled.reverse⟩⟩

/-- A context hands out an id as its recycler does. -/
lemma Numbered.allocate_recycler (hc : c.Numbered) :
    c.recycler.allocate = (c.allocate.1, c.allocate.2.recycler) := by
  have hmod : (c.current + 1) % 2 ^ 64 = c.current + 1 := by
    have hle := hc.current_le
    omega
  unfold GuidContext.allocate
  cases hrecycled : c.recycled with
  | nil => simp only [IdRecycler.allocate, recycler, hrecycled, List.reverse_nil,
      List.getLast?_nil, hmod]
  | cons id rest =>
    simp only [IdRecycler.allocate, recycler, hrecycled, List.reverse_cons, List.getLast?_concat,
      eraseLast_concat]

lemma recycleLoop_eq_compact {rs : List Nat} {current : Nat} (hlt : ∀ id ∈ rs, id < current)
    (hsorted : rs.Pairwise (· > ·)) (hcurrent : current < 2 ^ 64) :
    recycleLoop current ⟨rs.reverse⟩ =
      ⟨(compact rs current).2, ⟨(compact rs current).1.reverse⟩⟩ := by
  induction rs generalizing current with
  | nil =>
    rw [recycleLoop]
    rfl
  | cons id rest ih =>
    obtain ⟨hid, hrest⟩ := List.forall_mem_cons.1 hlt
    obtain ⟨hfirst, hsorted⟩ := List.pairwise_cons.1 hsorted
    have hmod : (current + 2 ^ 64 - 1) % 2 ^ 64 = current - 1 := by omega
    rw [List.reverse_cons, recycleLoop_concat, hmod, compact]
    split
    · rw [List.reverse_cons]
    · refine ih (fun id' hid' => ?_) hsorted (by omega)
      have hlt := hfirst id' hid'
      omega

/-- The remembered ids with one more, from the largest one on. -/
lemma insert_recycled (low : Nat) (hsorted : c.recycled.Pairwise (· > ·)) :
    ∃ rs, rs = (if low ∈ c.recycled then c.recycled
        else c.recycled.orderedInsert (· ≥ ·) low) ∧ rs.Pairwise (· > ·) ∧
      ∀ id, id ∈ rs ↔ id = low ∨ id ∈ c.recycled := by
  refine ⟨_, rfl, ?_⟩
  split
  · rename_i hmem
    exact ⟨hsorted, fun id => ⟨.inr, fun h => h.elim (fun heq => heq ▸ hmem) fun h => h⟩⟩
  · rename_i hnot
    have hnodup : (c.recycled.orderedInsert (· ≥ ·) low).Nodup :=
      (List.perm_orderedInsert _ low c.recycled).nodup_iff.2
        (List.nodup_cons.2 ⟨hnot, hsorted.imp fun h => h.ne'⟩)
    have hge : (c.recycled.orderedInsert (· ≥ ·) low).Pairwise (· ≥ ·) :=
      (hsorted.imp fun h => h.le).orderedInsert low _
    refine ⟨(hge.and (List.nodup_iff_pairwise_ne.1 hnodup)).imp fun h => ?_, fun id =>
      List.mem_orderedInsert _⟩
    exact lt_of_le_of_ne h.1 h.2.symm

/-- A context takes back an id as its recycler does. -/
lemma Numbered.recycle_recycler {h : ServiceId} (hc : c.Numbered) (hlow : c.table low = some h) :
    (c.recycle low).recycler = c.recycler.recycle low := by
  have hsorted : c.recycled.Pairwise (· > ·) :=
    (hc.recycled_sorted.and (List.nodup_iff_pairwise_ne.1 hc.recycled_nodup)).imp fun h =>
      lt_of_le_of_ne h.1 h.2.symm
  have hcurrent : c.current < 2 ^ 64 := hc.current_le.trans_lt (by norm_num)
  have hreverse : c.recycler.recycled.storage.Pairwise (· < ·) := List.pairwise_reverse.2 hsorted
  obtain ⟨rs, hrs, hrssorted, hmem⟩ := insert_recycled low hsorted
  have hinsert : (c.recycler.recycled.insert low).2 = ⟨rs.reverse⟩ := by
    refine congrArg FlatSet.mk ((FlatSet.insert_sorted hreverse low).eq_of_mem_iff ?_ fun id => ?_)
    · exact List.pairwise_reverse.2 hrssorted
    · rw [FlatSet.mem_insert_storage hreverse, List.mem_reverse, hmem]
      simp [recycler]
  have hlt : ∀ id ∈ rs, id < c.current := fun id hid =>
    ((hmem id).1 hid).elim (fun heq => heq ▸ hc.table_lt low h hlow) fun hid =>
      (hc.recycled_lt id hid).1
  rw [IdRecycler.recycle, hinsert, GuidContext.recycle, ← hrs]
  exact (recycleLoop_eq_compact hlt hrssorted hcurrent).symm

end GuidContext

instance (c : IdRecycler × Finset Nat) : (op : IdOp) → Decidable (ids.pre c op)
  | .allocate => .isTrue trivial
  | .recycle id => inferInstanceAs (Decidable (id ∈ c.2))

instance (c : IdRecycler × Finset Nat) : (op : IdOp) → Decidable (IdOp.InRange c op)
  | .allocate => inferInstanceAs (Decidable (_ ∨ _))
  | .recycle _ => .isTrue trivial

/-- The largest id comes back after the one before it. -/
def idRun : List IdOp :=
  [.allocate, .allocate, .allocate, .recycle 1, .recycle 2, .allocate]

theorem ids_tracked_idRun : ids.Always Tracks Fresh (.initial, ∅) idRun :=
  (ids_tracked_iff (by decide +kernel)).2 (by decide +kernel)

/-- As many ids are handed out. -/
lemma allocations (n : Nat) (hn : n ≤ 2 ^ 64) :
    ids.Admissible (fun _ _ => True) (.initial, ∅) (List.replicate n .allocate) ∧
      (List.replicate n .allocate).foldl ids.step (.initial, ∅) =
        (⟨n % 2 ^ 64, .empty⟩, Finset.range n) := by
  induction n with
  | zero => exact ⟨trivial, rfl⟩
  | succ n ih =>
    obtain ⟨hadm, hfold⟩ := ih (Nat.le_of_succ_le hn)
    rw [List.replicate_succ', List.foldl_append, hfold, Nat.mod_eq_of_lt hn]
    refine ⟨hadm.append ⟨trivial, trivial, trivial⟩, ?_⟩
    simp [ids, IdOp.exec, IdRecycler.allocate, FlatSet.empty, Finset.range_add_one]

/-- When all ids are in use, the counter is at zero again. -/
theorem allocations_not_tracked :
    ¬ ∀ as : List IdOp, ids.Admissible (fun _ _ => True) (.initial, ∅) as →
      ids.Always Tracks Fresh (.initial, ∅) as := by
  intro h
  obtain ⟨hadm, hfold⟩ := allocations (2 ^ 64) le_rfl
  have htracks := (h _ hadm).foldl
  rw [hfold] at htracks
  have hlt : 0 < (Finset.range (2 ^ 64)).sup (· + 1) :=
    lt_sup_succ (Finset.mem_range.2 (by norm_num))
  rw [← htracks.current_eq] at hlt
  simp at hlt

end Idle
