import Idle.Core.Sample
import Idle.Core.Edges

/-!
# Guids

`ContextImpl` names every initialised service by a guid. The low part names the cluster and is
handed out and taken back by `id_recycler`; the high part names the member and is counted up in
the cluster, where it has 16 bits and is never taken back.
-/

namespace Idle

/-- `Guid`, with the widths of its bit fields. -/
structure Guid where
  low : BitVec 40
  high : BitVec 16
  ordinal : BitVec 8
  deriving DecidableEq, Repr

namespace Guid

/-- `Guid::Guid()` -/
def empty : Guid := ⟨-1, -1, -1⟩

/-- `Guid::Guid(Low, High)` -/
def ofLow (low : Nat) (high : BitVec 16) : Guid := ⟨.ofNat 40 low, high, 0⟩

def isPart (g : Guid) : Bool := g.ordinal != 0

/-- `next_child_guid` -/
def nextChild (g : Guid) : Guid := .ofLow g.low.toNat (g.high + 1)

end Guid

/-- The services of a context with what their guids are made of. -/
structure GuidContext extends ServiceTree where
  /-- `id_recycler::current_` -/
  current : Nat
  /-- `id_recycler::recycled_`, a sorted set that is only used at its end; the largest is the first
  one here. -/
  recycled : List Nat
  /-- `ContextImpl::services_` -/
  table : Nat → Option ServiceId
  /-- `Cluster::guid_` -/
  clusterGuid : ServiceId → Guid
  /-- `Service::high_guid_` -/
  highGuid : ServiceId → BitVec 16

namespace GuidContext

/-- `Service::guid` -/
def guid (c : GuidContext) (s : ServiceId) : Guid :=
  .ofLow (c.clusterGuid (c.cluster s)).low.toNat (c.highGuid s)

/-- `ContextImpl::lookupImpl` -/
def lookup (c : GuidContext) (g : Guid) : Option ServiceId :=
  if g.isPart then none
  else
    match c.table g.low.toNat with
    | none => none
    | some head =>
      if g.high = 0 then some head
      else (c.clusterMembers head).tail.find? fun s => c.guid s = g

/-! ### The recycler -/

/-- `id_recycler::allocate` -/
def allocate (c : GuidContext) : Nat × GuidContext :=
  match c.recycled with
  | [] => (c.current, { c with current := c.current + 1 })
  | id :: rest => (id, { c with recycled := rest })

/-- The loop of `id_recycler::recycle`. -/
def compact : List Nat → Nat → List Nat × Nat
  | [], current => ([], current)
  | id :: rest, current =>
    if id ≠ current - 1 then (id :: rest, current) else compact rest (current - 1)

/-- `id_recycler::recycle` -/
def recycle (c : GuidContext) (low : Nat) : GuidContext :=
  let r := compact
    (if low ∈ c.recycled then c.recycled else c.recycled.orderedInsert (· ≥ ·) low) c.current
  { c with recycled := r.1, current := r.2 }

/-- `ContextImpl::allocate_guid`; inserting into a map does not replace. -/
def allocateGuid (c : GuidContext) (s : ServiceId) : Nat × GuidContext :=
  let (low, c) := c.allocate
  (low, { c with
    table := if (c.table low).isSome then c.table else Function.update c.table low (some s) })

/-- `ContextImpl::recycle_guid` -/
def recycleGuid (c : GuidContext) (low : Nat) : GuidContext :=
  recycle { c with table := Function.update c.table low none } low

/-! ### Services come and go -/

/-- The guid of the cluster, in the part of `Service::init` for a member. -/
def initMember (c : GuidContext) (s : ServiceId) : GuidContext :=
  let head := c.cluster (c.layout.parent s).owner
  let next := (c.clusterGuid head).nextChild
  { c with
    cluster := Function.update c.cluster s head
    highGuid := Function.update c.highGuid s next.high
    clusterGuid := Function.update c.clusterGuid head next
    services := c.services ++ [s] }

/-- The guid of the cluster, in the part of `Service::init` for a head. -/
def initHead (c : GuidContext) (s : ServiceId) : GuidContext :=
  let r := c.allocateGuid s
  let current := Guid.ofLow r.1 0
  { r.2 with
    cluster := Function.update c.cluster s s
    highGuid := Function.update c.highGuid s current.high
    clusterGuid := Function.update c.clusterGuid s current
    services := c.services ++ [s] }

def init (c : GuidContext) (s : ServiceId) : GuidContext :=
  if c.layout.isMember s then c.initMember s else c.initHead s

/-- The part of `Service::destroy` that concerns guids. -/
def destroy (c : GuidContext) (s : ServiceId) : GuidContext :=
  let c := { c with services := c.services.erase s }
  if c.layout.isMember s then c
  else
    recycleGuid { c with clusterGuid := Function.update c.clusterGuid (c.cluster s) .empty }
      (c.clusterGuid (c.cluster s)).low.toNat

/-- The context after the root was initialised. -/
def initial (L : Layout) : GuidContext where
  layout := L
  services := [L.root]
  cluster s := s
  current := 1
  recycled := []
  table := Function.update (fun _ => none) 0 (some L.root)
  clusterGuid s := if s = L.root then .ofLow 0 0 else .empty
  highGuid s := if s = L.root then 0 else Guid.empty.high

end GuidContext

/-- A service is initialised or destroyed. -/
inductive GuidOp where
  | init (s : ServiceId)
  | destroy (s : ServiceId)

namespace GuidOp

/-- A service is initialised once, below an initialised one, and destroyed after its children. -/
def Pre (c : GuidContext) : GuidOp → Prop
  | init s => s ∉ c.services ∧ (c.layout.parent s).owner ∈ c.services ∧
      c.layout.parent s ∈ c.layout.parts (c.layout.parent s).owner
  | destroy s => s ∈ c.services ∧ s ≠ c.layout.root ∧
      ∀ t ∈ c.services, t ≠ c.layout.root → (c.layout.parent t).owner ≠ s

def exec (c : GuidContext) : GuidOp → GuidContext
  | init s => c.init s
  | destroy s => c.destroy s

end GuidOp

/-- All orders in which services come and go. -/
def guids (L : Layout) : Machine GuidContext GuidOp where
  init c := c = .initial L
  pre := GuidOp.Pre
  step := GuidOp.exec

namespace GuidContext

/-- A guid names one service. -/
structure Unique (c : GuidContext) : Prop where
  distinct : ∀ s ∈ c.services, ∀ t ∈ c.services, c.guid s = c.guid t → s = t
  lookup_guid : ∀ s ∈ c.services, c.lookup (c.guid s) = some s
  lookup_unused : ∀ g, (∀ s ∈ c.services, c.guid s ≠ g) → c.lookup g = none

/-- A member is counted in its cluster by 16 bits, and a new cluster by 40. -/
def InRange (c : GuidContext) : GuidOp → Prop
  | .init s =>
    if c.layout.isMember s then
      (c.clusterGuid (c.cluster (c.layout.parent s).owner)).high ≠ BitVec.allOnes 16
    else c.recycled ≠ [] ∨ c.current < 2 ^ 40
  | .destroy _ => True

/-! ### The invariant -/

/-- What holds as long as no counter runs over. -/
structure Numbered (c : GuidContext) : Prop where
  tree : c.IsTree
  table_iff : ∀ low h, c.table low = some h ↔
    h ∈ c.services ∧ c.layout.isMember h = false ∧ (c.clusterGuid h).low.toNat = low
  table_lt : ∀ low h, c.table low = some h → low < c.current
  current_le : c.current ≤ 2 ^ 40
  recycled_lt : ∀ low ∈ c.recycled, low < c.current ∧ c.table low = none
  recycled_nodup : c.recycled.Nodup
  recycled_sorted : c.recycled.Pairwise (· ≥ ·)
  high_head : ∀ s ∈ c.services, c.layout.isMember s = false → c.highGuid s = 0
  high_member : ∀ s ∈ c.services, c.layout.isMember s = true →
    c.highGuid s ≠ 0 ∧ c.highGuid s ≤ (c.clusterGuid (c.cluster s)).high
  high_inj : ∀ s ∈ c.services, ∀ t ∈ c.services, c.cluster s = c.cluster t →
    c.highGuid s = c.highGuid t → s = t
  root_low : (c.clusterGuid c.layout.root).low = 0

variable {c : GuidContext} {s t h : ServiceId} {low : Nat}

lemma guid_low (c : GuidContext) (s : ServiceId) :
    (c.guid s).low = (c.clusterGuid (c.cluster s)).low := by
  simp [guid, Guid.ofLow]

lemma guid_eq_iff : c.guid s = c.guid t ↔
    (c.clusterGuid (c.cluster s)).low = (c.clusterGuid (c.cluster t)).low ∧
      c.highGuid s = c.highGuid t := by
  simp [guid, Guid.ofLow]

/-- Heads are the services that are not members. -/
lemma Numbered.cluster_isHead (hc : c.Numbered) (hs : s ∈ c.services) :
    c.cluster s ∈ c.services ∧ c.layout.isMember (c.cluster s) = false := by
  obtain ⟨hm, -⟩ := hc.tree.cluster_mem hs
  have := (hc.tree.isMember_iff hm).not.2 (not_not.2 (hc.tree.cluster_cluster hs))
  exact ⟨hm, by simpa using this⟩

/-- The low part names the cluster. -/
lemma Numbered.cluster_eq_of_low (hc : c.Numbered) (hs : s ∈ c.services) (ht : t ∈ c.services)
    (h : (c.clusterGuid (c.cluster s)).low = (c.clusterGuid (c.cluster t)).low) :
    c.cluster s = c.cluster t := by
  obtain ⟨hs, hsh⟩ := hc.cluster_isHead hs
  obtain ⟨ht, hth⟩ := hc.cluster_isHead ht
  have h₁ := (hc.table_iff _ _).2 ⟨hs, hsh, rfl⟩
  have h₂ := (hc.table_iff _ _).2 ⟨ht, hth, rfl⟩
  rw [h, h₂] at h₁
  exact (Option.some.inj h₁).symm

/-- The members that `lookupImpl` runs through. -/
lemma Numbered.mem_tail (hc : c.Numbered) (hh : h ∈ c.services) (hhead : c.cluster h = h) :
    t ∈ (c.clusterMembers h).tail ↔ t ∈ c.services ∧ c.cluster t = h ∧ t ≠ h := by
  obtain ⟨n, hn⟩ : ∃ n, c.services.length = n + 1 :=
    ⟨c.services.length - 1, by have := List.length_pos_of_mem hh; omega⟩
  have hnodup := hc.tree.nodup_clusterMembers h
  have hmem := hc.tree.mem_clusterMembers (t := t) hh hhead
  obtain ⟨ms, hms⟩ : ∃ ms, c.clusterMembers h = h :: ms := by
    rw [ServiceTree.IsTree.clusterMembers_eq hh hhead, hn]
    exact ⟨_, rfl⟩
  rw [hms] at hnodup hmem ⊢
  obtain ⟨hnot, -⟩ := List.nodup_cons.1 hnodup
  rw [List.tail_cons, ← and_assoc, ← hmem, List.mem_cons]
  constructor
  · intro ht
    exact ⟨.inr ht, fun heq => hnot (heq ▸ ht)⟩
  · rintro ⟨h | h, hne⟩
    · exact absurd h hne
    · exact h

theorem Numbered.unique (hc : c.Numbered) : c.Unique := by
  have hdistinct : ∀ s ∈ c.services, ∀ t ∈ c.services, c.guid s = c.guid t → s = t := by
    intro s hs t ht heq
    obtain ⟨hlow, hhigh⟩ := guid_eq_iff.1 heq
    exact hc.high_inj s hs t ht (hc.cluster_eq_of_low hs ht hlow) hhigh
  have hpart : ∀ s, (c.guid s).isPart = false := fun s => rfl
  refine ⟨hdistinct, fun s hs => ?_, fun g hg => ?_⟩
  · obtain ⟨hh, hhm⟩ := hc.cluster_isHead hs
    have htable := (hc.table_iff _ _).2 ⟨hh, hhm, rfl⟩
    unfold lookup
    rw [hpart, guid_low, htable]
    simp only [Bool.false_eq_true, if_false]
    by_cases hm : c.layout.isMember s = true
    · have hhigh : (c.guid s).high ≠ 0 := (hc.high_member s hs hm).1
      rw [if_neg hhigh, List.find?_eq_some_iff_append]
      have hmem := (hc.mem_tail hh (hc.tree.cluster_cluster hs)).2
        ⟨hs, rfl, fun heq => (hc.tree.isMember_iff hs).1 hm heq.symm⟩
      obtain ⟨as, bs, hsplit⟩ := List.append_of_mem hmem
      refine ⟨by simp, as, bs, hsplit, fun a ha => ?_⟩
      -- no member before it in the list of the cluster has its guid
      have hnodup : (c.clusterMembers (c.cluster s)).tail.Nodup :=
        (hc.tree.nodup_clusterMembers _).sublist (List.tail_sublist _)
      have ha' := ((hc.mem_tail hh (hc.tree.cluster_cluster hs)).1
        (hsplit ▸ List.mem_append_left _ ha)).1
      simp only [Bool.not_eq_true', decide_eq_false_iff_not]
      intro heq
      have : a = s := hdistinct a ha' s hs heq
      rw [hsplit, List.nodup_append] at hnodup
      exact hnodup.2.2 a ha s List.mem_cons_self this
    · have hm' : c.layout.isMember s = false := by simpa using hm
      have hhigh : (c.guid s).high = 0 := hc.high_head s hs hm'
      rw [if_pos hhigh, not_not.1 ((hc.tree.isMember_iff hs).not.1 hm)]
  · unfold lookup
    split
    · rfl
    · rename_i hpart
      split
      · rfl
      · -- the low part leads to a head, so the guid is that of a member or of none
        rename_i head htable
        obtain ⟨hh, hhm, hlow⟩ := (hc.table_iff _ _).1 htable
        have hhead : c.cluster head = head :=
          not_not.1 ((hc.tree.isMember_iff hh).not.1 (by simp [hhm]))
        split
        · rename_i hhigh
          refine absurd ?_ (hg head hh)
          have hord : g.ordinal = 0 := by simpa [Guid.isPart] using hpart
          have hl : (c.clusterGuid head).low = g.low := BitVec.eq_of_toNat_eq hlow
          cases g with
          | mk low high ordinal =>
            simp only at hhigh hord hl
            simp [guid, Guid.ofLow, hhead, hl, hc.high_head head hh hhm, hhigh, hord]
        · rw [List.find?_eq_none]
          intro s hs
          have := hg s ((hc.mem_tail hh hhead).1 hs).1
          simpa using this

/-! ### Services come -/

lemma Numbered.initial (L : Layout) : (initial L).Numbered where
  tree := ServiceTree.IsTree.initial L
  table_iff := by
    intro low h
    by_cases hl : low = 0
    · subst hl
      simp only [GuidContext.initial, Function.update_self, Option.some.injEq, List.mem_singleton]
      constructor
      · rintro rfl
        simp [Guid.ofLow]
      · rintro ⟨rfl, -⟩
        rfl
    · simp only [GuidContext.initial, Function.update_of_ne hl, List.mem_singleton]
      constructor
      · simp
      · rintro ⟨rfl, -, h⟩
        simp only [Guid.ofLow, if_true] at h
        exact absurd h.symm hl
  table_lt := by
    intro low h hlow
    by_cases hl : low = 0
    · subst hl
      exact Nat.zero_lt_one
    · simp [GuidContext.initial, Function.update_of_ne hl] at hlow
  current_le := by
    change 1 ≤ 2 ^ 40
    norm_num
  recycled_lt := by simp [GuidContext.initial]
  recycled_nodup := List.nodup_nil
  recycled_sorted := List.Pairwise.nil
  high_head := by simp [GuidContext.initial]
  high_member := by
    intro s hs hm
    rw [List.mem_singleton.1 hs] at hm
    exact absurd hm (by simp [GuidContext.initial])
  high_inj := by
    intro s hs t ht _ _
    rw [List.mem_singleton.1 hs, List.mem_singleton.1 ht]
  root_low := by simp [GuidContext.initial, Guid.ofLow]

/-- The counter of a cluster goes up by one as long as it is not at its end. -/
lemma lt_add_one_of_ne {b : BitVec 16} (h : b ≠ BitVec.allOnes 16) : b < b + 1 ∧ b + 1 ≠ 0 := by
  have hb : b.toNat ≠ 2 ^ 16 - 1 := fun heq => h (BitVec.eq_of_toNat_eq (by simpa using heq))
  constructor <;> bv_omega

theorem Numbered.initMember (hc : c.Numbered) (hpre : GuidOp.Pre c (.init s))
    (hm : c.layout.isMember s = true)
    (hrange : (c.clusterGuid (c.cluster (c.layout.parent s).owner)).high ≠ BitVec.allOnes 16) :
    (c.initMember s).Numbered := by
  obtain ⟨hs, ho, hp⟩ := hpre
  have htree := hc.tree.insert hs ho hp
  simp only [hm, if_true] at htree
  obtain ⟨hh, hhm⟩ := hc.cluster_isHead ho
  have hhh := hc.tree.cluster_cluster ho
  obtain ⟨hlt, hne⟩ := lt_add_one_of_ne hrange
  unfold GuidContext.initMember
  generalize c.cluster (c.layout.parent s).owner = head at *
  have hhs : head ≠ s := fun heq => hs (heq ▸ hh)
  -- the low part of the cluster stays
  have hlow : ∀ t, (Function.update c.clusterGuid head (c.clusterGuid head).nextChild t).low =
      (c.clusterGuid t).low := by
    intro t
    by_cases ht : t = head
    · subst ht
      simp [Guid.nextChild, Guid.ofLow]
    · rw [Function.update_of_ne ht]
  have hcluster : ∀ t ∈ c.services, Function.update c.cluster s head t = c.cluster t := by
    intro t ht
    rw [Function.update_of_ne (fun heq : t = s => hs (heq ▸ ht))]
  have hhigh : ∀ t ∈ c.services, Function.update c.highGuid s (c.clusterGuid head).nextChild.high
      t = c.highGuid t := by
    intro t ht
    rw [Function.update_of_ne (fun heq : t = s => hs (heq ▸ ht))]
  have hle : ∀ t ∈ c.services, c.cluster t = head → c.highGuid t ≤ (c.clusterGuid head).high := by
    intro t ht hth
    by_cases htm : c.layout.isMember t = true
    · exact hth ▸ (hc.high_member t ht htm).2
    · rw [hc.high_head t ht (by simpa using htm)]
      bv_omega
  refine ⟨htree, ?_, hc.table_lt, hc.current_le, hc.recycled_lt, hc.recycled_nodup,
    hc.recycled_sorted, ?_, ?_, ?_, ?_⟩
  · intro low t
    rw [hc.table_iff low t, hlow, List.mem_append, List.mem_singleton]
    constructor
    · rintro ⟨ht, h⟩
      exact ⟨.inl ht, h⟩
    · rintro ⟨ht | rfl, h⟩
      · exact ⟨ht, h⟩
      · rw [hm] at h
        exact absurd h.1 (by decide)
  · intro t ht htm
    rcases List.mem_append.1 ht with ht | ht
    · exact (hhigh t ht).trans (hc.high_head t ht htm)
    · rw [List.mem_singleton.1 ht, hm] at htm
      exact absurd htm (by decide)
  · intro t ht htm
    rcases List.mem_append.1 ht with ht | ht
    · simp only [hhigh t ht, hcluster t ht]
      obtain ⟨h0, hle'⟩ := hc.high_member t ht htm
      refine ⟨h0, ?_⟩
      by_cases hth : c.cluster t = head
      · rw [hth, Function.update_self]
        rw [hth] at hle'
        change _ ≤ (c.clusterGuid head).high + 1
        bv_omega
      · rw [Function.update_of_ne hth]
        exact hle'
    · rw [List.mem_singleton.1 ht]
      simp only [Function.update_self]
      exact ⟨hne, BitVec.le_refl _⟩
  · have hnew : ∀ t ∈ c.services, c.cluster t = head →
        c.highGuid t ≠ (c.clusterGuid head).nextChild.high := by
      intro t ht hth heq
      have := hle t ht hth
      rw [heq] at this
      exact absurd hlt (BitVec.not_lt.2 this)
    intro t ht u hu hcl hhi
    rcases List.mem_append.1 ht with ht | ht <;> rcases List.mem_append.1 hu with hu | hu
    · simp only [hcluster t ht, hcluster u hu, hhigh t ht, hhigh u hu] at hcl hhi
      exact hc.high_inj t ht u hu hcl hhi
    · rw [List.mem_singleton.1 hu] at hcl hhi
      simp only [hcluster t ht, hhigh t ht, Function.update_self] at hcl hhi
      exact absurd hhi (hnew t ht hcl)
    · rw [List.mem_singleton.1 ht] at hcl hhi
      simp only [hcluster u hu, hhigh u hu, Function.update_self] at hcl hhi
      exact absurd hhi.symm (hnew u hu hcl.symm)
    · rw [List.mem_singleton.1 ht, List.mem_singleton.1 hu]
  · exact (hlow _).trans hc.root_low

/-- What `id_recycler::allocate` hands out is free. -/
lemma Numbered.allocate_spec (hc : c.Numbered) (hrange : c.recycled ≠ [] ∨ c.current < 2 ^ 40) :
    ∃ low current recycled,
      c.allocate = (low, { c with current := current, recycled := recycled }) ∧
      c.table low = none ∧ low < current ∧ c.current ≤ current ∧ current ≤ 2 ^ 40 ∧
      (∀ r ∈ recycled, r < current ∧ c.table r = none ∧ r ≠ low) ∧ recycled.Nodup ∧
      recycled.Pairwise (· ≥ ·) := by
  unfold allocate
  cases hr : c.recycled with
  | nil =>
    have hlt : c.current < 2 ^ 40 := hrange.resolve_left (not_not.2 hr)
    refine ⟨c.current, c.current + 1, [], by simp, ?_, Nat.lt_succ_self _, Nat.le_succ _,
      hlt, by simp, List.nodup_nil, .nil⟩
    cases ht : c.table c.current with
    | none => rfl
    | some h => exact absurd (hc.table_lt _ _ ht) (lt_irrefl _)
  | cons id rest =>
    have hmem : ∀ r ∈ id :: rest, r < c.current ∧ c.table r = none := hr ▸ hc.recycled_lt
    have hnodup : (id :: rest).Nodup := hr ▸ hc.recycled_nodup
    have hsorted : (id :: rest).Pairwise (· ≥ ·) := hr ▸ hc.recycled_sorted
    obtain ⟨hid, hnodup⟩ := List.nodup_cons.1 hnodup
    obtain ⟨hlt, hnone⟩ := hmem id List.mem_cons_self
    refine ⟨id, c.current, rest, rfl, hnone, hlt, le_rfl, hc.current_le, ?_, hnodup,
      (List.pairwise_cons.1 hsorted).2⟩
    intro r hr
    obtain ⟨hrlt, hrnone⟩ := hmem r (List.mem_cons_of_mem _ hr)
    exact ⟨hrlt, hrnone, fun heq => hid (heq ▸ hr)⟩

theorem Numbered.initHead (hc : c.Numbered) (hpre : GuidOp.Pre c (.init s))
    (hm : c.layout.isMember s = false) (hrange : c.recycled ≠ [] ∨ c.current < 2 ^ 40) :
    (c.initHead s).Numbered := by
  obtain ⟨hs, ho, hp⟩ := hpre
  have htree := hc.tree.insert hs ho hp
  simp only [hm, Bool.false_eq_true, if_false] at htree
  obtain ⟨low, current, recycled, halloc, hnone, hlow, hle, hcur, hrec, hnodup, hsorted⟩ :=
    hc.allocate_spec hrange
  have hsr : c.layout.root ≠ s := fun heq => hs (heq ▸ hc.tree.root_mem)
  have hold : ∀ {α : Type} (f : ServiceId → α) (x : α), ∀ t ∈ c.services,
      Function.update f s x t = f t := by
    intro α f x t ht
    rw [Function.update_of_ne (fun heq : t = s => hs (heq ▸ ht))]
  have hofNat : (BitVec.ofNat 40 low).toNat = low := by
    rw [BitVec.toNat_ofNat, Nat.mod_eq_of_lt (lt_of_lt_of_le hlow hcur)]
  unfold GuidContext.initHead allocateGuid
  rw [halloc]
  simp only [hnone, Option.isSome_none, Bool.false_eq_true, if_false]
  refine ⟨htree, ?_, ?_, hcur, ?_, hnodup, hsorted, ?_, ?_, ?_, ?_⟩
  · intro l t
    simp only [List.mem_append, List.mem_singleton]
    constructor
    · intro h
      by_cases hl : l = low
      · subst hl
        rw [Function.update_self, Option.some.injEq] at h
        subst h
        exact ⟨.inr rfl, hm, by simp [Guid.ofLow, hofNat]⟩
      · rw [Function.update_of_ne hl] at h
        obtain ⟨ht, htm, htl⟩ := (hc.table_iff l t).1 h
        exact ⟨.inl ht, htm, by rw [hold _ _ t ht]; exact htl⟩
    · rintro ⟨ht | rfl, htm, htl⟩
      · -- the low part that is handed out was free
        rw [hold _ _ t ht] at htl
        have hsome := (hc.table_iff l t).2 ⟨ht, htm, htl⟩
        have hl : l ≠ low := by
          rintro rfl
          rw [hnone] at hsome
          exact absurd hsome (by simp)
        rw [Function.update_of_ne hl]
        exact hsome
      · simp only [Function.update_self, Guid.ofLow, hofNat] at htl
        rw [← htl, Function.update_self]
  · intro l t h
    by_cases hl : l = low
    · rw [hl]
      exact hlow
    · simp only [Function.update_of_ne hl] at h
      exact lt_of_lt_of_le (hc.table_lt l t h) hle
  · intro r hr
    obtain ⟨hlt, hrnone, hne⟩ := hrec r hr
    exact ⟨hlt, (Function.update_of_ne hne _ _).trans hrnone⟩
  · intro t ht htm
    rcases List.mem_append.1 ht with ht | ht
    · exact (hold _ _ t ht).trans (hc.high_head t ht htm)
    · rw [List.mem_singleton.1 ht]
      simp [Guid.ofLow]
  · intro t ht htm
    rcases List.mem_append.1 ht with ht | ht
    · simp only [hold _ _ t ht, hold _ _ _ (hc.cluster_isHead ht).1]
      exact hc.high_member t ht htm
    · rw [List.mem_singleton.1 ht, hm] at htm
      exact absurd htm (by decide)
  · -- the new head is alone in its cluster
    have hnew : ∀ t ∈ c.services, c.cluster t ≠ s := fun t ht heq =>
      hs (heq ▸ (hc.cluster_isHead ht).1)
    intro t ht u hu hcl hhi
    rcases List.mem_append.1 ht with ht | ht <;> rcases List.mem_append.1 hu with hu | hu
    · simp only [hold _ _ t ht, hold _ _ u hu] at hcl hhi
      exact hc.high_inj t ht u hu hcl hhi
    · rw [List.mem_singleton.1 hu] at hcl
      simp only [hold _ _ t ht, Function.update_self] at hcl
      exact absurd hcl (hnew t ht)
    · rw [List.mem_singleton.1 ht] at hcl
      simp only [hold _ _ u hu, Function.update_self] at hcl
      exact absurd hcl.symm (hnew u hu)
    · rw [List.mem_singleton.1 ht, List.mem_singleton.1 hu]
  · simp only [Function.update_of_ne hsr]
    exact hc.root_low

/-! ### Services go -/

/-- The loop of `id_recycler::recycle` gives back what was handed out last. -/
lemma compact_spec {rs : List Nat} {k : Nat} {U : Nat → Prop}
    (hlt : ∀ r ∈ rs, r < k ∧ ¬ U r) (hused : ∀ l, U l → l < k)
    (hnodup : rs.Nodup) (hsorted : rs.Pairwise (· ≥ ·)) :
    (compact rs k).2 ≤ k ∧
      (∀ r ∈ (compact rs k).1, r < (compact rs k).2 ∧ ¬ U r) ∧
      (∀ l, U l → l < (compact rs k).2) ∧ (compact rs k).1.Nodup ∧
      (compact rs k).1.Pairwise (· ≥ ·) := by
  induction rs generalizing k with
  | nil => exact ⟨le_rfl, by simp [compact], hused, List.nodup_nil, .nil⟩
  | cons id rest ih =>
    unfold compact
    split
    · exact ⟨le_rfl, hlt, hused, hnodup, hsorted⟩
    · rename_i hid
      have hid : id = k - 1 := not_not.1 hid
      obtain ⟨hidlt, hidu⟩ := hlt id List.mem_cons_self
      obtain ⟨hnot, hnodup⟩ := List.nodup_cons.1 hnodup
      obtain ⟨hge, hsorted⟩ := List.pairwise_cons.1 hsorted
      have hrest : ∀ r ∈ rest, r < k - 1 ∧ ¬ U r := by
        intro r hr
        have hne : r ≠ id := fun heq => hnot (heq ▸ hr)
        have := hge r hr
        exact ⟨by omega, (hlt r (List.mem_cons_of_mem _ hr)).2⟩
      have hused' : ∀ l, U l → l < k - 1 := by
        intro l hl
        have hne : l ≠ id := fun heq => hidu (heq ▸ hl)
        have := hused l hl
        omega
      obtain ⟨hle, h⟩ := ih hrest hused' hnodup hsorted
      exact ⟨hle.trans (Nat.sub_le _ _), h⟩

/-- What `recycle_guid` leaves of the table and of the recycler. -/
lemma Numbered.recycle_spec (hc : c.Numbered) (hlow : c.table low = some h) :
    ∃ current recycled,
      c.recycleGuid low = { c with
        table := Function.update c.table low none, current := current, recycled := recycled } ∧
      current ≤ 2 ^ 40 ∧
      (∀ r ∈ recycled, r < current ∧ Function.update c.table low none r = none) ∧
      (∀ l t, Function.update c.table low none l = some t → l < current) ∧ recycled.Nodup ∧
      recycled.Pairwise (· ≥ ·) := by
  have hnot : low ∉ c.recycled := by
    intro hmem
    rw [(hc.recycled_lt low hmem).2] at hlow
    exact absurd hlow (by simp)
  have hmem : ∀ r, r ∈ c.recycled.orderedInsert (· ≥ ·) low ↔ r = low ∨ r ∈ c.recycled := fun r =>
    List.mem_orderedInsert _
  have hnodup : (c.recycled.orderedInsert (· ≥ ·) low).Nodup :=
    (List.perm_orderedInsert _ low c.recycled).nodup_iff.2
      (List.nodup_cons.2 ⟨hnot, hc.recycled_nodup⟩)
  have hsorted : (c.recycled.orderedInsert (· ≥ ·) low).Pairwise (· ≥ ·) :=
    hc.recycled_sorted.orderedInsert low _
  obtain ⟨hle, hrec, hused, hnodup', hsorted'⟩ := compact_spec (k := c.current)
    (U := fun l => ∃ t, Function.update c.table low none l = some t)
    (fun r hr => by
      rcases (hmem r).1 hr with rfl | hr
      · exact ⟨hc.table_lt _ _ hlow, by simp⟩
      · obtain ⟨hlt, hnone⟩ := hc.recycled_lt r hr
        have hne : r ≠ low := fun heq => hnot (heq ▸ hr)
        exact ⟨hlt, by simp [Function.update_of_ne hne, hnone]⟩)
    (fun l ⟨t, ht⟩ => by
      by_cases hl : l = low
      · rw [hl]
        exact hc.table_lt _ _ hlow
      · rw [Function.update_of_ne hl] at ht
        exact hc.table_lt _ _ ht)
    hnodup hsorted
  refine ⟨_, _, by simp only [recycleGuid, recycle, if_neg hnot], hle.trans hc.current_le, ?_,
    fun l t ht => hused l ⟨t, ht⟩, hnodup', hsorted'⟩
  intro r hr
  obtain ⟨hlt, hno⟩ := hrec r hr
  refine ⟨hlt, ?_⟩
  cases hval : Function.update c.table low none r with
  | none => rfl
  | some t => exact absurd ⟨t, hval⟩ hno

/-- A member only takes its high part with it. -/
lemma Numbered.destroyMember (hc : c.Numbered) (hpre : GuidOp.Pre c (.destroy s))
    (hm : c.layout.isMember s = true) :
    Numbered { c with services := c.services.erase s } := by
  obtain ⟨-, hr, hchild⟩ := hpre
  have hmem : ∀ t, t ∈ c.services.erase s ↔ t ≠ s ∧ t ∈ c.services := fun t =>
    hc.tree.nodup.mem_erase_iff
  have hsub : ∀ t, t ∈ c.services.erase s → t ∈ c.services := fun t ht => ((hmem t).1 ht).2
  refine ⟨hc.tree.erase hr hchild, ?_, hc.table_lt, hc.current_le, hc.recycled_lt,
    hc.recycled_nodup, hc.recycled_sorted, fun t ht => hc.high_head t (hsub t ht),
    fun t ht => hc.high_member t (hsub t ht),
    fun t ht u hu => hc.high_inj t (hsub t ht) u (hsub u hu), hc.root_low⟩
  intro l t
  simp only [hmem]
  rw [hc.table_iff l t]
  constructor
  · rintro ⟨ht, htm, htl⟩
    refine ⟨⟨?_, ht⟩, htm, htl⟩
    rintro rfl
    rw [hm] at htm
    exact absurd htm (by decide)
  · rintro ⟨⟨-, ht⟩, h⟩
    exact ⟨ht, h⟩

/-- A head is alone in its cluster and gives its low part back. -/
lemma Numbered.destroyHead (hc : c.Numbered) (hpre : GuidOp.Pre c (.destroy s))
    (hm : c.layout.isMember s = false) : (c.destroy s).Numbered := by
  obtain ⟨hs, hr, hchild⟩ := hpre
  have hmem : ∀ t, t ∈ c.services.erase s ↔ t ≠ s ∧ t ∈ c.services := fun t =>
    hc.tree.nodup.mem_erase_iff
  have hhead : c.cluster s = s := not_not.1 ((hc.tree.isMember_iff hs).not.1 (by simp [hm]))
  have hother : ∀ t ∈ c.services.erase s, c.cluster t ≠ s := fun t ht heq =>
    ((hmem t).1 ht).1 (hc.tree.eq_of_childless hchild ((hmem t).1 ht).2 heq)
  have hguid : ∀ t, t ≠ s → Function.update c.clusterGuid s Guid.empty t = c.clusterGuid t :=
    fun t ht => Function.update_of_ne ht _ _
  have htable := (hc.table_iff _ _).2 ⟨hs, hm, rfl⟩
  obtain ⟨current, recycled, heq, hcur, hrec, hlt, hnodup, hsorted⟩ := hc.recycle_spec htable
  have hres : c.destroy s = { c with
      services := c.services.erase s
      clusterGuid := Function.update c.clusterGuid s .empty
      table := Function.update c.table (c.clusterGuid s).low.toNat none
      current := current
      recycled := recycled } := by
    have hcurrent := congrArg GuidContext.current heq
    have hrecycled := congrArg GuidContext.recycled heq
    simp only [recycleGuid, recycle] at hcurrent hrecycled
    simp only [GuidContext.destroy, hm, Bool.false_eq_true, if_false, hhead, recycleGuid, recycle,
      hcurrent, hrecycled]
  rw [hres]
  refine ⟨hc.tree.erase hr hchild, ?_, hlt, hcur, hrec, hnodup, hsorted, ?_, ?_, ?_, ?_⟩
  · intro l t
    simp only [hmem]
    constructor
    · intro h
      have hl : l ≠ (c.clusterGuid s).low.toNat := by
        rintro rfl
        simp at h
      rw [Function.update_of_ne hl] at h
      obtain ⟨ht, htm, htl⟩ := (hc.table_iff l t).1 h
      have hts : t ≠ s := fun heq => hl (heq ▸ htl.symm)
      exact ⟨⟨hts, ht⟩, htm, by rw [hguid t hts]; exact htl⟩
    · -- the entry that is taken out was that of the head itself
      rintro ⟨⟨hts, ht⟩, htm, htl⟩
      rw [hguid t hts] at htl
      have hsome := (hc.table_iff l t).2 ⟨ht, htm, htl⟩
      have hl : l ≠ (c.clusterGuid s).low.toNat := by
        intro heq
        rw [heq, htable] at hsome
        exact hts (Option.some.inj hsome).symm
      rw [Function.update_of_ne hl]
      exact hsome
  · exact fun t ht => hc.high_head t ((hmem t).1 ht).2
  · intro t ht htm
    simp only [hguid _ (hother t ht)]
    exact hc.high_member t ((hmem t).1 ht).2 htm
  · exact fun t ht u hu => hc.high_inj t ((hmem t).1 ht).2 u ((hmem u).1 hu).2
  · simp only [hguid _ (Ne.symm hr)]
    exact hc.root_low

/-! ### Every order -/

theorem Numbered.exec {op : GuidOp} (hc : c.Numbered) (hpre : op.Pre c) (hrange : c.InRange op) :
    (op.exec c).Numbered := by
  cases op with
  | init s =>
    simp only [InRange] at hrange
    simp only [GuidOp.exec, GuidContext.init]
    split
    · rename_i hm
      rw [if_pos hm] at hrange
      exact hc.initMember hpre hm hrange
    · rename_i hm
      rw [if_neg hm] at hrange
      exact hc.initHead hpre (by simpa using hm) hrange
  | destroy s =>
    by_cases hm : c.layout.isMember s = true
    · have := hc.destroyMember hpre hm
      simpa [GuidOp.exec, GuidContext.destroy, hm] using this
    · exact hc.destroyHead hpre (by simpa using hm)

/-- A counter that runs over gives a guid away twice. -/
lemma Numbered.not_unique {op : GuidOp} (hc : c.Numbered) (hpre : op.Pre c)
    (hrange : ¬ c.InRange op) : ¬ (op.exec c).Unique := by
  intro hu
  cases op with
  | destroy s => exact hrange trivial
  | init s =>
    obtain ⟨hs, ho, -⟩ := hpre
    simp only [InRange] at hrange
    simp only [GuidOp.exec, GuidContext.init] at hu
    split at hrange
    · rename_i hm
      rw [if_pos hm] at hu
      have hover := not_not.1 hrange
      obtain ⟨hh, hhm⟩ := hc.cluster_isHead ho
      have hhh := hc.tree.cluster_cluster ho
      -- the new member gets the guid of its head
      have := hu.distinct s (by simp [GuidContext.initMember])
        (c.cluster (c.layout.parent s).owner) (by simp [GuidContext.initMember, hh]) ?_
      · exact hs (this ▸ hh)
      · have hne : c.cluster (c.layout.parent s).owner ≠ s := fun heq => hs (heq ▸ hh)
        rw [guid_eq_iff]
        simp [GuidContext.initMember, Function.update_of_ne hne, hhh, Guid.nextChild, Guid.ofLow,
          hover, hc.high_head _ hh hhm]
    · rename_i hm
      rw [if_neg hm] at hu
      push Not at hrange
      obtain ⟨hnil, hge⟩ := hrange
      have hcur : c.current = 2 ^ 40 := le_antisymm hc.current_le hge
      have hne : c.layout.root ≠ s := fun heq => hs (heq ▸ hc.tree.root_mem)
      -- the new cluster gets the guid of the root
      have := hu.distinct s (by simp [GuidContext.initHead])
        c.layout.root (by simp [GuidContext.initHead, hc.tree.root_mem]) ?_
      · exact hne this.symm
      · have hroot : c.cluster c.layout.root = c.layout.root := hc.tree.cluster_root
        rw [guid_eq_iff]
        simp [GuidContext.initHead, allocateGuid, allocate, hnil, hcur, Function.update_of_ne hne,
          hroot, Guid.ofLow, hc.root_low, hc.high_head _ hc.tree.root_mem (by simp)]

end GuidContext

open GuidContext

/-- As long as no counter runs over, a guid names one service; a counter that runs over breaks
this at once. -/
theorem guids_unique {L : Layout} {c : GuidContext}
    (h : (guids L).Reachable GuidContext.InRange c) :
    c.Unique ∧ ∀ op : GuidOp, op.Pre c → ((op.exec c).Unique ↔ c.InRange op) := by
  have hc : c.Numbered := h.invariant (fun c h => by rw [h]; exact .initial L)
    fun c op _ hc hpre hrange => hc.exec hpre hrange
  refine ⟨hc.unique, fun op hpre => ⟨fun hu => ?_, fun hrange => (hc.exec hpre hrange).unique⟩⟩
  by_contra hrange
  exact hc.not_unique hpre hrange hu

/-! ### A counter that runs over -/

namespace Layout

/-- Service 1 is a child of the root, all others are members of its cluster. -/
def oneCluster : Layout := small fun s => if s = 1 then exportOf 0 else importOf 1

end Layout

/-- A member comes and goes. -/
def memberRound : List GuidOp := [.init 2, .destroy 2]

/-- A long-lived cluster in which members come and go. -/
def longRun (n : Nat) : List GuidOp := .init 1 :: (List.replicate n memberRound).flatten

/-- What is left after some rounds. -/
structure AfterRounds (n : Nat) (c : GuidContext) : Prop where
  layout : c.layout = .oneCluster
  services : c.services = [0, 1]
  cluster : c.cluster 1 = 1
  high : (c.clusterGuid 1).high = BitVec.ofNat 16 n
  head : c.highGuid 1 = 0

lemma AfterRounds.succ {n : Nat} {c : GuidContext} (h : AfterRounds n c) :
    (guids .oneCluster).Admissible (fun _ _ => True) c memberRound ∧
      AfterRounds (n + 1) (memberRound.foldl GuidOp.exec c) := by
  have hparent : c.layout.parent 2 = Layout.importOf 1 := by rw [h.layout]; rfl
  have hmember : c.layout.isMember 2 = true := by rw [h.layout]; rfl
  have howner : (c.layout.parent 2).owner = 1 := by rw [hparent]; rfl
  have hparts : c.layout.parent 2 ∈ c.layout.parts (c.layout.parent 2).owner := by
    rw [h.layout]
    decide
  have hroot : c.layout.root = 0 := by rw [h.layout]; rfl
  have hchild : ∀ t ∈ [0, 1, 2], t ≠ c.layout.root → (c.layout.parent t).owner ≠ 2 := by
    rw [h.layout]
    decide
  have hinit : c.init 2 = c.initMember 2 := by simp [GuidContext.init, hmember]
  have hservices : (c.init 2).services = [0, 1, 2] := by simp [hinit, initMember, h.services]
  have hlayout : (c.init 2).layout = c.layout := by simp [hinit, initMember]
  have hdestroy : (c.init 2).destroy 2 = { c.init 2 with services := [0, 1] } := by
    simp [GuidContext.destroy, hlayout, hmember, hservices]
  refine ⟨⟨⟨by simp [h.services], by simp [howner, h.services], hparts⟩, trivial,
    ⟨?_, ?_, ?_⟩, trivial, trivial⟩, ?_⟩
  · change 2 ∈ (c.init 2).services
    simp [hservices]
  · change 2 ≠ (c.init 2).layout.root
    rw [hlayout, hroot]
    decide
  · change ∀ t ∈ (c.init 2).services, t ≠ (c.init 2).layout.root →
      ((c.init 2).layout.parent t).owner ≠ 2
    rw [hservices, hlayout]
    exact hchild
  · change AfterRounds (n + 1) ((c.init 2).destroy 2)
    rw [hdestroy]
    refine ⟨hlayout.trans h.layout, rfl, ?_, ?_, ?_⟩
    · simp [hinit, initMember, h.cluster]
    · simp [hinit, initMember, howner, h.cluster, Guid.nextChild, Guid.ofLow, h.high,
        BitVec.ofNat_add]
    · simp [hinit, initMember, h.head]

lemma afterRounds_replicate (n m : Nat) {c : GuidContext} (h : AfterRounds m c) :
    (guids .oneCluster).Admissible (fun _ _ => True) c (List.replicate n memberRound).flatten ∧
      AfterRounds (m + n) ((List.replicate n memberRound).flatten.foldl GuidOp.exec c) := by
  induction n generalizing m c with
  | zero => exact ⟨trivial, h⟩
  | succ n ih =>
    obtain ⟨hadm, hnext⟩ := h.succ
    obtain ⟨hadm', hlast⟩ := ih (m + 1) hnext
    rw [List.replicate_succ, List.flatten_cons, List.foldl_append]
    exact ⟨⟨hadm.1, hadm.2.1, hadm.2.2.1, hadm.2.2.2.1, hadm'⟩, by
      rw [show m + (n + 1) = m + 1 + n by omega]; exact hlast⟩

lemma afterRounds_longRun (n : Nat) :
    (guids .oneCluster).Admissible (fun _ _ => True) (.initial .oneCluster) (longRun n) ∧
      AfterRounds n ((longRun n).foldl GuidOp.exec (.initial .oneCluster)) := by
  have h : AfterRounds 0 (GuidOp.exec (.initial .oneCluster) (.init 1)) :=
    ⟨rfl, rfl, rfl, rfl, rfl⟩
  obtain ⟨hadm, hlast⟩ := afterRounds_replicate n 0 h
  rw [Nat.zero_add] at hlast
  refine ⟨⟨⟨?_, ?_, ?_⟩, trivial, hadm⟩, hlast⟩
  · decide
  · decide
  · decide

/-- When the counter is about to run over, the next member gets the guid of its head. -/
lemma longRun_guid_eq (n : Nat) (hn : BitVec.ofNat 16 n + 1 = 0) :
    ∃ c, c = (longRun n ++ [GuidOp.init 2]).foldl GuidOp.exec (.initial .oneCluster) ∧
      (guids .oneCluster).Reachable (fun _ _ => True) c ∧ 1 ∈ c.services ∧ 2 ∈ c.services ∧
      c.guid 2 = c.guid 1 ∧ ¬ c.Unique := by
  obtain ⟨hadm, h⟩ := afterRounds_longRun n
  have hreach : (guids .oneCluster).Reachable (fun _ _ => True)
      ((longRun n).foldl GuidOp.exec (.initial .oneCluster)) :=
    Machine.Reachable.run (Machine.Reachable.init rfl) hadm
  rw [List.foldl_append]
  generalize (longRun n).foldl GuidOp.exec (.initial .oneCluster) = c at *
  have hpre : GuidOp.Pre c (.init 2) := h.succ.1.1
  have howner : (c.layout.parent 2).owner = 1 := by rw [h.layout]; rfl
  have hmember : c.layout.isMember 2 = true := by rw [h.layout]; rfl
  have hinit : c.init 2 = c.initMember 2 := by simp [GuidContext.init, hmember]
  have hguid : (c.init 2).guid 2 = (c.init 2).guid 1 := by
    rw [guid_eq_iff]
    simp [hinit, initMember, howner, h.cluster, h.head, Guid.nextChild, Guid.ofLow, h.high]
    exact hn
  have h1 : 1 ∈ (c.init 2).services := by simp [hinit, initMember, h.services]
  have h2 : 2 ∈ (c.init 2).services := by simp [hinit, initMember, h.services]
  refine ⟨c.init 2, rfl, hreach.step (a := GuidOp.init 2) hpre trivial, h1, h2, hguid,
    fun hu => ?_⟩
  exact absurd (hu.distinct 2 h2 1 h1 hguid) (by decide)

/-- After 65535 members have come and gone, the next one gets the guid of its head. -/
theorem longRun_repeats_guid :
    ∃ c, c = (longRun 65535 ++ [GuidOp.init 2]).foldl GuidOp.exec (.initial .oneCluster) ∧
      (guids .oneCluster).Reachable (fun _ _ => True) c ∧ 1 ∈ c.services ∧ 2 ∈ c.services ∧
      c.guid 2 = c.guid 1 ∧ ¬ c.Unique :=
  longRun_guid_eq 65535 (by decide)

/-- A run that stays in range. -/
theorem guids_unique_longRun :
    ∃ c, c = (longRun 1 ++ [GuidOp.init 2]).foldl GuidOp.exec (.initial .oneCluster) ∧
      (guids .oneCluster).Reachable GuidContext.InRange c ∧ c.Unique ∧
      c.lookup (c.guid 2) = some 2 := by
  have hreach : (guids .oneCluster).Reachable GuidContext.InRange
      ((longRun 1 ++ [GuidOp.init 2]).foldl GuidOp.exec (.initial .oneCluster)) := by
    refine Machine.Reachable.run (Machine.Reachable.init rfl) ?_
    refine ⟨?_, ?_, ?_, ?_, ?_, ?_, ?_, ?_, trivial⟩
    · exact ⟨by decide, by decide, by decide⟩
    · exact .inr (by decide)
    · exact ⟨by decide, by decide, by decide⟩
    · change ¬ _
      decide
    · exact ⟨by decide, by decide, by decide⟩
    · trivial
    · exact ⟨by decide, by decide, by decide⟩
    · change ¬ _
      decide
  obtain ⟨hu, -⟩ := guids_unique hreach
  exact ⟨_, rfl, hreach, hu, hu.lookup_guid 2 (by decide)⟩

end Idle
