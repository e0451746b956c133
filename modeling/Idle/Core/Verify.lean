import Idle.Core.Needed
import Idle.Core.Queue
import Idle.Core.StopRequests

/-!
# `Context::verify`

The check that the core has of itself recounts the pushes of every cluster. As long as usages go to
heads of clusters and close no cycle it never fails, however services are started and stopped in
the meantime, and exactly those clusters are pushed on which an overridden one depends.
-/

namespace Idle

open Relation

namespace State

/-- `ServiceImpl::verifyCluster` of the head of a cluster. -/
def verifyCluster (st : State) (head : ServiceId) : Bool :=
  (st.pushes head).toNat == (if st.override (st.cluster head) = .start then 1 else 0) +
    (st.clusterOutEdges head).countP fun e => st.isClusterPushed (st.clusterTarget e)

/-- `Context::verify` -/
def verify (st : State) : Bool := st.clusters.all st.verifyCluster

end State

namespace Topology

variable {t : Topology} {s : ServiceId} {u : Usage} {e : Edge}

/-- The usages go to heads of clusters, and no cluster depends on itself. -/
structure Layered (t : Topology) : Prop extends t.WellFormed where
  used_heads : ∀ u ∈ t.usages, t.layout.isClusterHead u.used.owner = true
  acyclic : ∀ c, ¬ TransGen t.Leads c c

lemma Layered.initial (L : Layout) : (State.initial L).Layered where
  toWellFormed := .initial L
  used_heads u hu := absurd hu List.not_mem_nil
  acyclic c hc := by
    obtain ⟨-, ⟨e, he, -⟩, -⟩ := TransGen.head'_iff.1 hc
    have hnil : (State.initial L).edges = [] := by
      simp [State.initial, Topology.edges, Topology.childHeads]
    rw [hnil] at he
    exact List.not_mem_nil he

/-- The parent of a service is not below it, nor is it an import of the root. -/
lemma WellFormed.clusterTarget_ne_root (ht : t.WellFormed) (he : e ∈ t.edges) :
    t.clusterTarget e ≠ t.layout.root := by
  intro hroot
  have hown := (ht.cluster_eq_root (ht.target_mem he)).1 hroot
  cases e with
  | inner s => exact not_mem_edges_inner he
  | child s => exact (mem_edges_child.1 he).2.2 hown
  | usage u =>
    have himp := ht.user_imports u (mem_edges_usage.1 he)
    have hown : u.user.owner = t.layout.root := hown
    rw [hown, t.layout.imports_root] at himp
    exact List.not_mem_nil himp

lemma Layered.connect (ht : t.Layered) (hid : ∀ v ∈ t.usages, v.id ≠ u.id)
    (hused : u.used.owner ∈ t.services) (hexports : u.used ∈ t.layout.exports u.used.owner)
    (huser : u.user.owner ∈ t.services) (himports : u.user ∈ t.layout.imports u.user.owner)
    (hdiff : t.cluster u.used.owner ≠ t.cluster u.user.owner)
    (hhead : t.layout.isClusterHead u.used.owner = true)
    (hno : ¬ ReflTransGen t.Leads (t.cluster u.user.owner) (t.cluster u.used.owner)) :
    (t.connect u).Layered where
  toWellFormed := ht.toWellFormed.connect hid hused hexports huser himports hdiff
  used_heads v hv := by
    rcases List.mem_append.1 hv with hv | hv
    · exact ht.used_heads v hv
    · rwa [List.mem_singleton.1 hv]
  acyclic := by
    refine TransGen.not_cycle_of_edge (fun x y h => ?_) ht.acyclic hno
    obtain ⟨e, he, hsrc, htgt⟩ := h
    rw [connect_edges] at he
    rcases List.mem_append.1 he with he | he
    · exact .inl ⟨e, he, hsrc, htgt⟩
    · rw [List.mem_singleton.1 he] at hsrc htgt
      exact .inr ⟨hsrc.symm, htgt.symm⟩

/-- A topology with fewer edges between the same clusters. -/
lemma acyclic_of_subset {t' : Topology} (h : ∀ c, ¬ TransGen t.Leads c c)
    (hedges : ∀ x y, t'.Leads x y → t.Leads x y) (c : ServiceId) : ¬ TransGen t'.Leads c c :=
  fun hc => h c (TransGen.mono hedges _ _ hc)

lemma Layered.disconnect (ht : t.Layered) (hu : u ∈ t.usages) : (t.disconnect u).Layered where
  toWellFormed := ht.toWellFormed.disconnect u
  used_heads v hv := ht.used_heads v (List.mem_of_mem_erase hv)
  acyclic := by
    apply acyclic_of_subset ht.acyclic
    rintro x y ⟨e, he, hsrc, htgt⟩
    exact ⟨e, (disconnect_edges hu).mem_iff.2 (List.mem_cons_of_mem _ he), hsrc, htgt⟩

/-- Nothing depends on a cluster that no edge starts at. -/
lemma not_leads_of_leaf {a b : ServiceId} (hleaf : ∀ e ∈ t.edges, t.clusterSource e ≠ a)
    (hne : a ≠ b) : ¬ ReflTransGen t.Leads a b := by
  intro hpath
  rcases hpath.cases_head with heq | ⟨y, ⟨e, he, hsrc, -⟩, -⟩
  · exact hne heq
  · exact hleaf e he hsrc

lemma Layered.insert (ht : t.Layered) (hs : s ∉ t.services)
    (ho : (t.layout.parent s).owner ∈ t.services)
    (hp : t.layout.parent s ∈ t.layout.parts (t.layout.parent s).owner) :
    (t.insert s).Layered where
  toWellFormed := ht.toWellFormed.insert hs ho hp
  used_heads := ht.used_heads
  acyclic := by
    -- nothing depends on a new cluster yet
    have hleaf : ¬ ReflTransGen t.Leads s (t.cluster (t.layout.parent s).owner) :=
      not_leads_of_leaf (fun e he hsrc => hs (hsrc ▸ (ht.cluster_mem (ht.source_mem he)).1))
        fun heq => hs (heq ▸ (ht.cluster_mem ho).1)
    refine TransGen.not_cycle_of_edge (fun x y h => ?_) ht.acyclic hleaf
    obtain ⟨e, he, hsrc, htgt⟩ := h
    rcases List.mem_append.1 ((insert_edges t s).mem_iff.1 he) with he | he
    · obtain ⟨rfl, hh, -⟩ := mem_ownEdge.1 he
      have hm : t.layout.isMember s = false := by
        simpa [Layout.isMember, Layout.isClusterHead] using hh
      have hos : (t.layout.parent s).owner ≠ s := fun h => hs (h ▸ ho)
      have hsrc' : (t.insert s).clusterSource (.child s) =
          t.cluster (t.layout.parent s).owner := Function.update_of_ne hos _ _
      have htgt' : (t.insert s).clusterTarget (.child s) = s := by
        simp [clusterTarget, Topology.insert, Edge.target, hm]
      exact .inr ⟨hsrc.symm.trans hsrc', htgt.symm.trans htgt'⟩
    · rw [ht.insert_clusterSource hs he] at hsrc
      rw [ht.insert_clusterTarget hs he] at htgt
      exact .inl ⟨e, he, hsrc, htgt⟩

lemma Layered.erase (ht : t.Layered) (hs : s ∈ t.services) (hr : s ≠ t.layout.root)
    (hchild : ∀ v ∈ t.services, v ≠ t.layout.root → (t.layout.parent v).owner ≠ s)
    (husages : ∀ u ∈ t.usages, u.used.owner ≠ s ∧ u.user.owner ≠ s) : (t.erase s).Layered where
  toWellFormed := ht.toWellFormed.erase hr hchild husages
  used_heads := ht.used_heads
  acyclic := by
    apply acyclic_of_subset ht.acyclic
    rintro x y ⟨e, he, hsrc, htgt⟩
    exact ⟨e, (erase_edges hs).mem_iff.2 (List.mem_append_right _ he), hsrc, htgt⟩

end Topology

namespace State

variable {st st' : State} {s h me : ServiceId} {u : Usage} {t : Topology} {small : Prop}

/-! ### What is counted while services are reported -/

/-- The push counters are exact for the edges of a topology. -/
def CountedOn (t : Topology) (st : State) : Prop :=
  ∀ v, st.pushCount v = overridden st.override v + pushedEdges t st.pushCount v

/-- No edge ends at the root, so its counter is not counted anywhere. -/
lemma CountedOn.wakes (hc : CountedOn t st) (hw : Wakes st st')
    (hroot : ∀ e ∈ t.edges, t.clusterTarget e ≠ st.layout.root)
    (hroom : outDegree t st.layout.root + 1 < 2 ^ 16) : CountedOn t st' := by
  intro v
  rcases hw.pushed with ⟨ho, hp⟩ | ⟨hne, ho, hp⟩
  · have hcnt : st'.pushCount = st.pushCount := funext fun v => by rw [pushCount, hp]; rfl
    rw [hcnt, ho]
    exact hc v
  · have hfits : st.pushCount st.layout.root + 1 < 2 ^ 16 := by
      have hle : pushedEdges t st.pushCount st.layout.root ≤ outDegree t st.layout.root := by
        rw [← pushedEdges_add_unpushed]
        exact Nat.le_add_right _ _
      have hroot := hc st.layout.root
      rw [overridden, if_neg hne] at hroot
      omega
    have hcnt : ∀ w, st'.pushCount w = st.pushCount w + if w = st.layout.root then 1 else 0 := by
      intro w
      rw [pushCount, hp]
      by_cases hw : w = st.layout.root
      · subst hw
        rw [Function.update_self, if_pos rfl, UInt16.toNat_add]
        exact Nat.mod_eq_of_lt hfits
      · rw [Function.update_of_ne hw, if_neg hw]
        rfl
    have hedges : pushedEdges t st'.pushCount v = pushedEdges t st.pushCount v := by
      apply List.countP_congr
      intro e he
      rw [hcnt, if_neg (hroot e he)]
      rfl
    rw [hcnt, ho, hedges, hc v, overridden_update_start hne]
    omega

/-- What every handler keeps. -/
structure PushesKept (st : State) : Prop where
  layered : st.Layered
  counted : st.PushesCounted

namespace PushesKept

lemma initial (L : Layout) : (State.initial L).PushesKept := ⟨.initial L, pushesCounted_initial L⟩

lemma wakes (hk : st.PushesKept) (hw : Wakes st st') : st'.PushesKept := by
  have hcounted : CountedOn st.toTopology st' := by
    apply CountedOn.wakes hk.counted.counted hw
    · exact fun e he => hk.layered.clusterTarget_ne_root he
    · exact hk.counted.bounded _
  have htop := hw.topology
  refine ⟨htop ▸ hk.layered, ?_, ?_⟩
  · rw [htop]
    exact hcounted
  · rw [htop]
    exact hk.counted.bounded

lemma setOverride (hk : st.PushesKept) (hs : s ∈ st.services)
    (hh : st.layout.isClusterHead s = true) (mode : Override) :
    (st.setOverride s mode).PushesKept := by
  obtain ⟨o, hchecks⟩ := setOverride_checks st s mode
  have htop : (st.setOverride s mode).toTopology = st.toTopology := hchecks.topology
  exact ⟨htop ▸ hk.layered, hk.counted.setOverride hk.layered.toWellFormed hs hh mode⟩

/-- The using cluster does not depend on the used one, so it is supported without it. -/
lemma supported (hk : st.PushesKept) (hu : u ∈ st.usages)
    (hpushed : st.pushCount (st.cluster u.user.owner) ≠ 0) : st.Supported u := by
  classical
  have ht := hk.layered
  have hmem := (ht.cluster_mem (ht.user_mem u hu)).1
  refine ⟨st.services.filter fun v => st.pushCount v ≠ 0 ∧
    ReflTransGen st.Leads (st.cluster u.user.owner) v, ?_, ?_, ?_⟩
  · simpa using ⟨hmem, hpushed, ReflTransGen.refl⟩
  · intro hused
    obtain ⟨-, hpath⟩ := (decide_eq_true_iff.1 (List.mem_filter.1 hused).2 :)
    have hedge : st.Leads (st.cluster u.used.owner) (st.cluster u.user.owner) :=
      ⟨.usage u, Topology.mem_edges_usage.2 hu, rfl, rfl⟩
    exact ht.acyclic _ (.head' hedge hpath)
  · intro v hv
    obtain ⟨hv, hpath⟩ := (decide_eq_true_iff.1 (List.mem_filter.1 hv).2 :)
    refine ⟨fun h0 => hv (pushCount_eq_zero.2 h0), ?_⟩
    apply (hk.counted.cases hv).imp_right
    rintro ⟨w, ⟨e, he, rfl, rfl⟩, hw⟩
    have hmem := (ht.cluster_mem (ht.target_mem he)).1
    exact ⟨e, he, rfl, by simpa using ⟨hmem, hw, hpath.tail ⟨e, he, rfl, rfl⟩⟩⟩

lemma keepsPushes_disconnect (hk : st.PushesKept) (hu : u ∈ st.usages) :
    (WireOp.disconnect u).KeepsPushes st := by
  by_cases hpushed : st.pushes (st.cluster u.user.owner) = 0
  · exact .inl hpushed
  · have hpushed := fun h0 => hpushed (pushCount_eq_zero.1 h0)
    exact .inr (.inr ⟨hk.layered.used_heads u hu, hk.supported hu hpushed⟩)

/-- The search leaves the counters exact for the edges without the usage. -/
lemma disconnect_counted (hk : st.PushesKept) (hu : u ∈ st.usages) :
    CountedOn (st.toTopology.disconnect u) (if st.isClusterPushed u.user.owner then
      st.callOnClusterPushesDecrement u.used.owner (some u.user.owner) else st) := by
  intro v
  by_cases hpushed : st.pushCount (st.cluster u.user.owner) = 0
  · have hoff : st.isClusterPushed u.user.owner ≠ true := by
      rwa [Ne, isClusterPushed_iff, not_not]
    have hcount := hk.counted.counted v
    rw [pushedEdges_disconnect hu, if_neg (fun h => h.2 hpushed)] at hcount
    rwa [if_neg hoff]
  · have hcount := (hk.counted.disconnect_search hk.layered.toWellFormed hu
      (hk.keepsPushes_disconnect hu) hpushed rfl rfl).2.2.2 v
    obtain ⟨p, d, hframe⟩ :=
      callOnClusterPushesDecrement_frame st u.used.owner (some u.user.owner)
    have hover : (st.callOnClusterPushesDecrement u.used.owner (some u.user.owner)).override =
        st.override := by rw [hframe]
    rwa [if_pos (isClusterPushed_iff.2 hpushed), hover]

lemma outDegree_disconnect_le (hu : u ∈ t.usages) (v : ServiceId) :
    outDegree (t.disconnect u) v ≤ outDegree t v := by
  rw [outDegree_eq, outDegree_eq, pushedEdges_disconnect hu]
  exact Nat.le_add_right _ _

lemma disconnect (hk : st.PushesKept) (hu : u ∈ st.usages) :
    (st.disconnect onServiceStartable u).PushesKept := by
  have htop := disconnect_topology hk.layered.toIsTree u
  have hlayered := hk.layered.disconnect hu
  suffices hcounted : CountedOn (st.toTopology.disconnect u)
      (st.disconnect onServiceStartable u) by
    refine ⟨htop ▸ hlayered, ?_, fun v => ?_⟩
    · rw [htop]
      exact hcounted
    · rw [htop]
      exact lt_of_le_of_lt (Nat.succ_le_succ (outDegree_disconnect_le hu v))
        (hk.counted.bounded v)
  -- the pulls are counted first
  have hpull : Wakes st (if st.isClusterMarkedForStop u.used.owner = true then
      st.onClusterPullsDecrement onServiceStartable (st.cluster u.user.owner) else st) :=
    .ite (onClusterPullsDecrement_wakes onServiceStartable_wakes hk.layered.toIsTree _)
  unfold State.disconnect onUsageDisconnect
  simp only
  generalize (if st.isClusterMarkedForStop u.used.owner = true then
    st.onClusterPullsDecrement onServiceStartable (st.cluster u.user.owner) else st) = st₁ at hpull
  have hk₁ := hk.wakes hpull
  have htop₁ := hpull.topology
  have hu₁ : u ∈ st₁.usages := by rwa [htop₁]
  have hsearch := hk₁.disconnect_counted hu₁
  have htop₂ : (if st₁.isClusterPushed u.user.owner = true then
      st₁.callOnClusterPushesDecrement u.used.owner (some u.user.owner) else st₁).toTopology =
        st.toTopology := by
    split
    · rw [callOnClusterPushesDecrement_topology, htop₁]
    · exact htop₁
  rw [htop₁] at hsearch
  generalize (if st₁.isClusterPushed u.user.owner = true then
    st₁.callOnClusterPushesDecrement u.used.owner (some u.user.owner) else st₁) = st₂
    at hsearch htop₂
  have ht₂ : st₂.IsTree := htop₂ ▸ hk.layered.toIsTree
  -- what is reported after that does not change what is counted
  have houter : Wakes st₂ (if (!(st₂.phase u.used.owner).isRunning && !u.weak) = true then
      st₂.onOuterRequiredDecrement onServiceStartable u.user.owner else st₂) :=
    .ite (onOuterRequiredDecrement_wakes onServiceStartable_wakes ht₂ _)
  generalize (if (!(st₂.phase u.used.owner).isRunning && !u.weak) = true then
    st₂.onOuterRequiredDecrement onServiceStartable u.user.owner else st₂) = st₃ at houter
  have huse : Wakes st₂ (if ((st₃.phase u.used.owner).isRunning &&
      (st₃.phase u.user.owner).isLocked) = true then st₃.onOutgoingDecrement u.used.owner
      else st₃) :=
    houter.trans (.ite (onOutgoingDecrement_drops st₃ u.used.owner).wakes)
  generalize (if ((st₃.phase u.used.owner).isRunning &&
    (st₃.phase u.user.owner).isLocked) = true then st₃.onOutgoingDecrement u.used.owner
    else st₃) = st₄ at huse
  have hroot : st₂.layout.root = st.layout.root := by rw [htop₂]
  change CountedOn _ st₄
  refine hsearch.wakes huse (fun e he => ?_) ?_
  · rw [hroot]
    exact hlayered.clusterTarget_ne_root he
  · exact lt_of_le_of_lt (Nat.succ_le_succ (outDegree_disconnect_le hu _))
      (hk.counted.bounded _)

lemma stopKept : StopKept PushesKept where
  wf hk := hk.layered.toWellFormed
  frame hk hv := hk.wakes (.of_eq (congrArg EdgeView.toTopology hv)
    (congrArg EdgeView.override hv) (congrArg EdgeView.pushes hv))
  override hk hs hh := hk.setOverride hs hh .none
  mark hk _ _ :=
    hk.wakes (doMarkClusterForStop_wakes onServiceStartable_wakes hk.layered.toIsTree _ true)
  disconnect hk hu := hk.disconnect hu

/-! ### Services and usages come and go -/

lemma connect (hk : st.PushesKept) (hu : st.CanConnect u)
    (hhead : st.layout.isClusterHead u.used.owner = true)
    (hno : ¬ ReflTransGen st.Leads (st.cluster u.user.owner) (st.cluster u.used.owner))
    (hroom : outDegree st.toTopology (st.cluster u.used.owner) + 2 < 2 ^ 16) :
    (st.connect u).PushesKept := by
  obtain ⟨st₁, -, -, hwires⟩ := connect_wires st u
  have htop : (st.connect u).toTopology = st.toTopology.connect u :=
    congrArg Wires.toTopology hwires
  have hcounted := hk.counted.connect hk.layered.toWellFormed hu ⟨.inl hhead, hroom⟩
  obtain ⟨hid, hused, hexports, huser, himports, hdiff⟩ := hu
  exact ⟨htop ▸ hk.layered.connect hid hused hexports huser himports hdiff hhead hno, hcounted⟩

lemma init (hk : st.PushesKept) (hs : st.CanInit s) (hnew : s ∉ st.services)
    (hroom : (WireOp.init s).KeepsPushes st) : (st.init s).PushesKept := by
  have htop : (st.init s).toTopology = st.toTopology.insert s :=
    congrArg Wires.toTopology (init_wires st s)
  have hlayered := hk.layered.insert hnew hs.2.1 hs.2.2.1
  exact ⟨htop ▸ hlayered, hk.counted.init hk.layered.toWellFormed hs hnew hroom⟩

/-- `on_service_del` up to what is missing without the service: the head of a cluster is not
overridden any more. -/
lemma deleting (hk : st.PushesKept) (hs : st.CanDestroy s) :
    (st.deleting onServiceStartable s).PushesKept ∧
      (st.deleting onServiceStartable s).toTopology = st.toTopology ∧
      (st.layout.isClusterHead s = true →
        (st.deleting onServiceStartable s).override s = .none) := by
  rw [deleting_eq onServiceStartable hk.layered.toWellFormed hs]
  split
  · rename_i hh
    have hset := hk.setOverride hs.1 hh .none
    have htop := setOverride_topology st s .none
    have hnone : (st.setOverride s .none).override s = .none := by
      have hover : (st.setOverride s .none).override = _ :=
        congrArg Wires.override (setOverride_wires st s .none)
      rw [hover, hk.layered.cluster_of_isClusterHead hs.1 hh]
      exact Function.update_self _ _ _
    generalize st.setOverride s .none = st₁ at hset htop hnone
    have hmark := doMarkClusterForStop_wakes onServiceStartable_wakes hset.layered.toIsTree s false
    refine ⟨hset.wakes hmark, hmark.topology.trans htop, fun _ => ?_⟩
    rw [(hmark.other (by rw [htop]; exact hs.2.1)).1, hnone]
  · rename_i hh
    exact ⟨hk, rfl, fun h => absurd h hh⟩

/-- A service without edges leaves whose cluster nothing pushes. -/
lemma erase (hk : st.PushesKept) (hs : st.CanDestroy s)
    (hnone : st.layout.isClusterHead s = true → st.override s = .none) :
    PushesKept { st with services := st.services.erase s } := by
  obtain ⟨hmem, hr, -, hchild, husages⟩ := hs
  have hzero : st.layout.isClusterHead s = true → st.pushCount s = 0 := by
    intro hh
    rw [hk.counted.counted s, overridden, hnone hh, if_neg (by decide), zero_add, pushedEdges,
      List.countP_eq_zero]
    intro e he
    simp [hk.layered.clusterSource_ne_of_unused hchild (fun u hu => (husages u hu).1) he]
  refine ⟨hk.layered.erase hmem hr hchild husages, fun v => ?_, fun v => ?_⟩
  · have hcount := hk.counted.counted v
    rw [← pushedEdges_erase hk.layered.toWellFormed hmem hzero] at hcount
    exact hcount
  · have hle := hk.counted.bounded v
    rw [outDegree, (Topology.erase_edges hmem).countP_eq, List.countP_append] at hle
    exact lt_of_le_of_lt (Nat.succ_le_succ (Nat.le_add_left _ _)) hle

lemma destroy (hk : st.PushesKept) (hs : st.CanDestroy s) :
    (st.destroy onServiceStartable s).PushesKept := by
  have htarget : Wakes st (if st.layout.isClusterHead s then st.transitionTargetSet s .none
      else st) := .ite (transitionTargetSet_wakes st s .none)
  have hphase : (if st.layout.isClusterHead s then st.transitionTargetSet s .none
      else st).phase = st.phase := by
    split
    · obtain ⟨t, p, c, heq⟩ := transitionTargetSet_frame st s .none
      rw [heq]
    · rfl
  unfold State.destroy
  simp only
  generalize (if st.layout.isClusterHead s then st.transitionTargetSet s .none else st) = st₁
    at htarget hphase
  have hs₁ : st₁.CanDestroy s := canDestroy_congr htarget.topology (congrFun hphase s) hs
  obtain ⟨hk₂, htop₂, hnone₂⟩ := (hk.wakes htarget).deleting hs₁
  rw [onServiceDel_eq]
  generalize st₁.deleting onServiceStartable s = st₂ at hk₂ htop₂ hnone₂
  have hreq := callOnRequiredDecrement_wakes onServiceStartable_wakes hk₂.layered.toIsTree s
  have hk₃ := hk₂.wakes hreq
  generalize st₂.callOnRequiredDecrement onServiceStartable s = st₃ at hreq hk₃
  have htop₃ : st₃.toTopology = st₁.toTopology := hreq.topology.trans htop₂
  have herase : PushesKept { st₃ with
      services := st₃.services.erase s, phase := st₁.phase } := by
    have hphased : PushesKept { st₃ with phase := st₁.phase } := hk₃.wakes (.of_eq rfl rfl rfl)
    refine hphased.erase (canDestroy_congr htop₃ rfl hs₁) fun hh => ?_
    have hr : s ≠ st₂.layout.root := by rw [htop₂]; exact hs₁.2.1
    have hover : st₃.override s = st₂.override s := (hreq.other hr).1
    exact hover.trans (hnone₂ (by rwa [← htop₃]))
  split
  · exact herase.wakes (.of_eq rfl rfl rfl)
  · exact herase.wakes (.of_eq rfl rfl rfl)

end PushesKept

end State

/-- Usages go to heads of clusters and close no cycle, no cluster gets more out edges than its
counter can hold, and only heads of clusters are stopped by the garbage collector. -/
def Op.KeepsOrder (st : State) : Op → Prop
  | .init s => st.layout.isClusterHead s = true →
      State.outDegree st.toTopology (st.cluster (st.layout.parent s).owner) + 2 < 2 ^ 16
  | .connect u => st.layout.isClusterHead u.used.owner = true ∧
      ¬ ReflTransGen st.Leads (st.cluster u.user.owner) (st.cluster u.used.owner) ∧
      State.outDegree st.toTopology (st.cluster u.used.owner) + 2 < 2 ^ 16
  | .immediateStop _ s => st.layout.isClusterHead s = true
  | _ => True

namespace State

variable {st : State}

lemma PushesKept.requestStart {s : ServiceId} {reason : Reason} {p : Promise} (hk : st.PushesKept)
    (hh : st.layout.isClusterHead s = true) : (st.requestStart s reason p).PushesKept := by
  have hreach : PushesKept { st with reached := st.reached ++ [p] } :=
    hk.wakes (.of_eq rfl rfl rfl)
  unfold State.requestStart
  simp only
  split
  · exact hreach.wakes (.of_eq rfl rfl rfl)
  · rename_i hs
    have hset : PushesKept (if reason = .manual then
        ({ st with reached := st.reached ++ [p] } : State).setOverride s .start
        else { st with reached := st.reached ++ [p] }) := by
      split
      · exact hreach.setOverride (not_not.1 hs) hh .start
      · exact hreach
    generalize (if reason = .manual then
      ({ st with reached := st.reached ++ [p] } : State).setOverride s .start
      else { st with reached := st.reached ++ [p] }) = st₁ at hset
    split
    · exact hset.wakes (.of_eq rfl rfl rfl)
    · have hstart := hset.wakes ((onServiceStartRequest_wakes st₁ s).trans
        (transitionTargetSet_wakes _ s .start))
      generalize (st₁.onServiceStartRequest s).transitionTargetSet s .start = st₂ at hstart
      exact hstart.wakes (.of_eq rfl rfl rfl)

/-- Every handler keeps the push counters exact. -/
theorem PushesKept.exec {op : Op} (hk : st.PushesKept) (hl : st.life.Sound False small [])
    (hp : op.Pre st) (hcond : op.KeepsOrder st) : (op.exec st).PushesKept := by
  have ht : st.IsTree := hk.layered.toIsTree
  cases op with
  | init s =>
    apply hk.init hp _ hcond
    intro hmem
    have hnext : (st.phase s).next?.isSome := (hl.good.initialized s).1 hmem
    rw [hp.1] at hnext
    exact absurd hnext (by decide)
  | destroy s => exact hk.destroy hp
  | connect use => exact hk.connect hp hcond.1 hcond.2.1 hcond.2.2
  | disconnect use => exact hk.disconnect hp
  | setSatisfied imp satisfied => exact hk.wakes (setSatisfied_wakes imp satisfied ht)
  | requestStart s reason promise => exact hk.requestStart hp.1
  | requestStop replies s promise => exact stopKept.requestStop hk hp.1 promise
  | requestObserve s promise =>
    unfold Op.exec requestObserve
    simp only
    split
    · exact hk.wakes (.of_eq rfl rfl rfl)
    · exact hk.wakes (.of_eq rfl rfl rfl)
  | immediateStop replies s => exact stopKept.immediateStop hk hp hcond
  | process ready => exact hk.wakes (process_wakes ready ht)
  | started s => exact hk.wakes (postStartActions_wakes onServiceStartable_wakes ht)
  | stopped s => exact hk.wakes (postStopActions_wakes ht)
  | posted work => exact hk.wakes (runPosted_wakes work ht)
  | run => exact hk.wakes (run_wakes ht)
  | tryUse s => exact hk.wakes (tryUse_wakes st s)
  | incUse s => exact hk.wakes (.of_eq rfl rfl rfl)
  | decUse s onEventLoop => exact hk.wakes (decUse_wakes st s onEventLoop)

lemma PushesKept.of_reachable {L : Layout} (h : (system L).Reachable Op.KeepsOrder st) :
    st.PushesKept := by
  refine h.invariant (fun _ h => h ▸ .initial L) fun st op hr hk hp hcond => ?_
  exact hk.exec (Reachable.sound (hr.mono fun _ _ _ => trivial)) hp hcond

lemma PushesKept.verify (hk : st.PushesKept) : st.verify = true := by
  have hexact := hk.counted.pushesExact hk.layered.toWellFormed
  rw [State.verify, List.all_eq_true]
  intro h hh
  obtain ⟨hmem, hhead⟩ := List.mem_filter.1 hh
  have hmem := (hk.layered.mem_transitiveServices).1 hmem
  have hcl := hk.layered.cluster_of_isClusterHead hmem hhead
  rw [verifyCluster, beq_iff_eq, hcl, hexact h hmem hhead]
  congr 1
  apply List.countP_congr
  intro e he
  have hedge := (List.mem_filter.1
    ((hk.layered.clusterOutEdges_perm hmem hcl).mem_iff.1 he)).1
  have hcc : st.cluster (st.clusterTarget e) = st.clusterTarget e :=
    hk.layered.cluster_cluster (hk.layered.target_mem hedge)
  rw [isClusterPushed, hcc]

end State

/-- `Context::verify` succeeds in every state of a run whose usages close no cycle, and a cluster is
pushed exactly if it is overridden for start or an overridden cluster depends on it. -/
theorem context_verified {L : Layout} {st : State} (h : (system L).Reachable Op.KeepsOrder st) :
    st.verify = true ∧
      ∀ s, st.isClusterPushed s = true ↔ st.Reaches st.override (st.cluster s) := by
  have hk := State.PushesKept.of_reachable h
  have hneeded := hk.counted.needed fun c hc => absurd hc (hk.layered.acyclic c)
  refine ⟨hk.verify, fun s => ?_⟩
  rw [State.isClusterPushed_iff]
  exact ⟨hneeded _, hk.counted.pos_of_reaches⟩

/-- Service 2 uses service 1 and is started with it; then the usage is disconnected. -/
def verifiedRun : List Op :=
  [.init 1, .init 2, .connect usage12, .requestStart 2 .manual ⟨0, .start⟩, .process true,
    .process true, .process true, .disconnect usage12]

theorem context_verified_verifiedRun :
    (State.after .flat (verifiedRun.take 7)).phase 1 = .running ∧
      (State.after .flat verifiedRun).phase 2 = .running ∧
      (State.after .flat verifiedRun).isClusterPushed 1 = false ∧
      (State.after .flat verifiedRun).verify = true := by
  refine ⟨by decide, by decide, by decide,
    (context_verified (L := .flat) (Machine.Reachable.run (.init rfl) ?_)).1⟩
  refine ⟨by decide, fun _ => by decide, by decide, fun _ => by decide, by decide,
    ⟨by decide, Topology.not_leads_of_leaf (by decide) (by decide), by decide⟩, ?_⟩
  exact ⟨by decide, trivial, by decide, trivial, by decide, trivial, by decide, trivial,
    by decide, trivial, trivial⟩

end Idle
