import Idle.Core.Wiring
import Idle.Core.Sample
import Idle.Library.Count

/-!
# Pull counters

`pulls_` of a cluster counts the edges from clusters that are marked for stop. Marking a cluster
adds its out edges, unmarking it subtracts those it has then. The counter is right as long as the
edges in between are compensated; initialising a child below a marked cluster is not.
-/

namespace Idle

namespace State

variable {st st' : State} {s h v : ServiceId} {u : Usage}

/-- The edges into a cluster whose source is marked for stop. -/
def pulledEdges (t : Topology) (mark : ServiceId → Bool) (h : ServiceId) : Nat :=
  t.edges.countP fun e => t.clusterTarget e = h ∧ mark (t.clusterSource e) = true

/-- The edges from one cluster to an other. -/
def edgesBetween (t : Topology) (s v : ServiceId) : Nat :=
  t.edges.countP fun e => t.clusterSource e = s ∧ t.clusterTarget e = v

lemma arrivals_clusterOutEdges (hc : st.WellFormed) (hs : s ∈ st.services) (hh : st.cluster s = s)
    (v : ServiceId) : st.arrivals (st.clusterOutEdges s) v = edgesBetween st.toTopology s v := by
  rw [arrivals, (hc.clusterOutEdges_perm hs hh).countP_eq, List.countP_filter]
  refine List.countP_congr fun e he => ?_
  have : st.cluster (st.clusterTarget e) = st.clusterTarget e :=
    hc.cluster_cluster (hc.target_mem he)
  rw [this]
  simp [Bool.and_comm]

/-! ### How the edges to be counted change -/

/-- One more cluster is marked. -/
lemma pulledEdges_mark {t : Topology} {mark : ServiceId → Bool} (hs : mark s = false)
    (v : ServiceId) : pulledEdges t (Function.update mark s true) v =
      pulledEdges t mark v + edgesBetween t s v := by
  refine List.countP_eq_add_of_disjoint (fun e _ => ?_) (fun e _ => ?_)
  · by_cases h : t.clusterSource e = s
    · simp [h, hs]
    · simp [h]
  · simp only [decide_eq_true_eq]
    rintro ⟨⟨-, hm⟩, h, -⟩
    rw [h, hs] at hm
    exact Bool.false_ne_true hm

lemma pulledEdges_connect (t : Topology) (mark : ServiceId → Bool) (u : Usage) (v : ServiceId) :
    pulledEdges (t.connect u) mark v = pulledEdges t mark v +
      if v = t.cluster u.user.owner ∧ mark (t.cluster u.used.owner) = true then 1 else 0 := by
  have hsrc : ∀ e, (t.connect u).clusterSource e = t.clusterSource e := fun _ => rfl
  have htgt : ∀ e, (t.connect u).clusterTarget e = t.clusterTarget e := fun _ => rfl
  simp only [pulledEdges, Topology.connect_edges, List.countP_append, hsrc, htgt,
    List.countP_singleton, decide_eq_true_eq]
  simp only [eq_comm]
  rfl

lemma pulledEdges_disconnect {t : Topology} (hu : u ∈ t.usages) (mark : ServiceId → Bool)
    (v : ServiceId) : pulledEdges t mark v = pulledEdges (t.disconnect u) mark v +
      if v = t.cluster u.user.owner ∧ mark (t.cluster u.used.owner) = true then 1 else 0 := by
  have hsrc : ∀ e, (t.disconnect u).clusterSource e = t.clusterSource e := fun _ => rfl
  have htgt : ∀ e, (t.disconnect u).clusterTarget e = t.clusterTarget e := fun _ => rfl
  simp only [pulledEdges, (Topology.disconnect_edges hu).countP_eq, List.countP_cons, hsrc, htgt,
    decide_eq_true_eq]
  simp only [eq_comm]
  rfl

lemma pulledEdges_insert {t : Topology} (ht : t.WellFormed) (hs : s ∉ t.services)
    (mark : ServiceId → Bool) (hv : v ≠ s) :
    pulledEdges (t.insert s) mark v = pulledEdges t mark v := by
  have hown : (t.ownEdge s).countP (fun e => (t.insert s).clusterTarget e = v ∧
      mark ((t.insert s).clusterSource e) = true) = 0 := by
    rw [List.countP_eq_zero]
    intro e he
    obtain ⟨rfl, hh, -⟩ := Topology.mem_ownEdge.1 he
    have hm : t.layout.isMember s = false := by
      simpa [Layout.isMember, Layout.isClusterHead] using hh
    have : (t.insert s).clusterTarget (.child s) = s := by
      simp [Topology.clusterTarget, Topology.insert, Edge.target, hm]
    simp [this, hv.symm]
  rw [pulledEdges, (Topology.insert_edges t s).countP_eq, List.countP_append, hown, zero_add]
  refine List.countP_congr fun e he => ?_
  rw [ht.insert_clusterSource hs he, ht.insert_clusterTarget hs he]

/-- Into a new cluster there is the edge from its parent only. -/
lemma pulledEdges_insert_self {t : Topology} (ht : t.WellFormed) (hs : s ∉ t.services)
    (mark : ServiceId → Bool) (hr : s ≠ t.layout.root) (hh : t.layout.isClusterHead s = true)
    (ho : (t.layout.parent s).owner ∈ t.services) :
    pulledEdges (t.insert s) mark s =
      if mark (t.cluster (t.layout.parent s).owner) = true then 1 else 0 := by
  have hold : t.edges.countP (fun e => (t.insert s).clusterTarget e = s ∧
      mark ((t.insert s).clusterSource e) = true) = 0 := by
    rw [List.countP_eq_zero]
    intro e he
    have : (t.insert s).clusterTarget e ≠ s := fun h => by
      rw [ht.insert_clusterTarget hs he] at h
      exact hs (h ▸ (ht.cluster_mem (ht.target_mem he)).1)
    simp [this]
  have hm : t.layout.isMember s = false := by
    simpa [Layout.isMember, Layout.isClusterHead] using hh
  have hos : (t.layout.parent s).owner ≠ s := fun h => hs (h ▸ ho)
  rw [pulledEdges, (Topology.insert_edges t s).countP_eq, List.countP_append, hold, add_zero]
  simp [Topology.ownEdge, hh, hr, Topology.clusterTarget, Topology.clusterSource, Topology.insert,
    Edge.target, Edge.source, hm, hos]

lemma pulledEdges_erase {t : Topology} (ht : t.WellFormed) (hs : s ∈ t.services)
    (mark : ServiceId → Bool) (hv : v ≠ s) :
    pulledEdges (t.erase s) mark v = pulledEdges t mark v := by
  have hown : (t.ownEdge s).countP (fun e => t.clusterTarget e = v ∧
      mark (t.clusterSource e) = true) = 0 := by
    rw [List.countP_eq_zero]
    intro e he
    obtain ⟨rfl, hh, -⟩ := Topology.mem_ownEdge.1 he
    have : t.clusterTarget (.child s) = s := ht.cluster_of_isClusterHead hs hh
    simp [this, hv.symm]
  have hsrc : ∀ e, (t.erase s).clusterSource e = t.clusterSource e := fun _ => rfl
  have htgt : ∀ e, (t.erase s).clusterTarget e = t.clusterTarget e := fun _ => rfl
  simp only [pulledEdges, (Topology.erase_edges hs).countP_eq, List.countP_append, hsrc, htgt, hown,
    zero_add]

/-- A mark of a cluster without out edges does not count. -/
lemma pulledEdges_congr {t : Topology} {mark mark' : ServiceId → Bool}
    (h : ∀ e ∈ t.edges, mark' (t.clusterSource e) = mark (t.clusterSource e)) (v : ServiceId) :
    pulledEdges t mark' v = pulledEdges t mark v :=
  List.countP_congr fun e he => by rw [h e he]

/-! ### The counter is exact -/

/-- The invariant: exact in the arithmetic of the counter, which can hold what is counted. -/
structure PullsCounted (st : State) : Prop where
  counted : ∀ h ∈ st.services, st.cluster h = h →
    st.pulls h = .ofNat (pulledEdges st.toTopology st.isMarkedForStop h)
  bounded : ∀ h ∈ st.services, st.cluster h = h →
    pulledEdges st.toTopology st.isMarkedForStop h < 2 ^ 16

end State

/-- What keeps the pull counters exact: no child is initialised below a cluster that is marked for
stop, and no cluster gets more edges from marked clusters than the counter can hold. -/
def WireOp.KeepsPulls (st : State) : WireOp → Prop
  | .init s => st.layout.isClusterHead s = true →
      st.isClusterMarkedForStop (st.layout.parent s).owner = false
  | .connect u => st.isClusterMarkedForStop u.used.owner = true →
      State.pulledEdges st.toTopology st.isMarkedForStop (st.cluster u.user.owner) + 1 < 2 ^ 16
  | .markForStop s set => set = true → st.isMarkedForStop s = false → ∀ h ∈ st.services,
      State.pulledEdges st.toTopology st.isMarkedForStop h +
        State.edgesBetween st.toTopology s h < 2 ^ 16
  | _ => True

instance (st : State) : (op : WireOp) → Decidable (op.KeepsPulls st)
  | .setOverride _ _ => .isTrue trivial
  | .markForStop _ set => inferInstanceAs (Decidable (set = true → _))
  | .connect u => inferInstanceAs (Decidable (st.isClusterMarkedForStop u.used.owner = true → _))
  | .disconnect _ => .isTrue trivial
  | .init s => inferInstanceAs (Decidable (st.layout.isClusterHead s = true → _))
  | .destroy _ => .isTrue trivial

namespace State

variable {st st' : State} {s h v : ServiceId} {u : Usage}

lemma pullsCounted_of_wires {w : Wires} (hw : st.wires = w)
    (hcount : ∀ h ∈ w.services, w.cluster h = h →
      w.pulls h = .ofNat (pulledEdges w.toTopology w.isMarkedForStop h))
    (hbound : ∀ h ∈ w.services, w.cluster h = h →
      pulledEdges w.toTopology w.isMarkedForStop h < 2 ^ 16) : st.PullsCounted := by
  subst hw
  exact ⟨hcount, hbound⟩

/-- The mark of a cluster changed, and the counters of the clusters behind its out edges with it. -/
lemma PullsCounted.marked (hp : st.PullsCounted) (hc : st.WellFormed) (hs : s ∈ st.services)
    (hcl : st.cluster s = s) {set : Bool} (hk : (WireOp.markForStop s set).KeepsPulls st)
    {phase : ServiceId → Phase} {start : ServiceId → Bool} {override : ServiceId → Override}
    {pushes : ServiceId → UInt16}
    (heq : st'.wires = ⟨st.toTopology, phase, start, Function.update st.isMarkedForStop s set,
      override, pushes, st.pullsAfterMark s set⟩) : st'.PullsCounted := by
  by_cases hset : set = st.isMarkedForStop s
  · -- the mark does not change
    subst hset
    have hpulls : st.pullsAfterMark s (st.isMarkedForStop s) = st.pulls := by
      funext v
      simp [pullsAfterMark, hcl]
    rw [hpulls, Function.update_eq_self] at heq
    exact pullsCounted_of_wires heq hp.counted hp.bounded
  · have hpulls : ∀ v, st.pullsAfterMark s set v =
        if set then st.pulls v + .ofNat (edgesBetween st.toTopology s v)
        else st.pulls v - .ofNat (edgesBetween st.toTopology s v) := by
      intro v
      simp only [pullsAfterMark, hcl, hset, if_false, arrivals_clusterOutEdges hc hs hcl]
    cases set with
    | true =>
      have hm : st.isMarkedForStop s = false := by simpa using hset
      refine pullsCounted_of_wires heq (fun h hmem hhead => ?_) (fun h hmem _ => ?_)
      · simp only [hpulls, if_true]
        rw [pulledEdges_mark hm, UInt16.ofNat_add, hp.counted h hmem hhead]
      · simp only
        rw [pulledEdges_mark hm]
        exact hk rfl hm h hmem
    | false =>
      have hm : st.isMarkedForStop s = true := by simpa using hset
      have hback : Function.update (Function.update st.isMarkedForStop s false) s true =
          st.isMarkedForStop := by
        rw [Function.update_idem, ← hm, Function.update_eq_self]
      have hsum : ∀ h, pulledEdges st.toTopology st.isMarkedForStop h = _ := fun h =>
        hback ▸ pulledEdges_mark (t := st.toTopology)
          (Function.update_self s false st.isMarkedForStop) h
      refine pullsCounted_of_wires heq (fun h hmem hhead => ?_) (fun h hmem hhead => ?_)
      · simp only [hpulls, Bool.false_eq_true, if_false]
        rw [hp.counted h hmem hhead, hsum, UInt16.ofNat_add, UInt16.add_sub_cancel]
      · have := hp.bounded h hmem hhead
        rw [hsum] at this
        exact lt_of_le_of_lt (Nat.le_add_right _ _) this

lemma PullsCounted.markForStop (hp : st.PullsCounted) (hw : st.Wired) (hs : s ∈ st.services)
    (hh : st.layout.isClusterHead s = true) {set : Bool}
    (hk : (WireOp.markForStop s set).KeepsPulls st) {k : State → ServiceId → State} :
    (st.doMarkClusterForStop k s set).PullsCounted := by
  have hcl : st.cluster s = s := hw.wellFormed.cluster_of_isClusterHead hs hh
  have heq := hw.unmarked.doMarkClusterForStop (k := k) s set
  rw [hcl] at heq
  exact hp.marked hw.wellFormed hs hcl hk heq

lemma PullsCounted.connect (hp : st.PullsCounted) (hc : st.WellFormed) (hu : st.CanConnect u)
    (hk : (WireOp.connect u).KeepsPulls st) : (st.connect u).PullsCounted := by
  have hcl : st.cluster (st.cluster u.user.owner) = st.cluster u.user.owner :=
    hc.cluster_cluster hu.2.2.2.1
  obtain ⟨st₁, -, -, heq⟩ := connect_wires st u
  refine pullsCounted_of_wires heq ?_ ?_
  · intro h hmem hhead
    have hold := hp.counted h hmem hhead
    simp only [pulledEdges_connect, UInt16.ofNat_add, ← hold, hcl]
    cases hm : st.isMarkedForStop (st.cluster u.used.owner) with
    | true =>
      by_cases hv : h = st.cluster u.user.owner
      · subst hv
        simp [isClusterMarkedForStop, hm]
      · simp [isClusterMarkedForStop, hm, hv]
    | false => simp [isClusterMarkedForStop, hm]
  · intro h hmem hhead
    have hold := hp.bounded h hmem hhead
    simp only
    rw [pulledEdges_connect]
    split
    · rename_i hv
      rw [hv.1]
      exact hk hv.2
    · exact hold

/-- A usage left, and the counter of the using cluster counts it no longer. -/
lemma PullsCounted.disconnected (hp : st.PullsCounted) (hc : st.WellFormed) (hu : u ∈ st.usages)
    {phase : ServiceId → Phase} {start : ServiceId → Bool} {override : ServiceId → Override}
    {pushes : ServiceId → UInt16}
    (heq : st'.wires = ⟨st.toTopology.disconnect u, phase, start, st.isMarkedForStop, override,
      pushes, if st.isClusterMarkedForStop u.used.owner then
          Function.update st.pulls (st.cluster (st.cluster u.user.owner))
            (st.pulls (st.cluster (st.cluster u.user.owner)) - 1)
        else st.pulls⟩) : st'.PullsCounted := by
  have hcl : st.cluster (st.cluster u.user.owner) = st.cluster u.user.owner :=
    hc.cluster_cluster (hc.user_mem u hu)
  refine pullsCounted_of_wires heq ?_ ?_
  · intro h hmem hhead
    have hold := hp.counted h hmem hhead
    rw [pulledEdges_disconnect hu, UInt16.ofNat_add] at hold
    simp only [hcl]
    cases hm : st.isMarkedForStop (st.cluster u.used.owner) with
    | true =>
      by_cases hv : h = st.cluster u.user.owner
      · subst hv
        simp only [hm, and_true, if_true, UInt16.ofNat_one] at hold
        simp [isClusterMarkedForStop, hm, hold]
      · simpa [isClusterMarkedForStop, hm, hv] using hold
    | false => simpa [isClusterMarkedForStop, hm] using hold
  · intro h hmem hhead
    have hold := hp.bounded h hmem hhead
    rw [pulledEdges_disconnect hu] at hold
    exact lt_of_le_of_lt (Nat.le_add_right _ _) hold

lemma PullsCounted.disconnect (hp : st.PullsCounted) (hw : st.Wired) (hu : u ∈ st.usages)
    {k : State → ServiceId → State} : (st.disconnect k u).PullsCounted := by
  obtain ⟨st₁, -, -, heq⟩ := hw.unmarked.disconnect_wires (k := k) u
  exact hp.disconnected hw.wellFormed hu heq

lemma PullsCounted.init (hp : st.PullsCounted) (hc : st.WellFormed) (hs : st.CanInit s)
    (hnew : s ∉ st.services) (hk : (WireOp.init s).KeepsPulls st) : (st.init s).PullsCounted := by
  have hr : s ≠ st.layout.root := fun h => hnew (h ▸ hc.root_mem)
  have hheads := fun h => hc.insert_head (h := h) hnew hs.2.1
  -- no cluster that an edge starts at is new
  have hmarks : ∀ v, v ∈ st.services → (if st.layout.isClusterHead s = true then
      Function.update st.isMarkedForStop s false else st.isMarkedForStop) v =
      st.isMarkedForStop v := by
    intro v hv
    split
    · exact Function.update_of_ne (fun h : v = s => hnew (h ▸ hv)) _ _
    · rfl
  have hself : st.layout.isClusterHead s = true → pulledEdges (st.toTopology.insert s)
      (if st.layout.isClusterHead s = true then Function.update st.isMarkedForStop s false
        else st.isMarkedForStop) s = 0 := by
    intro hh
    have hunmarked : st.isMarkedForStop (st.cluster (st.layout.parent s).owner) = false := hk hh
    rw [pulledEdges_insert_self hc hnew _ hr hh hs.2.1, hmarks _ (hc.cluster_mem hs.2.1).1,
      hunmarked]
    rfl
  have hother : ∀ h, h ≠ s → pulledEdges (st.toTopology.insert s)
      (if st.layout.isClusterHead s = true then Function.update st.isMarkedForStop s false
        else st.isMarkedForStop) h = pulledEdges st.toTopology st.isMarkedForStop h := by
    intro h hhs
    rw [pulledEdges_insert hc hnew _ hhs]
    exact pulledEdges_congr (fun e he => hmarks _ (hc.cluster_mem (hc.source_mem he)).1) h
  refine pullsCounted_of_wires (init_wires st s) (fun h hmem hhead => ?_) (fun h hmem hhead => ?_)
  · obtain ⟨rfl, hh⟩ | ⟨hhs, hmem, hhead⟩ := hheads h hmem hhead
    · simp only [hself hh]
      simp [hh]
    · simp only [hother h hhs]
      rw [← hp.counted h hmem hhead]
      split
      · exact Function.update_of_ne hhs _ _
      · rfl
  · obtain ⟨rfl, hh⟩ | ⟨hhs, hmem, hhead⟩ := hheads h hmem hhead
    · simp only [hself hh]
      decide
    · simp only [hother h hhs]
      exact hp.bounded h hmem hhead

/-- A service without edges left. No edge starts at it, so its mark does not count. -/
lemma PullsCounted.erased (hp : st.PullsCounted) (hc : st.WellFormed) (hs : st.CanDestroy s)
    (htop : st'.toTopology = st.toTopology.erase s)
    (hmark : ∀ v, v ≠ s → st'.isMarkedForStop v = st.isMarkedForStop v)
    (hpulls : st'.pulls = st.pulls) : st'.PullsCounted := by
  obtain ⟨hmem, -, -, hchild, husages⟩ := hs
  have hheads : ∀ h ∈ (st.toTopology.erase s).services, h ≠ s ∧ h ∈ st.services :=
    fun h hh => hc.nodup.mem_erase_iff.1 hh
  have hcount : ∀ h, h ≠ s → pulledEdges st'.toTopology st'.isMarkedForStop h =
      pulledEdges st.toTopology st.isMarkedForStop h := by
    intro h hhs
    rw [htop, pulledEdges_erase hc hmem _ hhs]
    refine pulledEdges_congr (fun e he => hmark _ ?_) h
    exact hc.clusterSource_ne_of_unused hchild (fun u hu => (husages u hu).1) he
  refine ⟨fun h hh hhh => ?_, fun h hh hhh => ?_⟩
  all_goals
    obtain ⟨hhs, hmem⟩ := hheads h (by rwa [htop] at hh)
    rw [hcount h hhs]
    have hhead : st.cluster h = h := by rwa [htop] at hhh
  · rw [hpulls]
    exact hp.counted h hmem hhead
  · exact hp.bounded h hmem hhead

/-- Where nothing uses a service, the counters do not notice its mark. -/
lemma pullsAfterMark_unused (hc : st.WellFormed) (hs : st.CanDestroy s)
    (hcl : st.cluster s = s) : st.pullsAfterMark s false = st.pulls := by
  obtain ⟨hmem, -, -, hchild, husages⟩ := hs
  funext h
  have hnone : edgesBetween st.toTopology s h = 0 := by
    rw [edgesBetween, List.countP_eq_zero]
    intro e he
    simp [hc.clusterSource_ne_of_unused hchild (fun u hu => (husages u hu).1) he]
  simp [pullsAfterMark, arrivals_clusterOutEdges hc hmem hcl, hnone]

lemma PullsCounted.destroy (hp : st.PullsCounted) (hw : st.Wired) (hs : st.CanDestroy s)
    {k : State → ServiceId → State} : (st.destroy k s).PullsCounted := by
  have hc := hw.wellFormed
  cases hhead : st.layout.isClusterHead s with
  | false =>
    have heq := hw.destroy_member (k := k) hs hhead
    have hmark : (st.destroy k s).isMarkedForStop = _ := congrArg Wires.isMarkedForStop heq
    refine hp.erased hc hs (congrArg Wires.toTopology heq) (fun v _ => ?_)
      (congrArg Wires.pulls heq)
    rw [hmark]
  | true =>
    have hcl : st.cluster s = s := hc.cluster_of_isClusterHead hs.1 hhead
    obtain ⟨st₁, -, heq⟩ := hw.destroy_head (k := k) hs.1 hhead
    have hmark : (st.destroy k s).isMarkedForStop = _ := congrArg Wires.isMarkedForStop heq
    have hpulls : (st.destroy k s).pulls = _ := congrArg Wires.pulls heq
    refine hp.erased hc hs (congrArg Wires.toTopology heq) (fun v hv => ?_) ?_
    · rw [hmark]
      exact Function.update_of_ne hv _ _
    · rw [hpulls, pullsAfterMark_unused hc hs hcl]

theorem PullsCounted.exec {op : WireOp} (hp : st.PullsCounted) (hw : st.Wired) (hpre : op.Pre st)
    (hk : op.KeepsPulls st) : (op.exec st).PullsCounted := by
  cases op with
  | setOverride s mode =>
    exact pullsCounted_of_wires (setOverride_wires st s mode) hp.counted hp.bounded
  | markForStop s set => exact hp.markForStop hw hpre.1 hpre.2 hk
  | connect u => exact hp.connect hw.wellFormed hpre hk
  | disconnect u => exact hp.disconnect hw hpre
  | init s => exact hp.init hw.wellFormed hpre (hw.not_mem hpre) hk
  | destroy s => exact hp.destroy hw hpre

lemma pullsCounted_initial (L : Layout) : (initial L).PullsCounted where
  counted h hh _ := by
    obtain rfl := List.mem_singleton.1 hh
    simp [initial, pulledEdges, Topology.edges, Topology.childHeads]
  bounded h hh _ := by
    obtain rfl := List.mem_singleton.1 hh
    simp [initial, pulledEdges, Topology.edges, Topology.childHeads]

/-! ### No decrement at zero -/

/-- `on_cluster_pulls_decrement` is called on some of these one after the other, and finds a
counter that is zero. -/
def pullsRunOut (k : State → ServiceId → State) : State → List ServiceId → Bool
  | _, [] => false
  | st, t :: ts =>
    st.pulls (st.cluster t) == 0 || pullsRunOut k (st.onClusterPullsDecrement k t) ts

/-- The counters suffice for as many decrements as there are. -/
lemma Unmarked.pullsRunOut_eq_false {k : State → ServiceId → State} {ts : List ServiceId}
    (hm : st.Unmarked)
    (h : ∀ v, (ts.countP fun t => st.cluster t = v) ≤ (st.pulls v).toNat) :
    pullsRunOut k st ts = false := by
  induction ts generalizing st with
  | nil => rfl
  | cons t ts ih =>
    have ht := h (st.cluster t)
    simp only [List.countP_cons, decide_true, if_true] at ht
    have hne : st.pulls (st.cluster t) ≠ 0 := by
      intro h0
      rw [h0] at ht
      exact absurd ht (by simp)
    have hdec := hm.onClusterPullsDecrement (k := k) t
    have hpulls : (st.onClusterPullsDecrement k t).pulls = _ := congrArg Wires.pulls hdec
    have htop : (st.onClusterPullsDecrement k t).toTopology = st.toTopology :=
      congrArg Wires.toTopology hdec
    have hmark : (st.onClusterPullsDecrement k t).isMarkedForStart = st.isMarkedForStart :=
      congrArg Wires.isMarkedForStart hdec
    have hle : (1 : UInt16) ≤ st.pulls (st.cluster t) := by
      rw [UInt16.le_iff_toNat_le]
      exact Nat.one_le_iff_ne_zero.2 fun h0 => hne (UInt16.toNat_inj.1 h0)
    simp only [pullsRunOut, Bool.or_eq_false_iff, beq_eq_false_iff_ne]
    refine ⟨hne, ih (fun v => (congrFun hmark v).trans (hm v)) fun v => ?_⟩
    have hv := h v
    simp only [List.countP_cons, decide_eq_true_eq] at hv
    rw [hpulls, htop]
    by_cases hvt : v = st.cluster t
    · subst hvt
      simp only [Wires.setPulls, Function.update_self, UInt16.toNat_sub_of_le _ _ hle]
      simp only [if_true] at hv
      exact Nat.le_sub_one_of_lt hv
    · simp only [Wires.setPulls, Function.update_of_ne hvt]
      exact le_trans (Nat.le_add_right _ _) hv

end State

/-- Unmarking a cluster calls `on_cluster_pulls_decrement` on a counter that is zero. -/
def State.unmarkRunsOut (st : State) (s : ServiceId) : Bool :=
  st.isMarkedForStop (st.cluster s) &&
    { st with isMarkedForStop := Function.update st.isMarkedForStop (st.cluster s) false
      }.pullsRunOut State.onServiceStartable ((st.clusterOutEdges s).map st.clusterTarget)

/-- The operation calls `on_cluster_pulls_decrement` on a counter that is zero. -/
def WireOp.RunsOutOfPulls (st : State) : WireOp → Bool
  | .markForStop s set => !set && st.unmarkRunsOut s
  | .disconnect u =>
    st.isClusterMarkedForStop u.used.owner &&
      st.pullsRunOut State.onServiceStartable [st.cluster u.user.owner]
  | .destroy s =>
    if st.layout.isClusterHead s then
      ((st.transitionTargetSet s .none).setOverride s .none).unmarkRunsOut s
    else
      st.isClusterMarkedForStop s &&
        st.pullsRunOut State.onServiceStartable
          ((st.outEdges .externalGraph s).map (Edge.target st.layout))
  | _ => false

namespace State

variable {st st' : State} {s h v : ServiceId} {u : Usage}

/-- `pulls_` of every cluster is the number of its in edges from clusters marked for stop. -/
def PullsExact (st : State) : Prop :=
  ∀ h ∈ st.services, st.layout.isClusterHead h = true →
    (st.pulls h).toNat =
      (st.clusterInEdges h).countP fun e => st.isMarkedForStop (st.clusterSource e)

lemma PullsCounted.toNat_pulls (hp : st.PullsCounted) (hh : h ∈ st.services)
    (hhead : st.cluster h = h) :
    (st.pulls h).toNat = pulledEdges st.toTopology st.isMarkedForStop h := by
  rw [hp.counted h hh hhead, UInt16.toNat_ofNat']
  exact Nat.mod_eq_of_lt (hp.bounded h hh hhead)

lemma PullsCounted.exact (hp : st.PullsCounted) (hw : st.Wired) : st.PullsExact := by
  intro h hh hhead
  have hcl : st.cluster h = h := hw.wellFormed.cluster_of_isClusterHead hh hhead
  rw [hp.toNat_pulls hh hcl, (hw.wellFormed.clusterInEdges_perm hh hcl).countP_eq,
    List.countP_filter, pulledEdges]
  exact List.countP_congr fun e _ => by simp [and_comm]

lemma PullsCounted.unmarkRunsOut (hp : st.PullsCounted) (hw : st.Wired) (hs : s ∈ st.services)
    (hh : st.layout.isClusterHead s = true) : st.unmarkRunsOut s = false := by
  have hc := hw.wellFormed
  have hcl : st.cluster s = s := hc.cluster_of_isClusterHead hs hh
  unfold State.unmarkRunsOut
  cases hmark : st.isMarkedForStop (st.cluster s) with
  | false => rfl
  | true =>
    rw [hcl] at hmark
    rw [Bool.true_and]
    refine Unmarked.pullsRunOut_eq_false hw.unmarked fun v => ?_
    rw [List.countP_map]
    change st.arrivals (st.clusterOutEdges s) v ≤ (st.pulls v).toNat
    rw [arrivals_clusterOutEdges hc hs hcl]
    by_cases hv : v ∈ st.services ∧ st.cluster v = v
    · rw [hp.toNat_pulls hv.1 hv.2]
      refine List.countP_mono_left fun e _ he => ?_
      simp only [decide_eq_true_eq] at he ⊢
      exact ⟨he.2, he.1 ▸ hmark⟩
    · -- nothing ends in what is not a cluster
      rw [show edgesBetween st.toTopology s v = 0 from ?_]
      · exact Nat.zero_le _
      · rw [edgesBetween, List.countP_eq_zero]
        intro e he
        simp only [decide_eq_true_eq, not_and]
        rintro - rfl
        exact hv ⟨(hc.cluster_mem (hc.target_mem he)).1, hc.cluster_cluster (hc.target_mem he)⟩

lemma PullsCounted.disconnect_runsOut (hp : st.PullsCounted) (hw : st.Wired) (hu : u ∈ st.usages) :
    (WireOp.disconnect u).RunsOutOfPulls st = false := by
  have hc := hw.wellFormed
  have hcl : st.cluster (st.cluster u.user.owner) = st.cluster u.user.owner :=
    hc.cluster_cluster (hc.user_mem u hu)
  simp only [WireOp.RunsOutOfPulls]
  cases hmark : st.isClusterMarkedForStop u.used.owner with
  | false => rfl
  | true =>
    rw [Bool.true_and]
    refine hw.unmarked.pullsRunOut_eq_false fun v => ?_
    simp only [List.countP_singleton, hcl, decide_eq_true_eq]
    split
    · rename_i hv
      subst hv
      rw [hp.toNat_pulls (hc.cluster_mem (hc.user_mem u hu)).1 hcl]
      refine List.countP_pos_iff.2 ⟨.usage u, Topology.mem_edges_usage.2 hu, ?_⟩
      simp only [decide_eq_true_eq]
      exact ⟨rfl, hmark⟩
    · exact Nat.zero_le _

lemma Wired.destroy_runsOut (hw : st.Wired) (hs : st.CanDestroy s) :
    (WireOp.destroy s).RunsOutOfPulls st = false := by
  have hc := hw.wellFormed
  obtain ⟨hmem, -, -, hchild, husages⟩ := id hs
  simp only [WireOp.RunsOutOfPulls]
  cases hhead : st.layout.isClusterHead s with
  | true =>
    simp only [if_true]
    have h₁ := transitionTargetSet_wires st s .none
    have h₂ := setOverride_wires (st.transitionTargetSet s .none) s .none
    generalize st.transitionTargetSet s .none = st₁ at h₁ h₂
    generalize st₁.setOverride s .none = st₂ at h₂
    have htop₁ : st₁.toTopology = st.toTopology := congrArg Wires.toTopology h₁
    have htop : st₂.toTopology = st.toTopology := (congrArg Wires.toTopology h₂).trans htop₁
    have hout : st₂.clusterOutEdges s = [] := by
      have hcl : st.cluster s = s := hc.cluster_of_isClusterHead hmem hhead
      rw [htop]
      refine List.Perm.eq_nil ((hc.clusterOutEdges_perm hmem hcl).trans (List.Perm.of_eq ?_))
      rw [List.filter_eq_nil_iff]
      intro e he
      simpa using hc.clusterSource_ne_of_unused hchild (fun u hu => (husages u hu).1) he
    rw [State.unmarkRunsOut, hout, List.map_nil, pullsRunOut, Bool.and_false]
  | false =>
    have hout := outEdges_external_of_unused hc hchild fun u hu => (husages u hu).1
    simp [hout, pullsRunOut]

end State

/-- In every run in which no child is initialised below a cluster marked for stop, `pulls_` is exact
and never decremented at zero. -/
theorem pulls_exact {L : Layout} {st : State}
    (h : (wiring L).Reachable (fun st op => op.KeepsPulls st) st) :
    st.PullsExact ∧ ∀ op : WireOp, op.Pre st → op.RunsOutOfPulls st = false := by
  have hw := State.wired_of_reachable h
  have hp : st.PullsCounted := h.invariant (fun _ h => h ▸ State.pullsCounted_initial L)
    fun st op hr hp hpre hk => hp.exec (State.wired_of_reachable hr) hpre hk
  refine ⟨hp.exact hw, fun op hpre => ?_⟩
  cases op with
  | markForStop s set =>
    rw [WireOp.RunsOutOfPulls, hp.unmarkRunsOut hw hpre.1 hpre.2, Bool.and_false]
  | disconnect u => exact hp.disconnect_runsOut hw hpre
  | destroy s => exact hw.destroy_runsOut hpre
  | _ => rfl

/-- The child 2 below the marked service 1 was there before the mark. -/
def markedRun : List WireOp := [.init 1, .init 2, .markForStop 1 true]

theorem pulls_exact_markedRun :
    (State.afterWiring .chain markedRun).pulls 2 = 1 ∧
      (State.afterWiring .chain markedRun).PullsExact :=
  ⟨by decide, (pulls_exact (L := .chain) (Machine.Reachable.run (.init rfl) (by decide))).1⟩

/-- The child 2 is initialised below the marked service 1. -/
def lateChildRun : List WireOp := [.init 1, .markForStop 1 true, .init 2]

/-- Every step is allowed, but the child counts no edge from the marked cluster, and unmarking the
cluster lets the counter of the child wrap. -/
theorem lateChildRun_wraps_pulls :
    (wiring .chain).Admissible (fun _ _ => True) (.initial .chain)
        (lateChildRun ++ [.markForStop 1 false]) ∧
      ¬ (State.afterWiring .chain lateChildRun).PullsExact ∧
      (WireOp.markForStop 1 false).RunsOutOfPulls (State.afterWiring .chain lateChildRun) = true ∧
      (State.afterWiring .chain (lateChildRun ++ [.markForStop 1 false])).pulls 2 = 65535 := by
  refine ⟨by decide, fun h => ?_, by decide, by decide⟩
  exact absurd (h 2 (by decide) rfl) (by decide)

end Idle
