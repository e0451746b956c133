import Idle.Core.Pushes
import Idle.Core.Wiring
import Idle.Core.Sample

/-!
# The push counters count

`pushes_` of a cluster is one for its override and one for each of its edges to a cluster that is
pushed itself. Every wiring operation keeps this, with one exception: when a usage is disconnected
that alone kept the used cluster alive, the search leaves the using cluster out, so that cluster
must not depend on it.
-/

namespace Idle

namespace State

variable {st st' : State} {s h v : ServiceId} {u : Usage} {t : Topology}

/-- The edges from a cluster to clusters that are pushed. -/
def pushedEdges (t : Topology) (cnt : ServiceId → Nat) (h : ServiceId) : Nat :=
  t.edges.countP fun e => t.clusterSource e = h ∧ cnt (t.clusterTarget e) ≠ 0

/-- The edges from a cluster to other clusters. -/
def outDegree (t : Topology) (h : ServiceId) : Nat := t.edges.countP fun e => t.clusterSource e = h

/-- One for a cluster that is overridden for start. -/
def overridden (override : ServiceId → Override) (h : ServiceId) : Nat :=
  if override h = .start then 1 else 0

/-! ### How the edges to be counted change -/

lemma pushedEdges_congr {cnt cnt' : ServiceId → Nat} (h : ∀ v, cnt' v = 0 ↔ cnt v = 0)
    (v : ServiceId) : pushedEdges t cnt' v = pushedEdges t cnt v :=
  List.countP_congr fun e _ => by simp [h]

/-- The counters only grew. -/
lemma pushedEdges_of_le {old new : ServiceId → Nat} (h : ∀ v, old v ≠ 0 → new v ≠ 0)
    (v : ServiceId) : pushedEdges t new v =
      pushedEdges t old v + Search.flipped t.edges t.clusterSource t.clusterTarget old new v := by
  refine List.countP_eq_add_of_disjoint (fun e _ => ?_) (fun e _ => ?_)
  · rw [Bool.eq_iff_iff]
    simp only [Bool.or_eq_true, decide_eq_true_eq]
    have := h (t.clusterTarget e)
    tauto
  · simp only [decide_eq_true_eq]
    tauto

/-- The counters only shrank. -/
lemma pushedEdges_of_ge {old new : ServiceId → Nat} (h : ∀ v, new v ≠ 0 → old v ≠ 0)
    (v : ServiceId) : pushedEdges t old v =
      pushedEdges t new v + Search.dropped t.edges t.clusterSource t.clusterTarget old new v := by
  refine List.countP_eq_add_of_disjoint (fun e _ => ?_) (fun e _ => ?_)
  · rw [Bool.eq_iff_iff]
    simp only [Bool.or_eq_true, decide_eq_true_eq]
    have := h (t.clusterTarget e)
    tauto
  · simp only [decide_eq_true_eq]
    tauto

/-- The edges to clusters that are not pushed yet are the others. -/
lemma pushedEdges_add_unpushed (t : Topology) (cnt : ServiceId → Nat) (v : ServiceId) :
    pushedEdges t cnt v + t.edges.countP (fun e => t.clusterSource e = v ∧
      cnt (t.clusterTarget e) = 0) = outDegree t v := by
  refine (List.countP_eq_add_of_disjoint (fun e _ => ?_) (fun e _ => ?_)).symm
  · rw [Bool.eq_iff_iff]
    simp only [Bool.or_eq_true, decide_eq_true_eq]
    tauto
  · simp only [decide_eq_true_eq]
    tauto

lemma pushedEdges_connect (t : Topology) (cnt : ServiceId → Nat) (u : Usage) (v : ServiceId) :
    pushedEdges (t.connect u) cnt v = pushedEdges t cnt v +
      if v = t.cluster u.used.owner ∧ cnt (t.cluster u.user.owner) ≠ 0 then 1 else 0 := by
  have hsrc : ∀ e, (t.connect u).clusterSource e = t.clusterSource e := fun _ => rfl
  have htgt : ∀ e, (t.connect u).clusterTarget e = t.clusterTarget e := fun _ => rfl
  simp only [pushedEdges, Topology.connect_edges, List.countP_append, hsrc, htgt,
    List.countP_singleton, decide_eq_true_eq]
  simp only [eq_comm]
  rfl

lemma pushedEdges_disconnect (hu : u ∈ t.usages) (cnt : ServiceId → Nat) (v : ServiceId) :
    pushedEdges t cnt v = pushedEdges (t.disconnect u) cnt v +
      if v = t.cluster u.used.owner ∧ cnt (t.cluster u.user.owner) ≠ 0 then 1 else 0 := by
  have hsrc : ∀ e, (t.disconnect u).clusterSource e = t.clusterSource e := fun _ => rfl
  have htgt : ∀ e, (t.disconnect u).clusterTarget e = t.clusterTarget e := fun _ => rfl
  simp only [pushedEdges, (Topology.disconnect_edges hu).countP_eq, List.countP_cons, hsrc, htgt,
    decide_eq_true_eq]
  simp only [eq_comm]
  rfl

/-- A new cluster that is not pushed does not count. -/
lemma pushedEdges_insert (ht : t.WellFormed) (hs : s ∉ t.services) {cnt cnt' : ServiceId → Nat}
    (hcnt : ∀ w ∈ t.services, cnt' w = cnt w) (hzero : t.layout.isClusterHead s = true → cnt' s = 0)
    (v : ServiceId) : pushedEdges (t.insert s) cnt' v = pushedEdges t cnt v := by
  have hown : (t.ownEdge s).countP (fun e => (t.insert s).clusterSource e = v ∧
      cnt' ((t.insert s).clusterTarget e) ≠ 0) = 0 := by
    rw [List.countP_eq_zero]
    intro e he
    obtain ⟨rfl, hh, -⟩ := Topology.mem_ownEdge.1 he
    have hm : t.layout.isMember s = false := by
      simpa [Layout.isMember, Layout.isClusterHead] using hh
    have : (t.insert s).clusterTarget (.child s) = s := by
      simp [Topology.clusterTarget, Topology.insert, Edge.target, hm]
    simp [this, hzero hh]
  rw [pushedEdges, (Topology.insert_edges t s).countP_eq, List.countP_append, hown, zero_add]
  refine List.countP_congr fun e he => ?_
  rw [ht.insert_clusterSource hs he, ht.insert_clusterTarget hs he,
    hcnt (t.clusterTarget e) (ht.cluster_mem (ht.target_mem he)).1]

/-- A cluster leaves that is not pushed. -/
lemma pushedEdges_erase (ht : t.WellFormed) (hs : s ∈ t.services) {cnt : ServiceId → Nat}
    (hzero : t.layout.isClusterHead s = true → cnt s = 0) (v : ServiceId) :
    pushedEdges (t.erase s) cnt v = pushedEdges t cnt v := by
  have hown : (t.ownEdge s).countP (fun e => t.clusterSource e = v ∧
      cnt (t.clusterTarget e) ≠ 0) = 0 := by
    rw [List.countP_eq_zero]
    intro e he
    obtain ⟨rfl, hh, -⟩ := Topology.mem_ownEdge.1 he
    have : t.clusterTarget (.child s) = s := ht.cluster_of_isClusterHead hs hh
    simp [this, hzero hh]
  have hsrc : ∀ e, (t.erase s).clusterSource e = t.clusterSource e := fun _ => rfl
  have htgt : ∀ e, (t.erase s).clusterTarget e = t.clusterTarget e := fun _ => rfl
  simp only [pushedEdges, (Topology.erase_edges hs).countP_eq, List.countP_append, hsrc, htgt, hown,
    zero_add]

lemma outDegree_eq (t : Topology) : outDegree t = pushedEdges t fun _ => 1 := by
  funext v
  simp [outDegree, pushedEdges]

lemma outDegree_insert_le (ht : t.WellFormed) (hs : s ∉ t.services) (v : ServiceId) :
    outDegree (t.insert s) v ≤ outDegree t v +
      if t.layout.isClusterHead s = true ∧ v = (t.insert s).cluster (t.layout.parent s).owner
        then 1 else 0 := by
  have hold : t.edges.countP (fun e => (t.insert s).clusterSource e = v) = outDegree t v :=
    List.countP_congr fun e he => by rw [ht.insert_clusterSource hs he]
  rw [outDegree, (Topology.insert_edges t s).countP_eq, List.countP_append, hold, add_comm]
  refine Nat.add_le_add_left ?_ _
  unfold Topology.ownEdge
  split
  · rename_i hh
    simp only [Bool.and_eq_true, bne_iff_ne] at hh
    simp only [List.countP_singleton, decide_eq_true_eq, hh.1, true_and]
    simp only [eq_comm]
    rfl
  · exact Nat.zero_le _

/-! ### The counters are exact -/

/-- The invariant, for all addresses; no cluster has more edges than the counter can hold. -/
structure PushesCounted (st : State) : Prop where
  counted : ∀ v, st.pushCount v =
    overridden st.override v + pushedEdges st.toTopology st.pushCount v
  bounded : ∀ v, outDegree st.toTopology v + 1 < 2 ^ 16

lemma pushesCounted_of_wires {w : Wires} (hw : st.wires = w)
    (hcount : ∀ v, (w.pushes v).toNat =
      overridden w.override v + pushedEdges w.toTopology (fun v => (w.pushes v).toNat) v)
    (hbound : ∀ v, outDegree w.toTopology v + 1 < 2 ^ 16) : st.PushesCounted := by
  subst hw
  exact ⟨hcount, hbound⟩

lemma overridden_update_start {override : ServiceId → Override} (h : override s ≠ .start)
    (v : ServiceId) : overridden (Function.update override s .start) v =
      overridden override v + if v = s then 1 else 0 := by
  by_cases hv : v = s
  · subst hv
    simp [overridden, h]
  · simp [overridden, hv]

lemma overridden_update_none {override : ServiceId → Override} (h : override s = .start)
    (v : ServiceId) : overridden override v =
      overridden (Function.update override s .none) v + if v = s then 1 else 0 := by
  by_cases hv : v = s
  · subst hv
    simp [overridden, h]
  · simp [overridden, hv]

/-- An increment of a state that is exact but for one more push of a cluster. -/
lemma increment_counted {override : ServiceId → Override} (ht : st.WellFormed) {me : ServiceId}
    (hme : me ∈ st.services)
    (hhead : st.cluster me = me ∨ st.pushCount (st.cluster me) ≠ 0) {ancestor : Option ServiceId}
    (hanc : st.AncestorOk me ancestor)
    (hcount : ∀ v, st.pushCount v + (if v = st.cluster me then 1 else 0) =
      overridden override v + pushedEdges st.toTopology st.pushCount v)
    (hbound : ∀ v, outDegree st.toTopology v + 1 < 2 ^ 16) (v : ServiceId) :
    (st.callOnClusterPushesIncrement me ancestor).pushCount v = overridden override v +
      pushedEdges st.toTopology (st.callOnClusterPushesIncrement me ancestor).pushCount v := by
  have hle : ∀ w, overridden override w ≤ 1 := fun w => by
    unfold overridden
    split <;> decide
  have hnew := callOnClusterPushesIncrement_count ht hme hhead hanc (fun w => ?_)
  · have hgrow : ∀ w, st.pushCount w ≠ 0 →
        (st.callOnClusterPushesIncrement me ancestor).pushCount w ≠ 0 := by
      intro w hw
      have := hnew w
      omega
    rw [pushedEdges_of_le hgrow, hnew v, hcount v]
    omega
  · have h₁ := hcount w
    have h₂ := pushedEdges_add_unpushed st.toTopology st.pushCount w
    have h₃ := hbound w
    have h₄ := hle w
    omega

/-- What is droppable is pushed. -/
lemma droppable_le (t : Topology) (keep : List ServiceId) (cnt : ServiceId → Nat) (v : ServiceId) :
    Search.droppable t.edges t.clusterSource t.clusterTarget keep cnt v ≤ pushedEdges t cnt v :=
  List.countP_mono_left fun e _ he => by
    simp only [decide_eq_true_eq] at he ⊢
    exact ⟨he.1, he.2.1⟩

/-- A decrement without ancestor of a state that is exact but for one push less of a cluster. -/
lemma decrement_counted {override : ServiceId → Override} (ht : st.WellFormed)
    (hs : s ∈ st.services) (hcl : st.cluster s = s)
    (hcount : ∀ v, st.pushCount v = overridden override v + (if v = s then 1 else 0) +
      pushedEdges st.toTopology st.pushCount v) :
    st.pushesRunOut s none = false ∧
    (∀ v, (st.callOnClusterPushesDecrement s none).pushCount v ≤ st.pushCount v) ∧
    ∀ v, (st.callOnClusterPushesDecrement s none).pushCount v = overridden override v +
      pushedEdges st.toTopology (st.callOnClusterPushesDecrement s none).pushCount v := by
  have hpos : st.pushCount (st.cluster s) ≠ 0 := by
    have := hcount s
    rw [hcl]
    simp only [if_true] at this
    omega
  by_cases hone : st.pushCount s = 1
  · -- the last push: everything the search drops was counted
    have henough : Search.Enough st.edges st.clusterSource st.clusterTarget [] st.pushCount s := by
      refine ⟨fun v => ?_, fun v hv => absurd hv List.not_mem_nil⟩
      have h₁ := hcount v
      have h₂ := droppable_le st.toTopology [] st.pushCount v
      omega
    have hanc : ∀ a ∈ (none : Option ServiceId), st.cluster a ≠ s ∧ st.cluster a ∈ [] := by simp
    obtain ⟨hrun, -, hnew⟩ := callOnClusterPushesDecrement_count ht hs hcl hone hanc henough
    have hle : ∀ v, (st.callOnClusterPushesDecrement s none).pushCount v ≤ st.pushCount v := by
      intro v
      have := hnew v
      omega
    refine ⟨hrun, hle, fun v => ?_⟩
    have hpushed : ∀ v, (st.callOnClusterPushesDecrement s none).pushCount v ≠ 0 →
        st.pushCount v ≠ 0 := by
      intro v hv
      have := hle v
      omega
    -- the edges of clusters that are no longer pushed leave the sum
    have hdrop := pushedEdges_of_ge (t := st.toTopology) hpushed v
    have h₁ := hnew v
    have h₂ := hcount v
    omega
  · obtain ⟨hrun, hzero, hnew⟩ := callOnClusterPushesDecrement_of_ne_one hpos (hcl.symm ▸ hone) none
    rw [hcl] at hnew
    refine ⟨hrun, fun v => ?_, fun v => ?_⟩
    · -- another push is left, so the search does not start
      have := hnew v
      omega
    · have h₁ := hnew v
      have h₂ := hcount v
      rw [pushedEdges_congr hzero]
      omega

/-- The using cluster of a usage is kept alive without the used one: by clusters that are pushed and
of which each is overridden or has an edge to an other of them. -/
def Supported (st : State) (u : Usage) : Prop :=
  ∃ keep : List ServiceId, st.cluster u.user.owner ∈ keep ∧ st.cluster u.used.owner ∉ keep ∧
    ∀ v ∈ keep, st.pushes v ≠ 0 ∧ (st.override v = .start ∨
      ∃ e ∈ st.edges, st.clusterSource e = v ∧ st.clusterTarget e ∈ keep)

/-- The search for a usage that is disconnected has nothing to do in the clusters of the support. -/
lemma Supported.enough {keep : List ServiceId} {a b : ServiceId}
    (hcount : ∀ v, st.pushCount v =
      overridden st.override v + pushedEdges st.toTopology st.pushCount v)
    (he : ∃ e ∈ st.edges, st.clusterSource e = a ∧ st.clusterTarget e = b)
    (hone : st.pushCount a = 1)
    (hb : b ∈ keep) (ha : a ∉ keep)
    (hkeep : ∀ v ∈ keep, st.pushes v ≠ 0 ∧ (st.override v = .start ∨
      ∃ e ∈ st.edges, st.clusterSource e = v ∧ st.clusterTarget e ∈ keep)) :
    Search.Enough st.edges st.clusterSource st.clusterTarget keep st.pushCount a := by
  have hpushed : ∀ v ∈ keep, st.pushCount v ≠ 0 := fun v hv h =>
    (hkeep v hv).1 (pushCount_eq_zero.1 h)
  -- an edge into the support is pushed but not droppable
  have hlt : ∀ v, (∃ e ∈ st.edges, st.clusterSource e = v ∧ st.clusterTarget e ∈ keep) →
      Search.droppable st.edges st.clusterSource st.clusterTarget keep st.pushCount v <
        pushedEdges st.toTopology st.pushCount v := by
    rintro v ⟨e, hmem, hsrc, htgt⟩
    have hsplit : pushedEdges st.toTopology st.pushCount v =
        Search.droppable st.edges st.clusterSource st.clusterTarget keep st.pushCount v +
          st.edges.countP (fun e => st.clusterSource e = v ∧ st.pushCount (st.clusterTarget e) ≠ 0 ∧
            st.clusterTarget e ∈ keep) := by
      refine List.countP_eq_add_of_disjoint (fun e _ => ?_) (fun e _ => ?_)
      · rw [Bool.eq_iff_iff]
        simp only [Bool.or_eq_true, decide_eq_true_eq]
        tauto
      · simp only [decide_eq_true_eq]
        tauto
    rw [hsplit, Nat.lt_add_right_iff_pos, List.countP_pos_iff]
    exact ⟨e, hmem, by simpa using ⟨hsrc, hpushed _ htgt, htgt⟩⟩
  refine ⟨fun v => ?_, fun v hv => ?_⟩
  · have h₁ := hcount v
    have h₂ := droppable_le st.toTopology keep st.pushCount v
    by_cases hva : v = a
    · subst hva
      obtain ⟨e, hmem, hsrc, htgt⟩ := he
      have := hlt v ⟨e, hmem, hsrc, htgt ▸ hb⟩
      rw [if_pos rfl]
      omega
    · rw [if_neg hva]
      omega
  · have hva : v ≠ a := fun h => ha (h ▸ hv)
    have h₁ := hcount v
    have h₂ := droppable_le st.toTopology keep st.pushCount v
    rw [if_neg hva]
    rcases (hkeep v hv).2 with ho | hedge
    · have : overridden st.override v = 1 := by simp [overridden, ho]
      omega
    · have := hlt v hedge
      omega

end State

/-- What keeps the push counters exact. The used service of a usage has to be the head of its
cluster where a search starts at it; a usage that alone keeps the used cluster alive is only
disconnected if the using cluster does not depend on it; and no cluster gets more out edges than the
counter can hold. -/
def WireOp.KeepsPushes (st : State) : WireOp → Prop
  | .connect u =>
    (st.layout.isClusterHead u.used.owner = true ∨ st.pushes (st.cluster u.user.owner) = 0 ∨
      st.pushes (st.cluster u.used.owner) ≠ 0) ∧
    State.outDegree st.toTopology (st.cluster u.used.owner) + 2 < 2 ^ 16
  | .disconnect u =>
    st.pushes (st.cluster u.user.owner) = 0 ∨ st.pushes (st.cluster u.used.owner) ≠ 1 ∨
      st.layout.isClusterHead u.used.owner = true ∧ st.Supported u
  | .init s => st.layout.isClusterHead s = true →
      State.outDegree st.toTopology (st.cluster (st.layout.parent s).owner) + 2 < 2 ^ 16
  | _ => True

namespace State

variable {st st' : State} {s h v : ServiceId} {u : Usage} {t : Topology}

lemma pushesCounted_initial (L : Layout) : (initial L).PushesCounted where
  counted v := by
    have : (initial L).edges = [] := by
      simp [initial, Topology.edges, Topology.childHeads]
    rw [pushedEdges, this]
    rfl
  bounded v := by
    have : (initial L).edges = [] := by
      simp [initial, Topology.edges, Topology.childHeads]
    rw [outDegree, this, List.countP_nil]
    decide

lemma PushesCounted.of_frame (hp : st.PushesCounted) {w : Wires} (hw : st'.wires = w)
    (htop : w.toTopology = st.toTopology) (hpush : w.pushes = st.pushes)
    (hover : w.override = st.override) : st'.PushesCounted := by
  refine pushesCounted_of_wires hw ?_ ?_
  · rw [htop, hpush, hover]
    exact hp.counted
  · rw [htop]
    exact hp.bounded

/-- The override of a cluster is removed. -/
lemma PushesCounted.remove_override (hp : st.PushesCounted) (hw : st.WellFormed)
    (hs : s ∈ st.services)
    (hcl : st.cluster s = s) (hstart : st.override s = .start) :
    let st₁ : State := { st with override := Function.update st.override s .none }
    st₁.pushesRunOut s none = false ∧
    (∀ v, (st₁.callOnClusterPushesDecrement s none).pushCount v ≤ st.pushCount v) ∧
    ∀ v, (st₁.callOnClusterPushesDecrement s none).pushCount v =
      overridden (Function.update st.override s .none) v +
        pushedEdges st.toTopology (st₁.callOnClusterPushesDecrement s none).pushCount v := by
  intro st₁
  have hc : st₁.WellFormed := hw
  have hcount : ∀ v, st₁.pushCount v = overridden (Function.update st.override s .none) v +
      (if v = s then 1 else 0) + pushedEdges st₁.toTopology st₁.pushCount v := by
    intro v
    have h₁ := hp.counted v
    have h₂ := overridden_update_none hstart v
    change st.pushCount v = _ + _ + pushedEdges st.toTopology st.pushCount v
    omega
  exact decrement_counted hc hs hcl hcount

lemma PushesCounted.setOverride (hp : st.PushesCounted) (hw : st.WellFormed) (hs : s ∈ st.services)
    (hh : st.layout.isClusterHead s = true) (mode : Override) :
    (st.setOverride s mode).PushesCounted := by
  have hcl : st.cluster s = s := hw.cluster_of_isClusterHead hs hh
  refine pushesCounted_of_wires (setOverride_wires st s mode) ?_ hp.bounded
  unfold State.setOverride
  simp only [hcl]
  by_cases hmode : st.override s = mode
  · rw [if_neg (not_not.2 hmode), ← hmode, Function.update_eq_self]
    exact hp.counted
  · rw [if_pos hmode]
    cases mode with
    | start =>
      rw [if_pos rfl]
      have hc : ({ st with override := Function.update st.override s .start } : State).WellFormed :=
        hw
      refine increment_counted hc hs (.inl hcl) (fun a ha => by simp at ha) (fun v => ?_) hp.bounded
      have h₁ := hp.counted v
      have h₂ := overridden_update_start hmode v
      change st.pushCount v + (if v = st.cluster s then 1 else 0) = _ +
        pushedEdges st.toTopology st.pushCount v
      rw [hcl]
      omega
    | none =>
      have hstart : st.override s = .start := by
        cases h : st.override s with
        | start => rfl
        | none => exact absurd h hmode
      rw [if_neg (by decide)]
      exact (hp.remove_override hw hs hcl hstart).2.2

lemma isClusterPushed_iff {a : ServiceId} :
    st.isClusterPushed a = true ↔ st.pushCount (st.cluster a) ≠ 0 := by
  rw [Ne, pushCount_eq_zero]
  simp [isClusterPushed]

lemma PushesCounted.connect (hp : st.PushesCounted) (hw : st.WellFormed) (hu : st.CanConnect u)
    (hk : (WireOp.connect u).KeepsPushes st) : (st.connect u).PushesCounted := by
  obtain ⟨hid, hused, hexports, huser, himports, hdiff⟩ := hu
  have hc := hw.connect hid hused hexports huser himports hdiff
  obtain ⟨st₁, htop, hpush, heq⟩ := connect_wires st u
  have hcnt : st₁.pushCount = st.pushCount := by
    funext v
    rw [pushCount, hpush]
    rfl
  -- the new edge adds one to the degree of its user at most
  have hbound : ∀ v, outDegree (st.toTopology.connect u) v + 1 < 2 ^ 16 := by
    intro v
    have h₁ := hp.bounded v
    have h₂ := hk.2
    rw [outDegree_eq] at h₁ h₂ ⊢
    rw [pushedEdges_connect]
    split
    · rename_i hv
      rw [hv.1]
      exact h₂
    · exact h₁
  refine pushesCounted_of_wires heq ?_ hbound
  by_cases hpushed : st.pushCount (st.cluster u.user.owner) = 0
  · -- nothing is pushed through the new edge
    intro v
    have hoff : st.isClusterPushed u.user.owner = false := by
      rw [← Bool.not_eq_true, isClusterPushed_iff, not_not]
      exact hpushed
    have h₁ := hp.counted v
    simp only [hoff, Bool.false_eq_true, if_false]
    change st.pushCount v = _ + pushedEdges (st.toTopology.connect u) st.pushCount v
    rw [pushedEdges_connect, if_neg (fun h => h.2 hpushed)]
    exact h₁
  · simp only [isClusterPushed_iff.2 hpushed, if_true]
    have hcl : st₁.cluster = st.cluster := by rw [htop]; rfl
    have hhead : st₁.cluster u.used.owner = u.used.owner ∨
        st₁.pushCount (st₁.cluster u.used.owner) ≠ 0 := by
      rw [hcl, hcnt]
      rcases hk.1 with h | h | h
      · exact .inl (hw.cluster_of_isClusterHead hused h)
      · exact absurd (pushCount_eq_zero.2 h) hpushed
      · exact .inr fun h0 => h (pushCount_eq_zero.1 h0)
    have hanc : st₁.AncestorOk u.used.owner (some u.user.owner) := by
      intro a ha
      rw [Option.mem_some_iff] at ha
      rw [← ha, hcl, hcnt]
      exact ⟨hdiff.symm, hpushed⟩
    -- before the increment the used cluster is one push short
    have hcount : ∀ v, st₁.pushCount v + (if v = st₁.cluster u.used.owner then 1 else 0) =
        overridden st.override v + pushedEdges st₁.toTopology st₁.pushCount v := by
      intro v
      rw [hcl, htop, hcnt, pushedEdges_connect, hp.counted v]
      simp only [hpushed, ne_eq, not_false_eq_true, and_true]
      omega
    have hmem : u.used.owner ∈ st₁.services := by
      rw [htop]
      exact hused
    have hnew := increment_counted (htop ▸ hc) hmem hhead hanc hcount (htop ▸ hbound)
    rw [htop] at hnew
    exact hnew

lemma PushesCounted.disconnect_search (hp : st.PushesCounted) (hc : st.WellFormed)
    (hu : u ∈ st.usages)
    (hk : (WireOp.disconnect u).KeepsPushes st)
    (hpushed : st.pushCount (st.cluster u.user.owner) ≠ 0) {st₁ : State}
    (htop : st₁.toTopology = st.toTopology) (hpush : st₁.pushes = st.pushes) :
    st₁.pushesRunOut u.used.owner (some u.user.owner) = false ∧
    (st₁.callOnClusterPushesDecrement u.used.owner (some u.user.owner)).pushCount
      (st.cluster u.user.owner) ≠ 0 ∧
    (∀ v, (st₁.callOnClusterPushesDecrement u.used.owner (some u.user.owner)).pushCount v ≤
      st.pushCount v) ∧
    ∀ v, (st₁.callOnClusterPushesDecrement u.used.owner (some u.user.owner)).pushCount v =
      overridden st.override v + pushedEdges (st.toTopology.disconnect u)
        (st₁.callOnClusterPushesDecrement u.used.owner (some u.user.owner)).pushCount v := by
  have hcnt : st₁.pushCount = st.pushCount := by
    funext v
    rw [pushCount, hpush]
    rfl
  have hdiff := hc.different u hu
  -- the counter of the used cluster counts the usage
  have hpos : st₁.pushCount (st₁.cluster u.used.owner) ≠ 0 := by
    rw [htop, hcnt, hp.counted, pushedEdges_disconnect hu, if_pos ⟨rfl, hpushed⟩]
    omega
  generalize hst₂ : st₁.callOnClusterPushesDecrement u.used.owner (some u.user.owner) = st₂
  by_cases hone : st₁.pushCount (st₁.cluster u.used.owner) = 1
  · rw [htop, hcnt] at hone
    obtain ⟨hh, keep, huser, hused, hkeep⟩ :=
      (hk.resolve_left fun h => hpushed (pushCount_eq_zero.2 h)).resolve_left
        fun h => h (pushCount_eq_one.1 hone)
    have hcl : st.cluster u.used.owner = u.used.owner :=
      hc.cluster_of_isClusterHead (hc.used_mem u hu) hh
    have henough : Search.Enough st.edges st.clusterSource st.clusterTarget keep st.pushCount
        (st.cluster u.used.owner) := Supported.enough hp.counted
      ⟨.usage u, Topology.mem_edges_usage.2 hu, rfl, rfl⟩ hone huser hused hkeep
    rw [hcl] at henough hone hdiff hused
    rw [← htop, ← hcnt] at henough
    have hanc : ∀ a ∈ some u.user.owner, st₁.cluster a ≠ u.used.owner ∧ st₁.cluster a ∈ keep := by
      intro a ha
      rw [Option.mem_some_iff] at ha
      rw [← ha, htop]
      exact ⟨hdiff.symm, huser⟩
    obtain ⟨hrun, hkept, hnew⟩ := callOnClusterPushesDecrement_count (htop ▸ hc)
      (htop ▸ hc.used_mem u hu) (htop ▸ hcl) (hcnt ▸ hone) hanc henough
    rw [hst₂] at hkept hnew
    rw [hcnt, htop] at hnew
    have hle : ∀ v, st₂.pushCount v ≤ st.pushCount v := by
      intro v
      have := hnew v
      omega
    refine ⟨hrun, hkept _ huser, hle, fun v => ?_⟩
    have hpos : ∀ v, st₂.pushCount v ≠ 0 → st.pushCount v ≠ 0 := by
      intro v hv
      have := hle v
      omega
    have h₁ := hnew v
    have h₂ := hp.counted v
    rw [pushedEdges_of_ge hpos, pushedEdges_disconnect hu st₂.pushCount, hcl] at h₂
    simp only [hkept _ huser, ne_eq, not_false_eq_true, and_true] at h₂
    omega
  · obtain ⟨hrun, hzero, hnew⟩ :=
      callOnClusterPushesDecrement_of_ne_one hpos hone (some u.user.owner)
    rw [hst₂, hcnt] at hzero
    rw [hst₂, hcnt, htop] at hnew
    refine ⟨hrun, mt (hzero _).1 hpushed, fun v => ?_, fun v => ?_⟩
    · have := hnew v
      omega
    · have h₁ := hnew v
      have h₂ := hp.counted v
      rw [pushedEdges_disconnect hu] at h₂
      rw [pushedEdges_congr hzero]
      simp only [hpushed, ne_eq, not_false_eq_true, and_true] at h₂
      omega

lemma PushesCounted.disconnect (hp : st.PushesCounted) (hw : st.Wired) (hu : u ∈ st.usages)
    (hk : (WireOp.disconnect u).KeepsPushes st) {k : State → ServiceId → State} :
    (st.disconnect k u).PushesCounted := by
  obtain ⟨st₁, htop, hpush, heq⟩ := hw.unmarked.disconnect_wires (k := k) u
  refine pushesCounted_of_wires heq ?_ fun v => ?_
  · by_cases hpushed : st.pushCount (st.cluster u.user.owner) = 0
    · -- nothing was pushed through the edge
      intro v
      have hoff : st.isClusterPushed u.user.owner = false := by
        rw [← Bool.not_eq_true, isClusterPushed_iff, not_not]
        exact hpushed
      have h₁ := hp.counted v
      simp only [hoff, Bool.false_eq_true, if_false]
      change st.pushCount v = _ + pushedEdges (st.toTopology.disconnect u) st.pushCount v
      rw [pushedEdges_disconnect hu, if_neg (fun h => h.2 hpushed)] at h₁
      exact h₁
    · simp only [isClusterPushed_iff.2 hpushed, if_true]
      exact (hp.disconnect_search hw.wellFormed hu hk hpushed htop hpush).2.2.2
  · have := hp.bounded v
    rw [outDegree_eq, pushedEdges_disconnect hu, ← outDegree_eq] at this
    simp only
    omega

lemma PushesCounted.init (hp : st.PushesCounted) (hc : st.WellFormed) (hs : st.CanInit s)
    (hnew : s ∉ st.services) (hk : (WireOp.init s).KeepsPushes st) : (st.init s).PushesCounted := by
  have hos : (st.layout.parent s).owner ≠ s := fun h => hnew (h ▸ hs.2.1)
  refine pushesCounted_of_wires (init_wires st s) (fun v => ?_) (fun v => ?_)
  · have hedges : pushedEdges (st.toTopology.insert s)
      (fun v => ((if st.layout.isClusterHead s = true
        then Function.update st.pushes s 0 else st.pushes) v).toNat) v =
        pushedEdges st.toTopology st.pushCount v := by
      refine pushedEdges_insert hc hnew (fun w hwmem => ?_) (fun hh => ?_) v
      · split
        · rw [Function.update_of_ne (fun h : w = s => hnew (h ▸ hwmem))]
          rfl
        · rfl
      · simp [hh]
    simp only [hedges]
    have h₁ := hp.counted v
    split
    · by_cases hv : v = s
      · -- the edges of other clusters do not start at a new one
        subst hv
        have hnone : pushedEdges st.toTopology st.pushCount v = 0 := by
          rw [pushedEdges, List.countP_eq_zero]
          intro e he
          have : st.clusterSource e ≠ v := fun h =>
            hnew (h ▸ (hc.cluster_mem (hc.source_mem he)).1)
          simp [this]
        simp [hnone, overridden]
      · simp only [Function.update_of_ne hv, overridden]
        exact h₁
    · exact h₁
  · have h₁ := outDegree_insert_le hc hnew v
    have h₂ := hp.bounded v
    have hcl : (st.toTopology.insert s).cluster (st.layout.parent s).owner =
        st.cluster (st.layout.parent s).owner := Function.update_of_ne hos _ _
    rw [hcl] at h₁
    split at h₁
    · rename_i hv
      have := hk hv.1
      rw [← hv.2] at this
      simp only
      omega
    · simp only
      omega

lemma PushesCounted.destroy (hp : st.PushesCounted) (hw : st.Wired) (hs : st.CanDestroy s)
    {k : State → ServiceId → State} : (st.destroy k s).PushesCounted := by
  have hc := hw.wellFormed
  obtain ⟨hmem, -, -, hchild, husages⟩ := id hs
  have hdegree : ∀ v, outDegree (st.toTopology.erase s) v + 1 < 2 ^ 16 := by
    intro v
    have h₁ := hp.bounded v
    rw [outDegree, (Topology.erase_edges hmem).countP_eq, List.countP_append] at h₁
    have h₂ : outDegree (st.toTopology.erase s) v =
      (st.toTopology.erase s).edges.countP fun e => st.clusterSource e = v := rfl
    omega
  cases hhead : st.layout.isClusterHead s with
  | false =>
    refine pushesCounted_of_wires (hw.destroy_member hs hhead) (fun v => ?_) hdegree
    simp only
    rw [pushedEdges_erase hc hmem (fun hh => by rw [hh] at hhead; cases hhead)]
    exact hp.counted v
  | true =>
    obtain ⟨st₁, hst₁, heq⟩ := hw.destroy_head (k := k) hmem hhead
    have htop₁ : st₁.toTopology = st.toTopology := congrArg Wires.toTopology hst₁
    have hover₁ : st₁.override = st.override := congrArg Wires.override hst₁
    have hcl : st.cluster s = s := hc.cluster_of_isClusterHead hmem hhead
    have hw₁ : st₁.Wired := by
      have hphase₁ : st₁.phase = st.phase := congrArg Wires.phase hst₁
      refine ⟨htop₁ ▸ hc, hw.unmarked.of_wires hst₁, ?_⟩
      rw [htop₁, hphase₁]
      exact hw.stopped
    have hp₁ : st₁.PushesCounted := hp.of_frame hst₁ rfl rfl rfl
    have hp₂ := hp₁.setOverride hw₁.wellFormed (htop₁ ▸ hmem) (htop₁ ▸ hhead) .none
    have h₂ := setOverride_wires st₁ s .none
    generalize st₁.setOverride s .none = st₂ at h₂ hp₂ heq
    have htop₂ : st₂.toTopology = st.toTopology := (congrArg Wires.toTopology h₂).trans htop₁
    have hover₂ : st₂.override = Function.update st.override s .none := by
      have : st₂.override = _ := congrArg Wires.override h₂
      rw [this, hover₁, htop₁, hcl]
    -- nothing pushes the cluster any more
    have hzero : st₂.pushCount s = 0 := by
      rw [hp₂.counted s, htop₂, hover₂, pushedEdges]
      simp only [overridden, Function.update_self, reduceCtorEq, if_false, zero_add]
      rw [List.countP_eq_zero]
      intro e he
      simp [hc.clusterSource_ne_of_unused hchild (fun u hu => (husages u hu).1) he]
    refine pushesCounted_of_wires heq (fun v => ?_) hdegree
    have h := hp₂.counted v
    rw [htop₂, hover₂, ← pushedEdges_erase hc hmem (fun _ => hzero)] at h
    exact h

theorem PushesCounted.exec {op : WireOp} (hp : st.PushesCounted) (hw : st.Wired) (hpre : op.Pre st)
    (hk : op.KeepsPushes st) : (op.exec st).PushesCounted := by
  cases op with
  | setOverride s mode => exact hp.setOverride hw.wellFormed hpre.1 hpre.2 mode
  | markForStop s set => exact hp.of_frame (hw.unmarked.doMarkClusterForStop s set) rfl rfl rfl
  | connect u => exact hp.connect hw.wellFormed hpre hk
  | disconnect u => exact hp.disconnect hw hpre hk
  | init s => exact hp.init hw.wellFormed hpre (hw.not_mem hpre) hk
  | destroy s => exact hp.destroy hw hpre

theorem pushesCounted_of_reachable {L : Layout}
    (h : (wiring L).Reachable (fun st op => op.KeepsPushes st) st) : st.PushesCounted :=
  h.invariant (fun _ h => h ▸ pushesCounted_initial L) fun _ _ hr hp hpre hk =>
    hp.exec (wired_of_reachable hr) hpre hk

/-! ### No decrement at zero -/

/-- Removing the override of a cluster decrements a counter that is zero. -/
def overrideRunsOut (st : State) (s : ServiceId) : Bool :=
  st.override (st.cluster s) != .none &&
    { st with override := Function.update st.override (st.cluster s) .none }.pushesRunOut s none

/-- `call_on_cluster_pushes_decrement` is called for the sources of these edges one after the other,
and decrements a counter that is zero. -/
def pushesRunOutAlong (me : ServiceId) : State → List Edge → Bool
  | _, [] => false
  | st, e :: es =>
    st.pushesRunOut (e.source st.layout) (some me) ||
      pushesRunOutAlong me (st.callOnClusterPushesDecrement (e.source st.layout) (some me)) es

end State

/-- The operation calls `call_on_cluster_pushes_decrement`, and this decrements a counter that is
zero. -/
def WireOp.RunsOutOfPushes (st : State) : WireOp → Bool
  | .setOverride s mode => mode == .none && st.overrideRunsOut s
  | .disconnect u =>
    let st := if st.isClusterMarkedForStop u.used.owner then
      st.onClusterPullsDecrement State.onServiceStartable (st.cluster u.user.owner) else st
    st.isClusterPushed u.user.owner && st.pushesRunOut u.used.owner (some u.user.owner)
  | .destroy s =>
    if st.layout.isClusterHead s then (st.transitionTargetSet s .none).overrideRunsOut s
    else st.isClusterPushed s && State.pushesRunOutAlong s st (st.inEdges .externalGraph s)
  | _ => false

namespace State

variable {st st' : State} {s h v : ServiceId} {u : Usage} {t : Topology}

/-- `pushes_` of every cluster is one for its override and one for each of its out edges to a
cluster that is pushed; this is what `verifyCluster` checks. -/
def PushesExact (st : State) : Prop :=
  ∀ h ∈ st.services, st.layout.isClusterHead h = true →
    (st.pushes h).toNat = (if st.override h = .start then 1 else 0) +
      (st.clusterOutEdges h).countP fun e => st.pushes (st.clusterTarget e) != 0

lemma PushesCounted.pushesExact (hp : st.PushesCounted) (hc : st.WellFormed) :
    st.PushesExact := by
  intro h hh hhead
  have hcl : st.cluster h = h := hc.cluster_of_isClusterHead hh hhead
  have hcount := hp.counted h
  rw [(hc.clusterOutEdges_perm hh hcl).countP_eq, List.countP_filter]
  rw [pushCount] at hcount
  rw [hcount, overridden, pushedEdges]
  congr 1
  refine List.countP_congr fun e _ => ?_
  simp only [decide_eq_true_eq, Bool.and_eq_true, bne_iff_ne, Ne, pushCount_eq_zero]
  exact and_comm

lemma PushesCounted.exact (hp : st.PushesCounted) (hw : st.Wired) : st.PushesExact :=
  hp.pushesExact hw.wellFormed

lemma PushesCounted.overrideRunsOut (hp : st.PushesCounted) (hw : st.Wired) (hs : s ∈ st.services)
    (hh : st.layout.isClusterHead s = true) : st.overrideRunsOut s = false := by
  have hcl : st.cluster s = s := hw.wellFormed.cluster_of_isClusterHead hs hh
  unfold State.overrideRunsOut
  rw [hcl]
  cases hstart : st.override s with
  | none => rfl
  | start => exact (hp.remove_override hw.wellFormed hs hcl hstart).1

lemma PushesCounted.disconnect_runsOut (hp : st.PushesCounted) (hw : st.Wired) (hu : u ∈ st.usages)
    (hk : (WireOp.disconnect u).KeepsPushes st) :
    (WireOp.disconnect u).RunsOutOfPushes st = false := by
  simp only [WireOp.RunsOutOfPushes]
  -- the pulls are counted first
  have hpull : ∃ st₁ : State, st₁ = (if st.isClusterMarkedForStop u.used.owner then
        st.onClusterPullsDecrement onServiceStartable (st.cluster u.user.owner) else st) ∧
      st₁.toTopology = st.toTopology ∧ st₁.pushes = st.pushes := by
    refine ⟨_, rfl, ?_⟩
    split
    · have hdec := hw.unmarked.onClusterPullsDecrement (k := onServiceStartable)
        (st.cluster u.user.owner)
      exact ⟨congrArg Wires.toTopology hdec, congrArg Wires.pushes hdec⟩
    · exact ⟨rfl, rfl⟩
  obtain ⟨st₁, hst₁, htop, hpush⟩ := hpull
  rw [← hst₁]
  cases hpushed : st₁.isClusterPushed u.user.owner with
  | false => rfl
  | true =>
    have : st.pushCount (st.cluster u.user.owner) ≠ 0 := by
      have := isClusterPushed_iff.1 hpushed
      rwa [pushCount, htop, hpush] at this
    rw [Bool.true_and]
    exact (hp.disconnect_search hw.wellFormed hu hk this htop hpush).1

lemma PushesCounted.destroy_runsOut (hp : st.PushesCounted) (hw : st.Wired) (hs : st.CanDestroy s) :
    (WireOp.destroy s).RunsOutOfPushes st = false := by
  have hc := hw.wellFormed
  obtain ⟨hmem, -, -, -, husages⟩ := id hs
  simp only [WireOp.RunsOutOfPushes]
  cases hhead : st.layout.isClusterHead s with
  | true =>
    have h₁ := transitionTargetSet_wires st s .none
    rw [if_pos rfl]
    generalize st.transitionTargetSet s .none = st₁ at h₁
    have htop : st₁.toTopology = st.toTopology := congrArg Wires.toTopology h₁
    have hphase : st₁.phase = st.phase := congrArg Wires.phase h₁
    have hw₁ : st₁.Wired := by
      refine ⟨htop ▸ hc, hw.unmarked.of_wires h₁, ?_⟩
      rw [htop, hphase]
      exact hw.stopped
    have hp₁ : st₁.PushesCounted := hp.of_frame h₁ rfl rfl rfl
    exact hp₁.overrideRunsOut hw₁ (htop ▸ hmem) (htop ▸ hhead)
  | false =>
    have hin := inEdges_external_of_isMember hc hmem hhead fun u hu => (husages u hu).2
    simp [hin, pushesRunOutAlong]

end State

/-- In every run whose steps meet the condition, `pushes_` is exact and never decremented at
zero. -/
theorem pushes_exact {L : Layout} {st : State}
    (h : (wiring L).Reachable (fun st op => op.KeepsPushes st) st) :
    st.PushesExact ∧
      ∀ op : WireOp, op.Pre st → op.KeepsPushes st → op.RunsOutOfPushes st = false := by
  have hw := State.wired_of_reachable h
  have hp := State.pushesCounted_of_reachable h
  refine ⟨hp.exact hw, fun op hpre hk => ?_⟩
  cases op with
  | setOverride s mode =>
    rw [WireOp.RunsOutOfPushes, hp.overrideRunsOut hw hpre.1 hpre.2, Bool.and_false]
  | disconnect u => exact hp.disconnect_runsOut hw hpre hk
  | destroy s => exact hp.destroy_runsOut hw hpre
  | _ => rfl

/-- Service 2 uses service 1. -/
def usage12 : Usage := ⟨0, Layout.exportOf 1, Layout.importOf 2, true⟩

/-- Service 1 uses service 2. -/
def usage21 : Usage := ⟨1, Layout.exportOf 2, Layout.importOf 1, true⟩

/-- The overridden service 2 releases service 1. -/
def releaseRun : List WireOp :=
  [.init 1, .init 2, .connect usage12, .setOverride 2 .start, .disconnect usage12]

theorem pushes_exact_releaseRun :
    (State.afterWiring .flat releaseRun).pushes 1 = 0 ∧
      (State.afterWiring .flat releaseRun).PushesExact := by
  refine ⟨by decide +kernel, (pushes_exact (L := .flat) (Machine.Reachable.run (.init rfl) ?_)).1⟩
  refine ⟨by decide, fun _ => by decide, by decide, fun _ => by decide, by decide,
    ⟨by decide, by decide⟩, by decide, trivial, by decide, .inr (.inr ⟨rfl, [2], by decide⟩),
    trivial⟩

/-- Two services use each other; one of them is started and stopped again. -/
def weakCycleRun : List WireOp :=
  [.init 1, .init 2, .connect usage12, .connect usage21, .setOverride 1 .start,
    .setOverride 1 .none]

/-- Every step is allowed, but the last search does not go on at the using service 2, so the root
still counts the edge to it. -/
theorem weakCycleRun_leaves_push :
    (wiring .flat).Admissible (fun _ _ => True) (.initial .flat)
        (weakCycleRun ++ [.disconnect usage12]) ∧
      (State.afterWiring .flat (weakCycleRun ++ [.disconnect usage12])).pushes 0 = 1 ∧
      (State.afterWiring .flat (weakCycleRun ++ [.disconnect usage12])).pushes 1 = 0 ∧
      (State.afterWiring .flat (weakCycleRun ++ [.disconnect usage12])).pushes 2 = 0 ∧
      ¬ (State.afterWiring .flat (weakCycleRun ++ [.disconnect usage12])).PushesExact := by
  refine ⟨by decide, by decide, by decide, by decide, fun h => ?_⟩
  exact absurd (h 0 (by decide) rfl) (by decide)

end Idle
