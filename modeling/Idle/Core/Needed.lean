import Idle.Core.Pushed
import Idle.Library.Cycle

/-!
# Clusters are kept alive as long as they are needed

A cluster is needed if it can reach an overridden one along the edges of the cluster graph. The
push counters count references instead. Both agree as long as no cycle of clusters loses the last
overridden cluster it could reach; the clusters of such a cycle would go on pushing each other.
-/

namespace Idle

open Relation

namespace Topology

/-- There is an edge from one cluster to an other. -/
def Leads (t : Topology) (a b : ServiceId) : Prop :=
  ∃ e ∈ t.edges, t.clusterSource e = a ∧ t.clusterTarget e = b

/-- A cluster can reach one that is overridden for start. -/
def Reaches (t : Topology) (override : ServiceId → Override) (a : ServiceId) : Prop :=
  ∃ m, override m = .start ∧ ReflTransGen t.Leads a m

variable {t t' : Topology} {override override' : ServiceId → Override} {a b : ServiceId}

lemma Reaches.head (h : t.Leads a b) (hb : t.Reaches override b) : t.Reaches override a := by
  obtain ⟨m, hm, hbm⟩ := hb
  exact ⟨m, hm, .head h hbm⟩

lemma Reaches.mono (h : t.Reaches override a) (ht : ∀ x y, t.Leads x y → t'.Leads x y)
    (ho : ∀ m, override m = .start → override' m = .start) : t'.Reaches override' a := by
  obtain ⟨m, hm, ham⟩ := h
  exact ⟨m, ho m hm, ReflTransGen.mono ht _ _ ham⟩

/-- Every cluster on a cycle that can reach `a` can reach an overridden cluster other than `b`. -/
def CyclesFed (t : Topology) (override : ServiceId → Override) (a b : ServiceId) : Prop :=
  ∀ c, TransGen t.Leads c c → ReflTransGen t.Leads c a →
    ∃ m, m ≠ b ∧ override m = .start ∧ ReflTransGen t.Leads c m

end Topology

namespace State

variable {st st' : State} {s h v : ServiceId} {u : Usage}

/-- Every pushed cluster is needed. -/
def Needed (st : State) : Prop := ∀ v, st.pushCount v ≠ 0 → st.Reaches st.override v

lemma PushesCounted.pos_of_override (hp : st.PushesCounted) (h : st.override v = .start) :
    st.pushCount v ≠ 0 := by
  rw [hp.counted v, overridden, if_pos h]
  omega

lemma PushesCounted.pos_of_leads (hp : st.PushesCounted) {w : ServiceId} (h : st.Leads v w)
    (hw : st.pushCount w ≠ 0) : st.pushCount v ≠ 0 := by
  obtain ⟨e, he, hsrc, htgt⟩ := h
  have : 0 < pushedEdges st.toTopology st.pushCount v :=
    List.countP_pos_iff.2 ⟨e, he, by simpa using ⟨hsrc, htgt.symm ▸ hw⟩⟩
  rw [hp.counted v]
  omega

/-- What is needed is pushed. -/
lemma PushesCounted.pos_of_reaches (hp : st.PushesCounted) (h : st.Reaches st.override v) :
    st.pushCount v ≠ 0 := by
  obtain ⟨m, hm, hvm⟩ := h
  induction hvm using ReflTransGen.head_induction_on with
  | refl => exact hp.pos_of_override hm
  | head hxy _ ih => exact hp.pos_of_leads hxy ih

/-- A pushed cluster is overridden or has an edge to a pushed one. -/
lemma PushesCounted.cases (hp : st.PushesCounted) (hv : st.pushCount v ≠ 0) :
    st.override v = .start ∨ ∃ w, st.Leads v w ∧ st.pushCount w ≠ 0 := by
  by_contra h
  push Not at h
  have hzero : pushedEdges st.toTopology st.pushCount v = 0 := by
    rw [pushedEdges, List.countP_eq_zero]
    intro e he
    simp only [decide_eq_true_eq, not_and, not_not]
    exact fun hsrc => h.2 _ ⟨e, he, hsrc, rfl⟩
  rw [hp.counted v, overridden, if_neg h.1, hzero] at hv
  exact hv rfl

/-- It is enough to look at the clusters on cycles. -/
theorem PushesCounted.needed (hp : st.PushesCounted)
    (h : ∀ c, TransGen st.Leads c c → st.pushCount c ≠ 0 → st.Reaches st.override c) :
    st.Needed := by
  intro v hv
  by_contra hno
  -- from a cluster that is pushed in vain one can walk on forever
  have hnext : ∀ x ∈ {x | st.pushCount x ≠ 0 ∧ ¬ st.Reaches st.override x},
      ∃ y ∈ {x | st.pushCount x ≠ 0 ∧ ¬ st.Reaches st.override x}, st.Leads x y := by
    rintro x ⟨hx, hxno⟩
    rcases hp.cases hx with ho | ⟨y, hxy, hy⟩
    · exact absurd ⟨x, ho, .refl⟩ hxno
    · exact ⟨y, ⟨hy, fun hry => hxno (hry.head hxy)⟩, hxy⟩
  have hfinite : {x | st.pushCount x ≠ 0 ∧ ¬ st.Reaches st.override x}.Finite := by
    refine (st.edges.map st.clusterSource).toFinset.finite_toSet.subset fun x hx => ?_
    obtain ⟨y, -, e, he, hsrc, -⟩ := hnext x hx
    simpa using ⟨e, he, hsrc⟩
  obtain ⟨c, ⟨hc, hcno⟩, hcycle⟩ := exists_cycle_of_finite hfinite ⟨hv, hno⟩ hnext
  exact hcno (h c hcycle hc)

end State

/-- What keeps exactly the needed clusters pushed. When an override is removed or a usage is
disconnected, every cycle of clusters that could reach it still reaches an overridden cluster. As
for the counters, a search has to start at a head, and the edges of a cluster have to be
countable. -/
def WireOp.KeepsNeeded (st : State) : WireOp → Prop
  | .setOverride s mode => mode = .none → st.override s = .start →
      st.CyclesFed st.override s s
  | .destroy s => st.layout.isClusterHead s = true → st.override s = .start →
      st.CyclesFed st.override s s
  | .disconnect u =>
    (st.pushes (st.cluster u.user.owner) = 0 ∨ st.pushes (st.cluster u.used.owner) ≠ 1 ∨
      st.layout.isClusterHead u.used.owner = true) ∧
    (st.pushes (st.cluster u.user.owner) ≠ 0 →
        ∀ c, TransGen (st.toTopology.disconnect u).Leads c c →
      ReflTransGen (st.toTopology.disconnect u).Leads c (st.cluster u.used.owner) →
        (st.toTopology.disconnect u).Reaches st.override c)
  | op => op.KeepsPushes st

namespace State

variable {st st' : State} {s h v : ServiceId} {u : Usage}

lemma needed_of_wires {w : Wires} (hw : st.wires = w)
    (h : ∀ v, w.pushes v ≠ 0 → w.Reaches w.override v) : st.Needed := by
  subst hw
  exact fun v hv => h v fun h0 => hv (pushCount_eq_zero.2 h0)

lemma Needed.of_pushes (hn : st.Needed) (hv : st.pushes v ≠ 0) : st.Reaches st.override v :=
  hn v fun h => hv (pushCount_eq_zero.1 h)

/-! ### The used cluster of a usage that is disconnected -/

/-- If the used cluster is only pushed through the usage, then a path from the using cluster to an
overridden one does not need it. -/
lemma Needed.supported (hn : st.Needed) (hp : st.PushesCounted) (hu : u ∈ st.usages)
    (hpushed : st.pushCount (st.cluster u.user.owner) ≠ 0)
    (hone : st.pushCount (st.cluster u.used.owner) = 1) : st.Supported u := by
  have hu' : .usage u ∈ st.edges := Topology.mem_edges_usage.2 hu
  have hcount := hp.counted (st.cluster u.used.owner)
  have hedge : pushedEdges st.toTopology st.pushCount (st.cluster u.used.owner) =
      pushedEdges (st.toTopology.disconnect u) st.pushCount (st.cluster u.used.owner) + 1 := by
    rw [pushedEdges_disconnect hu, if_pos ⟨rfl, hpushed⟩]
  have hover : st.override (st.cluster u.used.owner) ≠ .start := by
    intro h
    rw [overridden, if_pos h] at hcount
    omega
  -- its only edge to a pushed cluster is the usage
  have honly : ∀ w, st.Leads (st.cluster u.used.owner) w → st.pushCount w ≠ 0 →
      w = st.cluster u.user.owner := by
    rintro w ⟨e, he, hsrc, rfl⟩ hw
    have hperm := (Topology.disconnect_edges hu).mem_iff.1 he
    rcases List.mem_cons.1 hperm with rfl | he'
    · rfl
    · have : 0 < pushedEdges (st.toTopology.disconnect u) st.pushCount
          (st.cluster u.used.owner) :=
        List.countP_pos_iff.2 ⟨e, he', by simpa using ⟨hsrc, hw⟩⟩
      omega
  obtain ⟨m, hm, hpath⟩ := hn _ hpushed
  -- along the path, the support of the rest or of the using cluster
  suffices h : ∀ v, ReflTransGen st.Leads v m →
      (∃ keep : List ServiceId, v ∈ keep ∧ st.cluster u.used.owner ∉ keep ∧
        ∀ v ∈ keep, st.pushes v ≠ 0 ∧ (st.override v = .start ∨
          ∃ e ∈ st.edges, st.clusterSource e = v ∧ st.clusterTarget e ∈ keep)) ∨ st.Supported u by
    rcases h _ hpath with h | h
    · exact h
    · exact h
  intro v hvm
  induction hvm using ReflTransGen.head_induction_on with
  | refl =>
    refine .inl ⟨[m], List.mem_singleton_self m, ?_, ?_⟩
    · rw [List.mem_singleton]
      rintro rfl
      exact hover hm
    · intro v hv
      rw [List.mem_singleton] at hv
      subst hv
      exact ⟨fun h0 => hp.pos_of_override hm (pushCount_eq_zero.2 h0), .inl hm⟩
  | @head x y hxy hym ih =>
    rcases ih with ⟨keep, hy, hused, hkeep⟩ | ih
    · have hypos : st.pushCount y ≠ 0 := hp.pos_of_reaches ⟨m, hm, hym⟩
      by_cases hx : x = st.cluster u.used.owner
      · subst hx
        rw [honly y hxy hypos] at hy
        exact .inr ⟨keep, hy, hused, hkeep⟩
      · refine .inl ⟨x :: keep, List.mem_cons_self, ?_, ?_⟩
        · rw [List.mem_cons, not_or]
          exact ⟨fun h => hx h.symm, hused⟩
        · intro w hw
          rcases List.mem_cons.1 hw with rfl | hw
          · obtain ⟨e, he, hsrc, htgt⟩ := hxy
            refine ⟨fun h0 => hp.pos_of_leads ⟨e, he, hsrc, htgt⟩ hypos (pushCount_eq_zero.2 h0),
              .inr ⟨e, he, hsrc, ?_⟩⟩
            rw [htgt]
            exact List.mem_cons_of_mem _ hy
          · obtain ⟨h₁, h₂⟩ := hkeep w hw
            refine ⟨h₁, h₂.imp id ?_⟩
            rintro ⟨e, he, hsrc, htgt⟩
            exact ⟨e, he, hsrc, List.mem_cons_of_mem _ htgt⟩
    · exact .inr ih

lemma Needed.keepsPushes {op : WireOp} (hn : st.Needed) (hp : st.PushesCounted) (hpre : op.Pre st)
    (hk : op.KeepsNeeded st) : op.KeepsPushes st := by
  cases op with
  | setOverride s mode => trivial
  | markForStop s set => trivial
  | connect u => exact hk
  | init s => exact hk
  | destroy s => trivial
  | disconnect u =>
    rcases hk.1 with h | h | h
    · exact .inl h
    · exact .inr (.inl h)
    · by_cases hpushed : st.pushes (st.cluster u.user.owner) = 0
      · exact .inl hpushed
      by_cases hone : st.pushes (st.cluster u.used.owner) = 1
      · exact .inr (.inr ⟨h, hn.supported hp hpre (mt pushCount_eq_zero.1 hpushed)
          (pushCount_eq_one.2 hone)⟩)
      · exact .inr (.inl hone)

/-! ### The operations -/

lemma Needed.setOverride (hn : st.Needed) (hp : st.PushesCounted) (hw : st.Wired)
    (hs : s ∈ st.services) (hh : st.layout.isClusterHead s = true) {mode : Override}
    (hk : mode = .none → st.override s = .start → st.CyclesFed st.override s s) :
    (st.setOverride s mode).Needed := by
  have hc := hw.wellFormed
  have hcl : st.cluster s = s := hc.cluster_of_isClusterHead hs hh
  have hp' := hp.setOverride hw.wellFormed hs hh mode
  have heq := setOverride_wires st s mode
  rw [hcl] at heq
  have htop' : (st.setOverride s mode).toTopology = st.toTopology := congrArg Wires.toTopology heq
  have hover' : (st.setOverride s mode).override = _ := congrArg Wires.override heq
  by_cases hmode : st.override s = mode
  · have : st.setOverride s mode = st := by
      simp [State.setOverride, hcl, hmode]
    rwa [this]
  · cases mode with
    | start =>
      have hpushes : (st.setOverride s .start).pushes =
          (({ st with override := Function.update st.override s .start } :
            State).callOnClusterPushesIncrement s none).pushes := by
        simp only [State.setOverride, hcl, ne_eq, hmode, not_false_eq_true, if_true]
      refine needed_of_wires heq fun v hv => ?_
      by_cases hvs : ReflTransGen st.Leads v s
      · exact ⟨s, Function.update_self _ _ _, hvs⟩
      · -- the search did not get here
        have hc₁ : ({ st with override := Function.update st.override s .start } :
          State).WellFormed := hc
        have hclosed : ∀ e ∈ st.edges, ReflTransGen st.Leads (st.clusterTarget e) s →
            ReflTransGen st.Leads (st.clusterSource e) s :=
          fun e he h => .head ⟨e, he, rfl, rfl⟩ h
        have hsame := callOnClusterPushesIncrement_pushes_eq
          (R := fun w => ReflTransGen st.Leads w s) hc₁ hs (.inl hcl) (by rw [hcl]) hclosed none hvs
        rw [← hpushes] at hsame
        -- what the search does not reach was pushed before, hence needed before
        have hold : st.pushes v ≠ 0 := fun h0 => hv (hsame.trans h0)
        refine (hn.of_pushes hold).mono (fun _ _ h => h) fun m hm => ?_
        by_cases hms : m = s
        · subst hms
          exact Function.update_self _ _ _
        · exact (Function.update_of_ne hms _ _).trans hm
    | none =>
      have hstart : st.override s = .start := by
        cases h : st.override s with
        | start => rfl
        | none => exact absurd h hmode
      -- taking the override back pushes nothing
      have hle : ∀ v, (st.setOverride s .none).pushCount v ≤ st.pushCount v := by
        have hpushes : (st.setOverride s .none).pushes =
            (({ st with override := Function.update st.override s .none } :
              State).callOnClusterPushesDecrement s none).pushes := by
          simp only [State.setOverride, hcl, ne_eq, hmode, not_false_eq_true, if_true,
            reduceCtorEq, if_false]
        intro v
        have := (hp.remove_override hw.wellFormed hs hcl hstart).2.1 v
        rwa [pushCount, ← hpushes] at this
      refine hp'.needed fun c hcycle hcpos => ?_
      rw [htop'] at hcycle ⊢
      rw [hover']
      obtain ⟨m, hm, hcm⟩ := hn c fun h => hcpos (Nat.le_zero.1 (h ▸ hle c))
      by_cases hms : m = s
      · -- a cycle that only this override fed is excluded by the condition
        subst hms
        obtain ⟨m', hne, hm', hcm'⟩ := hk rfl hstart c hcycle hcm
        exact ⟨m', (Function.update_of_ne hne _ _).trans hm', hcm'⟩
      · exact ⟨m, (Function.update_of_ne hms _ _).trans hm, hcm⟩

lemma leads_connect {t : Topology} {x y : ServiceId} (h : t.Leads x y) :
    (t.connect u).Leads x y := by
  obtain ⟨e, he, hsrc, htgt⟩ := h
  refine ⟨e, ?_, hsrc, htgt⟩
  rw [Topology.connect_edges]
  exact List.mem_append_left _ he

lemma Needed.connect (hn : st.Needed) (hw : st.Wired) (hu : st.CanConnect u)
    (hk : (WireOp.connect u).KeepsPushes st) : (st.connect u).Needed := by
  obtain ⟨hid, hused, hexports, huser, himports, hdiff⟩ := hu
  have hc := hw.wellFormed.connect hid hused hexports huser himports hdiff
  obtain ⟨st₁, htop, hpush, heq⟩ := connect_wires st u
  refine needed_of_wires heq fun v hv => ?_
  have hold : st.pushes v ≠ 0 → (st.toTopology.connect u).Reaches st.override v := fun h =>
    (hn.of_pushes h).mono (fun _ _ => leads_connect) fun _ hm => hm
  simp only at hv ⊢
  split at hv
  · rename_i hpushed
    have hupos := isClusterPushed_iff.1 hpushed
    by_cases hvs : ReflTransGen (st.toTopology.connect u).Leads v (st.cluster u.used.owner)
    · -- from the used cluster the new edge leads on
      obtain ⟨m, hm, hpath⟩ := hn _ hupos
      refine ⟨m, hm, hvs.trans (.head ?_ (ReflTransGen.mono (fun _ _ => leads_connect) _ _ hpath))⟩
      refine ⟨.usage u, ?_, rfl, rfl⟩
      rw [Topology.connect_edges]
      exact List.mem_append_right _ (List.mem_singleton_self _)
    · -- the search starts at the head or where it is pushed already
      have hcl : st₁.cluster = st.cluster := by rw [htop]; rfl
      have hhead : st₁.cluster u.used.owner = u.used.owner ∨
          st₁.pushCount (st₁.cluster u.used.owner) ≠ 0 := by
        rw [pushCount, hcl, hpush]
        rcases hk.1 with h | h | h
        · exact .inl (hw.wellFormed.cluster_of_isClusterHead hused h)
        · exact absurd (pushCount_eq_zero.2 h) hupos
        · exact .inr fun h0 => h (UInt16.toNat_inj.1 h0)
      have hclosed : ∀ e ∈ st₁.edges,
          ReflTransGen (st.toTopology.connect u).Leads (st₁.clusterTarget e)
              (st.cluster u.used.owner) →
          ReflTransGen (st.toTopology.connect u).Leads (st₁.clusterSource e)
            (st.cluster u.used.owner) := by
        rw [htop]
        exact fun e he h => .head ⟨e, he, rfl, rfl⟩ h
      have hmem : u.used.owner ∈ st₁.services := by
        rw [htop]
        exact hused
      -- elsewhere the increment changes nothing
      have hsame := callOnClusterPushesIncrement_pushes_eq
        (R := fun w => ReflTransGen (st.toTopology.connect u).Leads w (st.cluster u.used.owner))
        (htop ▸ hc) hmem hhead (by rw [hcl]) hclosed (some u.user.owner) hvs
      rw [hsame, hpush] at hv
      exact hold hv
  · exact hold hv

/-- A path without the usage, or up to its first use. -/
lemma leads_disconnect {t : Topology} (hu : u ∈ t.usages) {x y : ServiceId} (h : t.Leads x y) :
    (t.disconnect u).Leads x y ∨ x = t.cluster u.used.owner ∧ y = t.cluster u.user.owner := by
  obtain ⟨e, he, hsrc, htgt⟩ := h
  rcases List.mem_cons.1 ((Topology.disconnect_edges hu).mem_iff.1 he) with rfl | he
  · exact .inr ⟨hsrc.symm, htgt.symm⟩
  · exact .inl ⟨e, he, hsrc, htgt⟩

lemma Needed.disconnect (hn : st.Needed) (hp : st.PushesCounted) (hw : st.Wired)
    (hu : u ∈ st.usages)
    (hk : (WireOp.disconnect u).KeepsNeeded st) {k : State → ServiceId → State} :
    (st.disconnect k u).Needed := by
  have hkp := hn.keepsPushes hp (show (WireOp.disconnect u).Pre st from hu) hk
  have hp' := hp.disconnect hw hu hkp (k := k)
  obtain ⟨st₁, htop, hpush, heq⟩ := hw.unmarked.disconnect_wires (k := k) u
  have htop' : (st.disconnect k u).toTopology = st.toTopology.disconnect u :=
    congrArg Wires.toTopology heq
  have hover' : (st.disconnect k u).override = st.override := congrArg Wires.override heq
  have hpushes' : (st.disconnect k u).pushes = _ := congrArg Wires.pushes heq
  by_cases hpushed : st.pushCount (st.cluster u.user.owner) = 0
  · -- no path to an overridden cluster uses the usage
    refine needed_of_wires heq fun v hv => ?_
    have hoff : st.isClusterPushed u.user.owner = false := by
      rw [← Bool.not_eq_true, isClusterPushed_iff, not_not]
      exact hpushed
    simp only [hoff, Bool.false_eq_true, if_false] at hv
    obtain ⟨m, hm, hvm⟩ := hn.of_pushes hv
    rcases hvm.avoid (fun _ _ => leads_disconnect hu) with h | ⟨-, h⟩
    · exact ⟨m, hm, h⟩
    · exact absurd hpushed (hp.pos_of_reaches ⟨m, hm, h⟩)
  · have hle : ∀ v, (st.disconnect k u).pushCount v ≤ st.pushCount v := by
      intro v
      have := (hp.disconnect_search hw.wellFormed hu hkp hpushed htop hpush).2.2.1 v
      rw [pushCount, hpushes']
      simp only [isClusterPushed_iff.2 hpushed, if_true]
      exact this
    refine hp'.needed fun c hcycle hcpos => ?_
    rw [htop'] at hcycle ⊢
    rw [hover']
    obtain ⟨m, hm, hcm⟩ := hn c fun h => hcpos (Nat.le_zero.1 (h ▸ hle c))
    rcases hcm.avoid (fun _ _ => leads_disconnect hu) with h | ⟨h, -⟩
    · exact ⟨m, hm, h⟩
    · exact hk.2 (mt pushCount_eq_zero.2 hpushed) c hcycle h

lemma Needed.init (hn : st.Needed) (hw : st.Wired) (hs : st.CanInit s) : (st.init s).Needed := by
  have hc := hw.wellFormed
  have hnew := hw.not_mem hs
  refine needed_of_wires (init_wires st s) fun v hv => ?_
  have hold : st.pushes v ≠ 0 := by
    intro h0
    apply hv
    simp only
    split
    · by_cases hvs : v = s
      · rw [hvs, Function.update_self]
      · rw [Function.update_of_ne hvs, h0]
    · exact h0
  obtain ⟨m, hm, hvm⟩ := hn.of_pushes hold
  refine ⟨m, ?_, ReflTransGen.mono (fun x y h => ?_) _ _ hvm⟩
  · simp only
    split
    · -- no path ends at the new cluster
      rename_i hh
      have hms : m ≠ s := by
        rintro rfl
        rcases hvm.cases_tail with rfl | ⟨x, -, e, he, -, htgt⟩
        · exact hv (by simp [hh])
        · exact hnew (htgt ▸ (hc.cluster_mem (hc.target_mem he)).1)
      rwa [Function.update_of_ne hms]
    · exact hm
  · obtain ⟨e, he, hsrc, htgt⟩ := h
    refine ⟨e, ?_, ?_, ?_⟩
    · exact (Topology.insert_edges st.toTopology s).mem_iff.2 (List.mem_append_right _ he)
    · rw [hc.insert_clusterSource hnew he, hsrc]
    · rw [hc.insert_clusterTarget hnew he, htgt]

lemma Needed.destroy (hn : st.Needed) (hp : st.PushesCounted) (hw : st.Wired) (hs : st.CanDestroy s)
    (hk : (WireOp.destroy s).KeepsNeeded st) {k : State → ServiceId → State} :
    (st.destroy k s).Needed := by
  have hc := hw.wellFormed
  obtain ⟨hmem, -, -, hchild, husages⟩ := id hs
  cases hhead : st.layout.isClusterHead s with
  | false =>
    -- the edges are the same
    refine needed_of_wires (hw.destroy_member hs hhead) fun v hv => ?_
    refine (hn.of_pushes hv).mono (fun x y h => ?_) fun _ hm => hm
    obtain ⟨e, he, hsrc, htgt⟩ := h
    refine ⟨e, ?_, hsrc, htgt⟩
    rcases List.mem_append.1 ((Topology.erase_edges hmem).mem_iff.1 he) with h | h
    · exact absurd (hhead.symm.trans (Topology.mem_ownEdge.1 h).2.1) Bool.false_ne_true
    · exact h
  | true =>
    obtain ⟨st₁, hst₁, heq⟩ := hw.destroy_head (k := k) hmem hhead
    have htop₁ : st₁.toTopology = st.toTopology := congrArg Wires.toTopology hst₁
    have hover₁ : st₁.override = st.override := congrArg Wires.override hst₁
    have hpush₁ : st₁.pushes = st.pushes := congrArg Wires.pushes hst₁
    have hcl : st.cluster s = s := hc.cluster_of_isClusterHead hmem hhead
    have hw₁ : st₁.Wired := by
      have hphase₁ : st₁.phase = st.phase := congrArg Wires.phase hst₁
      refine ⟨htop₁ ▸ hc, hw.unmarked.of_wires hst₁, ?_⟩
      rw [htop₁, hphase₁]
      exact hw.stopped
    have hn₁ : st₁.Needed := needed_of_wires hst₁ fun v hv => hn.of_pushes hv
    have hn₂ : (st₁.setOverride s .none).Needed :=
      hn₁.setOverride (hp.of_frame hst₁ rfl rfl rfl) hw₁ (htop₁ ▸ hmem) (htop₁ ▸ hhead)
        (by rw [htop₁, hover₁]; exact fun _ => hk hhead)
    have h₂ := setOverride_wires st₁ s .none
    generalize st₁.setOverride s .none = st₂ at h₂ hn₂ heq
    have htop₂ : st₂.toTopology = st.toTopology := (congrArg Wires.toTopology h₂).trans htop₁
    have hover₂ : st₂.override = Function.update st.override s .none := by
      have : st₂.override = _ := congrArg Wires.override h₂
      rw [this, hover₁, htop₁, hcl]
    refine needed_of_wires heq fun v hv => ?_
    obtain ⟨m, hm, hvm⟩ := hn₂.of_pushes hv
    rw [hover₂] at hm
    rw [htop₂] at hvm
    have hms : m ≠ s := by
      rintro rfl
      rw [Function.update_self] at hm
      cases hm
    -- nothing goes on from the cluster that leaves
    refine ⟨m, hm, hvm.avoid_sink (c := s) ?_ ?_ hms⟩
    · rintro y ⟨e, he, hsrc, -⟩
      exact hc.clusterSource_ne_of_unused hchild (fun u hu => (husages u hu).1) he hsrc
    · rintro x y ⟨e, he, hsrc, htgt⟩ hys
      refine ⟨e, ?_, hsrc, htgt⟩
      rcases List.mem_append.1 ((Topology.erase_edges hmem).mem_iff.1 he) with h | h
      · obtain ⟨rfl, -, -⟩ := Topology.mem_ownEdge.1 h
        exact absurd (htgt.symm.trans hcl) hys
      · exact h

theorem Needed.exec {op : WireOp} (hn : st.Needed) (hp : st.PushesCounted) (hw : st.Wired)
    (hpre : op.Pre st) (hk : op.KeepsNeeded st) : (op.exec st).Needed := by
  cases op with
  | setOverride s mode => exact hn.setOverride hp hw hpre.1 hpre.2 hk
  | markForStop s set =>
    exact needed_of_wires (hw.unmarked.doMarkClusterForStop s set) fun v hv => hn.of_pushes hv
  | connect u => exact hn.connect hw hpre hk
  | disconnect u => exact hn.disconnect hp hw hpre hk
  | init s => exact hn.init hw hpre
  | destroy s => exact hn.destroy hp hw hpre hk

/-! ### The graph of the source -/

/-- An out edge in the `ClusterDependencyGraph`. -/
def Next (st : State) (a b : ServiceId) : Prop :=
  ∃ e ∈ st.clusterOutEdges a, st.clusterTarget e = b

/-- A cluster is pushed if and only if it is overridden for start or can reach a cluster that is. -/
def KeptAsNeeded (st : State) : Prop :=
  ∀ h ∈ st.services, st.layout.isClusterHead h = true →
    (st.isClusterPushed h = true ↔
      ∃ m ∈ st.services, st.layout.isClusterHead m = true ∧ st.override m = .start ∧
        ReflTransGen st.Next h m)

lemma next_iff_leads (hw : st.Wired) {a b : ServiceId} (ha : a ∈ st.services)
    (hcl : st.cluster a = a) : st.Next a b ↔ st.Leads a b := by
  have hperm := fun e => (hw.wellFormed.clusterOutEdges_perm ha hcl).mem_iff (a := e)
  unfold Next Topology.Leads
  simp only [hperm, List.mem_filter, decide_eq_true_eq, and_assoc]

/-- Paths from a head are the same, and stay at heads. -/
lemma path_iff (hw : st.Wired) {a b : ServiceId} (ha : a ∈ st.services) (hcl : st.cluster a = a) :
    ReflTransGen st.Next a b ↔ ReflTransGen st.Leads a b := by
  have hc := hw.wellFormed
  have hhead : ∀ {x y}, st.Leads x y → y ∈ st.services ∧ st.cluster y = y := by
    rintro x y ⟨e, he, -, rfl⟩
    exact ⟨(hc.cluster_mem (hc.target_mem he)).1, hc.cluster_cluster (hc.target_mem he)⟩
  constructor
  · intro h
    suffices ReflTransGen st.Leads a b ∧ b ∈ st.services ∧ st.cluster b = b from this.1
    induction h with
    | refl => exact ⟨.refl, ha, hcl⟩
    | tail _ hxy ih =>
      have hxy' := (next_iff_leads hw ih.2.1 ih.2.2).1 hxy
      exact ⟨ih.1.tail hxy', hhead hxy'⟩
  · intro h
    suffices ReflTransGen st.Next a b ∧ b ∈ st.services ∧ st.cluster b = b from this.1
    induction h with
    | refl => exact ⟨.refl, ha, hcl⟩
    | tail _ hxy ih => exact ⟨ih.1.tail ((next_iff_leads hw ih.2.1 ih.2.2).2 hxy), hhead hxy⟩

end State

/-- In every run in which no cycle of clusters loses the last overridden cluster it could reach, a
cluster is kept alive exactly as long as it is needed. -/
theorem kept_as_needed {L : Layout} {st : State}
    (h : (wiring L).Reachable (fun st op => op.KeepsNeeded st) st) : st.KeptAsNeeded := by
  have hw := State.wired_of_reachable h
  have hboth : st.PushesCounted ∧ st.Needed := by
    refine h.invariant (P := fun st => st.PushesCounted ∧ st.Needed) ?_ ?_
    · rintro _ rfl
      exact ⟨State.pushesCounted_initial L, fun v hv => absurd rfl hv⟩
    · rintro st op hr ⟨hp, hn⟩ hpre hk
      have hw := State.wired_of_reachable hr
      exact ⟨hp.exec hw hpre (hn.keepsPushes hp hpre hk), hn.exec hp hw hpre hk⟩
  obtain ⟨hp, hn⟩ := hboth
  have hc := hw.wellFormed
  intro a ha hhead
  have hcl : st.cluster a = a := hc.cluster_of_isClusterHead ha hhead
  rw [State.isClusterPushed_iff, hcl]
  constructor
  · intro hpos
    obtain ⟨m, hm, ham⟩ := hn a hpos
    have hmhead : m ∈ st.services ∧ st.cluster m = m := by
      rcases ham.cases_tail with rfl | ⟨x, -, e, he, -, rfl⟩
      · exact ⟨ha, hcl⟩
      · exact ⟨(hc.cluster_mem (hc.target_mem he)).1, hc.cluster_cluster (hc.target_mem he)⟩
    exact ⟨m, hmhead.1, (hc.isClusterHead_iff hmhead.1).2 hmhead.2, hm,
      (State.path_iff hw ha hcl).2 ham⟩
  · rintro ⟨m, -, -, hm, ham⟩
    exact hp.pos_of_reaches ⟨m, hm, (State.path_iff hw ha hcl).1 ham⟩

/-- Service 2 uses service 1 and is started. -/
def neededRun : List WireOp := [.init 1, .init 2, .connect usage12, .setOverride 2 .start]

theorem kept_as_needed_neededRun :
    (State.afterWiring .flat neededRun).pushes 1 = 1 ∧
      (State.afterWiring .flat neededRun).KeptAsNeeded := by
  refine ⟨by decide +kernel, kept_as_needed (L := .flat) (Machine.Reachable.run (.init rfl) ?_)⟩
  refine ⟨by decide, fun _ => by decide, by decide, fun _ => by decide, by decide,
    ⟨by decide, by decide⟩, by decide, fun h => ?_, trivial⟩
  cases h

/-- Every step is allowed, nothing is overridden any more, but the two services of the cycle push
each other. -/
theorem weakCycleRun_keeps_pushing :
    (wiring .flat).Admissible (fun _ _ => True) (.initial .flat) weakCycleRun ∧
      (∀ m ∈ (State.afterWiring .flat weakCycleRun).services,
        (State.afterWiring .flat weakCycleRun).override m ≠ .start) ∧
      (State.afterWiring .flat weakCycleRun).isClusterPushed 1 = true ∧
      (State.afterWiring .flat weakCycleRun).isClusterPushed 2 = true ∧
      ¬ (State.afterWiring .flat weakCycleRun).KeptAsNeeded := by
  have hnone : ∀ m ∈ (State.afterWiring .flat weakCycleRun).services,
      (State.afterWiring .flat weakCycleRun).override m ≠ .start := by decide +kernel
  have hpushed : (State.afterWiring .flat weakCycleRun).isClusterPushed 1 = true := by
    decide +kernel
  refine ⟨by decide +kernel, hnone, hpushed, by decide +kernel, fun h => ?_⟩
  obtain ⟨m, hm, -, hover, -⟩ := (h 1 (by decide +kernel) (by decide +kernel)).1 hpushed
  exact hnone m hm hover

end Idle
