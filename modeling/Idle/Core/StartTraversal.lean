import Idle.Core.DfsMark
import Idle.Core.Pushes
import Idle.Core.Wiring
import Idle.Core.Sample

/-!
# The start traversal

`Scheduler::on_service_start_request` follows the dependencies of a cluster backwards and marks
what it visits for start. The filter of its edges reads these marks.
-/

namespace Idle

namespace State

variable {st x : State} {c h m : ServiceId}

/-! ### Queueing -/

@[simp] lemma mem_insertSorted {q : List ServiceId} {s : ServiceId} :
    m ∈ insertSorted q s ↔ m = s ∨ m ∈ q := by
  unfold insertSorted
  split
  · rename_i hs
    exact ⟨.inr, fun h => h.elim (fun h => h ▸ hs) id⟩
  · exact List.mem_orderedInsert _

/-- Only the queue changes, to which the startable ones of some services are added. -/
lemma foldl_pushUp (l : List ServiceId) (st : State) :
    ∃ up, l.foldl (fun st m => if st.isStartable m then st.pushUp m else st) st =
        { st with up := up } ∧ ∀ m, m ∈ up ↔ m ∈ st.up ∨ m ∈ l ∧ st.isStartable m = true := by
  induction l generalizing st with
  | nil => exact ⟨st.up, rfl, by simp⟩
  | cons s l ih =>
    rw [List.foldl_cons]
    split
    · rename_i hs
      obtain ⟨up, heq, hup⟩ := ih (st.pushUp s)
      refine ⟨up, heq, fun m => ?_⟩
      rw [hup]
      by_cases hm : m = s
      · simp [pushUp, hm, hs]
      · simp [pushUp, hm]
    · rename_i hs
      obtain ⟨up, heq, hup⟩ := ih st
      refine ⟨up, heq, fun m => ?_⟩
      rw [hup]
      by_cases hm : m = s
      · simp [hm, hs]
      · simp [hm]

lemma insertIntoQueueIfStartable_eq (st : State) (h : ServiceId) :
    ∃ up, st.insertIntoQueueIfStartable h = { st with up := up } ∧
      ∀ m, m ∈ up ↔ m ∈ st.up ∨
        st.shallClusterStart h = true ∧ m ∈ st.clusterMembers h ∧ st.isStartable m = true := by
  unfold insertIntoQueueIfStartable
  split
  · rename_i hshall
    obtain ⟨up, heq, hup⟩ := foldl_pushUp (st.clusterMembers h) st
    exact ⟨up, heq, fun m => by simp [hup, hshall]⟩
  · rename_i hshall
    exact ⟨st.up, rfl, by simp [hshall]⟩

/-! ### What the traversal reaches -/

/-- An edge of the reversed graph to a cluster where the traversal progresses further. -/
def StartStep (st : State) (v t : ServiceId) : Prop :=
  ∃ e ∈ st.clusterInEdges v, st.clusterSource e = t ∧ st.startTraversalProgressesFurther t = true

/-- The clusters that a start request reaches from its own. -/
def StartReached (st : State) (c : ServiceId) : ServiceId → Prop :=
  Relation.ReflTransGen st.StartStep c

/-- The clusters that are visited or that an edge leads to from a visited one. -/
def StartMet (st : State) (c h : ServiceId) : Prop :=
  st.StartReached c h ∨ ∃ v, st.StartReached c v ∧ ∃ e ∈ st.clusterInEdges v, st.clusterSource e = h

/-- The graph that the traversal marks. -/
def startGraph (st : State) : MarkGraph ServiceId Edge where
  edges := st.edges
  src := st.clusterTarget
  tgt := st.clusterSource
  free _ := true
  blocked h := (st.phase h).isRunning && !st.isMarkedForStop h

lemma startTraversalProgressesFurther_iff (hh : st.cluster h = h) :
    st.startTraversalProgressesFurther h = true ↔
      st.startGraph.blocked h = false ∧ st.isMarkedForStart h = false := by
  simp only [startTraversalProgressesFurther, isClusterMarkedForStop, isClusterMarkedForStart, hh,
    startGraph]
  cases (st.phase h).isRunning && !st.isMarkedForStop h <;> simp

section Graph

variable (hc : st.WellFormed)
include hc

lemma clusterSource_isHead {e : Edge} (he : e ∈ st.edges) :
    st.clusterSource e ∈ st.services ∧ st.cluster (st.clusterSource e) = st.clusterSource e :=
  ⟨(hc.cluster_mem (hc.source_mem he)).1, hc.cluster_cluster (hc.source_mem he)⟩

lemma mem_clusterInEdges (hs : h ∈ st.services) (hh : st.cluster h = h) {e : Edge} :
    e ∈ st.clusterInEdges h ↔ e ∈ st.edges ∧ st.clusterTarget e = h := by
  rw [(hc.clusterInEdges_perm hs hh).mem_iff, List.mem_filter, decide_eq_true_eq]

lemma startReached_isHead (hs : c ∈ st.services) (hh : st.cluster c = c)
    (h : st.startGraph.Reached st.isMarkedForStart c m) : m ∈ st.services ∧ st.cluster m = m := by
  induction h with
  | refl => exact ⟨hs, hh⟩
  | tail _ hstep _ =>
    obtain ⟨e, he, -, -, rfl, -⟩ := hstep
    exact clusterSource_isHead hc he

lemma startGraph_step_iff (hs : h ∈ st.services) (hh : st.cluster h = h) :
    st.startGraph.Step st.isMarkedForStart h m ↔ st.StartStep h m := by
  constructor
  · rintro ⟨e, he, -, hsrc, rfl, hblocked, hmark⟩
    refine ⟨e, (mem_clusterInEdges hc hs hh).2 ⟨he, hsrc⟩, rfl, ?_⟩
    exact (startTraversalProgressesFurther_iff (clusterSource_isHead hc he).2).2
      ⟨hblocked, hmark⟩
  · rintro ⟨e, he, rfl, hprog⟩
    obtain ⟨hedge, htarget⟩ := (mem_clusterInEdges hc hs hh).1 he
    obtain ⟨hblocked, hmark⟩ :=
      (startTraversalProgressesFurther_iff (clusterSource_isHead hc hedge).2).1 hprog
    exact ⟨e, hedge, rfl, htarget, rfl, hblocked, hmark⟩

lemma startGraph_reached_iff (hs : c ∈ st.services) (hh : st.cluster c = c) :
    st.startGraph.Reached st.isMarkedForStart c m ↔ st.StartReached c m := by
  constructor
  · intro h
    induction h with
    | refl => exact .refl
    | tail hprev hstep ih =>
      obtain ⟨hs', hh'⟩ := startReached_isHead hc hs hh hprev
      exact ih.tail ((startGraph_step_iff hc hs' hh').1 hstep)
  · intro h
    induction h with
    | refl => exact .refl
    | tail _ hstep ih =>
      obtain ⟨hs', hh'⟩ := startReached_isHead hc hs hh ih
      exact ih.tail ((startGraph_step_iff hc hs' hh').2 hstep)

end Graph

/-! ### What the traversal changes -/

/-- The state with other start marks and another queue. -/
def restart (st : State) (marks : ServiceId → Bool) (up : List ServiceId) : State :=
  { st with isMarkedForStart := marks, up := up }

/-- The cluster shall start once it is marked. -/
def IsWanted (st : State) (h : ServiceId) : Prop :=
  st.isClusterPushed h = true ∧ st.isClusterMarkedForStop h = false ∧ st.isClusterPulled h = false

lemma shallClusterStart_iff {marks : ServiceId → Bool} {up : List ServiceId} :
    (st.restart marks up).shallClusterStart h = true ↔
      st.IsWanted h ∧ marks (st.cluster h) = true := by
  simp only [shallClusterStart, IsWanted, isClusterMarkedForStart, isClusterMarkedForStop,
    isClusterPushed, isClusterPulled, restart, Bool.and_eq_true, Bool.not_eq_true']
  tauto

/-- What was in the queue is still there, and what was added belongs there. -/
structure Started (st : State) (met : ServiceId → Prop) (x : State) : Prop where
  frame : ∃ marks up, x = st.restart marks up
  kept : ∀ m ∈ st.up, m ∈ x.up
  queued : ∀ m ∈ x.up, m ∈ st.up ∨ ∃ h, met h ∧ x.shallClusterStart h = true ∧
    m ∈ st.clusterMembers h ∧ st.isStartable m = true

/-- The startable members of the cluster are queued if it shall start. -/
def QueuedIfStartable (st x : State) (h : ServiceId) : Prop :=
  x.shallClusterStart h = true → ∀ m ∈ st.clusterMembers h, st.isStartable m = true → m ∈ x.up

variable (st) in
lemma restart_insertIntoQueue (marks : ServiceId → Bool) (up : List ServiceId) (h : ServiceId) :
    ∃ up', (st.restart marks up).insertIntoQueueIfStartable h = st.restart marks up' ∧
      ∀ m, m ∈ up' ↔ m ∈ up ∨ (st.restart marks up).shallClusterStart h = true ∧
        m ∈ st.clusterMembers h ∧ st.isStartable m = true := by
  obtain ⟨up', heq, hup⟩ := insertIntoQueueIfStartable_eq (st.restart marks up) h
  exact ⟨up', heq, hup⟩

/-- Queueing the members of a cluster that was met keeps what was queued. -/
lemma Started.insertIntoQueue {met : ServiceId → Prop} (hx : st.Started met x) (hmet : met h) :
    st.Started met (x.insertIntoQueueIfStartable h) ∧
      (x.insertIntoQueueIfStartable h).isMarkedForStart = x.isMarkedForStart ∧
      st.QueuedIfStartable (x.insertIntoQueueIfStartable h) h ∧
      ∀ t, st.QueuedIfStartable x t → st.QueuedIfStartable (x.insertIntoQueueIfStartable h) t := by
  obtain ⟨⟨marks, up, rfl⟩, hkept, hqueued⟩ := hx
  obtain ⟨up', heq, hup⟩ := restart_insertIntoQueue st marks up h
  rw [heq]
  refine ⟨⟨⟨marks, up', rfl⟩, fun m hm => (hup m).2 (.inl (hkept m hm)), fun m hm => ?_⟩, rfl,
    fun hshall m hm hst => ?_, fun t ht hshall m hm hst => ?_⟩
  · rcases (hup m).1 hm with hm | ⟨hshall, hmem⟩
    · exact hqueued m hm
    · exact .inr ⟨h, hmet, hshall, hmem⟩
  · exact (hup m).2 (.inr ⟨hshall, hm, hst⟩)
  · exact (hup m).2 (.inl (ht hshall m hm hst))

/-- Marking a cluster keeps what was queued. -/
lemma Started.mark {met : ServiceId → Prop} (hx : st.Started met x) (hh : st.cluster h = h) :
    st.Started met (x.doMarkClusterForStart h true) ∧
      (x.doMarkClusterForStart h true).isMarkedForStart =
        Function.update x.isMarkedForStart h true ∧
      ∀ t, st.cluster t ≠ h → st.QueuedIfStartable x t →
        st.QueuedIfStartable (x.doMarkClusterForStart h true) t := by
  obtain ⟨⟨marks, up, rfl⟩, hkept, hqueued⟩ := hx
  have heq : (st.restart marks up).doMarkClusterForStart h true =
      st.restart (Function.update marks h true) up := by
    simp [doMarkClusterForStart, restart, hh]
  rw [heq]
  refine ⟨⟨⟨_, _, rfl⟩, hkept, fun m hm => ?_⟩, rfl, fun t hne ht hshall m hm hst => ?_⟩
  · rcases hqueued m hm with hm | ⟨h', hmet, hshall, hmem⟩
    · exact .inl hm
    · refine .inr ⟨h', hmet, ?_, hmem⟩
      obtain ⟨hw, hm'⟩ := shallClusterStart_iff.1 hshall
      refine shallClusterStart_iff.2 ⟨hw, ?_⟩
      by_cases hcl : st.cluster h' = h
      · simp [hcl]
      · simpa [hcl] using hm'
  · obtain ⟨hw, hm'⟩ := shallClusterStart_iff.1 hshall
    rw [Function.update_of_ne hne] at hm'
    exact ht (shallClusterStart_iff.2 ⟨hw, hm'⟩) m hm hst

section Filter

variable {met : ServiceId → Prop} {e : Edge} (hx : st.Started met x)
include hx

lemma Started.filter_of_progress
    (hp : x.startTraversalProgressesFurther (st.clusterSource e) = true) :
    startSearch.filter x e = (true, x) := by
  obtain ⟨⟨marks, up, rfl⟩, -, -⟩ := hx
  exact if_pos hp

lemma Started.filter_of_not_progress
    (hp : x.startTraversalProgressesFurther (st.clusterSource e) = false) :
    startSearch.filter x e = (false, x.insertIntoQueueIfStartable (st.clusterSource e)) := by
  obtain ⟨⟨marks, up, rfl⟩, -, -⟩ := hx
  exact if_neg (Bool.eq_false_iff.1 hp)

lemma startSearch_filter_iff (hc : st.WellFormed) (he : e ∈ st.edges) :
    x.startTraversalProgressesFurther (st.clusterSource e) = true ↔
      st.startGraph.free e = true ∧ st.startGraph.blocked (st.clusterSource e) = false ∧
        x.isMarkedForStart (st.clusterSource e) = false := by
  obtain ⟨⟨marks, up, rfl⟩, -, -⟩ := hx
  have hhead : (st.restart marks up).cluster (st.clusterSource e) = st.clusterSource e :=
    (clusterSource_isHead hc he).2
  exact (startTraversalProgressesFurther_iff hhead).trans (and_iff_right rfl).symm

end Filter

lemma startMet_clusterSource (hc : st.WellFormed) (hs : c ∈ st.services) (hh : st.cluster c = c)
    {e : Edge} (he : e ∈ st.edges)
    (hsrc : st.startGraph.Reached st.isMarkedForStart c (st.clusterTarget e)) :
    st.StartMet c (st.clusterSource e) := by
  obtain ⟨hvs, hvh⟩ := startReached_isHead hc hs hh hsrc
  exact .inr ⟨_, (startGraph_reached_iff hc hs hh).1 hsrc, e,
    (mem_clusterInEdges hc hvs hvh).2 ⟨he, rfl⟩, rfl⟩

/-- A visit queues its own cluster and keeps what was queued. -/
lemma startSearch_visit_queued (hc : st.WellFormed) (hs : c ∈ st.services) (hh : st.cluster c = c)
    {v t : ServiceId} (hx : st.Started (st.StartMet c) x)
    (hv : st.startGraph.Reached st.isMarkedForStart c v) (hth : st.cluster t = t)
    (ht : t = v ∨ st.QueuedIfStartable x t) :
    st.QueuedIfStartable (startSearch.visit x v).2 t := by
  obtain ⟨hvs, hvh⟩ := startReached_isHead hc hs hh hv
  have hmet : st.StartMet c v := .inl ((startGraph_reached_iff hc hs hh).1 hv)
  obtain ⟨hx₁, -, hkeep⟩ := hx.mark hvh
  obtain ⟨-, -, hnew, hkeep₂⟩ := hx₁.insertIntoQueue hmet
  by_cases htv : t = v
  · rw [htv]
    exact hnew
  · exact hkeep₂ t (hkeep t (by rwa [hth]) (ht.resolve_left htv))

/-- The start traversal is a marking search. -/
lemma startSearch_marks (hc : st.WellFormed) (hs : c ∈ st.services) (hh : st.cluster c = c) :
    startSearch.Marks st.startGraph (st.startGraph.Reached st.isMarkedForStart c)
      (st.Started (st.StartMet c)) (fun _ _ => True) (fun x => x.isMarkedForStart)
      (fun x h => st.cluster h = h → st.QueuedIfStartable x h)
      (fun x e => st.QueuedIfStartable x (st.clusterSource e)) where
  postCancel := rfl
  target hx he := by
    obtain ⟨⟨marks, up, rfl⟩, -, -⟩ := hx
    rfl
  outEdges_subperm {x v} hx hv := by
    obtain ⟨⟨marks, up, rfl⟩, -, -⟩ := hx
    obtain ⟨hvs, hvh⟩ := startReached_isHead hc hs hh hv
    exact (hc.clusterInEdges_perm hvs hvh).subperm
  outEdges_nodup {x v} hx hv := by
    obtain ⟨⟨marks, up, rfl⟩, -, -⟩ := hx
    obtain ⟨hvs, hvh⟩ := startReached_isHead hc hs hh hv
    exact (hc.clusterInEdges_perm hvs hvh).nodup_iff.2 (hc.nodup_edges.filter _)
  outEdges_or {x v e} hx hv he hsrc := by
    obtain ⟨⟨marks, up, rfl⟩, -, -⟩ := hx
    obtain ⟨hvs, hvh⟩ := startReached_isHead hc hs hh hv
    exact .inl ((mem_clusterInEdges hc hvs hvh).2 ⟨he, hsrc⟩)
  outEdges_present _ _ _ := trivial
  visit {x v} hx hv := by
    obtain ⟨hvs, hvh⟩ := startReached_isHead hc hs hh hv
    have hmet : st.StartMet c v := .inl ((startGraph_reached_iff hc hs hh).1 hv)
    obtain ⟨hx₁, hmark, -⟩ := hx.mark hvh
    obtain ⟨hx₂, hmark₂, -⟩ := hx₁.insertIntoQueue hmet
    exact ⟨rfl, hx₂, hmark₂.trans hmark⟩
  visit_noted {x v t} hx hv ht hth := startSearch_visit_queued hc hs hh hx hv hth
    (ht.imp_right fun h => h hth)
  visit_handled {x v e} hx hv he ht := startSearch_visit_queued hc hs hh hx hv
    (clusterSource_isHead hc he).2 ht
  filter {x e} hx he _ hsrc := by
    have hmet := startMet_clusterSource hc hs hh he hsrc
    obtain ⟨hx', hmark, -⟩ := hx.insertIntoQueue hmet
    -- what is not descended into is queued here
    have hprog := startSearch_filter_iff hx hc he
    cases hp : x.startTraversalProgressesFurther (st.clusterSource e) with
    | true =>
      rw [hx.filter_of_progress hp]
      exact ⟨hx, rfl, hp ▸ hprog⟩
    | false =>
      rw [hx.filter_of_not_progress hp]
      exact ⟨hx', hmark, hp ▸ hprog⟩
  filter_present _ _ _ _ _ _ := trivial
  filter_noted {x e t} hx he _ hsrc ht hth := by
    have hmet := startMet_clusterSource hc hs hh he hsrc
    obtain ⟨-, -, -, hkeep⟩ := hx.insertIntoQueue hmet
    cases hp : x.startTraversalProgressesFurther (st.clusterSource e) with
    | true =>
      rw [hx.filter_of_progress hp]
      exact ht hth
    | false =>
      rw [hx.filter_of_not_progress hp]
      exact hkeep t (ht hth)
  filter_handled {x e e'} hx he _ hsrc _ ht := by
    have hmet := startMet_clusterSource hc hs hh he hsrc
    obtain ⟨-, -, hnew, hkeep⟩ := hx.insertIntoQueue hmet
    cases hp : x.startTraversalProgressesFurther (st.clusterSource e) with
    | true =>
      rw [hx.filter_of_progress hp] at ht ⊢
      exact ht.resolve_left (by simp)
    | false =>
      rw [hx.filter_of_not_progress hp] at ht ⊢
      rcases ht with ⟨rfl, -⟩ | ht
      · exact hnew
      · exact hkeep _ ht

/-! ### The traversal -/

/-- A start request ends without a cycle. It marks its own cluster and those it reaches backwards
through clusters without a mark that are not running for good, and queues the startable members of
the clusters it meets that shall start; everything else stays. -/
theorem onServiceStartRequest_marks (hc : st.WellFormed) (hs : c ∈ st.services)
    (hh : st.cluster c = c) :
    (startSearch.dfs st.dfsFuel c {} st).1.acyclic = true ∧
      (startSearch.dfs st.dfsFuel c {} st).1.next = [] ∧
      st.onServiceStartRequest c =
        { st with
          isMarkedForStart := (st.onServiceStartRequest c).isMarkedForStart
          up := (st.onServiceStartRequest c).up } ∧
      (∀ h, (st.onServiceStartRequest c).isMarkedForStart h = true ↔
        st.isMarkedForStart h = true ∨ st.StartReached c h) ∧
      ∀ m, m ∈ (st.onServiceStartRequest c).up ↔ m ∈ st.up ∨
        ∃ h, st.StartMet c h ∧ (st.onServiceStartRequest c).shallClusterStart h = true ∧
          m ∈ st.clusterMembers h ∧ st.isStartable m = true := by
  have hinit : st.Started (st.StartMet c) st := 
    ⟨⟨st.isMarkedForStart, st.up, rfl⟩, fun _ hm => hm, fun _ => .inl⟩
  obtain ⟨hacyclic, hnext, hx, hmarks, hnoted, hedges⟩ :=
    Search.dfs_marks (G := st.startGraph) (fun x : State => x.isMarkedForStart)
      (startSearch_marks hc hs hh) hinit st.edges_length_le_dfsFuel
  unfold onServiceStartRequest
  generalize startSearch.dfs st.dfsFuel c {} st = r at *
  have hreached : ∀ h, st.startGraph.Reached st.isMarkedForStart c h ↔ st.StartReached c h :=
    fun h => startGraph_reached_iff hc hs hh
  refine ⟨hacyclic, hnext, ?_, fun h => ?_, fun m => ⟨hx.queued m, ?_⟩⟩
  · obtain ⟨marks, up, heq⟩ := hx.frame
    rw [heq]
    rfl
  · rw [← hreached]
    exact hmarks h
  · rintro (hm | ⟨h, hmet, hshall, hm, hst⟩)
    · exact hx.kept m hm
    · rcases hmet with hmet | ⟨v, hv, e, he, rfl⟩
      · exact hnoted h ((hreached h).2 hmet) (startReached_isHead hc hs hh ((hreached h).2 hmet)).2
          hshall m hm hst
      · obtain ⟨hvs, hvh⟩ := startReached_isHead hc hs hh ((hreached v).2 hv)
        obtain ⟨hedge, rfl⟩ := (mem_clusterInEdges hc hvs hvh).1 he
        exact hedges e hedge ((hreached _).2 hv) hshall m hm hst

end State

/-- The child 2 of service 1 is pushed. -/
def pushedChildRun : List WireOp := [.init 1, .init 2, .setOverride 2 .start]

theorem onServiceStartRequest_marks_pushedChildRun :
    (State.afterWiring .chain pushedChildRun).StartReached 2 1 ∧
      ((State.afterWiring .chain pushedChildRun).onServiceStartRequest 2).isMarkedForStart 1 =
        true := by
  have hwired : (State.afterWiring .chain pushedChildRun).Wired :=
    State.wired_of_reachable (L := .chain)
      ((Machine.Reachable.run (.init rfl) (by decide)) : (wiring .chain).Reachable
        (fun _ _ => True) _)
  have hreached : (State.afterWiring .chain pushedChildRun).StartReached 2 1 :=
    .single ⟨.child 2, by decide, by decide, by decide⟩
  obtain ⟨-, -, -, hmarks, -⟩ :=
    State.onServiceStartRequest_marks (c := 2) hwired.wellFormed (by decide) (by decide)
  exact ⟨hreached, (hmarks 1).2 (.inr hreached)⟩

end Idle
