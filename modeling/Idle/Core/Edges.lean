import Idle.Core.Tree
import Idle.Library.Partition

/-!
# The edges of the dependency graphs

The graph views enumerate edges service by service and part by part. Here they are compared with
one list of all edges between services of different clusters: the children of exports and the
usages.
-/

namespace Idle

@[simp] lemma Layout.isMember_root (L : Layout) : L.isMember L.root = false := by
  simpa [isMember] using L.root_isExport

namespace Topology

/-- The tree together with usages that connect its parts. -/
structure WellFormed (c : Topology) : Prop extends c.IsTree where
  usages_nodup : (c.usages.map Usage.id).Nodup
  used_mem : ∀ u ∈ c.usages, u.used.owner ∈ c.services
  used_exports : ∀ u ∈ c.usages, u.used ∈ c.layout.exports u.used.owner
  user_mem : ∀ u ∈ c.usages, u.user.owner ∈ c.services
  user_imports : ∀ u ∈ c.usages, u.user ∈ c.layout.imports u.user.owner
  different : ∀ u ∈ c.usages, c.cluster u.used.owner ≠ c.cluster u.user.owner

/-- The children of exports: all heads but the root. -/
def childHeads (c : Topology) : List ServiceId :=
  c.services.filter fun s => c.layout.isClusterHead s && s != c.layout.root

/-- All edges between services of different clusters. -/
def edges (c : Topology) : List Edge := c.childHeads.map .child ++ c.usages.map .usage

variable {c : Topology} {s h : ServiceId} {e : Edge}

lemma mem_edges_child : .child s ∈ c.edges ↔
    s ∈ c.services ∧ c.layout.isClusterHead s = true ∧ s ≠ c.layout.root := by
  simp [edges, childHeads]

lemma mem_edges_usage {u : Usage} : .usage u ∈ c.edges ↔ u ∈ c.usages := by
  simp [edges]

lemma not_mem_edges_inner : .inner s ∉ c.edges := by
  simp [edges]

/-- An export with children has no usages, or its first one is strong. -/
def FirstUsageStrong (c : Topology) (p : Part) : Prop :=
  c.children p ≠ [] → ∀ u ∈ (c.dependentUsers p).head?, u.weak = false

/-- Within the cluster, a member has an edge to the owner of its parent import. -/
lemma outEdges_cluster (c : Topology) (s : ServiceId) : c.outEdges .clusterGraph s =
    if c.layout.isMember s = true then [.inner s] else [] := by
  have hpart : ∀ p, c.exportOutEdges .clusterGraph p = [] := by
    intro p
    have hflags : GraphFlags.clusterGraph.hasExporterChildEdge = false ∧
        GraphFlags.clusterGraph.hasExporterUsageEdge = false := ⟨rfl, rfl⟩
    simp [exportOutEdges, hflags]
  have hflag : GraphFlags.clusterGraph.hasChildImporterEdge = true := rfl
  have hparts : (c.layout.exports s).flatMap (c.exportOutEdges .clusterGraph) = [] := by
    simp [hpart]
  rw [outEdges, hparts, List.append_nil]
  by_cases hr : s = c.layout.root
  · subst hr
    simp
  · simp [hflag, hr]

/-! ### The external graph -/

lemma exportOutEdges_external (p : Part) : c.exportOutEdges .externalGraph p =
    (c.children p).map .child ++ (c.dependentUsers p).map .usage := by
  have hadmits : GraphFlags.externalGraph.admits = fun _ => true := by
    funext u
    simp [GraphFlags.admits, GraphFlags.externalGraph]
  have hlist : (c.dependentUsers p).take 1 ++ (c.dependentUsers p).drop 1 = c.dependentUsers p :=
    List.take_append_drop 1 _
  have hflags : GraphFlags.externalGraph.hasExporterChildEdge = true ∧
      GraphFlags.externalGraph.hasExporterUsageEdge = true := ⟨rfl, rfl⟩
  simp only [exportOutEdges, hflags, hadmits, if_true, List.filter_true, hlist]
  split
  · rename_i hnil
    rw [hnil, List.nil_append]
  · rfl

lemma importInEdges_external (p : Part) : c.importInEdges .externalGraph p =
    (c.importedUsages p).map .usage := by
  have hadmits : GraphFlags.externalGraph.admits = fun _ => true := by
    funext u
    simp [GraphFlags.admits, GraphFlags.externalGraph]
  have hlist : (c.importedUsages p).take 1 ++ (c.importedUsages p).drop 1 = c.importedUsages p :=
    List.take_append_drop 1 _
  have hflags : GraphFlags.externalGraph.hasChildImporterEdge = false ∧
      GraphFlags.externalGraph.hasUsageImporterEdge = true := ⟨rfl, rfl⟩
  simp only [importInEdges, hflags, hadmits, Bool.false_eq_true, if_false, if_true,
    List.filter_true, hlist]

namespace WellFormed

variable (hc : c.WellFormed)
include hc

/-- The children of the parts of one kind. -/
lemma flatMap_children_perm (s : ServiceId) (q : Part → Bool) :
    (((c.layout.parts s).filter q).flatMap c.children).Perm (c.services.filter fun t =>
      (t ≠ c.layout.root ∧ q (c.layout.parent t) = true) ∧ (c.layout.parent t).owner = s) := by
  have hnodup : ((c.layout.parts s).filter q).Nodup := (c.layout.parts_nodup s).filter _
  have hfun : ∀ p, c.children p =
      (c.services.filter fun t => t != c.layout.root).filter fun t => c.layout.parent t = p := by
    intro p
    rw [List.filter_filter]
    exact List.filter_congr fun t _ => by
      rw [Bool.and_comm]
      rfl
  have hperm := List.flatMap_filter_perm c.layout.parent hnodup
    (c.services.filter fun t => t != c.layout.root)
  rw [List.flatMap_congr fun p _ => hfun p]
  refine hperm.trans (List.Perm.of_eq ?_)
  rw [List.filter_filter]
  refine List.filter_congr fun t ht => ?_
  by_cases hr : t = c.layout.root
  · simp [hr]
  · have hparts := hc.parent_parts ht hr
    have hiff : c.layout.parent t ∈ (c.layout.parts s).filter q ↔
        q (c.layout.parent t) = true ∧ (c.layout.parent t).owner = s := by
      constructor
      · intro h
        obtain ⟨hp, he⟩ := List.mem_filter.1 h
        exact ⟨he, c.layout.parts_owner hp⟩
      · rintro ⟨he, rfl⟩
        exact List.mem_filter.2 ⟨hparts, he⟩
    simp [hiff, hr]

/-- The children of the exports of a service. -/
lemma children_perm (s : ServiceId) : ((c.layout.exports s).flatMap c.children).Perm
    (c.childHeads.filter fun t => (c.layout.parent t).owner = s) := by
  refine (hc.flatMap_children_perm s Part.isExport).trans (List.Perm.of_eq ?_)
  rw [childHeads, List.filter_filter]
  refine List.filter_congr fun t _ => ?_
  by_cases hr : t = c.layout.root
  · simp [hr]
  · simp [bne_iff_ne.2 hr, hr, Layout.isClusterHead, and_comm]

/-- The children of the imports of a service. -/
lemma members_perm (s : ServiceId) : ((c.layout.imports s).flatMap c.children).Perm
    (c.services.filter fun t => c.layout.isMember t = true ∧ (c.layout.parent t).owner = s) := by
  refine (hc.flatMap_children_perm s Part.isImport).trans (List.Perm.of_eq ?_)
  refine List.filter_congr fun t _ => ?_
  rw [decide_eq_decide]
  by_cases hr : t = c.layout.root
  · subst hr
    simp
  · simp [hr, Layout.isMember]

/-- The usages of the exports of a service. -/
lemma dependentUsers_perm (s : ServiceId) :
    ((c.layout.exports s).flatMap c.dependentUsers).Perm
      (c.usages.filter fun u => u.used.owner = s) := by
  have hnodup : (c.layout.exports s).Nodup := (c.layout.parts_nodup s).filter _
  refine (List.flatMap_filter_perm Usage.used hnodup c.usages).trans (List.Perm.of_eq ?_)
  refine List.filter_congr fun u hu => ?_
  have he := hc.used_exports u hu
  by_cases ho : u.used.owner = s
  · subst ho
    simp [he]
  · have : u.used ∉ c.layout.exports s := fun h =>
      ho (c.layout.parts_owner (List.mem_filter.1 h).1)
    simp [ho, this]

/-- The usages of the imports of a service. -/
lemma importedUsages_perm (s : ServiceId) :
    ((c.layout.imports s).flatMap c.importedUsages).Perm
      (c.usages.filter fun u => u.user.owner = s) := by
  have hnodup : (c.layout.imports s).Nodup := (c.layout.parts_nodup s).filter _
  refine (List.flatMap_filter_perm Usage.user hnodup c.usages).trans (List.Perm.of_eq ?_)
  refine List.filter_congr fun u hu => ?_
  have he := hc.user_imports u hu
  by_cases ho : u.user.owner = s
  · subst ho
    simp [he]
  · have : u.user ∉ c.layout.imports s := fun h =>
      ho (c.layout.parts_owner (List.mem_filter.1 h).1)
    simp [ho, this]

/-- The external out edges of a service are all edges that start there. -/
theorem outEdges_external_perm (s : ServiceId) : (c.outEdges .externalGraph s).Perm
    (c.edges.filter fun e => e.source c.layout = s) := by
  have hflag : GraphFlags.externalGraph.hasChildImporterEdge = false := rfl
  have hchild : (c.childHeads.map Edge.child).filter (fun e => e.source c.layout = s) =
      (c.childHeads.filter fun t => (c.layout.parent t).owner = s).map .child := by
    rw [List.filter_map]
    rfl
  have husage : (c.usages.map Edge.usage).filter (fun e => e.source c.layout = s) =
      (c.usages.filter fun u => u.used.owner = s).map .usage := by
    rw [List.filter_map]
    rfl
  simp only [outEdges, hflag, Bool.and_false, Bool.false_and, Bool.false_eq_true, if_false,
    List.nil_append]
  rw [List.flatMap_congr fun p _ => exportOutEdges_external p, edges, List.filter_append, hchild,
    husage]
  refine (List.flatMap_append_perm _ _ _).symm.trans (List.Perm.append ?_ ?_)
  · rw [← List.map_flatMap]
    exact (hc.children_perm s).map _
  · rw [← List.map_flatMap]
    exact (hc.dependentUsers_perm s).map _

/-- The external in edges of a service are all edges that end there. -/
theorem inEdges_external_perm (hs : s ∈ c.services) : (c.inEdges .externalGraph s).Perm
    (c.edges.filter fun e => e.target c.layout = s) := by
  have hflag : GraphFlags.externalGraph.hasExporterChildEdge = true := rfl
  have hchild : (c.childHeads.map Edge.child).filter (fun e => e.target c.layout = s) =
      (c.childHeads.filter fun t => t = s).map .child := by
    rw [List.filter_map]
    rfl
  have husage : (c.usages.map Edge.usage).filter (fun e => e.target c.layout = s) =
      (c.usages.filter fun u => u.user.owner = s).map .usage := by
    rw [List.filter_map]
    rfl
  have hhead : c.childHeads.filter (fun t => t = s) =
      if c.layout.isClusterHead s && s != c.layout.root then [s] else [] := by
    have hnodup : c.childHeads.Nodup := hc.nodup.filter _
    have hmem : s ∈ c.childHeads ↔ (c.layout.isClusterHead s && s != c.layout.root) = true := by
      simp [childHeads, hs]
    rw [List.filter_eq]
    by_cases h : s ∈ c.childHeads
    · rw [List.count_eq_one_of_mem hnodup h, if_pos (hmem.1 h)]
      rfl
    · rw [List.count_eq_zero_of_not_mem h, if_neg (mt hmem.2 h)]
      rfl
  simp only [inEdges, hflag, Bool.and_true]
  rw [List.flatMap_congr fun p _ => importInEdges_external p, edges, List.filter_append, hchild,
    husage, hhead]
  refine List.Perm.append ?_ ?_
  · split <;> simp
  · rw [← List.map_flatMap]
    exact (hc.importedUsages_perm s).map _

/-- The in edges within the cluster come from the children of the imports. -/
theorem inEdges_cluster_perm (s : ServiceId) : (c.inEdges .clusterGraph s).Perm
    ((c.services.filter fun t => c.layout.isMember t = true ∧ (c.layout.parent t).owner = s).map
      .inner) := by
  have hpart : ∀ p, c.importInEdges .clusterGraph p = (c.children p).map .inner := by
    intro p
    have hflags : GraphFlags.clusterGraph.hasChildImporterEdge = true ∧
        GraphFlags.clusterGraph.hasUsageImporterEdge = false := ⟨rfl, rfl⟩
    simp only [importInEdges, hflags, if_true, Bool.false_eq_true, if_false, List.take_nil,
      List.drop_nil, List.filter_nil, List.append_nil, List.map_nil]
    split
    · rename_i hnil
      rw [hnil]
    · rfl
  have hflag : GraphFlags.clusterGraph.hasExporterChildEdge = false := rfl
  simp only [inEdges, hflag, Bool.and_false, Bool.false_and, Bool.false_eq_true, if_false,
    List.nil_append]
  rw [List.flatMap_congr fun p _ => hpart p, ← List.map_flatMap]
  exact (hc.members_perm s).map _

/-- The edges of an export without its weak usages, for which the first usage must not be weak if
there are children before it. -/
theorem outEdges_strong_perm (hfirst : ∀ p ∈ c.layout.exports s, c.FirstUsageStrong p) :
    (c.outEdges (.union .externalGraph .strongUsageGraph) s).Perm
      (c.edges.filter fun e => e.source c.layout = s ∧ e.isWeak = false) := by
  have hflags : (GraphFlags.union .externalGraph .strongUsageGraph).hasExporterChildEdge = true ∧
      (GraphFlags.union .externalGraph .strongUsageGraph).hasExporterUsageEdge = true ∧
      (GraphFlags.union .externalGraph .strongUsageGraph).hasChildImporterEdge = false :=
    ⟨rfl, rfl, rfl⟩
  have hadmits : (GraphFlags.union .externalGraph .strongUsageGraph).admits = fun u => !u.weak := by
    funext u
    cases hu : u.weak <;>
      simp [GraphFlags.admits, GraphFlags.externalGraph, GraphFlags.strongUsageGraph,
        GraphFlags.union, hu]
  have hpart : ∀ p ∈ c.layout.exports s,
      c.exportOutEdges (.union .externalGraph .strongUsageGraph) p =
        (c.exportOutEdges .externalGraph p).filter fun e => e.isWeak = false := by
    intro p hp
    have hfirst := hfirst p hp
    have hchild : ((c.children p).map Edge.child).filter (fun e => e.isWeak = false) =
        (c.children p).map .child := by
      simp [List.filter_eq_self, Edge.isWeak]
    have husage : ∀ us : List Usage, (us.map Edge.usage).filter (fun e => e.isWeak = false) =
        (us.filter fun u => !u.weak).map .usage := by
      intro us
      rw [List.filter_map]
      congr 1
      exact List.filter_congr fun u _ => by cases hu : u.weak <;> simp [Edge.isWeak, hu]
    rw [exportOutEdges_external, List.filter_append, hchild, husage]
    simp only [exportOutEdges, hflags, hadmits, if_true]
    split
    · rename_i hnil
      rw [hnil, List.nil_append]
    · rename_i hne
      have hne' : c.children p ≠ [] := by simpa using hne
      cases hus : c.dependentUsers p with
      | nil => simp
      | cons u us =>
        have hu := hfirst hne' u (by simp [hus])
        simp [hu]
  simp only [outEdges, hflags, Bool.and_false, Bool.false_and, Bool.false_eq_true, if_false,
    List.nil_append]
  rw [List.flatMap_congr hpart, ← List.filter_flatMap]
  have hext := (hc.outEdges_external_perm s).filter fun e => decide (e.isWeak = false)
  have hflag : GraphFlags.externalGraph.hasChildImporterEdge = false := rfl
  simp only [outEdges, hflag, Bool.and_false, Bool.false_and, Bool.false_eq_true, if_false,
    List.nil_append, List.filter_filter] at hext
  refine hext.trans (List.Perm.of_eq (List.filter_congr fun e _ => ?_))
  simp [Bool.and_comm]

lemma source_mem (he : e ∈ c.edges) : e.source c.layout ∈ c.services := by
  cases e with
  | inner s => exact absurd he not_mem_edges_inner
  | child s => exact hc.parent_mem (mem_edges_child.1 he).1
  | usage u => exact hc.used_mem u (mem_edges_usage.1 he)

lemma target_mem (he : e ∈ c.edges) : e.target c.layout ∈ c.services := by
  cases e with
  | inner s => exact absurd he not_mem_edges_inner
  | child s => exact (mem_edges_child.1 he).1
  | usage u => exact hc.user_mem u (mem_edges_usage.1 he)

/-- The two ends of an edge are in different clusters. -/
lemma clusterSource_ne (he : e ∈ c.edges) : c.clusterSource e ≠ c.clusterTarget e := by
  cases e with
  | inner s => exact absurd he not_mem_edges_inner
  | child s =>
    obtain ⟨hs, hh, hr⟩ := mem_edges_child.1 he
    have hcl := hc.cluster_of_isClusterHead hs hh
    intro heq
    -- the head would be above itself
    have : c.cluster (c.layout.parent s).owner = s := heq.trans hcl
    have hle : c.services.idxOf s ≤ c.services.idxOf (c.layout.parent s).owner :=
      hc.idxOf_le ((hc.mem_preorder_cluster hs hcl).2 ⟨hc.parent_mem hs, this⟩)
    exact absurd (hc.parent_before hs hr) (not_lt.2 hle)
  | usage u => exact hc.different u (mem_edges_usage.1 he)

/-! ### The cluster graph -/

/-- Collecting over the members of a cluster. -/
lemma flatMap_clusterMembers_perm (hh : h ∈ c.services) (hhh : c.cluster h = h)
    (end' : Edge → ServiceId) (hend : ∀ e ∈ c.edges, end' e ∈ c.services)
    {f : ServiceId → List Edge}
    (hf : ∀ s ∈ c.services, (f s).Perm (c.edges.filter fun e => end' e = s)) :
    ((c.clusterMembers h).flatMap f).Perm (c.edges.filter fun e => c.cluster (end' e) = h) := by
  have hmem := fun s => hc.mem_clusterMembers (t := s) hh hhh
  refine (List.Perm.flatMap_left _ fun s hs => hf s ((hmem s).1 hs).1).trans ?_
  refine (List.flatMap_filter_perm end' (hc.nodup_clusterMembers h) c.edges).trans ?_
  exact List.Perm.of_eq (List.filter_congr fun e he => by simp [hmem, hend e he])

/-- The out edges of a cluster are all edges that start there. -/
theorem clusterOutEdges_perm (hh : h ∈ c.services) (hhh : c.cluster h = h) :
    (c.clusterOutEdges h).Perm (c.edges.filter fun e => c.clusterSource e = h) :=
  hc.flatMap_clusterMembers_perm hh hhh (Edge.source c.layout) (fun _ => hc.source_mem)
    fun s _ => hc.outEdges_external_perm s

/-- The in edges of a cluster are all edges that end there. -/
theorem clusterInEdges_perm (hh : h ∈ c.services) (hhh : c.cluster h = h) :
    (c.clusterInEdges h).Perm (c.edges.filter fun e => c.clusterTarget e = h) :=
  hc.flatMap_clusterMembers_perm hh hhh (Edge.target c.layout) (fun _ => hc.target_mem)
    fun _ hs => hc.inEdges_external_perm hs

end WellFormed

/-! ### Changes of the graph -/

/-- A usage is connected. -/
def connect (c : Topology) (u : Usage) : Topology := { c with usages := c.usages ++ [u] }

/-- A usage is disconnected. -/
def disconnect (c : Topology) (u : Usage) : Topology := { c with usages := c.usages.erase u }

/-- A service enters. -/
def insert (c : Topology) (s : ServiceId) : Topology :=
  { c with
    services := c.services ++ [s]
    cluster := Function.update c.cluster s
      (if c.layout.isMember s then c.cluster (c.layout.parent s).owner else s) }

/-- A service leaves. -/
def erase (c : Topology) (s : ServiceId) : Topology := { c with services := c.services.erase s }

lemma WellFormed.initial (L : Layout) : (State.initial L).WellFormed where
  toIsTree := .initial L
  usages_nodup := List.nodup_nil
  used_mem := by simp [State.initial]
  used_exports := by simp [State.initial]
  user_mem := by simp [State.initial]
  user_imports := by simp [State.initial]
  different := by simp [State.initial]

lemma WellFormed.connect {u : Usage} (hc : c.WellFormed) (hid : ∀ v ∈ c.usages, v.id ≠ u.id)
    (hused : u.used.owner ∈ c.services) (hexports : u.used ∈ c.layout.exports u.used.owner)
    (huser : u.user.owner ∈ c.services) (himports : u.user ∈ c.layout.imports u.user.owner)
    (hdiff : c.cluster u.used.owner ≠ c.cluster u.user.owner) : (c.connect u).WellFormed := by
  have hall : ∀ {P : Usage → Prop}, (∀ v ∈ c.usages, P v) → P u →
      ∀ v ∈ (c.connect u).usages, P v := by
    intro P hP hu v hv
    rcases List.mem_append.1 hv with hv | hv
    · exact hP v hv
    · rwa [List.mem_singleton.1 hv]
  refine ⟨⟨hc.nodup, hc.root_mem, hc.parent_mem, hc.parent_parts, hc.parent_ne, hc.ordered,
    hc.cluster_eq⟩, ?_, hall hc.used_mem hused, hall hc.used_exports hexports,
    hall hc.user_mem huser, hall hc.user_imports himports, hall hc.different hdiff⟩
  simp only [Topology.connect, List.map_append, List.map_cons, List.map_nil]
  refine hc.usages_nodup.append (List.nodup_singleton _) ?_
  intro i hi hiu
  obtain ⟨v, hv, rfl⟩ := List.mem_map.1 hi
  exact hid v hv (List.mem_singleton.1 hiu)

lemma WellFormed.usages_nodup' (hc : c.WellFormed) : c.usages.Nodup := hc.usages_nodup.of_map _

lemma WellFormed.nodup_edges (hc : c.WellFormed) : c.edges.Nodup := by
  refine List.nodup_append'.2 ⟨?_, ?_, ?_⟩
  · exact (hc.nodup.filter _).map fun a b h => Edge.child.inj h
  · exact hc.usages_nodup'.map fun a b h => Edge.usage.inj h
  · intro e hc hu
    obtain ⟨s, -, rfl⟩ := List.mem_map.1 hc
    obtain ⟨u, -, hu⟩ := List.mem_map.1 hu
    exact absurd hu (by simp)

lemma WellFormed.disconnect (hc : c.WellFormed) (u : Usage) : (c.disconnect u).WellFormed := by
  have hmem : ∀ v ∈ (c.disconnect u).usages, v ∈ c.usages := fun v hv => List.mem_of_mem_erase hv
  refine ⟨⟨hc.nodup, hc.root_mem, hc.parent_mem, hc.parent_parts, hc.parent_ne, hc.ordered,
    hc.cluster_eq⟩, ?_, fun v hv => hc.used_mem v (hmem v hv),
    fun v hv => hc.used_exports v (hmem v hv), fun v hv => hc.user_mem v (hmem v hv),
    fun v hv => hc.user_imports v (hmem v hv), fun v hv => hc.different v (hmem v hv)⟩
  exact hc.usages_nodup.sublist (List.erase_sublist.map _)

lemma WellFormed.insert (hc : c.WellFormed) (hs : s ∉ c.services)
    (ho : (c.layout.parent s).owner ∈ c.services)
    (hp : c.layout.parent s ∈ c.layout.parts (c.layout.parent s).owner) :
    (c.insert s).WellFormed := by
  have htree := hc.toIsTree.insert hs ho hp
  have hne : ∀ t ∈ c.services, t ≠ s := fun t ht h => hs (h ▸ ht)
  refine ⟨⟨htree.nodup, htree.root_mem, htree.parent_mem, htree.parent_parts, htree.parent_ne,
    htree.ordered, htree.cluster_eq⟩, hc.usages_nodup,
    fun v hv => List.mem_append_left _ (hc.used_mem v hv), hc.used_exports,
    fun v hv => List.mem_append_left _ (hc.user_mem v hv), hc.user_imports, fun v hv => ?_⟩
  have h₁ := hne _ (hc.used_mem v hv)
  have h₂ := hne _ (hc.user_mem v hv)
  simpa [Topology.insert, h₁, h₂] using hc.different v hv

lemma WellFormed.erase (hc : c.WellFormed) (hr : s ≠ c.layout.root)
    (hchild : ∀ t ∈ c.services, t ≠ c.layout.root → (c.layout.parent t).owner ≠ s)
    (husages : ∀ u ∈ c.usages, u.used.owner ≠ s ∧ u.user.owner ≠ s) : (c.erase s).WellFormed := by
  have htree := hc.toIsTree.erase hr hchild
  exact ⟨⟨htree.nodup, htree.root_mem, htree.parent_mem, htree.parent_parts, htree.parent_ne,
    htree.ordered, htree.cluster_eq⟩, hc.usages_nodup,
    fun u hu => (List.mem_erase_of_ne (husages u hu).1).2 (hc.used_mem u hu), hc.used_exports,
    fun u hu => (List.mem_erase_of_ne (husages u hu).2).2 (hc.user_mem u hu), hc.user_imports,
    hc.different⟩

lemma connect_edges (c : Topology) (u : Usage) : (c.connect u).edges = c.edges ++ [.usage u] := by
  simp [edges, Topology.connect, childHeads]

lemma disconnect_edges {u : Usage} (hu : u ∈ c.usages) :
    c.edges.Perm (.usage u :: (c.disconnect u).edges) := by
  have hperm := (List.perm_cons_erase hu).map Edge.usage
  simp only [edges, Topology.disconnect, childHeads]
  refine (hperm.append_left _).trans ?_
  exact List.perm_middle

/-- The edge by which a service hangs on an other cluster. -/
def ownEdge (c : Topology) (s : ServiceId) : List Edge :=
  if c.layout.isClusterHead s && s != c.layout.root then [.child s] else []

lemma insert_edges (c : Topology) (s : ServiceId) :
    (c.insert s).edges.Perm (c.ownEdge s ++ c.edges) := by
  have : (c.insert s).childHeads = c.childHeads ++
      (if c.layout.isClusterHead s && s != c.layout.root then [s] else []) := by
    simp only [childHeads, Topology.insert, List.filter_append, List.filter_cons, List.filter_nil]
  have hown : (if c.layout.isClusterHead s && s != c.layout.root then [s] else []).map Edge.child =
      c.ownEdge s := by
    unfold ownEdge
    split <;> rfl
  rw [edges, edges, this, List.map_append, hown]
  refine List.Perm.trans ?_ (List.perm_append_comm_assoc _ _ _)
  exact List.Perm.of_eq (List.append_assoc _ _ _)

lemma erase_edges (hs : s ∈ c.services) :
    c.edges.Perm (c.ownEdge s ++ (c.erase s).edges) := by
  have hperm : c.childHeads.Perm ((if c.layout.isClusterHead s && s != c.layout.root then [s]
      else []) ++ (c.erase s).childHeads) := by
    have := (List.perm_cons_erase hs).filter
      fun t => c.layout.isClusterHead t && t != c.layout.root
    refine this.trans (List.Perm.of_eq ?_)
    simp only [List.filter_cons, childHeads, Topology.erase]
    split <;> rfl
  have hown : (if c.layout.isClusterHead s && s != c.layout.root then [s] else []).map Edge.child =
      c.ownEdge s := by
    unfold ownEdge
    split <;> rfl
  rw [edges, edges, ← List.append_assoc, ← hown, ← List.map_append]
  exact (hperm.map _).append_right _

lemma mem_ownEdge : e ∈ c.ownEdge s ↔
    e = .child s ∧ c.layout.isClusterHead s = true ∧ s ≠ c.layout.root := by
  unfold ownEdge
  split
  · rename_i h
    simp only [Bool.and_eq_true, bne_iff_ne] at h
    simp [h]
  · rename_i h
    simp only [Bool.and_eq_true, bne_iff_ne] at h
    simp only [List.not_mem_nil, false_iff]
    exact fun h' => h h'.2

/-- The clusters of a new service are those of its old edges. -/
lemma WellFormed.insert_clusterSource (hc : c.WellFormed) (hs : s ∉ c.services) (he : e ∈ c.edges) :
    (c.insert s).clusterSource e = c.clusterSource e := by
  have : e.source c.layout ≠ s := fun h => hs (h ▸ hc.source_mem he)
  simp [clusterSource, Topology.insert, this]

lemma WellFormed.insert_clusterTarget (hc : c.WellFormed) (hs : s ∉ c.services) (he : e ∈ c.edges) :
    (c.insert s).clusterTarget e = c.clusterTarget e := by
  have : e.target c.layout ≠ s := fun h => hs (h ▸ hc.target_mem he)
  simp [clusterTarget, Topology.insert, this]

/-- The heads after a service entered. -/
lemma WellFormed.insert_head (hc : c.WellFormed) (hs : s ∉ c.services)
    (ho : (c.layout.parent s).owner ∈ c.services) (hh : h ∈ (c.insert s).services)
    (hcl : (c.insert s).cluster h = h) :
    h = s ∧ c.layout.isClusterHead s = true ∨ h ≠ s ∧ h ∈ c.services ∧ c.cluster h = h := by
  by_cases hhs : h = s
  · refine .inl ⟨hhs, ?_⟩
    subst hhs
    by_contra hm
    have hm' : c.layout.isMember h = true := by
      simpa [Layout.isMember, Layout.isClusterHead] using hm
    simp only [Topology.insert, Function.update_self, hm', if_true] at hcl
    exact hs (hcl ▸ (hc.cluster_mem ho).1)
  · refine .inr ⟨hhs, ?_, ?_⟩
    · exact (List.mem_append.1 hh).resolve_right fun h' => hhs (List.mem_singleton.1 h')
    · simpa [Topology.insert, hhs] using hcl

/-- Where nothing depends on a service and it uses nothing, it has no other edge. -/
lemma source_ne
    (hchild : ∀ t ∈ c.services, t ≠ c.layout.root → (c.layout.parent t).owner ≠ s)
    (husages : ∀ u ∈ c.usages, u.used.owner ≠ s) (he : e ∈ c.edges) : e.source c.layout ≠ s := by
  cases e with
  | inner s => exact absurd he not_mem_edges_inner
  | child t =>
    obtain ⟨ht, -, hr⟩ := mem_edges_child.1 he
    exact hchild t ht hr
  | usage u => exact husages u (mem_edges_usage.1 he)

lemma WellFormed.clusterSource_ne_of_unused (hc : c.WellFormed)
    (hchild : ∀ t ∈ c.services, t ≠ c.layout.root → (c.layout.parent t).owner ≠ s)
    (husages : ∀ u ∈ c.usages, u.used.owner ≠ s) (he : e ∈ c.edges) : c.clusterSource e ≠ s :=
  fun h => source_ne hchild husages he (hc.eq_of_childless hchild (hc.source_mem he) h)

end Topology

end Idle
