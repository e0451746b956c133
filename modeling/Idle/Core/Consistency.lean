import Idle.Core.Enumeration
import Idle.Core.Sample

/-!
# The graph views are consistent, if the first usages are admitted

The three views describe one relation between nodes. Two of the functions behind them hand out the
first usage of a part without asking the filter; where that usage is not admitted, the degrees and
the two directions disagree. In the views of services and clusters one edge stands for the two edges
around a usage, so the flags of these two edges have to be the same as well.
-/

namespace Idle

open EdgeDir

namespace Topology

variable {c : Topology} {f : NodeGraphFlags}

/-- The flags admit the usages that `graph.cpp` does not filter: the first usage of an export with
children, and the first one of an import without children. Children count only if their edges are
part of the graph. -/
structure FirstAdmitted (c : Topology) (f : GraphFlags) : Prop where
  exporter : ∀ s ∈ c.services, ∀ p ∈ c.layout.exports s,
    f.hasExporterChildEdge = true → f.hasExporterUsageEdge = true → c.children p ≠ [] →
    ∀ u ∈ (c.dependentUsers p).head?, f.admits u = true
  importer : ∀ s ∈ c.services, ∀ p ∈ c.layout.imports s,
    (f.hasChildImporterEdge = true → c.children p = []) → f.hasUsageImporterEdge = true →
    ∀ u ∈ (c.importedUsages p).head?, f.admits u = true

/-- The dependency graph as a relation. -/
inductive IsEdge (c : Topology) (f : NodeGraphFlags) : Node → Node → Prop where
  | childImporter {s : ServiceId} (hf : f.hasChildImporterEdge = true) (hs : s ∈ c.services)
      (hr : s ≠ c.layout.root) (hm : c.layout.isMember s = true) :
      IsEdge c f (.service s) (.importer (c.layout.parent s))
  | ownerExporter {s : ServiceId} {p : Part} (hf : f.hasOwnerExporterEdge = true)
      (hs : s ∈ c.services) (hp : p ∈ c.layout.exports s) : IsEdge c f (.service s) (.exporter p)
  | importerOwner {s : ServiceId} {p : Part} (hf : f.hasImporterOwnerEdge = true)
      (hs : s ∈ c.services) (hp : p ∈ c.layout.imports s) : IsEdge c f (.importer p) (.service s)
  | exporterChild {s : ServiceId} (hf : f.hasExporterChildEdge = true) (hs : s ∈ c.services)
      (hr : s ≠ c.layout.root) (hh : c.layout.isClusterHead s = true) :
      IsEdge c f (.exporter (c.layout.parent s)) (.service s)
  | exporterUsage {u : Usage} (hf : f.hasExporterUsageEdge = true) (hu : u ∈ c.usages)
      (ha : f.admits u = true) : IsEdge c f (.exporter u.used) (.usage u)
  | usageImporter {u : Usage} (hf : f.hasUsageImporterEdge = true) (hu : u ∈ c.usages)
      (ha : f.admits u = true) : IsEdge c f (.usage u) (.importer u.user)

lemma take_append_filter {l : List Usage} (h : ∀ u ∈ l.head?, f.admits u = true) :
    l.take 1 ++ (l.drop 1).filter f.admits = l.filter f.admits := by
  cases l with
  | nil => rfl
  | cons u l => simp [h u rfl]

/-! ### The edges of a node -/

/-- The out edges of an export, if its first usage is admitted. -/
lemma edgeNodes_exporter (hf : c.FirstAdmitted f) {p : Part} (hn : .exporter p ∈ c.nodes) :
    c.edgeNodes f dirOut (.exporter p) =
      (if f.hasExporterChildEdge then c.children p else []).map .service ++
        ((if f.hasExporterUsageEdge then c.dependentUsers p else []).filter f.admits).map
          .usage := by
  obtain ⟨hs, hp⟩ := mem_nodes_exporter.1 hn
  simp only [edgeNodes, exportOutEdges]
  by_cases hnil : (if f.hasExporterChildEdge then (c.children p).map Edge.child else []) = []
  · rw [if_pos hnil, List.map_map]
    by_cases hch : f.hasExporterChildEdge = true
    · rw [if_pos hch, show c.children p = [] by simpa [hch] using hnil]
      rfl
    · rw [if_neg hch]
      rfl
  · have hch : f.hasExporterChildEdge = true := by
      by_contra hch
      simp [hch] at hnil
    rw [if_neg hnil, take_append_filter, List.map_append, if_pos hch, if_pos hch, List.map_map,
      List.map_map]
    · rfl
    · intro u hu
      by_cases husage : f.hasExporterUsageEdge = true
      · exact hf.exporter _ hs p hp hch husage (by simpa [hch] using hnil) u
          (by simpa [husage] using hu)
      · simp [husage] at hu

/-- The in edges of an import, if its first usage is admitted. -/
lemma edgeNodes_importer (hf : c.FirstAdmitted f) {p : Part} (hn : .importer p ∈ c.nodes) :
    c.edgeNodes f dirIn (.importer p) =
      (if f.hasChildImporterEdge then c.children p else []).map .service ++
        ((if f.hasUsageImporterEdge then c.importedUsages p else []).filter f.admits).map
          .usage := by
  obtain ⟨hs, hp⟩ := mem_nodes_importer.1 hn
  simp only [edgeNodes, importInEdges]
  by_cases hnil : (if f.hasChildImporterEdge then (c.children p).map Edge.inner else []) = []
  · have hch : f.hasChildImporterEdge = true → c.children p = [] := fun hch => by
      simpa [hch] using hnil
    rw [if_pos hnil, take_append_filter, List.map_map,
      show (if f.hasChildImporterEdge then c.children p else []) = [] by simpa using hch]
    · rfl
    · intro u hu
      by_cases husage : f.hasUsageImporterEdge = true
      · exact hf.importer _ hs p hp hch husage u (by simpa [husage] using hu)
      · simp [husage] at hu
  · have hch : f.hasChildImporterEdge = true := by
      by_contra hch
      simp [hch] at hnil
    rw [if_neg hnil, List.map_append, if_pos hch, if_pos hch, List.map_map, List.map_map]
    rfl

lemma owner_of_mem_filter {s : ServiceId} {p : Part} {q : Part → Bool}
    (hp : p ∈ (c.layout.parts s).filter q) : p.owner = s :=
  c.layout.parts_owner (List.mem_filter.1 hp).1

/-- What leaves a node. -/
lemma mem_edgeNodes_dirOut (hf : c.FirstAdmitted f) {n m : Node} (hn : n ∈ c.nodes) :
    m ∈ c.edgeNodes f dirOut n ↔ c.IsEdge f n m := by
  cases n with
  | service s =>
    have hs := mem_nodes_service.1 hn
    simp only [edgeNodes, hasParentEdge, List.mem_append, List.mem_ite_nil_right, List.mem_map,
      List.mem_singleton, Bool.and_eq_true, bne_iff_ne]
    constructor
    · rintro (⟨⟨⟨hm, hch⟩, hr⟩, rfl⟩ | ⟨hown, p, hp, rfl⟩)
      · exact .childImporter hch hs hr hm
      · exact .ownerExporter hown hs hp
    · intro h
      cases h with
      | childImporter hf hs hr hm => exact .inl ⟨⟨⟨hm, hf⟩, hr⟩, rfl⟩
      | ownerExporter hf hs hp => exact .inr ⟨hf, _, hp, rfl⟩
  | importer p =>
    obtain ⟨hs, hp⟩ := mem_nodes_importer.1 hn
    simp only [edgeNodes, List.mem_ite_nil_right, List.mem_singleton]
    constructor
    · rintro ⟨hown, rfl⟩
      exact .importerOwner hown hs hp
    · intro h
      cases h with
      | importerOwner hf hs hp => exact ⟨hf, by rw [owner_of_mem_filter hp]⟩
  | exporter p =>
    obtain ⟨hs, hp⟩ := mem_nodes_exporter.1 hn
    have hexp : p.isExport = true := (List.mem_filter.1 hp).2
    simp only [edgeNodes_exporter hf hn, List.mem_append, List.mem_map, List.mem_filter,
      List.mem_ite_nil_right]
    constructor
    · rintro (⟨t, ⟨hch, ht⟩, rfl⟩ | ⟨u, ⟨⟨husage, hu⟩, ha⟩, rfl⟩)
      · obtain ⟨ht', hr, rfl⟩ := ServiceTree.mem_children.1 ht
        exact .exporterChild hch ht' hr hexp
      · obtain ⟨hu', hp'⟩ := List.mem_filter.1 hu
        obtain rfl : u.used = p := by simpa using hp'
        exact .exporterUsage husage hu' ha
    · intro h
      cases h with
      | exporterChild hch ht hr hh =>
        exact .inl ⟨_, ⟨hch, ServiceTree.mem_children.2 ⟨ht, hr, rfl⟩⟩, rfl⟩
      | exporterUsage hf hu ha =>
        exact .inr ⟨_, ⟨⟨hf, List.mem_filter.2 ⟨hu, by simp⟩⟩, ha⟩, rfl⟩
  | usage u =>
    have hu := mem_nodes_usage.1 hn
    simp only [edgeNodes, List.mem_ite_nil_right, List.mem_singleton, Bool.and_eq_true]
    constructor
    · rintro ⟨⟨husage, ha⟩, rfl⟩
      exact .usageImporter husage hu ha
    · intro h
      cases h with
      | usageImporter hf hu ha => exact ⟨⟨hf, ha⟩, rfl⟩

/-- What reaches a node. -/
lemma mem_edgeNodes_dirIn (hf : c.FirstAdmitted f) {n m : Node} (hm : m ∈ c.nodes) :
    n ∈ c.edgeNodes f dirIn m ↔ c.IsEdge f n m := by
  cases m with
  | service s =>
    have hs := mem_nodes_service.1 hm
    simp only [edgeNodes, hasParentEdge, List.mem_append, List.mem_ite_nil_right, List.mem_map,
      List.mem_singleton, Bool.and_eq_true, bne_iff_ne]
    constructor
    · rintro (⟨⟨⟨hh, hch⟩, hr⟩, rfl⟩ | ⟨hown, p, hp, rfl⟩)
      · exact .exporterChild hch hs hr hh
      · exact .importerOwner hown hs hp
    · intro h
      cases h with
      | exporterChild hf hs hr hh => exact .inl ⟨⟨⟨hh, hf⟩, hr⟩, rfl⟩
      | importerOwner hf hs hp => exact .inr ⟨hf, _, hp, rfl⟩
  | importer p =>
    obtain ⟨hs, hp⟩ := mem_nodes_importer.1 hm
    have himp : p.isImport = true := (List.mem_filter.1 hp).2
    simp only [edgeNodes_importer hf hm, List.mem_append, List.mem_map, List.mem_filter,
      List.mem_ite_nil_right]
    constructor
    · rintro (⟨t, ⟨hch, ht⟩, rfl⟩ | ⟨u, ⟨⟨husage, hu⟩, ha⟩, rfl⟩)
      · obtain ⟨ht', hr, rfl⟩ := ServiceTree.mem_children.1 ht
        exact .childImporter hch ht' hr himp
      · obtain ⟨hu', hp'⟩ := List.mem_filter.1 hu
        obtain rfl : u.user = p := by simpa using hp'
        exact .usageImporter husage hu' ha
    · intro h
      cases h with
      | childImporter hch ht hr hh =>
        exact .inl ⟨_, ⟨hch, ServiceTree.mem_children.2 ⟨ht, hr, rfl⟩⟩, rfl⟩
      | usageImporter hf hu ha =>
        exact .inr ⟨_, ⟨⟨hf, List.mem_filter.2 ⟨hu, by simp⟩⟩, ha⟩, rfl⟩
  | exporter p =>
    obtain ⟨hs, hp⟩ := mem_nodes_exporter.1 hm
    simp only [edgeNodes, List.mem_ite_nil_right, List.mem_singleton]
    constructor
    · rintro ⟨hown, rfl⟩
      exact .ownerExporter hown hs hp
    · intro h
      cases h with
      | ownerExporter hf hs hp => exact ⟨hf, by rw [owner_of_mem_filter hp]⟩
  | usage u =>
    have hu := mem_nodes_usage.1 hm
    simp only [edgeNodes, List.mem_ite_nil_right, List.mem_singleton, Bool.and_eq_true]
    constructor
    · rintro ⟨⟨husage, ha⟩, rfl⟩
      exact .exporterUsage husage hu ha
    · intro h
      cases h with
      | exporterUsage hf hu ha => exact ⟨⟨hf, ha⟩, rfl⟩

/-- The ends of an edge are nodes of the system. -/
lemma IsEdge.mem_nodes (hc : c.WellFormed) {n m : Node} (h : c.IsEdge f n m) :
    n ∈ c.nodes ∧ m ∈ c.nodes := by
  cases h with
  | childImporter hf hs hr hm =>
    exact ⟨mem_nodes_service.2 hs, mem_nodes_importer.2
      ⟨hc.parent_mem hs, List.mem_filter.2 ⟨hc.parent_parts hs hr, hm⟩⟩⟩
  | ownerExporter hf hs hp =>
    obtain rfl := owner_of_mem_filter hp
    exact ⟨mem_nodes_service.2 hs, mem_nodes_exporter.2 ⟨hs, hp⟩⟩
  | importerOwner hf hs hp =>
    obtain rfl := owner_of_mem_filter hp
    exact ⟨mem_nodes_importer.2 ⟨hs, hp⟩, mem_nodes_service.2 hs⟩
  | exporterChild hf hs hr hh =>
    exact ⟨mem_nodes_exporter.2 ⟨hc.parent_mem hs, List.mem_filter.2 ⟨hc.parent_parts hs hr, hh⟩⟩,
      mem_nodes_service.2 hs⟩
  | exporterUsage hf hu ha =>
    exact ⟨mem_nodes_exporter.2 ⟨hc.used_mem _ hu, hc.used_exports _ hu⟩, mem_nodes_usage.2 hu⟩
  | usageImporter hf hu ha =>
    exact ⟨mem_nodes_usage.2 hu, mem_nodes_importer.2 ⟨hc.user_mem _ hu, hc.user_imports _ hu⟩⟩

/-- The flags admit the usage at the end of an edge. -/
lemma IsEdge.admits {e : NodeEdge} (h : c.IsEdge f e.source e.target) : AdmitsEdge f e := by
  obtain ⟨n, m⟩ := e
  intro u hu
  cases h with
  | childImporter | ownerExporter | importerOwner | exporterChild => simp at hu
  | exporterUsage hf hu' ha =>
    obtain rfl : _ = u := by simpa using hu
    exact ha
  | usageImporter hf hu' ha =>
    obtain rfl : _ = u := by simpa using hu
    exact ha

/-- The degree of a node is the number of its edges. -/
lemma edgeDegree_eq (hf : c.FirstAdmitted f) (tag : EdgeDir) {n : Node} (hn : n ∈ c.nodes) :
    c.edgeDegree f tag n = (c.edgeList f tag n).length := by
  have hcount : ∀ {b : Bool} (users : List Usage), (b = true → f.hasAnyUsageEdge = true) →
      (if b then countUsages f users else 0) =
        ((if b then users else []).filter f.admits).length := by
    intro b users hany
    cases b with
    | false => rfl
    | true => exact countUsages_eq (hany rfl) users
  have hchildren : ∀ (b : Bool) (l : List ServiceId),
      (if b then l.length else 0) = (if b then l else []).length := by
    intro b l
    split_ifs <;> rfl
  rw [edgeList, List.length_map]
  cases n with
  | service s =>
    cases tag <;> simp only [edgeDegree, edgeNodes, List.length_append] <;> split_ifs <;> simp
  | importer p =>
    cases tag with
    | dirOut => simp only [edgeDegree, edgeNodes]; split_ifs <;> rfl
    | dirIn =>
      rw [edgeDegree, edgeNodes_importer hf hn,
        hcount _ (by simp [GraphFlags.hasUsageImporterEdge]), List.length_append, List.length_map,
        List.length_map, hchildren]
  | exporter p =>
    cases tag with
    | dirOut =>
      rw [edgeDegree, edgeNodes_exporter hf hn,
        hcount _ (by simp [GraphFlags.hasExporterUsageEdge]), List.length_append, List.length_map,
        List.length_map, hchildren]
    | dirIn => simp only [edgeDegree, edgeNodes]; split_ifs <;> rfl
  | usage u =>
    cases tag <;> simp only [edgeDegree, edgeNodes, usageAdmitted_eq] <;> split_ifs <;> rfl

lemma nodup_map_append_map {α β : Type*} {g : α → Node} {g' : β → Node} (hg : g.Injective)
    (hg' : g'.Injective) (hne : ∀ a b, g a ≠ g' b) {l : List α} {l' : List β} (hl : l.Nodup)
    (hl' : l'.Nodup) : (l.map g ++ l'.map g').Nodup := by
  refine List.nodup_append.2 ⟨hl.map hg, hl'.map hg', ?_⟩
  rintro n hn m hm rfl
  obtain ⟨a, -, rfl⟩ := List.mem_map.1 hn
  obtain ⟨b, -, hb⟩ := List.mem_map.1 hm
  exact hne a b hb.symm

lemma nodup_ite_nil {α : Type*} {b : Bool} {l : List α} (hl : l.Nodup) :
    (if b then l else []).Nodup := by
  split_ifs
  · exact hl
  · exact List.nodup_nil

/-- No node is enumerated twice. -/
lemma nodup_edgeNodes (hc : c.WellFormed) (hf : c.FirstAdmitted f) (tag : EdgeDir) {n : Node}
    (hn : n ∈ c.nodes) : (c.edgeNodes f tag n).Nodup := by
  have hservice : Node.service.Injective := fun _ _ h => Node.service.inj h
  have husage : Node.usage.Injective := fun _ _ h => Node.usage.inj h
  have himporter : Node.importer.Injective := fun _ _ h => Node.importer.inj h
  have hexporter : Node.exporter.Injective := fun _ _ h => Node.exporter.inj h
  have hparts : ∀ (s : ServiceId) (q : Part → Bool), ((c.layout.parts s).filter q).Nodup :=
    fun s q => (c.layout.parts_nodup s).filter _
  have hchildren : ∀ p, (c.children p).Nodup := fun p => hc.nodup.filter _
  have husages : ∀ q : Usage → Bool, (c.usages.filter q).Nodup := fun q =>
    hc.usages_nodup'.filter _
  cases n with
  | service s =>
    cases tag with
    | dirOut =>
      have := nodup_map_append_map himporter hexporter (fun _ _ h => nomatch h)
        (nodup_ite_nil (b := c.hasParentEdge f s dirOut) (List.nodup_singleton (c.layout.parent s)))
        (nodup_ite_nil (b := f.hasOwnerExporterEdge) (hparts s Part.isExport))
      simp only [edgeNodes]
      split_ifs at this ⊢ <;> exact this
    | dirIn =>
      have := nodup_map_append_map hexporter himporter (fun _ _ h => nomatch h)
        (nodup_ite_nil (b := c.hasParentEdge f s dirIn) (List.nodup_singleton (c.layout.parent s)))
        (nodup_ite_nil (b := f.hasImporterOwnerEdge) (hparts s Part.isImport))
      simp only [edgeNodes]
      split_ifs at this ⊢ <;> exact this
  | importer p =>
    cases tag with
    | dirOut => exact nodup_ite_nil (List.nodup_singleton _)
    | dirIn =>
      rw [edgeNodes_importer hf hn]
      exact nodup_map_append_map hservice husage (fun _ _ h => nomatch h)
        (nodup_ite_nil (hchildren p)) ((nodup_ite_nil (husages _)).filter _)
  | exporter p =>
    cases tag with
    | dirOut =>
      rw [edgeNodes_exporter hf hn]
      exact nodup_map_append_map hservice husage (fun _ _ h => nomatch h)
        (nodup_ite_nil (hchildren p)) ((nodup_ite_nil (husages _)).filter _)
    | dirIn => exact nodup_ite_nil (List.nodup_singleton _)
  | usage u => cases tag <;> exact nodup_ite_nil (List.nodup_singleton _)

lemma mem_edgeList {tag : EdgeDir} {n : Node} {e : NodeEdge} :
    e ∈ c.edgeList f tag n ↔
      tag.iterationNodeOf e = n ∧ tag.currentItrOf e ∈ c.edgeNodes f tag n := by
  constructor
  · intro he
    refine ⟨iterationNodeOf_of_mem he, ?_⟩
    obtain ⟨m, hm, rfl⟩ := List.mem_map.1 he
    rwa [currentItrOf_makeEdge]
  · rintro ⟨rfl, hm⟩
    refine List.mem_map.2 ⟨_, hm, ?_⟩
    cases tag <;> rfl

/-- Both directions enumerate the relation. -/
lemma mem_edgeList_iff (hf : c.FirstAdmitted f) {tag : EdgeDir} {n : Node} (hn : n ∈ c.nodes)
    {e : NodeEdge} : e ∈ c.edgeList f tag n ↔
      tag.iterationNodeOf e = n ∧ c.IsEdge f e.source e.target := by
  rw [mem_edgeList]
  refine and_congr_right fun he => ?_
  subst he
  cases tag with
  | dirOut => exact mem_edgeNodes_dirOut hf hn
  | dirIn => exact mem_edgeNodes_dirIn hf hn

lemma nodup_edgeList (hc : c.WellFormed) (hf : c.FirstAdmitted f) (tag : EdgeDir) {n : Node}
    (hn : n ∈ c.nodes) : (c.edgeList f tag n).Nodup := by
  refine (nodup_edgeNodes hc hf tag hn).map fun m m' h => ?_
  have := congrArg tag.currentItrOf h
  rwa [currentItrOf_makeEdge, currentItrOf_makeEdge] at this

/-! ### The edges of some nodes -/

section Nodes

variable {ns : List Node}

lemma mem_flatMap_edgeList (hf : c.FirstAdmitted f) (tag : EdgeDir) (hsub : ∀ n ∈ ns, n ∈ c.nodes)
    {e : NodeEdge} : e ∈ ns.flatMap (c.edgeList f tag) ↔
      tag.iterationNodeOf e ∈ ns ∧ c.IsEdge f e.source e.target := by
  rw [List.mem_flatMap]
  constructor
  · rintro ⟨n, hn, he⟩
    obtain ⟨rfl, h⟩ := (mem_edgeList_iff hf (hsub n hn)).1 he
    exact ⟨hn, h⟩
  · rintro ⟨hn, h⟩
    exact ⟨_, hn, (mem_edgeList_iff hf (hsub _ hn)).2 ⟨rfl, h⟩⟩

lemma nodup_flatMap_edgeList (hc : c.WellFormed) (hf : c.FirstAdmitted f) (tag : EdgeDir)
    (hns : ns.Nodup) (hsub : ∀ n ∈ ns, n ∈ c.nodes) : (ns.flatMap (c.edgeList f tag)).Nodup :=
  List.nodup_flatMap_of_unique hns (fun n hn => nodup_edgeList hc hf tag (hsub n hn))
    fun _ _ _ hn hm _ _ => (iterationNodeOf_of_mem hn).symm.trans (iterationNodeOf_of_mem hm)

end Nodes

/-- Where every edge of an export and of an import is admitted, the first usages are. -/
lemma firstAdmitted_of_admits
    (hout : ∀ p, .exporter p ∈ c.nodes → ∀ e ∈ c.edgeList f dirOut (.exporter p), AdmitsEdge f e)
    (hin : ∀ p, .importer p ∈ c.nodes → ∀ e ∈ c.edgeList f dirIn (.importer p), AdmitsEdge f e) :
    c.FirstAdmitted f := by
  constructor
  · intro s hs p hp hch husage hne u hu
    obtain rfl := owner_of_mem_filter hp
    have hmem : Node.usage u ∈ c.edgeNodes f dirOut (.exporter p) := by
      obtain ⟨us, hus⟩ := List.head?_eq_some_iff.1 hu
      refine List.mem_map.2 ⟨.usage u, ?_, rfl⟩
      simp [exportOutEdges, hch, husage, hne, hus]
    exact hout p (mem_nodes_exporter.2 ⟨hs, hp⟩) ⟨.exporter p, .usage u⟩
      (mem_edgeList.2 ⟨rfl, hmem⟩) u (.inr rfl)
  · intro s hs p hp hch husage u hu
    obtain rfl := owner_of_mem_filter hp
    have hmem : Node.usage u ∈ c.edgeNodes f dirIn (.importer p) := by
      obtain ⟨us, hus⟩ := List.head?_eq_some_iff.1 hu
      refine List.mem_map.2 ⟨.usage u, ?_, rfl⟩
      have hnil : (if f.hasChildImporterEdge then (c.children p).map Edge.inner else []) = [] := by
        simpa using hch
      simp only [importInEdges, hnil, husage, if_true, hus]
      simp
    exact hin p (mem_nodes_importer.2 ⟨hs, hp⟩) ⟨.usage u, .importer p⟩
      (mem_edgeList.2 ⟨rfl, hmem⟩) u (.inl rfl)

/-! ### The graph of all nodes -/

lemma dependencyGraph_listing (hc : c.WellFormed) (f : NodeGraphFlags) :
    (c.dependencyGraph f).Listing c.nodes c.nodeList (c.nodeList.flatMap (c.edgeList f dirOut))
      (c.edgeList f dirOut) (c.edgeList f dirIn) where
  vertices := walk_nodeList hc
  edges := walk_edges hc
  outEdges n _ := walk_edgeList hc dirOut n
  inEdges n _ := walk_edgeList hc dirIn n

lemma dependencyGraph_isConsistent_iff (hc : c.WellFormed) (f : NodeGraphFlags) :
    (c.dependencyGraph f).IsConsistent c.nodes (AdmitsEdge f) ↔ c.FirstAdmitted f := by
  rw [(dependencyGraph_listing hc f).isConsistent_iff fun n hn => (mem_nodeList hc n).1 hn]
  constructor
  · intro h
    exact firstAdmitted_of_admits (fun p hp => h.outEdges_admitted _ hp) fun p hp =>
      h.inEdges_admitted _ hp
  · intro hf
    have hsub : ∀ n ∈ c.nodeList, n ∈ c.nodes := fun n => (mem_nodeList hc n).1
    have hadm : ∀ (tag : EdgeDir), ∀ n ∈ c.nodes, ∀ e ∈ c.edgeList f tag n, AdmitsEdge f e :=
      fun tag n hn e he => ((mem_edgeList_iff hf hn).1 he).2.admits
    have hperm : (c.nodeList.flatMap (c.edgeList f dirOut)).Perm
        (c.nodeList.flatMap (c.edgeList f dirIn)) := by
      rw [List.perm_ext_iff_of_nodup (nodup_flatMap_edgeList hc hf _ (nodup_nodeList hc) hsub)
        (nodup_flatMap_edgeList hc hf _ (nodup_nodeList hc) hsub)]
      intro e
      rw [mem_flatMap_edgeList hf _ hsub, mem_flatMap_edgeList hf _ hsub, mem_nodeList hc,
        mem_nodeList hc]
      exact ⟨fun h => ⟨(h.2.mem_nodes hc).2, h.2⟩, fun h => ⟨(h.2.mem_nodes hc).1, h.2⟩⟩
    exact
      { vertices_nodup := nodup_nodeList hc
        vertices_mem := mem_nodeList hc
        outDegree := fun n hn => edgeDegree_eq hf dirOut hn
        inDegree := fun n hn => edgeDegree_eq hf dirIn hn
        outEdges_admitted := hadm dirOut
        inEdges_admitted := hadm dirIn
        edges_admitted := fun e he => by
          obtain ⟨n, hn, he⟩ := List.mem_flatMap.1 he
          exact hadm dirOut n (hsub n hn) e he
        out_perm_in := hperm.map _
        out_perm_edges := .refl _ }

/-! ### The graphs of services and clusters -/

/-- The two edges around a usage are both in the graph or both not, unless there is no usage to make
a difference. -/
def UsageEdgesAgree (c : Topology) (f : GraphFlags) : Prop :=
  f.hasExporterUsageEdge = f.hasUsageImporterEdge ∨ ∀ u ∈ c.usages, f.admits u = false

/-- One of the ends of the edge is a usage. -/
def endsAtUsage (e : NodeEdge) : Bool :=
  match e.source, e.target with
  | .usage _, _ => true
  | _, .usage _ => true
  | _, _ => false

/-- The edge that a usage is enumerated as. -/
def usageEdge (u : Usage) : EdgeDir → NodeEdge
  | dirOut => ⟨.exporter u.used, .usage u⟩
  | dirIn => ⟨.usage u, .importer u.user⟩

/-- Whether usages are enumerated in a direction. -/
def hasUsages (f : NodeGraphFlags) : EdgeDir → Bool
  | dirOut => f.hasExporterUsageEdge
  | dirIn => f.hasUsageImporterEdge

section Services

variable {ss : List ServiceId}

lemma flatMap_serviceEdgeList (tag : EdgeDir) (ss : List ServiceId) :
    ss.flatMap (c.serviceEdgeList f tag) =
      (ss.flatMap c.innerNodeList).flatMap (c.edgeList f tag) :=
  List.flatMap_assoc.symm

lemma mem_flatMap_innerNodeList (hss : ss.Perm c.services) {n : Node} :
    n ∈ ss.flatMap c.innerNodeList ↔ n ∈ c.nodes ∧ ∀ u, n ≠ .usage u := by
  rw [List.mem_flatMap]
  constructor
  · rintro ⟨s, hs, hn⟩
    exact ((mem_innerNodeList (hss.mem_iff.1 hs)).1 hn).1
  · rintro ⟨hn, hu⟩
    have hs : c.nodeOwner n ∈ c.services := by
      cases n with
      | service s => exact mem_nodes_service.1 hn
      | importer p => exact (mem_nodes_importer.1 hn).1
      | exporter p => exact (mem_nodes_exporter.1 hn).1
      | usage u => exact absurd rfl (hu u)
    exact ⟨_, hss.mem_iff.2 hs, (mem_innerNodeList hs).2 ⟨⟨hn, hu⟩, rfl⟩⟩

variable (hc : c.WellFormed) (hf : c.FirstAdmitted f) (hss : ss.Perm c.services)
include hc hf hss

lemma mem_flatMap_serviceEdgeList (tag : EdgeDir) {e : NodeEdge} :
    e ∈ ss.flatMap (c.serviceEdgeList f tag) ↔
      (∀ u, tag.iterationNodeOf e ≠ .usage u) ∧ c.IsEdge f e.source e.target := by
  have hsub : ∀ n ∈ ss.flatMap c.innerNodeList, n ∈ c.nodes := fun n hn =>
    ((mem_flatMap_innerNodeList hss).1 hn).1
  rw [flatMap_serviceEdgeList, mem_flatMap_edgeList hf tag hsub, mem_flatMap_innerNodeList hss]
  constructor
  · exact fun h => ⟨h.1.2, h.2⟩
  · rintro ⟨hu, h⟩
    refine ⟨⟨?_, hu⟩, h⟩
    cases tag with
    | dirOut => exact (h.mem_nodes hc).1
    | dirIn => exact (h.mem_nodes hc).2

lemma nodup_flatMap_serviceEdgeList (tag : EdgeDir) :
    (ss.flatMap (c.serviceEdgeList f tag)).Nodup := by
  rw [flatMap_serviceEdgeList]
  refine nodup_flatMap_edgeList hc hf tag ?_ fun n hn => ((mem_flatMap_innerNodeList hss).1 hn).1
  exact List.nodup_flatMap_of_unique (hss.nodup_iff.2 hc.nodup) (fun s _ => nodup_innerNodeList c s)
    fun _ _ _ hs ht _ _ => (nodeOwner_of_mem hs).symm.trans (nodeOwner_of_mem ht)

/-- Without usages both directions enumerate the same edges. -/
lemma filter_not_endsAtUsage_perm :
    ((ss.flatMap (c.serviceEdgeList f dirOut)).filter fun e => !endsAtUsage e).Perm
      ((ss.flatMap (c.serviceEdgeList f dirIn)).filter fun e => !endsAtUsage e) := by
  have hnodup := nodup_flatMap_serviceEdgeList hc hf hss
  rw [List.perm_ext_iff_of_nodup ((hnodup dirOut).filter _) ((hnodup dirIn).filter _)]
  rintro ⟨n, m⟩
  simp only [List.mem_filter, mem_flatMap_serviceEdgeList hc hf hss]
  constructor
  · rintro ⟨⟨-, h⟩, hu⟩
    refine ⟨⟨fun u hm => ?_, h⟩, hu⟩
    obtain rfl : m = .usage u := hm
    cases n <;> cases hu
  · rintro ⟨⟨-, h⟩, hu⟩
    refine ⟨⟨fun u hn => ?_, h⟩, hu⟩
    obtain rfl : n = .usage u := hn
    cases hu

/-- Each direction enumerates the admitted usages, or none of them. -/
lemma filter_endsAtUsage_perm (tag : EdgeDir) :
    ((ss.flatMap (c.serviceEdgeList f tag)).filter endsAtUsage).Perm
      ((if hasUsages f tag then c.usages.filter f.admits else []).map
        fun u => usageEdge u tag) := by
  have hinj : Function.Injective fun u => usageEdge u tag := by
    intro u v h
    cases tag with
    | dirOut => exact Node.usage.inj (congrArg NodeEdge.target h)
    | dirIn => exact Node.usage.inj (congrArg NodeEdge.source h)
  rw [List.perm_ext_iff_of_nodup ((nodup_flatMap_serviceEdgeList hc hf hss tag).filter _)
    ((nodup_ite_nil (hc.usages_nodup'.filter _)).map hinj)]
  rintro ⟨n, m⟩
  simp only [List.mem_filter, mem_flatMap_serviceEdgeList hc hf hss, List.mem_map,
    List.mem_ite_nil_right]
  constructor
  · rintro ⟨⟨hn, h⟩, hu⟩
    cases h with
    | childImporter | ownerExporter | importerOwner | exporterChild => cases hu
    | exporterUsage hflag hmem ha =>
      cases tag with
      | dirOut => exact ⟨_, ⟨hflag, hmem, ha⟩, rfl⟩
      | dirIn => exact absurd rfl (hn _)
    | usageImporter hflag hmem ha =>
      cases tag with
      | dirOut => exact absurd rfl (hn _)
      | dirIn => exact ⟨_, ⟨hflag, hmem, ha⟩, rfl⟩
  · rintro ⟨u, ⟨hflag, hu, ha⟩, h⟩
    cases tag with
    | dirOut =>
      cases h
      exact ⟨⟨fun v => nofun, .exporterUsage hflag hu ha⟩, rfl⟩
    | dirIn =>
      cases h
      exact ⟨⟨fun v => nofun, .usageImporter hflag hu ha⟩, rfl⟩

/-- The two directions agree, as far as a usage looks the same from both of them. -/
lemma map_serviceEdgeList_perm_iff {α : Type*} (g : NodeEdge → α)
    (hg : ∀ u, g (usageEdge u dirOut) = g (usageEdge u dirIn)) :
    ((ss.flatMap (c.serviceEdgeList f dirOut)).map g).Perm
      ((ss.flatMap (c.serviceEdgeList f dirIn)).map g) ↔ c.UsageEdgesAgree f := by
  have hsplit : ∀ tag, ((ss.flatMap (c.serviceEdgeList f tag)).map g).Perm
      (((if hasUsages f tag then c.usages.filter f.admits else []).map fun u =>
        g (usageEdge u dirOut)) ++
        ((ss.flatMap (c.serviceEdgeList f dirOut)).filter fun e => !endsAtUsage e).map g) := by
    intro tag
    have husages := (filter_endsAtUsage_perm hc hf hss tag).map g
    rw [List.map_map] at husages
    have hrest : ((ss.flatMap (c.serviceEdgeList f tag)).filter fun e => !endsAtUsage e).Perm
        ((ss.flatMap (c.serviceEdgeList f dirOut)).filter fun e => !endsAtUsage e) := by
      cases tag with
      | dirOut => exact .refl _
      | dirIn => exact (filter_not_endsAtUsage_perm hc hf hss).symm
    have hfun : (g ∘ fun u => usageEdge u tag) = fun u => g (usageEdge u dirOut) := by
      funext u
      cases tag with
      | dirOut => rfl
      | dirIn => exact (hg u).symm
    rw [hfun] at husages
    refine ((List.filter_append_perm endsAtUsage _).symm.map g).trans ?_
    rw [List.map_append]
    exact husages.append (hrest.map g)
  constructor
  · -- otherwise one side lists the admitted usages and the other none
    intro h
    by_contra hne
    rw [UsageEdgesAgree, not_or] at hne
    obtain ⟨hflags, hadm⟩ := hne
    have hlen := ((hsplit dirOut).symm.trans (h.trans (hsplit dirIn))).length_eq
    have hpos : 0 < (c.usages.filter f.admits).length := by
      rw [List.length_pos_iff]
      intro hnil
      exact hadm fun u hu => by simpa using List.filter_eq_nil_iff.1 hnil u hu
    simp only [List.length_append, List.length_map] at hlen
    cases hout : f.hasExporterUsageEdge <;> cases hin : f.hasUsageImporterEdge
    · exact hflags (hout.trans hin.symm)
    · simp only [hasUsages, hout, hin, if_true, Bool.false_eq_true, if_false,
        List.length_nil] at hlen
      omega
    · simp only [hasUsages, hout, hin, if_true, Bool.false_eq_true, if_false,
        List.length_nil] at hlen
      omega
    · exact hflags (hout.trans hin.symm)
  · intro hagree
    have hsame : ((if hasUsages f dirOut then c.usages.filter f.admits else []) : List Usage) =
        if hasUsages f dirIn then c.usages.filter f.admits else [] := by
      rcases hagree with hflags | hadm
      · rw [show hasUsages f dirOut = hasUsages f dirIn from hflags]
      · have hnil : c.usages.filter f.admits = [] :=
          List.filter_eq_nil_iff.2 fun u hu => by simp [hadm u hu]
        simp [hnil]
    have hout := hsplit dirOut
    rw [hsame] at hout
    exact hout.trans (hsplit dirIn).symm

end Services

/-- The degree of a service is the number of its edges. -/
lemma serviceDegree_eq (hf : c.FirstAdmitted f) (tag : EdgeDir) {s : ServiceId}
    (hs : s ∈ c.services) :
    c.serviceDegree f tag s = (c.serviceEdgeList f tag s).length := by
  rw [serviceDegree, serviceEdgeList, innerNodes_eq hs, List.length_flatMap]
  refine congrArg List.sum (List.map_congr_left fun n hn => ?_)
  exact edgeDegree_eq hf tag ((mem_innerNodeList hs).1 hn).1.1

lemma admits_of_mem_serviceEdgeList (hf : c.FirstAdmitted f) {tag : EdgeDir} {s : ServiceId}
    (hs : s ∈ c.services) {e : NodeEdge} (he : e ∈ c.serviceEdgeList f tag s) : AdmitsEdge f e := by
  obtain ⟨n, hn, he⟩ := List.mem_flatMap.1 he
  exact ((mem_edgeList_iff hf ((mem_innerNodeList hs).1 hn).1.1).1 he).2.admits

/-- The edges of a part are edges of its owner. -/
lemma mem_serviceEdgeList_of_mem {tag : EdgeDir} {n : Node} (hn : n ∈ c.nodes)
    (hu : ∀ u, n ≠ .usage u) {e : NodeEdge} (he : e ∈ c.edgeList f tag n)
    (hs : c.nodeOwner n ∈ c.services) : e ∈ c.serviceEdgeList f tag (c.nodeOwner n) :=
  List.mem_flatMap.2 ⟨n, (mem_innerNodeList hs).2 ⟨⟨hn, hu⟩, rfl⟩, he⟩

lemma serviceView_isConsistent_iff (hc : c.WellFormed) (f : NodeGraphFlags) :
    (c.serviceView f).IsConsistent c.services (AdmitsEdge f) ↔
      c.FirstAdmitted f ∧ c.UsageEdgesAgree f := by
  have hlist : (c.serviceView f).Listing c.services c.transitiveServices
      (c.transitiveServices.flatMap (c.serviceEdgeList f dirOut)) (c.serviceEdgeList f dirOut)
      (c.serviceEdgeList f dirIn) :=
    { vertices := walk_transitiveServices hc
      edges := walk_serviceEdges hc
      outEdges := fun s hs => walk_serviceEdgeList hc dirOut hs
      inEdges := fun s hs => walk_serviceEdgeList hc dirIn hs }
  have hends : ∀ u, (c.serviceView f).ends (usageEdge u dirOut) =
      (c.serviceView f).ends (usageEdge u dirIn) := fun u => rfl
  rw [hlist.isConsistent_iff fun s hs => hc.mem_transitiveServices.1 hs]
  constructor
  · intro h
    have hf : c.FirstAdmitted f := by
      refine firstAdmitted_of_admits (fun p hp e he => ?_) fun p hp e he => ?_
      · have hs := (mem_nodes_exporter.1 hp).1
        exact h.outEdges_admitted _ hs e (mem_serviceEdgeList_of_mem hp (by simp) he hs)
      · have hs := (mem_nodes_importer.1 hp).1
        exact h.inEdges_admitted _ hs e (mem_serviceEdgeList_of_mem hp (by simp) he hs)
    exact ⟨hf,
      (map_serviceEdgeList_perm_iff hc hf hc.transitiveServices_perm _ hends).1 h.out_perm_in⟩
  · rintro ⟨hf, hagree⟩
    exact
      { vertices_nodup := hc.nodup_preorder
        vertices_mem := fun s => hc.mem_transitiveServices
        outDegree := fun s hs => serviceDegree_eq hf dirOut hs
        inDegree := fun s hs => serviceDegree_eq hf dirIn hs
        outEdges_admitted := fun s hs e he => admits_of_mem_serviceEdgeList hf hs he
        inEdges_admitted := fun s hs e he => admits_of_mem_serviceEdgeList hf hs he
        edges_admitted := fun e he => by
          obtain ⟨s, hs, he⟩ := List.mem_flatMap.1 he
          exact admits_of_mem_serviceEdgeList hf (hc.mem_transitiveServices.1 hs) he
        out_perm_in :=
          (map_serviceEdgeList_perm_iff hc hf hc.transitiveServices_perm _ hends).2 hagree
        out_perm_edges := .refl _ }

/-- The heads of the clusters. -/
def heads (c : Topology) : List ServiceId := c.services.filter c.layout.isClusterHead

section Clusters

variable (hc : c.WellFormed)
include hc

lemma mem_clusters_iff {h : ServiceId} : h ∈ c.clusters ↔ h ∈ c.heads := by
  rw [ServiceTree.clusters, heads, List.mem_filter, List.mem_filter, hc.mem_transitiveServices]

lemma cluster_of_mem_heads {h : ServiceId} (hh : h ∈ c.heads) :
    h ∈ c.services ∧ c.cluster h = h := by
  obtain ⟨hs, hhead⟩ := List.mem_filter.1 hh
  exact ⟨hs, (hc.isClusterHead_iff hs).1 hhead⟩

lemma cluster_mem_heads {s : ServiceId} (hs : s ∈ c.services) : c.cluster s ∈ c.heads := by
  obtain ⟨hmem, -⟩ := hc.cluster_mem hs
  exact List.mem_filter.2 ⟨hmem, (hc.isClusterHead_iff hmem).2 (hc.cluster_cluster hs)⟩

/-- Every service is a member of one cluster. -/
lemma flatMap_clusterMembers : (c.clusters.flatMap c.clusterMembers).Perm c.services := by
  have hmem : ∀ h ∈ c.clusters,
      (c.clusterMembers h).Perm (c.services.filter fun s => c.cluster s = h) := by
    intro h hh
    obtain ⟨hs, hhead⟩ := cluster_of_mem_heads hc ((mem_clusters_iff hc).1 hh)
    exact hc.clusterMembers_perm hs hhead
  refine (List.Perm.flatMap_left _ hmem).trans ?_
  refine (List.flatMap_filter_perm c.cluster (hc.nodup_preorder.filter _) c.services).trans ?_
  refine .of_eq (List.filter_eq_self.2 fun s hs => ?_)
  exact decide_eq_true ((mem_clusters_iff hc).2 (cluster_mem_heads hc hs))

/-- The degree of a cluster is the number of its edges. -/
lemma clusterDegree_eq (hf : c.FirstAdmitted f) (tag : EdgeDir) {h : ServiceId} (hh : h ∈ c.heads) :
    c.clusterDegree f tag h = (c.clusterEdgeList f tag h).length := by
  obtain ⟨hs, hhead⟩ := cluster_of_mem_heads hc hh
  rw [clusterDegree, clusterEdgeList, List.length_flatMap]
  refine congrArg List.sum (List.map_congr_left fun s hs' => ?_)
  exact serviceDegree_eq hf tag ((hc.mem_clusterMembers hs hhead).1 hs').1

lemma admits_of_mem_clusterEdgeList (hf : c.FirstAdmitted f) {tag : EdgeDir} {h : ServiceId}
    (hh : h ∈ c.heads) {e : NodeEdge} (he : e ∈ c.clusterEdgeList f tag h) : AdmitsEdge f e := by
  obtain ⟨hs, hhead⟩ := cluster_of_mem_heads hc hh
  obtain ⟨s, hs', he⟩ := List.mem_flatMap.1 he
  exact admits_of_mem_serviceEdgeList hf ((hc.mem_clusterMembers hs hhead).1 hs').1 he

lemma mem_clusterEdgeList_of_mem {tag : EdgeDir} {s : ServiceId} (hs : s ∈ c.services)
    {e : NodeEdge} (he : e ∈ c.serviceEdgeList f tag s) :
    e ∈ c.clusterEdgeList f tag (c.cluster s) := by
  obtain ⟨hmem, hhead⟩ := cluster_of_mem_heads hc (cluster_mem_heads hc hs)
  exact List.mem_flatMap.2 ⟨s, (hc.mem_clusterMembers hmem hhead).2 ⟨hs, rfl⟩, he⟩

lemma clusterView_isConsistent_iff (f : NodeGraphFlags) :
    (c.clusterView f).IsConsistent c.heads (AdmitsEdge f) ↔
      c.FirstAdmitted f ∧ c.UsageEdgesAgree f := by
  have hlist : (c.clusterView f).Listing c.heads c.clusters
      (c.transitiveServices.flatMap (c.serviceEdgeList f dirOut)) (c.clusterEdgeList f dirOut)
      (c.clusterEdgeList f dirIn) :=
    { vertices := walk_clusters hc
      edges := walk_serviceEdges hc
      outEdges := fun h hh => by
        obtain ⟨hs, hhead⟩ := cluster_of_mem_heads hc hh
        exact walk_clusterEdgeList hc dirOut hs hhead
      inEdges := fun h hh => by
        obtain ⟨hs, hhead⟩ := cluster_of_mem_heads hc hh
        exact walk_clusterEdgeList hc dirIn hs hhead }
  have hends : ∀ u, (c.clusterView f).ends (usageEdge u dirOut) =
      (c.clusterView f).ends (usageEdge u dirIn) := fun u => rfl
  have hflat : ∀ tag, c.clusters.flatMap (c.clusterEdgeList f tag) =
      (c.clusters.flatMap c.clusterMembers).flatMap (c.serviceEdgeList f tag) := fun tag =>
    List.flatMap_assoc.symm
  rw [hlist.isConsistent_iff fun h hh => (mem_clusters_iff hc).1 hh]
  constructor
  · -- every first usage shows up at the cluster of its service
    intro h
    have hf : c.FirstAdmitted f := by
      refine firstAdmitted_of_admits (fun p hp e he => ?_) fun p hp e he => ?_
      · have hs := (mem_nodes_exporter.1 hp).1
        exact h.outEdges_admitted _ (cluster_mem_heads hc hs) e
          (mem_clusterEdgeList_of_mem hc hs (mem_serviceEdgeList_of_mem hp (by simp) he hs))
      · have hs := (mem_nodes_importer.1 hp).1
        exact h.inEdges_admitted _ (cluster_mem_heads hc hs) e
          (mem_clusterEdgeList_of_mem hc hs (mem_serviceEdgeList_of_mem hp (by simp) he hs))
    have hperm := h.out_perm_in
    rw [hflat, hflat] at hperm
    exact ⟨hf, (map_serviceEdgeList_perm_iff hc hf (flatMap_clusterMembers hc) _ hends).1 hperm⟩
  · rintro ⟨hf, hagree⟩
    exact
      { vertices_nodup := hc.nodup_preorder.filter _
        vertices_mem := fun h => mem_clusters_iff hc
        outDegree := fun h hh => clusterDegree_eq hc hf dirOut hh
        inDegree := fun h hh => clusterDegree_eq hc hf dirIn hh
        outEdges_admitted := fun h hh e he => admits_of_mem_clusterEdgeList hc hf hh he
        inEdges_admitted := fun h hh e he => admits_of_mem_clusterEdgeList hc hf hh he
        edges_admitted := fun e he => by
          obtain ⟨s, hs, he⟩ := List.mem_flatMap.1 he
          exact admits_of_mem_serviceEdgeList hf (hc.mem_transitiveServices.1 hs) he
        out_perm_in := by
          rw [hflat, hflat]
          exact (map_serviceEdgeList_perm_iff hc hf (flatMap_clusterMembers hc) _ hends).2 hagree
        out_perm_edges := by
          rw [hflat]
          refine List.Perm.map _ (List.Perm.flatMap_right _ ?_)
          exact (flatMap_clusterMembers hc).trans hc.transitiveServices_perm.symm }

end Clusters

/-- Each of the three views is consistent exactly if the usages that are not filtered are admitted
and, where an edge stands for both sides of a usage, the flags treat both sides alike. -/
theorem graphViews_isConsistent_iff (hc : c.WellFormed) (f : NodeGraphFlags) :
    ((c.dependencyGraph f).IsConsistent c.nodes (AdmitsEdge f) ↔ c.FirstAdmitted f) ∧
    ((c.serviceDependencyGraph f).IsConsistent c.services (AdmitsEdge f) ↔
      c.FirstAdmitted f ∧ c.UsageEdgesAgree f) ∧
    ((c.clusterDependencyGraph f).IsConsistent c.heads (AdmitsEdge f) ↔
      c.FirstAdmitted f.orExternalGraph ∧ c.UsageEdgesAgree f) :=
  ⟨dependencyGraph_isConsistent_iff hc f, serviceView_isConsistent_iff hc f.orServiceGraph,
    clusterView_isConsistent_iff hc f.orServiceGraph.orExternalGraph⟩

/-- Service 2 is a child of the export of service 1, and service 3 uses that export weakly. -/
def childAndUser : Topology where
  layout := Layout.small fun s => Layout.exportOf (if s = 2 then 1 else 0)
  services := [0, 1, 2, 3]
  cluster s := s
  usages := [⟨0, Layout.exportOf 1, Layout.importOf 3, true⟩]

lemma childAndUser_wellFormed : childAndUser.WellFormed where
  nodup := by decide
  root_mem := by decide
  parent_mem {s} hs := by
    revert s
    decide
  parent_parts {s} hs := by
    revert s
    decide
  parent_ne {s} hs := by
    revert s
    decide
  ordered := by decide
  cluster_eq {s} hs := by
    revert s
    decide
  usages_nodup := by decide
  used_mem := by decide
  used_exports := by decide
  user_mem := by decide
  user_imports := by decide
  different := by decide

/-- Without weak usages the export of service 1 has one edge, but the loop finds two. -/
theorem childAndUser_not_isConsistent :
    let f : NodeGraphFlags := { filterUsageWeakEdge := true }
    childAndUser.WellFormed ∧
      (childAndUser.dependencyGraph f).outDegree (.exporter (Layout.exportOf 1)) = 1 ∧
      ((childAndUser.dependencyGraph f).outEdges (.exporter (Layout.exportOf 1))).Enumerates
        [⟨.exporter (Layout.exportOf 1), .service 2⟩,
          ⟨.exporter (Layout.exportOf 1),
            .usage ⟨0, Layout.exportOf 1, Layout.importOf 3, true⟩⟩] ∧
      ¬(childAndUser.dependencyGraph f).IsConsistent childAndUser.nodes (AdmitsEdge f) := by
  intro f
  refine ⟨childAndUser_wellFormed, rfl, ?_, fun h => ?_⟩
  · exact walk_edgeList (f := f) childAndUser_wellFormed dirOut (.exporter (Layout.exportOf 1))
  · have hf := (dependencyGraph_isConsistent_iff childAndUser_wellFormed f).1 h
    have := hf.exporter 1 (by decide) (Layout.exportOf 1) (by decide) rfl rfl (by decide)
      ⟨0, Layout.exportOf 1, Layout.importOf 3, true⟩ (by decide)
    simp [f, GraphFlags.admits] at this

/-- With all edges the same services give consistent views. -/
theorem graphViews_isConsistent_iff_childAndUser :
    (childAndUser.dependencyGraph {}).IsConsistent childAndUser.nodes
        (AdmitsEdge ({} : NodeGraphFlags)) ∧
      (childAndUser.serviceDependencyGraph {}).IsConsistent childAndUser.services
        (AdmitsEdge ({} : NodeGraphFlags)) ∧
      (childAndUser.clusterDependencyGraph {}).IsConsistent childAndUser.heads
        (AdmitsEdge ({} : NodeGraphFlags)) := by
  have hadm : ∀ u, ({} : GraphFlags).admits u = true := fun u => by simp [GraphFlags.admits]
  have hadm' : ∀ u, (NodeGraphFlags.orExternalGraph {}).admits u = true := fun u => by
    simp [GraphFlags.admits, NodeGraphFlags.orExternalGraph]
  have hf : childAndUser.FirstAdmitted ({} : NodeGraphFlags) :=
    ⟨fun _ _ _ _ _ _ _ u _ => hadm u, fun _ _ _ _ _ _ u _ => hadm u⟩
  have hf' : childAndUser.FirstAdmitted (NodeGraphFlags.orExternalGraph {}) :=
    ⟨fun _ _ _ _ _ _ _ u _ => hadm' u, fun _ _ _ _ _ _ u _ => hadm' u⟩
  obtain ⟨h₁, h₂, h₃⟩ := graphViews_isConsistent_iff childAndUser_wellFormed {}
  exact ⟨h₁.2 hf, h₂.2 ⟨hf, .inl rfl⟩, h₃.2 ⟨hf', .inl rfl⟩⟩

end Topology

end Idle
