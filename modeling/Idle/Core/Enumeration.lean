import Idle.Core.Views

/-!
# What the iterators of the graph views run through

For each iterator of `graph.cpp` the list of what it enumerates is given, and the loop over it is
shown to end with exactly that list. The edges that leave an export and those that reach an import
are the lists `exportOutEdges` and `importInEdges`, with the usages that slip through the filter.
-/

namespace Idle

open EdgeDir Range

/-- The node of an edge that is not the part it is enumerated at. -/
def Edge.farNode : Edge → Node
  | inner s => .service s
  | child s => .service s
  | usage u => .usage u

namespace Topology

variable {c : Topology} {f : NodeGraphFlags}

/-! ### Lists of usages -/

/-- With or without the filter, what remains are the admitted usages. -/
lemma filter_admits (hf : f.hasAnyUsageEdge = true) (users : List Usage) :
    users.filter f.admits = if f.hasAllUsageEdge then users else users.filter f.filterUsages := by
  by_cases hall : f.hasAllUsageEdge = true
  · rw [if_pos hall]
    refine List.filter_eq_self.2 fun u _ => ?_
    simp only [NodeGraphFlags.hasAllUsageEdge, Bool.not_eq_true', Bool.or_eq_false_iff] at hall
    simp [GraphFlags.admits, hall]
  · rw [if_neg hall]
    refine List.filter_congr fun u _ => ?_
    simp only [NodeGraphFlags.hasAllUsageEdge, GraphFlags.hasAnyUsageEdge] at hall hf
    cases hw : f.filterUsageWeakEdge <;> cases hs : f.filterUsageStrongEdge <;>
      simp_all [NodeGraphFlags.filterUsages, NodeGraphFlags.hasUsageWeakEdge, GraphFlags.admits]

lemma frontUsage_eq (hf : f.hasAnyUsageEdge = true) (users : List Usage) :
    frontUsage f users = (users.filter f.admits).head?.map .usage := by
  rw [filter_admits hf, frontUsage]
  split_ifs <;> rfl

lemma countUsages_eq (hf : f.hasAnyUsageEdge = true) (users : List Usage) :
    countUsages f users = (users.filter f.admits).length := by
  rw [filter_admits hf, countUsages]
  split_ifs <;> rfl

lemma usageAdmitted_eq (f : NodeGraphFlags) (u : Usage) : usageAdmitted f u = f.admits u := by
  cases hw : u.weak <;>
    simp [usageAdmitted, GraphFlags.admits, hw, NodeGraphFlags.hasUsageWeakEdge,
      NodeGraphFlags.hasUsageStrongEdge]

/-- The usages that an iterator which filters runs through, from some place of the list on. -/
lemma walk_usages_append {next : Node → Option Node} (hf : f.hasAnyUsageEdge = true)
    {m users : List Usage} (hl : (m ++ users).Nodup)
    (hn : ∀ u ∈ users, next (.usage u) = frontUsage f ((m ++ users).after (· == u))) :
    Walk next (frontUsage f users) ((users.filter f.admits).map .usage) := by
  have h : Walk (fun u => (((m ++ users).after (· == u)).filter f.admits).head?)
      (users.filter f.admits).head? (users.filter f.admits) :=
    .filter_of_after f.admits hl fun u _ _ => rfl
  rw [frontUsage_eq hf]
  refine h.map fun u hu => ?_
  rw [hn u (List.mem_filter.1 hu).1, frontUsage_eq hf]

section Usages

variable {next : Node → Option Node} {users : List Usage} {b : Bool}

/-- The iterator begins at the first usage that the filter lets pass. -/
lemma walk_usages (hf : b = true → f.hasAnyUsageEdge = true) (hl : users.Nodup)
    (hn : ∀ u ∈ users, next (.usage u) = frontUsage f (users.after (· == u))) :
    Walk next (if b then frontUsage f users else none)
      (((if b then users else []).filter f.admits).map .usage) := by
  cases b with
  | false => exact .nil
  | true => exact walk_usages_append (m := []) (hf rfl) hl hn

/-- The iterator begins at the first usage without asking the filter. -/
lemma walk_usages_unfiltered (hf : b = true → f.hasAnyUsageEdge = true) (hl : users.Nodup)
    (hn : ∀ u ∈ users, next (.usage u) = frontUsage f (users.after (· == u))) :
    Walk next (if b then users.head?.map .usage else none)
      (((if b then users else []).take 1 ++
        ((if b then users else []).drop 1).filter f.admits).map .usage) := by
  cases b with
  | false => exact .nil
  | true =>
    cases users with
    | nil => exact .nil
    | cons u users =>
      refine .cons ?_
      rw [hn u List.mem_cons_self, show (u :: users).after (· == u) = users by simp [List.after]]
      exact walk_usages_append (m := [u]) (hf rfl) hl fun v hv => hn v (List.mem_cons_of_mem _ hv)

end Usages

/-! ### The edges of a node -/

/-- The nodes at the other ends of the edges of a node. -/
def edgeNodes (c : Topology) (f : NodeGraphFlags) : EdgeDir → Node → List Node
  | dirOut, .service s =>
    (if c.hasParentEdge f s dirOut then [.importer (c.layout.parent s)] else []) ++
      if f.hasOwnerExporterEdge then (c.layout.exports s).map .exporter else []
  | dirIn, .service s =>
    (if c.hasParentEdge f s dirIn then [.exporter (c.layout.parent s)] else []) ++
      if f.hasImporterOwnerEdge then (c.layout.imports s).map .importer else []
  | dirOut, .importer p => if f.hasImporterOwnerEdge then [.service p.owner] else []
  | dirIn, .importer p => (c.importInEdges f.toGraphFlags p).map Edge.farNode
  | dirOut, .exporter p => (c.exportOutEdges f.toGraphFlags p).map Edge.farNode
  | dirIn, .exporter p => if f.hasOwnerExporterEdge then [.service p.owner] else []
  | dirOut, .usage u => if f.hasUsageImporterEdge && f.admits u then [.importer u.user] else []
  | dirIn, .usage u => if f.hasExporterUsageEdge && f.admits u then [.exporter u.used] else []

/-- The iterator over the children of a part goes on with `oA`; without children it begins with
`oB`. -/
lemma walk_children (hc : c.WellFormed) {next : Node → Option Node} {p : Part} (b : Bool)
    {oA oB : Option Node} {lA lB : List Node} (hA : Walk next oA lA) (hB : Walk next oB lB)
    (hn : ∀ s, next (.service s) = ((c.nextSiblings s).head?.map .service).or oA) :
    Walk next ((if b then (c.children p).head?.map .service else none).or oB)
      (if (if b then c.children p else []) = [] then lB
        else (c.children p).map .service ++ lA) := by
  have hnodup : (c.children p).Nodup := hc.nodup.filter _
  have hwalk : Walk (fun s => (c.nextSiblings s).head?) (c.children p).head? (c.children p) := by
    refine .of_after hnodup fun s hs => ?_
    rw [nextSiblings, (ServiceTree.mem_children.1 hs).2.2]
  have himg : Walk (fun n => match n with
      | .service s => (c.nextSiblings s).head?.map .service
      | _ => none) ((c.children p).head?.map .service) ((c.children p).map Node.service) :=
    hwalk.map fun s _ => rfl
  have happ := himg.append hA fun n hn' => by
    obtain ⟨s, -, rfl⟩ := List.mem_map.1 hn'
    exact hn s
  cases b with
  | false => simpa using hB
  | true =>
    cases hl : c.children p with
    | nil => simpa [hl] using hB
    | cons s children => simpa [hl] using happ

/-- One step at most. -/
lemma walk_ite {next : Node → Option Node} (b : Bool) {n : Node} (hn : next n = none) :
    Walk next (if b then some n else none) (if b then [n] else []) := by
  cases b with
  | true =>
    refine .cons ?_
    rw [hn]
    exact .nil
  | false => exact .nil

/-- The parts of a service, with the part that it is a child of before them. -/
lemma walk_parts {next : Node → Option Node} (hasParent hasParts : Bool) {parent : Node}
    {parts : List Part} {mk : Part → Node} (hparts : parts.Nodup)
    (hparent : next parent = if hasParts then parts.head?.map mk else none)
    (hn : ∀ p ∈ parts,
      next (mk p) = if hasParts then (parts.after (· == p)).head?.map mk else none) :
    Walk next (if hasParent then some parent else if hasParts then parts.head?.map mk else none)
      ((if hasParent then [parent] else []) ++ if hasParts then parts.map mk else []) := by
  have hwalk : Walk next (if hasParts then parts.head?.map mk else none)
      (if hasParts then parts.map mk else []) := by
    cases hasParts with
    | false => exact .nil
    | true =>
      have h : Walk (fun p => (parts.after (· == p)).head?) parts.head? parts :=
        .of_after hparts fun p _ => rfl
      exact h.map fun p hp => hn p hp
  cases hasParent with
  | false => exact hwalk
  | true =>
    refine .cons ?_
    rw [hparent]
    exact hwalk

/-- `exportOutEdges` is what the loop over the out edges of an export runs through. -/
lemma walk_exporter (hc : c.WellFormed) (p : Part) :
    Walk (c.edgeAdvance f dirOut (.exporter p)) (c.edgeBegin f dirOut (.exporter p))
      ((c.exportOutEdges f.toGraphFlags p).map Edge.farNode) := by
  have hnodup : (c.dependentUsers p).Nodup := hc.usages_nodup'.filter _
  have hused : ∀ u ∈ c.dependentUsers p, c.edgeAdvance f dirOut (.exporter p) (.usage u) =
      frontUsage f ((c.dependentUsers p).after (· == u)) := by
    intro u hu
    have hp : u.used = p := by simpa using (List.mem_filter.1 hu).2
    rw [edgeAdvance, nextUsed, hp]
  have hany : f.hasExporterUsageEdge = true → f.hasAnyUsageEdge = true := by
    simp [GraphFlags.hasExporterUsageEdge]
  have hwalk := walk_children (p := p) hc f.hasExporterChildEdge
    (walk_usages_unfiltered hany hnodup hused) (walk_usages hany hnodup hused)
    fun s => by rw [edgeAdvance]
  rw [edgeBegin, exportOutEdges]
  cases hch : f.hasExporterChildEdge with
  | false => simpa [Function.comp_def, Edge.farNode, hch] using hwalk
  | true => cases hl : c.children p <;> simpa [Function.comp_def, Edge.farNode, hch, hl] using hwalk

/-- `importInEdges` is what the loop over the in edges of an import runs through. -/
lemma walk_importer (hc : c.WellFormed) (p : Part) :
    Walk (c.edgeAdvance f dirIn (.importer p)) (c.edgeBegin f dirIn (.importer p))
      ((c.importInEdges f.toGraphFlags p).map Edge.farNode) := by
  have hnodup : (c.importedUsages p).Nodup := hc.usages_nodup'.filter _
  have huser : ∀ u ∈ c.importedUsages p, c.edgeAdvance f dirIn (.importer p) (.usage u) =
      frontUsage f ((c.importedUsages p).after (· == u)) := by
    intro u hu
    have hp : u.user = p := by simpa using (List.mem_filter.1 hu).2
    rw [edgeAdvance, nextUser, hp]
  have hany : f.hasUsageImporterEdge = true → f.hasAnyUsageEdge = true := by
    simp [GraphFlags.hasUsageImporterEdge]
  have hwalk := walk_children (p := p) hc f.hasChildImporterEdge (walk_usages hany hnodup huser)
    (walk_usages_unfiltered hany hnodup huser) fun s => by rw [edgeAdvance]
  rw [edgeBegin, importInEdges]
  cases hch : f.hasChildImporterEdge with
  | false => simpa [Function.comp_def, Edge.farNode, hch] using hwalk
  | true => cases hl : c.children p <;> simpa [Function.comp_def, Edge.farNode, hch, hl] using hwalk

/-- The loop over the edges of any node. -/
lemma walk_edgeNodes (hc : c.WellFormed) (tag : EdgeDir) (n : Node) :
    Walk (c.edgeAdvance f tag n) (c.edgeBegin f tag n) (c.edgeNodes f tag n) := by
  have hexports : ∀ s, (c.layout.exports s).Nodup := fun s => (c.layout.parts_nodup s).filter _
  have himports : ∀ s, (c.layout.imports s).Nodup := fun s => (c.layout.parts_nodup s).filter _
  cases n with
  | service s =>
    have howner : ∀ {q : Part → Bool}, ∀ p ∈ (c.layout.parts s).filter q, p.owner = s :=
      fun p hp => c.layout.parts_owner (List.mem_filter.1 hp).1
    cases tag with
    | dirOut =>
      refine walk_parts _ _ (hexports s) rfl fun p hp => ?_
      simp only [edgeAdvance, howner p hp]
    | dirIn =>
      refine walk_parts _ _ (himports s) rfl fun p hp => ?_
      simp only [edgeAdvance, howner p hp]
  | importer p =>
    cases tag with
    | dirOut => exact walk_ite _ rfl
    | dirIn => exact walk_importer hc p
  | exporter p =>
    cases tag with
    | dirOut => exact walk_exporter hc p
    | dirIn => exact walk_ite _ rfl
  | usage u =>
    cases tag with
    | dirOut =>
      simp only [edgeBegin, usageAdmitted_eq]
      exact walk_ite _ rfl
    | dirIn =>
      simp only [edgeBegin, usageAdmitted_eq]
      exact walk_ite _ rfl

/-- The edges of a node. -/
def edgeList (c : Topology) (f : NodeGraphFlags) (tag : EdgeDir) (n : Node) : List NodeEdge :=
  (c.edgeNodes f tag n).map (tag.makeEdge n)

lemma iterationNodeOf_makeEdge (tag : EdgeDir) (n m : Node) :
    tag.iterationNodeOf (tag.makeEdge n m) = n := by
  cases tag <;> rfl

lemma currentItrOf_makeEdge (tag : EdgeDir) (n m : Node) :
    tag.currentItrOf (tag.makeEdge n m) = m := by
  cases tag <;> rfl

lemma iterationNodeOf_of_mem {tag : EdgeDir} {n : Node} {e : NodeEdge}
    (he : e ∈ c.edgeList f tag n) : tag.iterationNodeOf e = n := by
  obtain ⟨m, -, rfl⟩ := List.mem_map.1 he
  exact iterationNodeOf_makeEdge tag n m

lemma walk_edgeList (hc : c.WellFormed) (tag : EdgeDir) (n : Node) :
    Walk (c.advanceEdge f tag) (c.firstEdgeOf f tag n) (c.edgeList f tag n) := by
  refine (walk_edgeNodes hc tag n).map fun m _ => ?_
  rw [advanceEdge, iterationNodeOf_makeEdge, currentItrOf_makeEdge]

/-! ### The nodes -/

/-- The nodes of a part, in the order of the `node_iterator`. -/
def partNodes (c : Topology) (p : Part) : List Node :=
  if p.isImport then [.importer p] else .exporter p :: (c.dependentUsers p).map .usage

/-- The nodes of a service, in the order of the `node_iterator`. -/
def serviceNodes (c : Topology) (s : ServiceId) : List Node :=
  .service s :: (c.layout.parts s).flatMap c.partNodes

/-- The nodes in the order of the `node_iterator`. -/
def nodeList (c : Topology) : List Node := c.transitiveServices.flatMap c.serviceNodes

/-- The part that a node belongs to. -/
def nodePart : Node → Option Part
  | .service _ => none
  | .importer p => some p
  | .exporter p => some p
  | .usage u => some u.used

lemma nodePart_of_mem {p : Part} {n : Node} (hn : n ∈ c.partNodes p) : nodePart n = some p := by
  rw [partNodes] at hn
  split at hn
  · rw [List.mem_singleton.1 hn]
    rfl
  · rcases List.mem_cons.1 hn with rfl | hn
    · rfl
    · obtain ⟨u, hu, rfl⟩ := List.mem_map.1 hn
      have : u.used = p := by simpa using (List.mem_filter.1 hu).2
      rw [nodePart, this]

lemma serviceSource_of_nodePart {p : Part} {n : Node} (hn : nodePart n = some p) :
    serviceSource n = p.owner := by
  cases n with
  | service s => cases hn
  | importer q | exporter q | usage u =>
    cases hn
    rfl

lemma serviceSource_of_mem {s : ServiceId} {n : Node} (hn : n ∈ c.serviceNodes s) :
    serviceSource n = s := by
  rcases List.mem_cons.1 hn with rfl | hn
  · rfl
  · obtain ⟨p, hp, hn⟩ := List.mem_flatMap.1 hn
    rw [serviceSource_of_nodePart (nodePart_of_mem hn), c.layout.parts_owner hp]

/-- What `nodeIncrement` tries before it leaves the part. -/
def incrementInPart (c : Topology) : Node → Option Node
  | .exporter me => (c.dependentUsers me).head?.map .usage
  | .usage me => (c.nextUsed me).head?.map .usage
  | _ => none

/-- What `nodeIncrement` tries before it leaves the service. -/
def incrementInService (c : Topology) : Node → Option Node
  | .service me => (c.layout.parts me).head?.map .ofPart
  | .importer me => (c.nextParts me).head?.map .ofPart
  | .exporter me =>
    ((c.dependentUsers me).head?.map .usage).or ((c.nextParts me).head?.map .ofPart)
  | .usage me => ((c.nextUsed me).head?.map .usage).or ((c.nextParts me.used).head?.map .ofPart)

lemma walk_partNodes (hc : c.WellFormed) (p : Part) :
    Walk c.incrementInPart (some (.ofPart p)) (c.partNodes p) := by
  by_cases hp : p.isImport = true
  · simp only [partNodes, Node.ofPart, hp, if_true]
    exact .cons .nil
  · simp only [partNodes, Node.ofPart, hp]
    refine .cons ?_
    have h : Walk (fun u => (c.nextUsed u).head?) (c.dependentUsers p).head?
        (c.dependentUsers p) := by
      refine .of_after (hc.usages_nodup'.filter _) fun u hu => ?_
      have : u.used = p := by simpa using (List.mem_filter.1 hu).2
      rw [nextUsed, this]
    exact h.map fun u _ => rfl

lemma findSome?_some {α β : Type*} (g : α → β) (l : List α) :
    l.findSome? (fun a => some (g a)) = l.head?.map g := by
  cases l <;> rfl

lemma walk_serviceNodes (hc : c.WellFormed) (s : ServiceId) :
    Walk c.incrementInService (some (.service s)) (c.serviceNodes s) := by
  refine .cons ?_
  rw [incrementInService, ← findSome?_some]
  refine Walk.flatMap (fun p _ => walk_partNodes hc p) fun ps₁ p ps₂ e n hn => ?_
  have hp : nodePart n = some p := nodePart_of_mem hn
  have howner : p.owner = s := c.layout.parts_owner (by simp [e])
  have hnext : c.nextParts p = ps₂ := by
    have hnodup := c.layout.parts_nodup s
    rw [nextParts, howner, e]
    rw [e] at hnodup
    exact hnodup.after_append_cons
  rw [findSome?_some, ← hnext]
  cases n with
  | service t => cases hp
  | importer q | exporter q | usage u =>
    cases hp
    rfl

/-- The loop over the vertices of the `DependencyGraph`. -/
lemma walk_nodeList (hc : c.WellFormed) :
    Walk c.nodeIncrement (some (.service c.layout.root)) c.nodeList := by
  have hfront : c.transitiveServices.findSome? (fun s => some (Node.service s)) =
      some (.service c.layout.root) := by
    rw [hc.transitiveServices_eq_cons]
    rfl
  rw [← hfront]
  refine Walk.flatMap (fun s _ => walk_serviceNodes hc s) fun ss₁ s ss₂ e n hn => ?_
  have hnext : c.nextServices s = ss₂ := by
    have hnodup : c.transitiveServices.Nodup := hc.nodup_preorder
    rw [nextServices, e]
    rw [e] at hnodup
    exact hnodup.after_append_cons
  have hs := serviceSource_of_mem hn
  rw [findSome?_some, ← hnext]
  cases n with
  | service t =>
    cases hs
    rfl
  | importer q | exporter q | usage u =>
    cases hs
    simp [nodeIncrement, incrementInService, nextFromService, serviceSource, Option.or_assoc]

lemma mem_nodes_service {s : ServiceId} : .service s ∈ c.nodes ↔ s ∈ c.services := by
  simp [nodes, Node.ofPart, ite_eq_iff]

lemma mem_nodes_usage {u : Usage} : .usage u ∈ c.nodes ↔ u ∈ c.usages := by
  simp [nodes, Node.ofPart, ite_eq_iff]

lemma mem_nodes_importer {p : Part} :
    .importer p ∈ c.nodes ↔ p.owner ∈ c.services ∧ p ∈ c.layout.imports p.owner := by
  simp only [nodes, List.mem_append, List.mem_flatMap, List.mem_map, Node.ofPart, ite_eq_iff,
    Layout.imports, List.mem_filter]
  constructor
  · rintro ((⟨s, -, h⟩ | ⟨s, hs, q, hq, ⟨himp, h⟩ | ⟨-, h⟩⟩) | ⟨u, -, h⟩)
    · cases h
    · cases h
      obtain rfl := c.layout.parts_owner hq
      exact ⟨hs, hq, himp⟩
    · cases h
    · cases h
  · rintro ⟨hs, hp, himp⟩
    exact .inl (.inr ⟨p.owner, hs, p, hp, .inl ⟨himp, rfl⟩⟩)

lemma mem_nodes_exporter {p : Part} :
    .exporter p ∈ c.nodes ↔ p.owner ∈ c.services ∧ p ∈ c.layout.exports p.owner := by
  simp only [nodes, List.mem_append, List.mem_flatMap, List.mem_map, Node.ofPart, ite_eq_iff,
    Layout.exports, List.mem_filter, Part.isExport_eq_not, Bool.not_eq_true']
  constructor
  · rintro ((⟨s, -, h⟩ | ⟨s, hs, q, hq, ⟨-, h⟩ | ⟨hexp, h⟩⟩) | ⟨u, -, h⟩)
    · cases h
    · cases h
    · cases h
      obtain rfl := c.layout.parts_owner hq
      exact ⟨hs, hq, by simpa using hexp⟩
    · cases h
  · rintro ⟨hs, hp, hexp⟩
    exact .inl (.inr ⟨p.owner, hs, p, hp, .inr ⟨by simpa using hexp, rfl⟩⟩)

lemma mem_partNodes {p : Part} {n : Node} : n ∈ c.partNodes p ↔
    n = .ofPart p ∨ p.isImport = false ∧ ∃ u ∈ c.usages, u.used = p ∧ n = .usage u := by
  have hexp : (∃ u, (u ∈ c.usages ∧ u.used = p) ∧ Node.usage u = n) ↔
      ∃ u ∈ c.usages, u.used = p ∧ n = .usage u := by
    simp only [and_assoc, eq_comm (a := n)]
  cases hp : p.isImport with
  | false => simp [partNodes, Node.ofPart, hp, dependentUsers, hexp]
  | true => simp [partNodes, Node.ofPart, hp]

/-- The vertices of the `DependencyGraph` are the nodes of the system. -/
lemma mem_nodeList (hc : c.WellFormed) (n : Node) : n ∈ c.nodeList ↔ n ∈ c.nodes := by
  simp only [nodeList, serviceNodes, List.mem_flatMap, List.mem_cons, hc.mem_transitiveServices,
    mem_partNodes, nodes, List.mem_append, List.mem_map]
  constructor
  · rintro ⟨s, hs, rfl | ⟨p, hp, rfl | ⟨-, u, hu, -, rfl⟩⟩⟩
    · exact .inl (.inl ⟨s, hs, rfl⟩)
    · exact .inl (.inr ⟨s, hs, p, hp, rfl⟩)
    · exact .inr ⟨u, hu, rfl⟩
  · rintro ((⟨s, hs, rfl⟩ | ⟨s, hs, p, hp, rfl⟩) | ⟨u, hu, rfl⟩)
    · exact ⟨s, hs, .inl rfl⟩
    · exact ⟨s, hs, .inr ⟨p, hp, .inl rfl⟩⟩
    · obtain ⟨hp, hexp⟩ := List.mem_filter.1 (hc.used_exports u hu)
      exact ⟨_, hc.used_mem u hu, .inr ⟨u.used, hp, .inr ⟨by simpa using hexp, u, hu, rfl, rfl⟩⟩⟩

lemma nodup_partNodes (hc : c.WellFormed) (p : Part) : (c.partNodes p).Nodup := by
  rw [partNodes]
  split_ifs
  · exact List.nodup_singleton _
  · refine List.nodup_cons.2 ⟨by simp, ?_⟩
    exact (hc.usages_nodup'.filter _).map fun u v h => Node.usage.inj h

lemma nodup_nodeList (hc : c.WellFormed) : c.nodeList.Nodup := by
  refine List.nodup_flatMap_of_unique hc.nodup_preorder (fun s _ => ?_) fun n s t hs ht _ _ =>
    (serviceSource_of_mem hs).symm.trans (serviceSource_of_mem ht)
  refine List.nodup_cons.2 ⟨fun hs => ?_, ?_⟩
  · obtain ⟨p, -, hp⟩ := List.mem_flatMap.1 hs
    cases nodePart_of_mem hp
  · refine List.nodup_flatMap_of_unique (c.layout.parts_nodup s)
      (fun p _ => nodup_partNodes hc p) ?_
    exact fun n p q hp hq _ _ =>
      Option.some.inj ((nodePart_of_mem hp).symm.trans (nodePart_of_mem hq))

/-- The loop over the vertices, and what is left of it at any of them. -/
lemma nodesFrom_eq (hc : c.WellFormed) {l m : List Node} (h : c.nodeList = l ++ m) :
    c.nodesFrom m.head? = m := by
  have hwalk := walk_nodeList hc
  rw [h] at hwalk
  refine hwalk.suffix.walk_eq ?_
  have hlen : c.nodeList.length ≤ c.nodes.length :=
    ((nodup_nodeList hc).subperm fun n hn => (mem_nodeList hc n).1 hn).length_le
  rw [h, List.length_append] at hlen
  omega

/-- The loop over the edges of the `DependencyGraph`. -/
lemma walk_edges (hc : c.WellFormed) :
    Walk (c.edgeIncrement f)
      (c.firstEdgeInRange f dirOut (c.nodesFrom (some (.service c.layout.root))))
      (c.nodeList.flatMap (c.edgeList f dirOut)) := by
  have hroot : c.nodesFrom (some (.service c.layout.root)) = c.nodeList := by
    rw [← (walk_nodeList hc).head?_eq]
    exact nodesFrom_eq hc (l := []) rfl
  rw [hroot]
  refine Walk.flatMap (fun n _ => walk_edgeList hc dirOut n) fun l₁ n l₂ e a ha => ?_
  have hwalk := walk_nodeList hc
  rw [e] at hwalk
  rw [edgeIncrement, iterationNodeOf_of_mem ha, hwalk.next_eq,
    nodesFrom_eq hc (e.trans (List.append_cons l₁ n l₂))]
  rfl

/-! ### The edges of a service -/

/-- The service and its parts, imports before exports. -/
def innerNodeList (c : Topology) (s : ServiceId) : List Node :=
  .service s :: ((c.layout.imports s).map .importer ++ (c.layout.exports s).map .exporter)

/-- The loop over the inner nodes of a service. -/
lemma walk_innerNodeList (c : Topology) (s : ServiceId) :
    Walk c.nextChildNode (some (.service s)) (c.innerNodeList s) := by
  have hparts : ∀ {q : Part → Bool} {p : Part}, p ∈ (c.layout.parts s).filter q → p.owner = s :=
    fun hp => c.layout.parts_owner (List.mem_filter.1 hp).1
  have himports : Walk (fun p => ((c.layout.imports p.owner).after (· == p)).head?)
      (c.layout.imports s).head? (c.layout.imports s) :=
    .of_after ((c.layout.parts_nodup s).filter _) fun p hp => by rw [hparts hp]
  have hexports : Walk (fun p => ((c.layout.exports p.owner).after (· == p)).head?)
      (c.layout.exports s).head? (c.layout.exports s) :=
    .of_after ((c.layout.parts_nodup s).filter _) fun p hp => by rw [hparts hp]
  have hexporters : Walk c.nextChildNode ((c.layout.exports s).head?.map .exporter)
      ((c.layout.exports s).map .exporter) :=
    hexports.map fun p hp => rfl
  have himporters : Walk (fun n => match n with
      | .importer p => ((c.layout.imports p.owner).after (· == p)).head?.map .importer
      | _ => none) ((c.layout.imports s).head?.map .importer)
      ((c.layout.imports s).map Node.importer) :=
    himports.map fun p _ => rfl
  refine .cons (himporters.append hexporters fun n hn => ?_)
  obtain ⟨p, hp, rfl⟩ := List.mem_map.1 hn
  simp only [nextChildNode, hparts hp]

lemma nodup_innerNodeList (c : Topology) (s : ServiceId) : (c.innerNodeList s).Nodup := by
  refine List.nodup_cons.2 ⟨by simp, List.nodup_append.2 ⟨?_, ?_, ?_⟩⟩
  · exact ((c.layout.parts_nodup s).filter _).map fun p q h => Node.importer.inj h
  · exact ((c.layout.parts_nodup s).filter _).map fun p q h => Node.exporter.inj h
  · rintro n hn m hm rfl
    obtain ⟨p, -, rfl⟩ := List.mem_map.1 hn
    simp at hm

lemma nodeOwner_of_mem {s : ServiceId} {n : Node} (hn : n ∈ c.innerNodeList s) :
    c.nodeOwner n = s := by
  simp only [innerNodeList, List.mem_cons, List.mem_append, List.mem_map] at hn
  obtain rfl | ⟨p, hp, rfl⟩ | ⟨p, hp, rfl⟩ := hn
  · rfl
  · exact c.layout.parts_owner (List.mem_filter.1 hp).1
  · exact c.layout.parts_owner (List.mem_filter.1 hp).1

/-- The inner nodes of a service are its node and those of its parts. -/
lemma mem_innerNodeList {s : ServiceId} (hs : s ∈ c.services) {n : Node} :
    n ∈ c.innerNodeList s ↔ (n ∈ c.nodes ∧ ∀ u, n ≠ .usage u) ∧ c.nodeOwner n = s := by
  constructor
  · intro hn
    refine ⟨?_, nodeOwner_of_mem hn⟩
    simp only [innerNodeList, List.mem_cons, List.mem_append, List.mem_map] at hn
    obtain rfl | ⟨p, hp, rfl⟩ | ⟨p, hp, rfl⟩ := hn
    · exact ⟨mem_nodes_service.2 hs, by simp⟩
    · obtain rfl := c.layout.parts_owner (List.mem_filter.1 hp).1
      exact ⟨mem_nodes_importer.2 ⟨hs, hp⟩, by simp⟩
    · obtain rfl := c.layout.parts_owner (List.mem_filter.1 hp).1
      exact ⟨mem_nodes_exporter.2 ⟨hs, hp⟩, by simp⟩
  · rintro ⟨⟨hn, hu⟩, rfl⟩
    cases n with
    | service s => simp [innerNodeList, nodeOwner]
    | importer p => simpa [innerNodeList, nodeOwner] using (mem_nodes_importer.1 hn).2
    | exporter p => simpa [innerNodeList, nodeOwner] using (mem_nodes_exporter.1 hn).2
    | usage u => exact absurd rfl (hu u)

lemma innerNodesFrom_eq {s : ServiceId} (hs : s ∈ c.services) {l m : List Node}
    (h : c.innerNodeList s = l ++ m) : c.innerNodesFrom m.head? = m := by
  have hwalk := walk_innerNodeList c s
  rw [h] at hwalk
  refine hwalk.suffix.walk_eq ?_
  have hlen : (c.innerNodeList s).length ≤ c.nodes.length :=
    ((nodup_innerNodeList c s).subperm fun n hn => ((mem_innerNodeList hs).1 hn).1.1).length_le
  rw [h, List.length_append] at hlen
  omega

lemma innerNodes_eq {s : ServiceId} (hs : s ∈ c.services) : c.innerNodes s = c.innerNodeList s :=
  innerNodesFrom_eq hs (l := []) (m := c.innerNodeList s) rfl

/-- The edges of a service. -/
def serviceEdgeList (c : Topology) (f : NodeGraphFlags) (tag : EdgeDir) (s : ServiceId) :
    List NodeEdge :=
  (c.innerNodeList s).flatMap (c.edgeList f tag)

lemma nodeOwner_of_mem_serviceEdgeList {tag : EdgeDir} {s : ServiceId} {e : NodeEdge}
    (he : e ∈ c.serviceEdgeList f tag s) : c.nodeOwner (tag.iterationNodeOf e) = s := by
  obtain ⟨n, hn, he⟩ := List.mem_flatMap.1 he
  rw [iterationNodeOf_of_mem he]
  exact nodeOwner_of_mem hn

/-- The loop over the edges of a service. -/
lemma walk_serviceEdgeList (hc : c.WellFormed) (tag : EdgeDir) {s : ServiceId}
    (hs : s ∈ c.services) :
    Walk (c.advanceOuterEdge f tag) (c.firstOuterEdgeOf f tag s) (c.serviceEdgeList f tag s) := by
  rw [firstOuterEdgeOf, innerNodes_eq hs]
  refine Walk.flatMap (fun n _ => walk_edgeList hc tag n) fun l₁ n l₂ e a ha => ?_
  have hwalk := walk_innerNodeList c s
  rw [e] at hwalk
  rw [advanceOuterEdge, iterationNodeOf_of_mem ha, hwalk.next_eq,
    innerNodesFrom_eq hs (e.trans (List.append_cons l₁ n l₂))]

/-- The loop over the vertices of the `ServiceDependencyGraph`. -/
lemma walk_transitiveServices (hc : c.WellFormed) :
    Walk (fun s => (c.nextServices s).head?) (some c.layout.root) c.transitiveServices := by
  have hroot : c.transitiveServices.head? = some c.layout.root := by
    rw [hc.transitiveServices_eq_cons]
    rfl
  rw [← hroot]
  exact .of_after hc.nodup_preorder fun s _ => rfl

/-- The loop over the edges of the `ServiceDependencyGraph`. -/
lemma walk_serviceEdges (hc : c.WellFormed) :
    Walk (c.serviceEdgeIncrement f) (c.firstOuterEdgeInRange f dirOut c.transitiveServices)
      (c.transitiveServices.flatMap (c.serviceEdgeList f dirOut)) := by
  refine Walk.flatMap
    (fun s hs => walk_serviceEdgeList hc dirOut (hc.mem_transitiveServices.1 hs))
    fun l₁ s l₂ e a ha => ?_
  have hnodup : c.transitiveServices.Nodup := hc.nodup_preorder
  rw [serviceEdgeIncrement, nodeOwner_of_mem_serviceEdgeList ha, nextServices, e]
  rw [e] at hnodup
  rw [hnodup.after_append_cons]
  rfl

/-! ### The edges of a cluster -/

/-- The edges of a cluster. -/
def clusterEdgeList (c : Topology) (f : NodeGraphFlags) (tag : EdgeDir) (h : ServiceId) :
    List NodeEdge :=
  (c.clusterMembers h).flatMap (c.serviceEdgeList f tag)

/-- The loop over the vertices of the `ClusterDependencyGraph`. -/
lemma walk_clusters (hc : c.WellFormed) :
    Walk (fun s => (c.nextServices s).find? c.layout.isClusterHead) (some c.layout.root)
      c.clusters := by
  have hroot : c.clusters.head? = some c.layout.root := by
    rw [ServiceTree.clusters, hc.transitiveServices_eq_cons,
      List.filter_cons_of_pos ServiceTree.IsTree.root_isClusterHead]
    rfl
  rw [← hroot]
  refine .filter_of_after (m := []) _ hc.nodup_preorder fun s _ _ => ?_
  rw [List.head?_filter]
  rfl

/-- The loop over the edges of a cluster, from its head on. -/
lemma walk_clusterEdgeList (hc : c.WellFormed) (tag : EdgeDir) {h : ServiceId} (hh : h ∈ c.services)
    (hhead : c.cluster h = h) :
    Walk (c.clusterEdgeIncrement f tag) (c.firstOuterEdgeInRange f tag (c.clusterMembers h))
      (c.clusterEdgeList f tag h) := by
  have hmem : ∀ s ∈ c.clusterMembers h, s ∈ c.services ∧ c.cluster s = h := fun s hs =>
    (hc.mem_clusterMembers hh hhead).1 hs
  refine Walk.flatMap (fun s hs => walk_serviceEdgeList hc tag (hmem s hs).1)
    fun l₁ s l₂ e a ha => ?_
  have hnodup := hc.nodup_clusterMembers h
  have htail : (c.clusterMembers s).tail = l₂ := by
    rw [ServiceTree.clusterMembers, (hmem s (by simp [e])).2,
      ← ServiceTree.IsTree.clusterMembers_eq hh hhead, e]
    rw [e] at hnodup
    have hl₁ : ∀ t ∈ l₁, (t != s) = true := fun t ht =>
      bne_iff_ne.2 fun hts => (List.nodup_append.1 hnodup).2.2 t ht s List.mem_cons_self hts
    rw [List.dropWhile_append_of_pos hl₁]
    simp
  rw [clusterEdgeIncrement, nodeOwner_of_mem_serviceEdgeList ha, htail]
  rfl

end Topology

end Idle
