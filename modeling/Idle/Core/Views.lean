import Idle.Core.Edges
import Idle.Library.Iteration

/-!
# The graph views

`graph.cpp` gives three views of the same services: the `DependencyGraph` of services, parts and
usages, the `ServiceDependencyGraph` and the `ClusterDependencyGraph`. Each direction of each view
has functions of its own that find the first edge of a node, advance an edge to the next one, and
count the edges.
-/

namespace Idle

/-! ### Nodes and edges -/

inductive Node where
  | service (s : ServiceId)
  | importer (p : Part)
  | exporter (p : Part)
  | usage (u : Usage)
  deriving DecidableEq, Repr

/-- `Node::from_part` -/
def Node.ofPart (p : Part) : Node := if p.isImport then .importer p else .exporter p

/-- `Edge`, between any two nodes -/
structure NodeEdge where
  source : Node
  target : Node
  deriving DecidableEq, Repr

/-- `dir_out_tag_t` and `dir_in_tag_t` -/
inductive EdgeDir where
  | dirOut
  | dirIn
  deriving DecidableEq, Repr

namespace EdgeDir

def iterationNodeOf : EdgeDir → NodeEdge → Node
  | dirOut, e => e.source
  | dirIn, e => e.target

def currentItrOf : EdgeDir → NodeEdge → Node
  | dirOut, e => e.target
  | dirIn, e => e.source

def makeEdge : EdgeDir → Node → Node → NodeEdge
  | dirOut, current, itr => ⟨current, itr⟩
  | dirIn, current, itr => ⟨itr, current⟩

end EdgeDir

/-- All `GraphFlags`. -/
structure NodeGraphFlags extends GraphFlags where
  filterOwnerExporterEdge : Bool := false
  filterImporterOwnerEdge : Bool := false
  deriving DecidableEq, Repr

namespace NodeGraphFlags

instance : Coe NodeGraphFlags GraphFlags := ⟨toGraphFlags⟩

def hasOwnerExporterEdge (f : NodeGraphFlags) : Bool := !f.filterOwnerExporterEdge

def hasImporterOwnerEdge (f : NodeGraphFlags) : Bool := !f.filterImporterOwnerEdge

def hasAllUsageEdge (f : NodeGraphFlags) : Bool :=
  !(f.filterUsageWeakEdge || f.filterUsageStrongEdge)

def hasUsageWeakEdge (f : NodeGraphFlags) : Bool := !f.filterUsageWeakEdge

def hasUsageStrongEdge (f : NodeGraphFlags) : Bool := !f.filterUsageStrongEdge

/-- The predicate of `filter_usages` -/
def filterUsages (f : NodeGraphFlags) (u : Usage) : Bool := f.hasUsageWeakEdge == u.weak

/-- `flags | GraphFlags::service_graph()` -/
def orServiceGraph (f : NodeGraphFlags) : NodeGraphFlags :=
  { f with filterOwnerExporterEdge := true, filterImporterOwnerEdge := true }

/-- `flags | GraphFlags::external_graph()` -/
def orExternalGraph (f : NodeGraphFlags) : NodeGraphFlags :=
  { f with filterChildImporterEdge := true }

end NodeGraphFlags

namespace Topology

open EdgeDir

variable (c : Topology)

/-- The nodes of the system. -/
def nodes : List Node :=
  c.services.map .service ++ c.services.flatMap (fun s => (c.layout.parts s).map .ofPart) ++
    c.usages.map .usage

/-- `transitive_services(current).next()` -/
def nextServices (current : ServiceId) : List ServiceId := c.transitiveServices.after (· == current)

/-- `neighbors().next()` of a part -/
def nextParts (p : Part) : List Part := (c.layout.parts p.owner).after (· == p)

/-- `neighbors().next()` of a service -/
def nextSiblings (s : ServiceId) : List ServiceId := (c.children (c.layout.parent s)).after (· == s)

/-- `used_neighbors().next()` -/
def nextUsed (u : Usage) : List Usage := (c.dependentUsers u.used).after (· == u)

/-- `user_neighbors().next()` -/
def nextUser (u : Usage) : List Usage := (c.importedUsages u.user).after (· == u)

/-! ### The node iterator -/

/-- `set_next_from_service` -/
def nextFromService (current : ServiceId) : Option Node :=
  (c.nextServices current).head?.map .service

/-- `node_iterator::increment` -/
def nodeIncrement : Node → Option Node
  | .service me => ((c.layout.parts me).head?.map .ofPart).or (c.nextFromService me)
  | .importer me => ((c.nextParts me).head?.map .ofPart).or (c.nextFromService me.owner)
  | .exporter me =>
    ((c.dependentUsers me).head?.map .usage).or
      (((c.nextParts me).head?.map .ofPart).or (c.nextFromService me.owner))
  | .usage me =>
    ((c.nextUsed me).head?.map .usage).or
      (((c.nextParts me.used).head?.map .ofPart).or (c.nextFromService me.used.owner))

/-- The nodes a `node_iterator` runs through; there are no more than all of them. -/
def nodesFrom (first : Option Node) : List Node := Range.walk c.nodeIncrement c.nodes.length first

/-! ### The edges of a node -/

variable (f : NodeGraphFlags)

/-- `edge_trait_t<Service>::has_parent_edge` -/
def hasParentEdge (s : ServiceId) : EdgeDir → Bool
  | dirOut => (c.layout.parent s).isImport && f.hasChildImporterEdge && s != c.layout.root
  | dirIn => (c.layout.parent s).isExport && f.hasExporterChildEdge && s != c.layout.root

/-- `front()` of a list of usages, which goes through `filter_usages` if some are filtered out. -/
def frontUsage (users : List Usage) : Option Node :=
  if f.hasAllUsageEdge then users.head?.map .usage
  else (users.filter f.filterUsages).head?.map .usage

/-- The test in `edge_trait_t<Usage>` -/
def usageAdmitted (u : Usage) : Bool :=
  (f.hasUsageWeakEdge || !u.weak) && (f.hasUsageStrongEdge || u.weak)

/-- `edge_trait_t<..>::begin` -/
def edgeBegin : EdgeDir → Node → Option Node
  | dirOut, .service current =>
    if c.hasParentEdge f current dirOut then some (.importer (c.layout.parent current))
    else if f.hasOwnerExporterEdge then (c.layout.exports current).head?.map .exporter
    else none
  | dirIn, .service current =>
    if c.hasParentEdge f current dirIn then some (.exporter (c.layout.parent current))
    else if f.hasImporterOwnerEdge then (c.layout.imports current).head?.map .importer
    else none
  | dirOut, .importer current =>
    if f.hasImporterOwnerEdge then some (.service current.owner) else none
  | dirIn, .importer current =>
    -- the usages are not filtered here
    (if f.hasChildImporterEdge then (c.children current).head?.map .service else none).or
      (if f.hasUsageImporterEdge then (c.importedUsages current).head?.map .usage else none)
  | dirOut, .exporter current =>
    (if f.hasExporterChildEdge then (c.children current).head?.map .service else none).or
      (if f.hasExporterUsageEdge then frontUsage f (c.dependentUsers current) else none)
  | dirIn, .exporter current =>
    if f.hasOwnerExporterEdge then some (.service current.owner) else none
  | dirOut, .usage current =>
    if f.hasUsageImporterEdge && usageAdmitted f current then some (.importer current.user)
    else none
  | dirIn, .usage current =>
    if f.hasExporterUsageEdge && usageAdmitted f current then some (.exporter current.used)
    else none

/-- `edge_trait_t<..>::advance`; what is marked as unreachable gives no node. -/
def edgeAdvance : EdgeDir → Node → Node → Option Node
  | dirOut, .service current, itr =>
    if f.hasOwnerExporterEdge then
      match itr with
      | .importer _ => (c.layout.exports current).head?.map .exporter
      | .exporter p => ((c.layout.exports p.owner).after (· == p)).head?.map .exporter
      | _ => none
    else none
  | dirIn, .service current, itr =>
    if f.hasImporterOwnerEdge then
      match itr with
      | .exporter _ => (c.layout.imports current).head?.map .importer
      | .importer p => ((c.layout.imports p.owner).after (· == p)).head?.map .importer
      | _ => none
    else none
  | dirIn, .importer current, itr =>
    match itr with
    | .service s =>
      ((c.nextSiblings s).head?.map .service).or
        (if f.hasUsageImporterEdge then frontUsage f (c.importedUsages current) else none)
    | .usage u => frontUsage f (c.nextUser u)
    | _ => none
  | dirOut, .exporter current, itr =>
    match itr with
    | .service s =>
      -- the usages are not filtered here
      ((c.nextSiblings s).head?.map .service).or
        (if f.hasExporterUsageEdge then (c.dependentUsers current).head?.map .usage else none)
    | .usage u => frontUsage f (c.nextUsed u)
    | _ => none
  | dirOut, .importer _, _ | dirIn, .exporter _, _ | dirOut, .usage _, _ | dirIn, .usage _, _ =>
    none

/-- The number of usages, of which some are filtered out if the flags say so. -/
def countUsages (users : List Usage) : Nat :=
  if f.hasAllUsageEdge then users.length else (users.filter f.filterUsages).length

/-- `edge_trait_t<..>::degree` -/
def edgeDegree : EdgeDir → Node → Nat
  | dirOut, .service current =>
    (if c.hasParentEdge f current dirOut then 1 else 0) +
      if f.hasOwnerExporterEdge then (c.layout.exports current).length else 0
  | dirIn, .service current =>
    (if c.hasParentEdge f current dirIn then 1 else 0) +
      if f.hasImporterOwnerEdge then (c.layout.imports current).length else 0
  | dirOut, .importer _ => if f.hasImporterOwnerEdge then 1 else 0
  | dirIn, .importer current =>
    (if f.hasChildImporterEdge then (c.children current).length else 0) +
      if f.hasUsageImporterEdge then countUsages f (c.importedUsages current) else 0
  | dirOut, .exporter current =>
    (if f.hasExporterChildEdge then (c.children current).length else 0) +
      if f.hasExporterUsageEdge then countUsages f (c.dependentUsers current) else 0
  | dirIn, .exporter _ => if f.hasOwnerExporterEdge then 1 else 0
  | dirOut, .usage current =>
    if f.hasUsageImporterEdge && usageAdmitted f current then 1 else 0
  | dirIn, .usage current =>
    if f.hasExporterUsageEdge && usageAdmitted f current then 1 else 0

/-- `advance_edge` -/
def advanceEdge (tag : EdgeDir) (e : NodeEdge) : Option NodeEdge :=
  (c.edgeAdvance f tag (tag.iterationNodeOf e) (tag.currentItrOf e)).map
    (tag.makeEdge (tag.iterationNodeOf e))

/-- `first_edge_of` -/
def firstEdgeOf (tag : EdgeDir) (current : Node) : Option NodeEdge :=
  (c.edgeBegin f tag current).map (tag.makeEdge current)

/-- `first_edge_in_range` -/
def firstEdgeInRange (tag : EdgeDir) (range : List Node) : Option NodeEdge :=
  range.findSome? (c.firstEdgeOf f tag)

/-- `edge_iterator::increment` -/
def edgeIncrement (e : NodeEdge) : Option NodeEdge :=
  (c.advanceEdge f dirOut e).or
    (c.firstEdgeInRange f dirOut (c.nodesFrom (c.nodeIncrement (dirOut.iterationNodeOf e))))

/-- `DependencyGraph` -/
def dependencyGraph : GraphView Node NodeEdge where
  vertices := ⟨some (.service c.layout.root), c.nodeIncrement⟩
  edges := ⟨c.firstEdgeInRange f dirOut (c.nodesFrom (some (.service c.layout.root))),
    c.edgeIncrement f⟩
  outEdges v := ⟨c.firstEdgeOf f dirOut v, c.advanceEdge f dirOut⟩
  inEdges v := ⟨c.firstEdgeOf f dirIn v, c.advanceEdge f dirIn⟩
  outDegree := c.edgeDegree f dirOut
  inDegree := c.edgeDegree f dirIn
  source := NodeEdge.source
  target := NodeEdge.target

/-! ### The edges of a service -/

/-- `next_child_node` -/
def nextChildNode : Node → Option Node
  | .service current =>
    ((c.layout.imports current).head?.map .importer).or
      ((c.layout.exports current).head?.map .exporter)
  | .importer current =>
    (((c.layout.imports current.owner).after (· == current)).head?.map .importer).or
      ((c.layout.exports current.owner).head?.map .exporter)
  | .exporter current => ((c.layout.exports current.owner).after (· == current)).head?.map .exporter
  | .usage _ => none

/-- The nodes an `inner_node_iterator` runs through: the service and its parts, at most. -/
def innerNodesFrom (first : Option Node) : List Node :=
  Range.walk c.nextChildNode c.nodes.length first

/-- `inner_nodes` -/
def innerNodes (s : ServiceId) : List Node := c.innerNodesFrom (some (.service s))

/-- `first_outer_edge_of` -/
def firstOuterEdgeOf (tag : EdgeDir) (current : ServiceId) : Option NodeEdge :=
  (c.innerNodes current).findSome? (c.firstEdgeOf f tag)

/-- `first_outer_edge_in_range` -/
def firstOuterEdgeInRange (tag : EdgeDir) (range : List ServiceId) : Option NodeEdge :=
  range.findSome? (c.firstOuterEdgeOf f tag)

/-- `advance_outer_edge` -/
def advanceOuterEdge (tag : EdgeDir) (e : NodeEdge) : Option NodeEdge :=
  (c.advanceEdge f tag e).or
    ((c.innerNodesFrom (c.nextChildNode (tag.iterationNodeOf e))).findSome? (c.firstEdgeOf f tag))

/-- `Node::owner`; a usage has none. -/
def nodeOwner : Node → ServiceId
  | .service s => s
  | .importer p => p.owner
  | .exporter p => p.owner
  | .usage _ => c.layout.root

/-- The degree of a service: that of its node and its parts. -/
def serviceDegree (tag : EdgeDir) (s : ServiceId) : Nat :=
  ((c.innerNodes s).map (c.edgeDegree f tag)).sum

/-- `source(e, ServiceDependencyGraph)` -/
def serviceSource : Node → ServiceId
  | .service s => s
  | .importer p => p.owner
  | .exporter p => p.owner
  | .usage u => u.used.owner

/-- `target(e, ServiceDependencyGraph)` -/
def serviceTarget : Node → ServiceId
  | .service s => s
  | .importer p => p.owner
  | .exporter p => p.owner
  | .usage u => u.user.owner

/-- `service_edge_iterator::increment` and `cluster_edge_iterator::increment` -/
def serviceEdgeIncrement (e : NodeEdge) : Option NodeEdge :=
  (c.advanceOuterEdge f dirOut e).or
    (c.firstOuterEdgeInRange f dirOut (c.nextServices (c.nodeOwner (dirOut.iterationNodeOf e))))

/-- The view that a `ServiceDependencyGraph` with these flags gives. -/
def serviceView : GraphView ServiceId NodeEdge where
  vertices := ⟨some c.layout.root, fun s => (c.nextServices s).head?⟩
  edges := ⟨c.firstOuterEdgeInRange f dirOut c.transitiveServices, c.serviceEdgeIncrement f⟩
  outEdges v := ⟨c.firstOuterEdgeOf f dirOut v, c.advanceOuterEdge f dirOut⟩
  inEdges v := ⟨c.firstOuterEdgeOf f dirIn v, c.advanceOuterEdge f dirIn⟩
  outDegree := c.serviceDegree f dirOut
  inDegree := c.serviceDegree f dirIn
  source e := serviceSource e.source
  target e := serviceTarget e.target

/-- `ServiceDependencyGraph` -/
def serviceDependencyGraph : GraphView ServiceId NodeEdge := c.serviceView f.orServiceGraph

/-! ### The edges of a cluster -/

/-- `cluster_out_edge_iterator::increment` and `cluster_in_edge_iterator::increment` -/
def clusterEdgeIncrement (tag : EdgeDir) (e : NodeEdge) : Option NodeEdge :=
  (c.advanceOuterEdge f tag e).or
    (c.firstOuterEdgeInRange f tag (c.clusterMembers (c.nodeOwner (tag.iterationNodeOf e))).tail)

/-- The degree of a cluster. -/
def clusterDegree (tag : EdgeDir) (s : ServiceId) : Nat :=
  ((c.clusterMembers s).map (c.serviceDegree f tag)).sum

/-- The view that a `ClusterDependencyGraph` with these flags gives. -/
def clusterView : GraphView ServiceId NodeEdge where
  vertices := ⟨some c.layout.root, fun s => (c.nextServices s).find? c.layout.isClusterHead⟩
  edges := ⟨c.firstOuterEdgeInRange f dirOut c.transitiveServices, c.serviceEdgeIncrement f⟩
  outEdges v := ⟨c.firstOuterEdgeInRange f dirOut (c.clusterMembers v),
    c.clusterEdgeIncrement f dirOut⟩
  inEdges v :=
    ⟨c.firstOuterEdgeInRange f dirIn (c.clusterMembers v), c.clusterEdgeIncrement f dirIn⟩
  outDegree := c.clusterDegree f dirOut
  inDegree := c.clusterDegree f dirIn
  source e := c.cluster (serviceSource e.source)
  target e := c.cluster (serviceTarget e.target)

/-- `ClusterDependencyGraph` -/
def clusterDependencyGraph : GraphView ServiceId NodeEdge :=
  c.clusterView f.orServiceGraph.orExternalGraph

/-- An edge that ends at a usage ends at one that the flags admit. -/
def AdmitsEdge (f : GraphFlags) (e : NodeEdge) : Prop :=
  ∀ u, e.source = .usage u ∨ e.target = .usage u → f.admits u = true

end Topology

end Idle
