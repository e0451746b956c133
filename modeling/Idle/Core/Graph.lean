import Idle.Core.State

/-!
# Trees and dependency graphs

There is no stored graph. `iterators.cpp` walks the tree of services through the children of
their parts, and `graph.cpp` enumerates the edges of a service from the children and the usages
of its parts. Both are given here as the lists those iterators run through.
-/

namespace Idle

/-! ### Flags -/

/-- `GraphFlags` of a service graph. The edges between a service and its own parts are always
filtered out there, so their two flags are left out. -/
structure GraphFlags where
  filterChildImporterEdge : Bool := false
  filterExporterChildEdge : Bool := false
  filterExporterUsageEdge : Bool := false
  filterUsageImporterEdge : Bool := false
  filterUsageStrongEdge : Bool := false
  filterUsageWeakEdge : Bool := false
  deriving DecidableEq, Repr

namespace GraphFlags

/-- No edges to services outside of the cluster. -/
def clusterGraph : GraphFlags where
  filterExporterChildEdge := true
  filterUsageImporterEdge := true
  filterExporterUsageEdge := true

/-- Only edges to services outside of the cluster. -/
def externalGraph : GraphFlags where
  filterChildImporterEdge := true

/-- No weak usage edges. -/
def strongUsageGraph : GraphFlags where
  filterUsageWeakEdge := true

/-- `operator|` -/
def union (f g : GraphFlags) : GraphFlags where
  filterChildImporterEdge := f.filterChildImporterEdge || g.filterChildImporterEdge
  filterExporterChildEdge := f.filterExporterChildEdge || g.filterExporterChildEdge
  filterExporterUsageEdge := f.filterExporterUsageEdge || g.filterExporterUsageEdge
  filterUsageImporterEdge := f.filterUsageImporterEdge || g.filterUsageImporterEdge
  filterUsageStrongEdge := f.filterUsageStrongEdge || g.filterUsageStrongEdge
  filterUsageWeakEdge := f.filterUsageWeakEdge || g.filterUsageWeakEdge

def hasAnyUsageEdge (f : GraphFlags) : Bool := !(f.filterUsageWeakEdge && f.filterUsageStrongEdge)

def hasChildImporterEdge (f : GraphFlags) : Bool := !f.filterChildImporterEdge

def hasExporterChildEdge (f : GraphFlags) : Bool := !f.filterExporterChildEdge

def hasExporterUsageEdge (f : GraphFlags) : Bool :=
  !f.filterExporterUsageEdge && f.hasAnyUsageEdge

def hasUsageImporterEdge (f : GraphFlags) : Bool :=
  !f.filterUsageImporterEdge && f.hasAnyUsageEdge

/-- Whether a usage passes `filter_usages`; without any filter every usage does. -/
def admits (f : GraphFlags) (u : Usage) : Bool :=
  if u.weak then !f.filterUsageWeakEdge else !f.filterUsageStrongEdge

end GraphFlags

/-! ### Edges -/

/-- An edge between services: from a member to the owner of its parent import, from the owner of
an export to a child of it, or from the used to the using service of a usage. -/
inductive Edge where
  | inner (s : ServiceId)
  | child (s : ServiceId)
  | usage (u : Usage)
  deriving DecidableEq, Repr

namespace Edge

/-- `source` in the `ServiceDependencyGraph` -/
def source (L : Layout) : Edge → ServiceId
  | inner s => s
  | child s => (L.parent s).owner
  | usage u => u.used.owner

/-- `target` in the `ServiceDependencyGraph` -/
def target (L : Layout) : Edge → ServiceId
  | inner s => (L.parent s).owner
  | child s => s
  | usage u => u.user.owner

def isWeak : Edge → Bool
  | usage u => u.weak
  | _ => false

end Edge

namespace ServiceTree

/-! ### The tree of services -/

/-- `Part::children`: the root is not a child of its own part. -/
def children (c : ServiceTree) (p : Part) : List ServiceId :=
  c.services.filter fun s => s != c.layout.root && c.layout.parent s == p

/-- The preorder walk below a service that steps into the children of the parts `enter` admits. -/
def preorder (c : ServiceTree) (enter : Part → Bool) : Nat → ServiceId → List ServiceId
  | 0, _ => []
  | n + 1, s =>
    s :: ((c.layout.parts s).filter enter).flatMap fun p =>
      (c.children p).flatMap (preorder c enter n)

/-- `transitive_services` of the root. -/
def transitiveServices (c : ServiceTree) : List ServiceId :=
  c.preorder (fun _ => true) c.services.length c.layout.root

/-- `clusters` of the root. -/
def clusters (c : ServiceTree) : List ServiceId :=
  c.transitiveServices.filter c.layout.isClusterHead

/-- `cluster_members`: the walk over the whole cluster, from the given member on. -/
def clusterMembers (c : ServiceTree) (s : ServiceId) : List ServiceId :=
  (c.preorder Part.isImport c.services.length (c.cluster s)).dropWhile fun t => t != s

end ServiceTree

namespace Topology

/-! ### Edges of services -/

/-- `Export::exports`, the list `dependent_users_`. -/
def dependentUsers (c : Topology) (e : Part) : List Usage := c.usages.filter fun u => u.used == e

/-- `Import::imports` -/
def importedUsages (c : Topology) (i : Part) : List Usage := c.usages.filter fun u => u.user == i

/-- The out edges of an export (`edge_trait_t<Export>`). After the last child, `advance` returns
the first usage without asking `filter_usages`; without children, `begin` does ask. -/
def exportOutEdges (c : Topology) (f : GraphFlags) (e : Part) : List Edge :=
  let children := if f.hasExporterChildEdge then (c.children e).map Edge.child else []
  let usages := if f.hasExporterUsageEdge then c.dependentUsers e else []
  if children = [] then
    (usages.filter f.admits).map Edge.usage
  else
    children ++ (usages.take 1 ++ (usages.drop 1).filter f.admits).map Edge.usage

/-- The in edges of an import (`edge_trait_t<Import>`). Without children, `begin` returns the
first usage without asking `filter_usages`; after the last child, `advance` does ask. -/
def importInEdges (c : Topology) (f : GraphFlags) (i : Part) : List Edge :=
  let children := if f.hasChildImporterEdge then (c.children i).map Edge.inner else []
  let usages := if f.hasUsageImporterEdge then c.importedUsages i else []
  if children = [] then
    (usages.take 1 ++ (usages.drop 1).filter f.admits).map Edge.usage
  else
    children ++ (usages.filter f.admits).map Edge.usage

/-- `out_edges` in the `ServiceDependencyGraph` -/
def outEdges (c : Topology) (f : GraphFlags) (s : ServiceId) : List Edge :=
  (if c.layout.isMember s && f.hasChildImporterEdge && s != c.layout.root then [.inner s] else [])
    ++ (c.layout.exports s).flatMap (c.exportOutEdges f)

/-- `in_edges` in the `ServiceDependencyGraph` -/
def inEdges (c : Topology) (f : GraphFlags) (s : ServiceId) : List Edge :=
  (if c.layout.isClusterHead s && f.hasExporterChildEdge && s != c.layout.root then [.child s]
    else []) ++ (c.layout.imports s).flatMap (c.importInEdges f)

/-! ### Edges of clusters -/

/-- `out_edges` in the `ClusterDependencyGraph` -/
def clusterOutEdges (c : Topology) (s : ServiceId) : List Edge :=
  (c.clusterMembers s).flatMap (c.outEdges .externalGraph)

/-- `in_edges` in the `ClusterDependencyGraph` -/
def clusterInEdges (c : Topology) (s : ServiceId) : List Edge :=
  (c.clusterMembers s).flatMap (c.inEdges .externalGraph)

/-- `source` in the `ClusterDependencyGraph` -/
def clusterSource (c : Topology) (e : Edge) : ServiceId := c.cluster (e.source c.layout)

/-- `target` in the `ClusterDependencyGraph` -/
def clusterTarget (c : Topology) (e : Edge) : ServiceId := c.cluster (e.target c.layout)

end Topology

end Idle
