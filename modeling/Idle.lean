import Idle.Library.Machine
import Idle.Library.Progress
import Idle.Library.Count
import Idle.Library.Partition
import Idle.Library.Scopes
import Idle.Library.Sorted
import Idle.Library.Chain
import Idle.Library.Lines
import Idle.Library.Iteration
import Idle.Library.Cycle
import Idle.Core.State
import Idle.Core.Graph
import Idle.Core.Dfs
import Idle.Core.ServiceImpl
import Idle.Core.Scheduler
import Idle.Core.Step
import Idle.Core.Sample
import Idle.Core.Tree
import Idle.Core.Edges
import Idle.Core.Views
import Idle.Core.Iterators
import Idle.Core.ClusterIterator
import Idle.Core.Enumeration
import Idle.Core.Consistency
import Idle.Core.DfsCount
import Idle.Core.DfsDefault
import Idle.Core.DfsTrace
import Idle.Core.DfsMark
import Idle.Core.Life
import Idle.Core.Wiring
import Idle.Core.StartTraversal
import Idle.Core.Pulls
import Idle.Core.Pushed
import Idle.Core.Needed
import Idle.Core.Ledger
import Idle.Core.Balance
import Idle.Core.Transitions
import Idle.Core.Connections
import Idle.Core.Arrivals
import Idle.Core.Pushes
import Idle.Core.Lifecycle
import Idle.Core.Promises
import Idle.Core.Handlers
import Idle.Core.StopTraversal
import Idle.Core.Completion
import Idle.Core.History
import Idle.Core.Bookkeeping
import Idle.Core.Ordering
import Idle.Core.Handle
import Idle.Core.Reports
import Idle.Core.Checks
import Idle.Core.Steady
import Idle.Core.Queue
import Idle.Core.Wakes
import Idle.Core.StopRequests
import Idle.Core.Verify
import Idle.Core.Draining
import Idle.Core.Pulling
import Idle.Core.Marked
import Idle.Core.Collector
import Idle.Core.Inner
import Idle.Core.Coherence
import Idle.Core.Ref
import Idle.Context.Guid
import Idle.Context.Recycler
import Idle.Context.EventLoop
import Idle.Util.Algorithm
import Idle.Util.Enum
import Idle.Util.Span
import Idle.Util.FlatSet
import Idle.Util.IntrusiveList
import Idle.Service.Toml
import Idle.Service.Art
import Idle.Service.SetVisitor
import Idle.Service.Values
import Idle.Service.Comparison
import Idle.Service.Sources
import Idle.Service.ProcessGroup
import Idle.Service.Store
import Idle.Interface.CommandProcessor
import Idle.Service.Partial
import Idle.Service.Properties
import Idle.Service.Generations
import Idle.Service.Timer
import Idle.Service.FileWatcher
import Idle.Service.FileChanges
import Idle.Plugin.PluginLoader
import Idle.Plugin.PluginHotswap
import Idle.Core.WhenCompleted
import Idle.Core.Teardown
import Idle.Plugin.PluginRecompiler
import Idle.Parts.Registry
import Idle.Context.RegistryManager
import Idle.Parts.Singleton
import Idle.Parts.DynDependencies
import Idle.Parts.System
import Idle.Parts.Selection
import Idle.Parts.Storage
import Idle.Parts.Offers
import Idle.Parts.Swaps
import Idle.Parts.Release
import Idle.Parts.Passed
import Idle.Parts.Targets
import Idle.Parts.Preference
import Idle.Parts.Defaults
import Idle.Parts.Users
import Idle.Parts.Destruction
import Idle.Parts.Thread
import Idle.Service.Var
