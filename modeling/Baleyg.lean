import Baleyg.Queue.Resolution
import Baleyg.Queue.Order
import Baleyg.Store.Changing
import Baleyg.Store.Grace
import Baleyg.Process.Gate
import Baleyg.Process.Latch
import Baleyg.Process.Witness
import Baleyg.Watch.Reconcile
import Baleyg.Topology.FailedSave
import Baleyg.Topology.Collection
import Baleyg.Native.Agreement
import Baleyg.Native.Anchors
import Baleyg.Allowance.Jev
import Baleyg.Allowance.Acp
import Baleyg.Daemon.Capacity
import Baleyg.Daemon.Lifetime
import Baleyg.Mcp.Protocol
import Baleyg.Native.Assembly
import Baleyg.Contract.Freshness
import Baleyg.Contract.Identity
import Baleyg.Contract.Lookups
import Baleyg.Contract.Ordinals
import Baleyg.Contract.Publish
import Baleyg.Daemon.Release
import Baleyg.Watch.Acknowledge
import Baleyg.Topology.Identity
import Baleyg.Daemon.Election
import Baleyg.Topology.Follower
import Baleyg.Daemon.Catalogue
import Baleyg.Change.Measure
import Baleyg.View.Query
import Baleyg.Read.Fence
import Baleyg.Mcp.Framing
import Baleyg.Mcp.Number
import Baleyg.Native.Registration
import Baleyg.Daemon.Preflight
import Baleyg.Lib.Climb
import Baleyg.Lib.Ranking
import Baleyg.View.Plan
import Baleyg.Watch.Ingress
import Baleyg.Behavior.Sequence
import Baleyg.Behavior.Grouping
import Baleyg.Mcp.Encoding
import Baleyg.Mcp.Tools
import Baleyg.Mcp.Answers
import Baleyg.Behavior.Suffixes
import Baleyg.Classes.Pages
import Baleyg.Contract.Conservation
import Baleyg.Dependency.Coverage
import Baleyg.Native.Lines
import Baleyg.Contract.Coordinates
import Baleyg.Daemon.Socket
import Baleyg.Answer.Collector
import Baleyg.Daemon.Causal
import Baleyg.Daemon.Serve
import Baleyg.Store.Probe
