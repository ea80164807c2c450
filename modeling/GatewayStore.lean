import GatewayStore.Cache.Basic
import GatewayStore.Clock.Backoff
import GatewayStore.Clock.FlakeId
import GatewayStore.Clock.Time
import GatewayStore.CommandLine.Arguments
import GatewayStore.CommandLine.Execution
import GatewayStore.CommandLine.Invocation
import GatewayStore.Config.Check
import GatewayStore.Config.Printer
import GatewayStore.Config.Reader
import GatewayStore.Config.Settings
import GatewayStore.Etcd.Endpoint
import GatewayStore.Etcd.Exchange
import GatewayStore.Etcd.KeyRange
import GatewayStore.Etcd.Message
import GatewayStore.Failure
import GatewayStore.Hub.Basic
import GatewayStore.Hub.Collection
import GatewayStore.Hub.Program
import GatewayStore.Hub.Verification
import GatewayStore.Json.Basic
import GatewayStore.Json.Printer
import GatewayStore.Json.Reader
import GatewayStore.Json.Token
import GatewayStore.KeyMap
import GatewayStore.Main
import GatewayStore.Number.Binary64
import GatewayStore.Number.Power
import GatewayStore.Number.Shortest
import GatewayStore.Proofs.Cache.Comparison
import GatewayStore.Proofs.Cache.Confluence
import GatewayStore.Proofs.Cache.Listing
import GatewayStore.Proofs.Cache.Order
import GatewayStore.Proofs.Cache.Pages
import GatewayStore.Proofs.Cache.Pruning
import GatewayStore.Proofs.Cache.Reflection
import GatewayStore.Proofs.Cache.Representation
import GatewayStore.Proofs.Cache.Steps
import GatewayStore.Proofs.Clients.Atomicity
import GatewayStore.Proofs.Clients.Basic
import GatewayStore.Proofs.Clients.Commands
import GatewayStore.Proofs.Clients.Conduct
import GatewayStore.Proofs.Clients.Contention
import GatewayStore.Proofs.Clients.Creation
import GatewayStore.Proofs.Clients.Filing
import GatewayStore.Proofs.Clients.Interference
import GatewayStore.Proofs.Clients.Lifetimes
import GatewayStore.Proofs.Clients.Metadata
import GatewayStore.Proofs.Clients.Replacement
import GatewayStore.Proofs.Clients.Rounds
import GatewayStore.Proofs.Clients.UpdateTimes
import GatewayStore.Proofs.Clock.Backoff
import GatewayStore.Proofs.Clock.FlakeId
import GatewayStore.Proofs.Etcd.Conditions
import GatewayStore.Proofs.Etcd.Deliveries
import GatewayStore.Proofs.Etcd.KeyRange
import GatewayStore.Proofs.Etcd.Messages
import GatewayStore.Proofs.Hub.CreateCheck
import GatewayStore.Proofs.Hub.DeleteAll
import GatewayStore.Proofs.Hub.Execution
import GatewayStore.Proofs.Hub.Fleet
import GatewayStore.Proofs.Hub.Gateway
import GatewayStore.Proofs.Hub.ReadBack
import GatewayStore.Proofs.Hub.Verified
import GatewayStore.Proofs.Json.Canonical
import GatewayStore.Proofs.Json.Depth
import GatewayStore.Proofs.Json.FloatText
import GatewayStore.Proofs.Json.Numbers
import GatewayStore.Proofs.Json.Parsed
import GatewayStore.Proofs.Json.Reread
import GatewayStore.Proofs.Json.Words
import GatewayStore.Proofs.KeyMap
import GatewayStore.Proofs.Number.Rounding
import GatewayStore.Proofs.Number.Shortest
import GatewayStore.Proofs.Report
import GatewayStore.Proofs.Report.Totals
import GatewayStore.Proofs.Resource.Ingestion
import GatewayStore.Proofs.Resource.Isolation
import GatewayStore.Proofs.Resource.Keys
import GatewayStore.Proofs.Resource.Metadata
import GatewayStore.Proofs.Resource.Prefixes
import GatewayStore.Proofs.Resource.RoundTrip
import GatewayStore.Proofs.Resource.Stored
import GatewayStore.Proofs.Resource.Validation
import GatewayStore.Proofs.Service.Status
import GatewayStore.Proofs.Simulation.Loops
import GatewayStore.Proofs.Store.Calls
import GatewayStore.Proofs.Store.Consistency
import GatewayStore.Proofs.Store.Delivery
import GatewayStore.Proofs.Store.Effects
import GatewayStore.Proofs.Store.History
import GatewayStore.Proofs.Store.Recording
import GatewayStore.Proofs.Store.Scope
import GatewayStore.Proofs.Store.Start
import GatewayStore.Proofs.Store.Subscription
import GatewayStore.Proofs.Text.Order
import GatewayStore.Proofs.Watch.Lockstep
import GatewayStore.Proofs.Watch.Mirror
import GatewayStore.Proofs.Watch.Pacing
import GatewayStore.Proofs.Watch.Phases
import GatewayStore.Proofs.Watch.Regression
import GatewayStore.Proofs.Watch.Retry
import GatewayStore.Proofs.Watch.Run
import GatewayStore.Proofs.Watch.Snapshot
import GatewayStore.Proofs.Watch.Transitions
import GatewayStore.Proofs.Wire.Fields
import GatewayStore.Report
import GatewayStore.Resource.Basic
import GatewayStore.Resource.Codec
import GatewayStore.Resource.Kind
import GatewayStore.Resource.KindReader
import GatewayStore.Resource.Query
import GatewayStore.Resource.Rules
import GatewayStore.Service.Basic
import GatewayStore.Service.Health
import GatewayStore.Simulation.Script
import GatewayStore.Simulation.World
import GatewayStore.Store.Basic
import GatewayStore.Store.Client
import GatewayStore.Store.Procedure
import GatewayStore.Store.Request
import GatewayStore.Store.Step
import GatewayStore.Store.Stream
import GatewayStore.Text.Affix
import GatewayStore.Text.Bytes
import GatewayStore.Text.Printable
import GatewayStore.Text.Quoted
import GatewayStore.Toml.Basic
import GatewayStore.Toml.Printer
import GatewayStore.Toml.Quoted
import GatewayStore.Toml.Reader
import GatewayStore.Toml.Word
import GatewayStore.Watch.Loop
import GatewayStore.Watch.Session
import GatewayStore.Wire.Field
import GatewayStore.Wire.Message
import GatewayStore.Wire.Varint
