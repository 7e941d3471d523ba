import WalletWatch.Chain.Move
import WalletWatch.Chain.Session
import WalletWatch.Command.Server
import WalletWatch.Config.Settings
import WalletWatch.Context.Tree
import WalletWatch.Host
import WalletWatch.Http.Answer
import WalletWatch.Http.ContentType
import WalletWatch.Http.Query
import WalletWatch.Node.Connection
import WalletWatch.Node.Wired
import WalletWatch.Log
import WalletWatch.Main
import WalletWatch.Message.Frame
import WalletWatch.Message.Payload
import WalletWatch.Metrics.Session
import WalletWatch.Price.Wave
import WalletWatch.Remote.Deployment
import WalletWatch.Role
import WalletWatch.Schedule
import WalletWatch.Service.Wallet
import WalletWatch.Socket.Pump
import WalletWatch.Store.Identity
import WalletWatch.Stream.Rehearsal
import WalletWatch.Proofs.Balance
import WalletWatch.Proofs.Metadata
import WalletWatch.Proofs.Metrics.Series
import WalletWatch.Proofs.Store.Groups
import WalletWatch.Proofs.Metrics.Guards
import WalletWatch.Proofs.Metrics.Exposition
import WalletWatch.Proofs.Service.Perform
import WalletWatch.Proofs.Service.Validation
import WalletWatch.Proofs.Service.Audit
import WalletWatch.Proofs.Service.BalanceCall
import WalletWatch.Proofs.Stream.Acts
import WalletWatch.Proofs.Stream.History
import WalletWatch.Proofs.Context.Signals
import WalletWatch.Proofs.Context.Waiting
import WalletWatch.Proofs.Context.Lineage
import WalletWatch.Proofs.Context.Tree
import WalletWatch.Proofs.Chain.Lines
import WalletWatch.Proofs.Stream.Solo
import WalletWatch.Proofs.Chain.Layout
import WalletWatch.Proofs.Chain.Cancellation
import WalletWatch.Proofs.Stream.Ahead
import WalletWatch.Proofs.Chain.Delivery
import WalletWatch.Proofs.Service.Traces
import WalletWatch.Proofs.Service.Propagation
import WalletWatch.Proofs.Service.Agreement
import WalletWatch.Proofs.Stream.Backlog
import WalletWatch.Proofs.Chain.Backlog
import WalletWatch.Proofs.Stream.Discards
import WalletWatch.Proofs.Chain.Agreement
import WalletWatch.Proofs.Service.Accounting
import WalletWatch.Proofs.Chain.Accounting
import WalletWatch.Proofs.Chain.Updates
import WalletWatch.Proofs.Chain.Gauges
import WalletWatch.Proofs.Chain.Release
import WalletWatch.Proofs.Stream.Ticker
import WalletWatch.Proofs.Chain.Cadence
import WalletWatch.Proofs.Text.Utf8
import WalletWatch.Proofs.Json.Lexing
import WalletWatch.Proofs.Json.Reading
import WalletWatch.Proofs.Json.Document
import WalletWatch.Proofs.Json.Numeral
import WalletWatch.Proofs.Json.Grammar
import WalletWatch.Proofs.Json.Acceptance
import WalletWatch.Proofs.Json.Pairs
import WalletWatch.Proofs.Json.Objects
import WalletWatch.Proofs.Message.RoundTrip
import WalletWatch.Proofs.Message.Tolerance
import WalletWatch.Proofs.Http.Headers
import WalletWatch.Proofs.Http.RoundTrip
import WalletWatch.Proofs.Http.Address
import WalletWatch.Proofs.Http.Delivery
import WalletWatch.Proofs.Http.Written
import WalletWatch.Proofs.Message.Hops
import WalletWatch.Proofs.Socket.Protocol
import WalletWatch.Proofs.Service.Alike
import WalletWatch.Proofs.Stream.Relabelled
import WalletWatch.Proofs.Service.Restricted
import WalletWatch.Proofs.Chain.Restricted
import WalletWatch.Proofs.Remote.Hop
import WalletWatch.Proofs.Remote.Refinement
import WalletWatch.Proofs.Remote.Replies
import WalletWatch.Proofs.Metadata.Insertions
import WalletWatch.Proofs.Config.Sections
import WalletWatch.Proofs.Config.Settings
import WalletWatch.Proofs.Config.Rules
import WalletWatch.Proofs.Remote.Addresses
import WalletWatch.Proofs.Node.Single
import WalletWatch.Proofs.Node.Names
