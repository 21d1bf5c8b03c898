import LedgerClient.Bytes
import LedgerClient.Bytes.Hex
import LedgerClient.Client
import LedgerClient.CommandLine.Arguments
import LedgerClient.CommandLine.Run
import LedgerClient.Config.Basic
import LedgerClient.Config.Document
import LedgerClient.Config.Error
import LedgerClient.Delivery.Engine
import LedgerClient.Delivery.Request
import LedgerClient.Delivery.Run
import LedgerClient.Delivery.Status
import LedgerClient.Delivery.Submission
import LedgerClient.Delivery.Surroundings
import LedgerClient.Digest.Blake3
import LedgerClient.Digest.Sha512
import LedgerClient.Error
import LedgerClient.Identifier
import LedgerClient.Main
import LedgerClient.Network.Error
import LedgerClient.Network.Frame
import LedgerClient.Network.Tcp
import LedgerClient.Node.Basic
import LedgerClient.Node.Health
import LedgerClient.Node.Ranking
import LedgerClient.Node.Registry
import LedgerClient.Number.Binary64
import LedgerClient.Number.Shortest
import LedgerClient.Rehearsal.Network
import LedgerClient.Rehearsal.Servers
import LedgerClient.Report.Json
import LedgerClient.Report.Table
import LedgerClient.Signing.Ed25519
import LedgerClient.Signing.Edwards
import LedgerClient.Signing.Signer
import LedgerClient.Text.Utf8
import LedgerClient.Time.Clock
import LedgerClient.Time.Duration
import LedgerClient.Time.Instant
import LedgerClient.Toml.Document
import LedgerClient.Toml.Moment
import LedgerClient.Toml.Number
import LedgerClient.Toml.Statement
import LedgerClient.Toml.Text
import LedgerClient.Toml.Tree
import LedgerClient.Toml.Value
import LedgerClient.Transaction.Basic
import LedgerClient.Transaction.Batch
import LedgerClient.Transaction.Body
import LedgerClient.Transaction.Error
import LedgerClient.Transaction.Kind
import LedgerClient.Transaction.Operation
import LedgerClient.Transaction.SignatureMap
import LedgerClient.TransactionId
import LedgerClient.Wire.Codec
import LedgerClient.Proofs.Client.Acceptance
import LedgerClient.Proofs.Client.Calls
import LedgerClient.Proofs.Client.Filling
import LedgerClient.Proofs.Client.Hands
import LedgerClient.Proofs.Client.History
import LedgerClient.Proofs.Client.KeyUse
import LedgerClient.Proofs.Client.Locality
import LedgerClient.Proofs.Client.Notes
import LedgerClient.Proofs.Client.Resubmission
import LedgerClient.Proofs.Client.Storage
import LedgerClient.Proofs.Client.TimeRange
import LedgerClient.Proofs.Config.Saving
import LedgerClient.Proofs.Delivery.Accounting
import LedgerClient.Proofs.Delivery.Balance
import LedgerClient.Proofs.Delivery.Cancellation
import LedgerClient.Proofs.Delivery.Clocks
import LedgerClient.Proofs.Delivery.Course
import LedgerClient.Proofs.Delivery.Deliveries
import LedgerClient.Proofs.Delivery.Errands
import LedgerClient.Proofs.Delivery.Failover
import LedgerClient.Proofs.Delivery.Guard
import LedgerClient.Proofs.Delivery.Halting
import LedgerClient.Proofs.Delivery.Listing
import LedgerClient.Proofs.Delivery.Pass
import LedgerClient.Proofs.Delivery.Passage
import LedgerClient.Proofs.Delivery.Recognition
import LedgerClient.Proofs.Delivery.Result
import LedgerClient.Proofs.Delivery.Sending
import LedgerClient.Proofs.Delivery.Series
import LedgerClient.Proofs.Delivery.Submission
import LedgerClient.Proofs.Delivery.Timing
import LedgerClient.Proofs.Delivery.Turn
import LedgerClient.Proofs.Delivery.Vigil
import LedgerClient.Proofs.Delivery.Warrant
import LedgerClient.Proofs.Network.Frames
import LedgerClient.Proofs.Network.Oversized
import LedgerClient.Proofs.Node.Backoff
import LedgerClient.Proofs.Node.Balance
import LedgerClient.Proofs.Node.Candidates
import LedgerClient.Proofs.Node.Indexes
import LedgerClient.Proofs.Node.Lookups
import LedgerClient.Proofs.Node.Ranking
import LedgerClient.Proofs.Node.Records
import LedgerClient.Proofs.Node.Views
import LedgerClient.Proofs.Node.Windows
import LedgerClient.Proofs.Number.Rounding
import LedgerClient.Proofs.Number.Shares
import LedgerClient.Proofs.Number.Shortest
import LedgerClient.Proofs.Toml.Documents
import LedgerClient.Proofs.Toml.Lines
import LedgerClient.Proofs.Toml.Numerals
import LedgerClient.Proofs.Toml.Quotes
import LedgerClient.Proofs.Transaction.AllOrNone
import LedgerClient.Proofs.Transaction.ChunkIds
import LedgerClient.Proofs.Transaction.Chunks
import LedgerClient.Proofs.Transaction.Coherent
import LedgerClient.Proofs.Transaction.Drafts
import LedgerClient.Proofs.Transaction.Freezing
import LedgerClient.Proofs.Transaction.Growth
import LedgerClient.Proofs.Transaction.Pieces
import LedgerClient.Proofs.Transaction.Reachable
import LedgerClient.Proofs.Transaction.Readiness
import LedgerClient.Proofs.Transaction.Reading
import LedgerClient.Proofs.Transaction.Refusals
import LedgerClient.Proofs.Transaction.Scheduling
import LedgerClient.Proofs.Transaction.Signers
import LedgerClient.Proofs.Transaction.Signing
import LedgerClient.Proofs.Transaction.SigningOrder
import LedgerClient.Proofs.Wire.Canonical
import LedgerClient.Proofs.Wire.Compound
import LedgerClient.Proofs.Wire.Delimited
import LedgerClient.Proofs.Wire.Digits
import LedgerClient.Proofs.Wire.Lossless
import LedgerClient.Proofs.Wire.Messages
import LedgerClient.Proofs.Wire.Spelling
import LedgerClient.Proofs.Wire.Values
