import Hyperlane.Core.PerfectTree
import Hyperlane.Core.Frontier
import Hyperlane.Accumulator.Incremental
import Hyperlane.Accumulator.Recursive
import Hyperlane.Accumulator.Packed
import Hyperlane.Accumulator.Builder
import Hyperlane.Core.Outcome
import Hyperlane.Validator.Consensus
import Hyperlane.Validator.Publication
import Hyperlane.Core.Bytes
import Hyperlane.Core.Tally
import Hyperlane.Cursor.Backward
import Hyperlane.Cursor.Forward
import Hyperlane.Relayer.Aggregation
import Hyperlane.Relayer.Multisig
import Hyperlane.Relayer.MultisigMetadata
import Hyperlane.Core.Interleaving
import Hyperlane.Fraud.CheckpointFraudProofs
import Hyperlane.Lander.NonceIndex
import Hyperlane.Lander.NonceUniqueness
import Hyperlane.Lander.ReorgedRange
import Hyperlane.Relayer.MessageLoader
import Hyperlane.Core.Codec
import Hyperlane.Core.Funds
import Hyperlane.Core.OneShot
import Hyperlane.Core.Reentrancy
import Hyperlane.Core.TokenBucket
import Hyperlane.Lander.InclusionConservation
import Hyperlane.Mailbox.Operations
import Hyperlane.Mailbox.Safety
import Hyperlane.Mailbox.WireFormat
import Hyperlane.RateLimit.MessageGate
import Hyperlane.RateLimit.SignedBalance
import Hyperlane.Warp.Charge
import Hyperlane.Warp.QuotedCharge
import Hyperlane.Warp.Solvency
import Hyperlane.Warp.YieldConservation
import Hyperlane.Core.ReverseIndex
import Hyperlane.Db.MerkleInsertions
import Hyperlane.Composite.IsmNode
import Hyperlane.Core.DatedRegister
import Hyperlane.Core.SequencedLog
import Hyperlane.Db.GasPayments
import Hyperlane.Db.MigrationSeal
import Hyperlane.Fee.FeeAgreement
import Hyperlane.Isms.WeightedMultisig
import Hyperlane.Core.BinaryHeap
import Hyperlane.Relayer.OperationBatch
import Hyperlane.Relayer.OperationQueue
import Hyperlane.Core.KeyedStore
import Hyperlane.Rebalancer.ActionTracker
import Hyperlane.Rebalancer.Execution
import Hyperlane.Rebalancer.InflightSimulation
import Hyperlane.Core.Layout
import Hyperlane.Core.Obligations
import Hyperlane.Rebalancer.OverCommitment
import Hyperlane.Rebalancer.CompletedRecords
import Hyperlane.Core.RemoteReads
import Hyperlane.Dusk.FinalizedViews
import Hyperlane.Core.Service
import Hyperlane.Validator.CursorContract
import Hyperlane.Validator.MerkleCursorSafety
import Hyperlane.Core.ChainHistory
import Hyperlane.Core.Exclusive
import Hyperlane.Dusk.FinalizedEventLookup
import Hyperlane.Dusk.FinalizedEventSafety
import Hyperlane.Scraper.NearHead
import Hyperlane.Accumulator.Snapshot
import Hyperlane.Cursor.AtomicUpdate
import Hyperlane.Cursor.BackwardDescent
import Hyperlane.Lander.DroppedRequeue
import Hyperlane.Lander.GasPrice
import Hyperlane.Lander.SimulateTx
import Hyperlane.Validator.BoundedSteps
import Hyperlane.Composite.RateLimit
import Hyperlane.Core.KeyedBatch
import Hyperlane.Fee.OffchainQuotedIGP
import Hyperlane.Fee.QuoteOrder
import Hyperlane.Warp.RebalanceAuthority
import Hyperlane.Scraper.ChainCalls
import Hyperlane.Scraper.NearHeadSafety
import Hyperlane.Composite.FormatAgreement
import Hyperlane.Core.Borsh
import Hyperlane.Core.Rounding
import Hyperlane.Fee.FeeCurves
import Hyperlane.Sdk.Decimals
import Hyperlane.Sealevel.AccountData
import Hyperlane.Sealevel.StoredAccounts
import Hyperlane.Core.ReorderBuffer
import Hyperlane.Relayer.PendingOperation
import Hyperlane.Relayer.PrepareBatch
import Hyperlane.Relayer.RetryState
import Hyperlane.Relayer.DroppedOperations
import Hyperlane.Rebalancer.RouteMatching
import Hyperlane.Dusk.TransactionLookup
import Hyperlane.Core.Utf8
import Hyperlane.Dusk.PreparedTransaction
import Hyperlane.Rebalancer.InventoryCycle
import Hyperlane.Rebalancer.SingleIntent
import Hyperlane.Cursor.RateLimited
import Hyperlane.Composite.AccountDiscovery
import Hyperlane.Composite.BuiltMetadata
import Hyperlane.Composite.CannotVerify
import Hyperlane.Composite.DependableFallbacks
import Hyperlane.Core.Checkpoints
import Hyperlane.Core.EnumerableMap
import Hyperlane.Avs.StakeRegistry
import Hyperlane.Avs.StakeHistory
import Hyperlane.Avs.StakeSignatures
import Hyperlane.Avs.ServiceManager
import Hyperlane.Avs.Enrollment
import Hyperlane.Sealevel.MailboxProgram
import Hyperlane.Sealevel.MailboxSafety
import Hyperlane.Core.ForeignCode
import Hyperlane.Isms.MessageIdAuthorized
import Hyperlane.Isms.MessageIdRelease
import Hyperlane.Validator.NormalMode
import Hyperlane.Validator.WriteOnce
import Hyperlane.Rpc.FallbackProvider
import Hyperlane.Rpc.FallbackCalls
import Hyperlane.Warp.QuotedCalls
import Hyperlane.Warp.QuotedCallsSteps
import Hyperlane.Warp.QuotedCallsSafety
