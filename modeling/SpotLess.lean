import SpotLess.Lib.UMap
import SpotLess.Lib.Reach
import SpotLess.Config
import SpotLess.Message
import SpotLess.Manager
import SpotLess.Execute
import SpotLess.ExecuteOrder
import SpotLess.Wakeup
import SpotLess.WakeupInvariant
import SpotLess.Replica
import SpotLess.Chain
import SpotLess.Handlers
import SpotLess.Step
import SpotLess.Inversion
import SpotLess.Frames
import SpotLess.Effects
import SpotLess.Slots
import SpotLess.Wiring
import SpotLess.Votes
import SpotLess.Certification
import SpotLess.Moves
import SpotLess.Provenance
import SpotLess.Growth
import SpotLess.Naming
import SpotLess.Pairing
import SpotLess.Honest
import SpotLess.Emission
import SpotLess.FaultFree
import SpotLess.Following
import SpotLess.Pipeline
import SpotLess.Certificates
import SpotLess.FirstCommit
import SpotLess.DigestKeys
import SpotLess.Retention
import SpotLess.Completion
import SpotLess.Quorum
import SpotLess.Lib.Buffer
import SpotLess.WireRoundTrip
import SpotLess.Authentication
import SpotLess.BatchDigest
import SpotLess.Client
import SpotLess.Output
import SpotLess.CheckpointSafety
import SpotLess.VoteString
import SpotLess.Ledger
import SpotLess.Shares
import SpotLess.CommitWalk
import SpotLess.Recycling
import SpotLess.TxnTable
import SpotLess.Fanout
import SpotLess.Join
import SpotLess.WorkQueue
import SpotLess.Sweep
import SpotLess.LongRun
import SpotLess.FaultVotes
import SpotLess.Receive
import SpotLess.Watermarks
import SpotLess.Banking
import SpotLess.Timers
import SpotLess.KeySetup
import SpotLess.AskResponse
import SpotLess.Custody
import SpotLess.JoinOrder
import SpotLess.FlowControl
import SpotLess.QueryIndex
import SpotLess.ClientBatches
import SpotLess.Transport
import SpotLess.BlockChain
import SpotLess.Lib.Voting
import SpotLess.VoteSafety
import SpotLess.Lib.Replicated
import SpotLess.Replication
import SpotLess.Recovery
import SpotLess.FailedViews
import SpotLess.TimedSystem
import SpotLess.Stream
import SpotLess.Standing
import SpotLess.Convergence
import SpotLess.MessageCount
