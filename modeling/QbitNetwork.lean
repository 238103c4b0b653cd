import QbitNetwork.Lib.Dict
import QbitNetwork.Lib.Outcome
import QbitNetwork.Supply
import QbitNetwork.Admission
import QbitNetwork.Evidence
import QbitNetwork.Producers
import QbitNetwork.Delegations
import QbitNetwork.Protection
import QbitNetwork.Follower
import QbitNetwork.TokenHolders
import QbitNetwork.Notarizations
import QbitNetwork.Revocations
import QbitNetwork.HeaderSync
import QbitNetwork.StateRoot
import QbitNetwork.Emission
import QbitNetwork.MoneyUndo
import QbitNetwork.Unwinding
import QbitNetwork.Finality
import QbitNetwork.ReceiptProofs
import QbitNetwork.StateProofs
import QbitNetwork.HandshakeLaws
import QbitNetwork.BlockSyncLaws
import QbitNetwork.RateLimiter
import QbitNetwork.WireFormatLaws
import QbitNetwork.Codec
import QbitNetwork.PeerTable
import QbitNetwork.PeerTableLaws
import QbitNetwork.DuplicatesLaws
import QbitNetwork.Decoding
import QbitNetwork.SyncLoop
import QbitNetwork.RollbackLaws
import QbitNetwork.RewardUndo
import QbitNetwork.Turns
import QbitNetwork.Upheld
import QbitNetwork.StakeSelection
import QbitNetwork.Unbondings
import QbitNetwork.BaseFee
import QbitNetwork.Reservations
import QbitNetwork.TokenIds
import QbitNetwork.TrieCalls
import QbitNetwork.ExportProof
import QbitNetwork.EpochRewards
import QbitNetwork.TokenUndo
import QbitNetwork.IdentityUndo
import QbitNetwork.StakeUndo
import QbitNetwork.ReceiptRows
import QbitNetwork.EventIndex
import QbitNetwork.StakeReplay
import QbitNetwork.Migration
import QbitNetwork.TrieSoundness
import QbitNetwork.Lib.SlidingWindow
import QbitNetwork.RateTable
import QbitNetwork.AuthAttempts
import QbitNetwork.HolderPages
import QbitNetwork.BannedHosts
import QbitNetwork.ConnectionCaps
import QbitNetwork.Webhooks
import QbitNetwork.Signer
import QbitNetwork.Wallet
import QbitNetwork.KeyFiles
import QbitNetwork.SnapshotWindow
import QbitNetwork.RpcBatch
import QbitNetwork.Queries
import QbitNetwork.Subscriptions
import QbitNetwork.PeerStream
import QbitNetwork.BlockPacking
import QbitNetwork.Deliveries
import QbitNetwork.WalletDirectory
