import TorrentNode.BlockChain.Runs
import TorrentNode.BlockChain.Rebuild
import TorrentNode.LevelDb
import TorrentNode.SyncImpl
import TorrentNode.SyncImpl.Recovery
import TorrentNode.GenerateJson
import TorrentNode.P2P.Segments
import TorrentNode.Lib.Machine
import TorrentNode.P2P.Process
import TorrentNode.P2P.Exact
import TorrentNode.P2P.Ips
import TorrentNode.BlockchainUtils
import TorrentNode.PrivateKey
import TorrentNode.PrivateKey.Envelope
import TorrentNode.BlockchainRead
import TorrentNode.BlockchainRead.Safety
import TorrentNode.BlockchainRead.Format
import TorrentNode.SyncImpl.BlockDump
import TorrentNode.P2P.Work
import TorrentNode.SyncImpl.DumpCache
import TorrentNode.SyncImpl.SignedRanges
import TorrentNode.BlockchainRead.Shift
import TorrentNode.SyncImpl.SaveTransactions
import TorrentNode.GenerateJson.Headers
import TorrentNode.Server
import TorrentNode.BlockSource.GetNewBlocksFromServers
import TorrentNode.BlockSource.Requests
import TorrentNode.BlockSource.Prefetch
import TorrentNode.BlockSource.NetworkBlockSource
import TorrentNode.BlockSource.Delivery
import TorrentNode.GenerateJson.Dumps
import TorrentNode.Workers.NodeTestsBlockInfo
import TorrentNode.Workers.WorkerNodeTest
import TorrentNode.BlockchainRead.Framing
import TorrentNode.BlockchainRead.Signatures
import TorrentNode.BlockChain.Atomic
import TorrentNode.BlockSource.DumpResponses
import TorrentNode.SyncImpl.Synchronize
import TorrentNode.SyncImpl.Rejected
import TorrentNode.BlockSource.FileBlockSource
import TorrentNode.BlockSource.FileSelection
import TorrentNode.SyncImpl.FilePositions
import TorrentNode.BlockInfo.Truncated
import TorrentNode.Cache.LocalCache
import TorrentNode.Lib.Forest
import TorrentNode.P2P.Graph
import TorrentNode.BlockSource.LastBlock
import TorrentNode.Workers.WorkerCache
import TorrentNode.BlockInfo.TransactionStatus
import TorrentNode.Workers.NodeTestRecords
import TorrentNode.BlockSource.DumpPrefetch
import TorrentNode.BlockchainRead.Slices
import TorrentNode.BlockChain.Termination
import TorrentNode.P2P.Curls
import TorrentNode.Workers.WorkerMain
import TorrentNode.SyncImpl.Gaps
import TorrentNode.P2P.Requests
import TorrentNode.Server.Handlers
import TorrentNode.Server.Peers
import TorrentNode.SyncImpl.Node
import TorrentNode.SyncImpl.NodeRuns
import TorrentNode.SyncImpl.Startup
import TorrentNode.SyncImpl.Replay
import TorrentNode.BlockSource.HonestPeers
import TorrentNode.BlockSource.Replication
import TorrentNode.BlockSource.HonestRequests
import TorrentNode.SyncImpl.Replica
