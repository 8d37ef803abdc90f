import Breakout.Lib.Run
import Breakout.Lib.Pointer
import Breakout.Lib.Word64
import Breakout.Lib.Ledger
import Breakout.Lib.PrefixCode
import Breakout.Lib.Reader
import Breakout.Lib.Merkle
import Breakout.Lib.Branch
import Breakout.Lib.Txn
import Breakout.Lib.Numbered
import Breakout.Lib.Buckets
import Breakout.Lib.History
import Breakout.Lib.Listing
import Breakout.Lib.Radix
import Breakout.Lib.Decimal
import Breakout.Lib.Mantissa
import Breakout.Lib.RecordFile
import Breakout.Lib.Slots
import Breakout.Lib.Tiers
import Breakout.Colors
import Breakout.Script
import Breakout.Transaction
import Breakout.Sighash
import Breakout.Interpreter
import Breakout.Amounts
import Breakout.CheckTransaction
import Breakout.TxIndex
import Breakout.Block
import Breakout.Headers
import Breakout.BlockContext
import Breakout.Kawpow
import Breakout.BlockIndex
import Breakout.Inputs
import Breakout.ConnectBlock
import Breakout.ConnectSpec
import Breakout.Kernel
import Breakout.Chain
import Breakout.MoneySupply
import Breakout.TotalMint
import Breakout.Limits
import Breakout.DoubleSpend
import Breakout.AcceptedRuns
import Breakout.Acceptance
import Breakout.Plan
import Breakout.Overrun
import Breakout.Committed
import Breakout.Commitment
import Breakout.MerkleTree
import Breakout.Restore
import Breakout.TxPositions
import Breakout.StakeColor
import Breakout.BestChain
import Breakout.Retarget
import Breakout.AcceptBlock
import Breakout.ProcessBlock
import Breakout.DiskIndex
import Breakout.IndexRecords
import Breakout.IndexWrites
import Breakout.LoadIndex
import Breakout.Nonces
import Breakout.Algorithm
import Breakout.ChainRuns
import Breakout.Locator
import Breakout.BlockByHeight
import Breakout.Explore
import Breakout.ExploreBooks
import Breakout.RichList
import Breakout.ExploreEntries
import Breakout.ExploreHistory
import Breakout.ExploreRecords
import Breakout.ExploreRuns
import Breakout.ExploreUndo
import Breakout.ValueTotals
import Breakout.ExploreReorg
import Breakout.Reload
import Breakout.LevelDB
import Breakout.MemPool
import Breakout.PoolCleanup
import Breakout.OrphanTxs
import Breakout.MerkleTx
import Breakout.TxMessage
import Breakout.SelectCoins
import Breakout.Wallet
import Breakout.WalletErase
import Breakout.Maturity
import Breakout.OrphanBlocks
import Breakout.KeyPool
import Breakout.Addresses
import Breakout.AddressBook
import Breakout.NetAddr
import Breakout.AddressBytes
import Breakout.MinerThreads
import Breakout.Templates
import Breakout.Submission
import Breakout.BlockSigner
import Breakout.CoinStakes
import Breakout.Conservation
import Breakout.OpReturnFees
import Breakout.Targets
import Breakout.GravityWave
import Breakout.StakeModifier
import Breakout.SecMsg
import Breakout.SecMsgReceive
import Breakout.SecMsgStore
import Breakout.SecMsgKeys
import Breakout.AddrMan
import Breakout.AddrManBooks
import Breakout.AddrManRuns
import Breakout.HexTx
import Breakout.MoneyText
import Breakout.JustCheck
import Breakout.AvailableCoins
import Breakout.StakeWeight
import Breakout.Lib.SortedSet
import Breakout.OutputSorter
import Breakout.Consolidate
import Breakout.CreateTransaction
import Breakout.Payments
import Breakout.AddressSpellings
import Breakout.StealthAddresses
import Breakout.StealthSecrets
import Breakout.KeyMeta
import Breakout.OrderPositions
import Breakout.AccountBalance
import Breakout.Lib.Matching
import Breakout.Multisig
import Breakout.Lib.Ends
import Breakout.StackSafety
import Breakout.Lib.Metered
import Breakout.SigOps
import Breakout.Lib.Pairing
import Breakout.CombineSignatures
import Breakout.NullPeer
import Breakout.Signing
import Breakout.Lib.Shuffle
import Breakout.TriedEviction
import Breakout.SolverGrammar
import Breakout.SecMsgBunch
import Breakout.MiningKeys
import Breakout.TemplateFees
import Breakout.KawpowSearch
import Breakout.PeersFileRead
import Breakout.WorkUnits
import Breakout.Lib.Limbs
import Breakout.BaseUint
import Breakout.CompactTargets
import Breakout.ScriptEncoding
import Breakout.Lib.Repack
import Breakout.BaseCodecs
import Breakout.SecMsgCrypt
import Breakout.SecMsgRoundTrip
import Breakout.SecMsgSend
import Breakout.CommitTransaction
import Breakout.WireLink
import Breakout.WalletKept
