import SchillingCoin.Chain.DiskBlockIndex
import SchillingCoin.Chain.Reconsider
import SchillingCoin.Coins.BestBlock
import SchillingCoin.Coins.Refinement
import SchillingCoin.Coins.StoredSize
import SchillingCoin.Consensus.MatchPlaces
import SchillingCoin.Consensus.MerkleBranch
import SchillingCoin.Lib.Matching
import SchillingCoin.Masternode.BudgetAllocation
import SchillingCoin.Masternode.ExpiredBroadcasts
import SchillingCoin.Masternode.FinalizedPayout
import SchillingCoin.Masternode.PaymentHistory
import SchillingCoin.Masternode.RankAgreement
import SchillingCoin.Masternode.RefusedMessages
import SchillingCoin.Masternode.RejectedBudgetVotes
import SchillingCoin.Masternode.RejectedVotes
import SchillingCoin.Masternode.StakePayment
import SchillingCoin.Masternode.StrMessages
import SchillingCoin.Mempool.Descendants
import SchillingCoin.Mempool.Orphans
import SchillingCoin.Mempool.TipRuns
import SchillingCoin.Mining.CoinStakeSearch
import SchillingCoin.Mining.FeeOrder
import SchillingCoin.Mining.SelectionRuns
import SchillingCoin.Mining.TemplateChecks
import SchillingCoin.Net.AddrManClear
import SchillingCoin.Net.AddrManReloaded
import SchillingCoin.Net.BlockDownload
import SchillingCoin.Net.BloomRuns
import SchillingCoin.Net.LimitedMap
import SchillingCoin.Net.TimeData
import SchillingCoin.Net.Transport
import SchillingCoin.Primitives.Base58Check
import SchillingCoin.Primitives.BaseUintDivision
import SchillingCoin.Primitives.VarIntBuffer
import SchillingCoin.Script.ColdStakeForms
import SchillingCoin.Script.MultiSig
import SchillingCoin.Script.ParseBack
import SchillingCoin.Script.SigOpBound
import SchillingCoin.Script.SignatureEncoding
import SchillingCoin.Script.SignatureHash
import SchillingCoin.Stake.ActiveChain
import SchillingCoin.Stake.CompactRounding
import SchillingCoin.Stake.Modifier
import SchillingCoin.Stake.Retarget
import SchillingCoin.Swift.ExpiredLocks
import SchillingCoin.Swift.LockedInputs
import SchillingCoin.Swift.NormalPayment
import SchillingCoin.Swift.VoteFilter
import SchillingCoin.Validation.BlockFiles
import SchillingCoin.Validation.BlockSignature
import SchillingCoin.Validation.CheckQueueRuns
import SchillingCoin.Validation.DoubleSpends
import SchillingCoin.Validation.ReceivedBlock
import SchillingCoin.Validation.StoredUndo
import SchillingCoin.Validation.Superblock
import SchillingCoin.Validation.Supply
import SchillingCoin.Wallet.AddressGroupings
import SchillingCoin.Wallet.Bip38RoundTrip
import SchillingCoin.Wallet.ConflictSpread
import SchillingCoin.Wallet.KeyPoolRuns
import SchillingCoin.Wallet.Mnemonic
import SchillingCoin.Wallet.MoneySent
import SchillingCoin.Wallet.MoneyText
import SchillingCoin.Wallet.Passphrases
import SchillingCoin.Wallet.SelectionExact
import SchillingCoin.Zerocoin.Database
