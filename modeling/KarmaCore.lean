import KarmaCore.Account.AccountHistory
import KarmaCore.Account.AccountListing
import KarmaCore.Account.MemberIndex
import KarmaCore.Account.MemberMap
import KarmaCore.App.BlockIds
import KarmaCore.App.Synopsis
import KarmaCore.Authority.AddressSignature
import KarmaCore.Authority.AskedKeys
import KarmaCore.Authority.MinimalSignatures
import KarmaCore.Authority.SignState
import KarmaCore.Authority.VerifyAuthority
import KarmaCore.Authority.VoteCounter
import KarmaCore.Chain.AcceptableBlock
import KarmaCore.Chain.BlockFiles
import KarmaCore.Chain.Committed
import KarmaCore.Chain.Database
import KarmaCore.Chain.FailedProduction
import KarmaCore.Chain.ForkBranches
import KarmaCore.Chain.ForkDatabase
import KarmaCore.Chain.ForkHead
import KarmaCore.Chain.GlobalParameters
import KarmaCore.Chain.MerkleRoot
import KarmaCore.Chain.Objects
import KarmaCore.Chain.Pending
import KarmaCore.Chain.PendingAfterPush
import KarmaCore.Chain.ProducedBlock
import KarmaCore.Chain.RegistrationFee
import KarmaCore.Chain.Reindex
import KarmaCore.Chain.Replay
import KarmaCore.Chain.ReplayProtection
import KarmaCore.Confidential.ConfidentialEvaluator
import KarmaCore.Confidential.Conservation
import KarmaCore.Credit.BlockPass
import KarmaCore.Credit.BlockRun
import KarmaCore.Credit.ChainParameters
import KarmaCore.Credit.Conservation
import KarmaCore.Credit.CreditEvaluator
import KarmaCore.Credit.CreditLife
import KarmaCore.Credit.CreditObject
import KarmaCore.Credit.Ledger
import KarmaCore.Credit.MonthlyPayment
import KarmaCore.Credit.NonNegative
import KarmaCore.Credit.Outcome
import KarmaCore.Db.Journal
import KarmaCore.Db.Restore
import KarmaCore.Db.SecondaryIndex
import KarmaCore.Db.SimpleIndex
import KarmaCore.Db.UndoCompletes
import KarmaCore.Db.UndoDatabase
import KarmaCore.Db.UndoExact
import KarmaCore.Db.UndoRun
import KarmaCore.Exchange.ExchangeRateObject
import KarmaCore.Genesis.BalanceClaim
import KarmaCore.Genesis.InitGenesis
import KarmaCore.Lib.Annuity
import KarmaCore.Lib.BlockCipher
import KarmaCore.Lib.Branch
import KarmaCore.Lib.Codec
import KarmaCore.Lib.ExceptTriple
import KarmaCore.Lib.ForwardCall
import KarmaCore.Lib.HalvingWalk
import KarmaCore.Lib.IndexRange
import KarmaCore.Lib.LinkedHistory
import KarmaCore.Lib.NthElement
import KarmaCore.Lib.ObjectIndex
import KarmaCore.Lib.OrderStatistic
import KarmaCore.Lib.Outcome
import KarmaCore.Lib.PairTree
import KarmaCore.Lib.RatioReduction
import KarmaCore.Lib.RecordFile
import KarmaCore.Lib.Run
import KarmaCore.Lib.SessionStack
import KarmaCore.Lib.TopRanked
import KarmaCore.Lib.Truncation
import KarmaCore.Market.ApplySound
import KarmaCore.Market.AssetEvaluator
import KarmaCore.Market.AssetSound
import KarmaCore.Market.BestOffer
import KarmaCore.Market.BidSound
import KarmaCore.Market.BlackSwan
import KarmaCore.Market.BookOrder
import KarmaCore.Market.Books
import KarmaCore.Market.Budget
import KarmaCore.Market.BudgetRun
import KarmaCore.Market.Buyback
import KarmaCore.Market.CallPrice
import KarmaCore.Market.CallResult
import KarmaCore.Market.CollateralBid
import KarmaCore.Market.FairMatch
import KarmaCore.Market.Fee
import KarmaCore.Market.FeeSchedule
import KarmaCore.Market.FeeSplit
import KarmaCore.Market.FeedConsistency
import KarmaCore.Market.FeedFrame
import KarmaCore.Market.FillOrder
import KarmaCore.Market.FillTrade
import KarmaCore.Market.FillsGive
import KarmaCore.Market.FirstCall
import KarmaCore.Market.FundsNonneg
import KarmaCore.Market.GlobalSettlement
import KarmaCore.Market.Maintenance
import KarmaCore.Market.MarginCall
import KarmaCore.Market.MarginSound
import KarmaCore.Market.MarketBuckets
import KarmaCore.Market.MarketCall
import KarmaCore.Market.MarketEvaluator
import KarmaCore.Market.MarketInvariant
import KarmaCore.Market.MarketObject
import KarmaCore.Market.MarketRun
import KarmaCore.Market.MarketTicker
import KarmaCore.Market.Matching
import KarmaCore.Market.MedianFeed
import KarmaCore.Market.Operation
import KarmaCore.Market.OperationSound
import KarmaCore.Market.PassSound
import KarmaCore.Market.PositionSound
import KarmaCore.Market.Price
import KarmaCore.Market.PriceOrder
import KarmaCore.Market.PriceReduction
import KarmaCore.Market.Redemption
import KarmaCore.Market.SettlementPass
import KarmaCore.Market.Soundness
import KarmaCore.Market.Supplies
import KarmaCore.Market.SupplyRun
import KarmaCore.Market.Trade
import KarmaCore.Net.FetchTurn
import KarmaCore.Net.ItemExchange
import KarmaCore.Net.ItemRequests
import KarmaCore.Net.MessageCache
import KarmaCore.Net.MessageConnection
import KarmaCore.Net.PeerDatabase
import KarmaCore.Net.PeerSync
import KarmaCore.Net.PeerSynopsis
import KarmaCore.Net.RequestRun
import KarmaCore.Net.StcpSocket
import KarmaCore.Net.SyncBlocks
import KarmaCore.Net.SyncRequests
import KarmaCore.Net.SyncRun
import KarmaCore.Proposal.ApprovalIndex
import KarmaCore.Proposal.CommitteeProposal
import KarmaCore.Proposal.Execution
import KarmaCore.Proposal.ProposalRun
import KarmaCore.Proposal.PushProposal
import KarmaCore.Proposal.ReviewPeriod
import KarmaCore.Protocol.AccountName
import KarmaCore.Protocol.AmountText
import KarmaCore.Protocol.Asset
import KarmaCore.Protocol.Extension
import KarmaCore.Transfer.TransferEvaluator
import KarmaCore.Transfer.WithdrawPermission
import KarmaCore.Transfer.WithdrawalLimit
import KarmaCore.Vesting.CoinDays
import KarmaCore.Vesting.LinearVesting
import KarmaCore.Vesting.VestingBalance
import KarmaCore.Votes.AccountVotes
import KarmaCore.Votes.Elected
import KarmaCore.Votes.Election
import KarmaCore.Votes.ElectionRun
import KarmaCore.Votes.VoteRun
import KarmaCore.Votes.VoteTally
import KarmaCore.Votes.WitnessCount
import KarmaCore.Witness.BlockProduction
import KarmaCore.Witness.SlotTime
import KarmaCore.Witness.WitnessBlock
import KarmaCore.Witness.WitnessRun
import KarmaCore.Witness.WitnessSchedule
