import CosmosSdk.Lib.ByteOrder
import CosmosSdk.Lib.Outcome
import CosmosSdk.Lib.SortedMap
import CosmosSdk.Types.Basic
import CosmosSdk.Types.Dec
import CosmosSdk.Lib.Rounding
import CosmosSdk.Types.DecSpec
import CosmosSdk.Lib.Decimal
import CosmosSdk.Types.DecText
import CosmosSdk.Types.Int
import CosmosSdk.Types.Uint
import CosmosSdk.Lib.Calendar
import CosmosSdk.Lib.FixedWidth
import CosmosSdk.Lib.GoTime
import CosmosSdk.Types.TimeFormat
import CosmosSdk.Staking.Types
import CosmosSdk.Staking.ExchangeRate
import CosmosSdk.Staking.Store
import CosmosSdk.Staking.Keeper
import CosmosSdk.Staking.Delegations
import CosmosSdk.Staking.Slash
import CosmosSdk.Staking.ValStateChange
import CosmosSdk.Staking.Handler
import CosmosSdk.Staking.Commission
import CosmosSdk.Lib.Transition
import CosmosSdk.Staking.Ledger
import CosmosSdk.Staking.LedgerSteps
import CosmosSdk.Staking.Supply
import CosmosSdk.Staking.SupplySteps
import CosmosSdk.Staking.SupplySafety
import CosmosSdk.Lib.Index
import CosmosSdk.Staking.PowerIndex
import CosmosSdk.Staking.PowerSteps
import CosmosSdk.Auth.Account
import CosmosSdk.App.Msg
import CosmosSdk.Auth.Vesting
import CosmosSdk.Bank.Keeper
import CosmosSdk.Delegation.Keeper
import CosmosSdk.Group.Keeper
import CosmosSdk.App.Router
import CosmosSdk.Delegation.SpendLimit
import CosmosSdk.Group.Proposals
import CosmosSdk.Group.Registry
import CosmosSdk.Auth.Ante
import CosmosSdk.BaseApp.RunTx
import CosmosSdk.BaseApp.Gas
import CosmosSdk.App.Tx
import CosmosSdk.App.Creation
import CosmosSdk.Store.RootMulti
import CosmosSdk.Staking.SelfDelegation
import CosmosSdk.Slashing.Keeper
import CosmosSdk.Slashing.Chain
import CosmosSdk.Lib.RingWindow
import CosmosSdk.Slashing.Liveness
import CosmosSdk.Store.KVStore
import CosmosSdk.Store.CacheKV
import CosmosSdk.Store.MergeIterator
import CosmosSdk.Store.Overlay
import CosmosSdk.Store.CacheKVSpec
import CosmosSdk.Store.CacheKVRefinement
import CosmosSdk.Store.Prefix
import CosmosSdk.Params.Subspace
import CosmosSdk.Store.IAVL
import CosmosSdk.Group.Authorize
import CosmosSdk.Staking.InPlace
import CosmosSdk.Types.CoinsSpec
import CosmosSdk.Types.CoinSet
import CosmosSdk.Types.DecCoins
import CosmosSdk.Distribution.Allocation
import CosmosSdk.Distribution.Blocks
import CosmosSdk.Distribution.Rewards
import CosmosSdk.Distribution.RewardsSpec
import CosmosSdk.Distribution.References
import CosmosSdk.Distribution.Holders
import CosmosSdk.Distribution.Supply
import CosmosSdk.Distribution.Hooks
import CosmosSdk.Distribution.Liveness
import CosmosSdk.Delegation.FeeAllowances
import CosmosSdk.Mint.Keeper
import CosmosSdk.Bank.Conservation
import CosmosSdk.Staking.SlashAccounting
import CosmosSdk.Gov.Types
import CosmosSdk.Gov.Store
import CosmosSdk.Gov.Tally
import CosmosSdk.Gov.Keeper
import CosmosSdk.Gov.Queues
import CosmosSdk.Gov.TallySpec
import CosmosSdk.App.Address
import CosmosSdk.Types.CoinText
