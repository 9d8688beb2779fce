import Subtensor.Swap.SwapSpec
import Subtensor.Swap.Run
import Subtensor.Swap.OpSpec
import Subtensor.Swap.BitmapRuns
import Subtensor.Swap.Direction
import Subtensor.Swap.Atomicity
import Subtensor.Swap.ProtocolLiquidity
import Subtensor.Swap.TickAccountingRuns
import Subtensor.Swap.ActiveLiquidity
import Subtensor.Swap.LiquidityRuns
import Subtensor.Swap.PositionCap
import Subtensor.Swap.Elimination
import Subtensor.Swap.RoundTrip
import Subtensor.Swap.SquareRoot
import Subtensor.Registry.Codec
import Subtensor.Children.HotkeySwap
import Subtensor.Staking.Transition
import Subtensor.Consensus.EmissionBound
import Subtensor.Consensus.EpochTotal
import Subtensor.Consensus.LiquidAlpha
import Subtensor.Consensus.TopK
import Subtensor.SharePool.ExactRun
import Subtensor.Emission.Supply
import Subtensor.Emission.Issuance
import Subtensor.Emission.RootReserve
import Subtensor.Emission.Minting
import Subtensor.Emission.ParentShares
import Subtensor.Registration.Issuance
import Subtensor.Liquidity.Reserves
import Subtensor.Weights.CommitQueue
import Subtensor.Weights.Crv3Run
import Subtensor.Weights.HotkeySwap
import Subtensor.Weights.BatchAtomic
import Subtensor.Weights.Upscale
import Subtensor.Staking.Inherited
import Subtensor.Staking.Solvency
import Subtensor.Accounts.Owners
import Subtensor.Registration.Senate
import Subtensor.Subnets.Reuse
import Subtensor.Registration.FreshSlot
import Subtensor.Registration.SlotEvents
import Subtensor.Registration.UsedWork
import Subtensor.Emission.RecordedEmission
import Subtensor.Registration.Predicates
import Subtensor.Accounts.HotkeyStake
import Subtensor.Accounts.ColdkeySwap
import Subtensor.Liquidity.ColdkeySwap
import Subtensor.Lib.SparseMatrix
import Subtensor.Consensus.SparseSpec
import Subtensor.Commitments.Deposits
import Subtensor.Commitments.Reveals
import Subtensor.Drand.AppendOnly
import Subtensor.Registry.Deposits
import Subtensor.Crowdloan.Accounting
import Subtensor.Crowdloan.Calls
import Subtensor.Crowdloan.Reentrancy
import Subtensor.Crowdloan.Strangers
import Subtensor.Staking.MoveLimit
import Subtensor.Staking.MoveRate
import Subtensor.Staking.Charge
import Subtensor.Governance.SenateVotes
import Subtensor.Proxies.Privileges
import Subtensor.Proxies.Deposits
