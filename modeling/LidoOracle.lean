import LidoOracle.Lib.Dict
import LidoOracle.Lib.ExceptRun
import LidoOracle.Lib.Sorted
import LidoOracle.Lib.Tally
import LidoOracle.Lib.FloatingPoint
import LidoOracle.Lib.Allotment
import LidoOracle.Lib.Grants
import LidoOracle.Lib.BinarySearch
import LidoOracle.Lib.ProRata
import LidoOracle.Lib.Timeline
import LidoOracle.Vaults.LiquidityFee
import LidoOracle.Lib.Rotation
import LidoOracle.Lib.Delta
import LidoOracle.Lib.Python
import LidoOracle.Lib.ObjectStore
import LidoOracle.Constants
import LidoOracle.Types
import LidoOracle.ValidatorBalance
import LidoOracle.Lib.BigEndian
import LidoOracle.Lib.Bytes
import LidoOracle.Lib.Decimal
import LidoOracle.Lib.Itertools
import LidoOracle.Lib.PackedBits
import LidoOracle.Lib.Cells
import LidoOracle.Lib.RingBuffer
import LidoOracle.StakingState
import LidoOracle.ExitOrder.Iterator
import LidoOracle.ExitOrder.Bookkeeping
import LidoOracle.ExitOrder.Exitable
import LidoOracle.ExitOrder.Weights
import LidoOracle.ExitOrder.DivisionSafety
import LidoOracle.ExitOrder.ForcedExits
import LidoOracle.ExitOrder.Ejection
import LidoOracle.ExitOrder.Groups
import LidoOracle.ExitOrder.Selection
import LidoOracle.ExitOrder.Statistics
import LidoOracle.ExitOrder.Ledger
import LidoOracle.Ejector.ValidatorsToEject
import LidoOracle.Ejector.PredictedBalance
import LidoOracle.Ejector.DataEncode
import LidoOracle.Accounting.ExtraData
import LidoOracle.Accounting.ExtraDataDecode
import LidoOracle.StakingModules.Types
import LidoOracle.StakingModules.Strikes
import LidoOracle.StakingModules.State
import LidoOracle.StakingModules.FrameDuties
import LidoOracle.StakingModules.CollectedFrames
import LidoOracle.StakingModules.ReportRange
import LidoOracle.StakingModules.RewardsTree
import LidoOracle.StakingModules.TreeCodec
import LidoOracle.StakingModules.Distribution
import LidoOracle.Accounting.Bunker.MidtermPenalty
import LidoOracle.Performance.BitLists
import LidoOracle.Performance.CheckDuties
import LidoOracle.Performance.EpochCheck
import LidoOracle.Performance.CollectorRuns
import LidoOracle.Performance.Checkpoints
import LidoOracle.Performance.DependentRoot
import LidoOracle.Performance.DutiesDB
import LidoOracle.Performance.EpochsData
import LidoOracle.Performance.ConcurrentStore
import LidoOracle.Performance.EpochsRange
import LidoOracle.Performance.FirstGap
import LidoOracle.Consensus.Deposits
import LidoOracle.Consensus.BeaconState
import LidoOracle.Consensus.NonMissedSlot
import LidoOracle.Consensus.SlotDelay
import LidoOracle.Consensus.ReportData
import LidoOracle.Consensus.Web3Converter
import LidoOracle.Ejector.ExitChurn
import LidoOracle.Ejector.Sweep
import LidoOracle.LidoValidators.Pending
import LidoOracle.LidoValidators.Provider
import LidoOracle.Execution.BlockTimestamps
import LidoOracle.Execution.Events
import LidoOracle.Ipfs.Fallback
import LidoOracle.Ipfs.Publish
import LidoOracle.Accounting.ClBalance
import LidoOracle.Accounting.SafeBorder
import LidoOracle.Accounting.ExitedValidators
import LidoOracle.Accounting.ModuleBalances
import LidoOracle.Vaults.Types
import LidoOracle.Lib.Json
import LidoOracle.Vaults.IpfsReport
import LidoOracle.Vaults.TotalValue
import LidoOracle.Accounting.Bunker.AbnormalClRebase
import LidoOracle.Vaults.HubEvents
import LidoOracle.Vaults.Fees
import LidoOracle.Vaults.ReportChain
import LidoOracle.Lib.Interaction
import LidoOracle.Lib.Quorum
import LidoOracle.Consensus.ReportCycle
import LidoOracle.Consensus.Agreement
