import LidoOracle.Lib.Dict
import LidoOracle.Types

/-! What the vault hub and the predeposit guarantee report about staking vaults. -/

namespace LidoOracle

abbrev Shares := ℤ

/-- Amounts are in Wei. -/
structure VaultInfo where
  vault : ChecksumAddress
  aggregatedBalance : ℕ
  inOutDelta : ℤ
  withdrawalCredentials : HexStr
  liabilityShares : Shares
  maxLiabilityShares : Shares
  mintableStEth : ℕ
  shareLimit : ℕ
  reserveRatioBp : ℕ
  forcedRebalanceThresholdBp : ℕ
  infraFeeBp : ℕ
  liquidityFeeBp : ℕ
  reservationFeeBp : ℕ
  pendingDisconnect : Bool
  deriving DecidableEq

inductive ValidatorStage where
  | none
  | predeposited
  | proven
  | activated
  | compensated
  deriving DecidableEq

structure ValidatorStatus where
  stage : ValidatorStage
  stakingVault : ChecksumAddress
  nodeOperator : ChecksumAddress
  deriving DecidableEq

abbrev VaultsMap := Dict ChecksumAddress VaultInfo

end LidoOracle
