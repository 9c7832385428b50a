import LidoOracle.Constants
import LidoOracle.Lib.Bytes

/-! The consensus-layer and staking-router records the oracle works on. A
validator record cannot hold an effective balance above its own cap: the
source refuses to construct one. -/

namespace LidoOracle

abbrev Gwei := ℕ
abbrev EpochNumber := ℕ
abbrev SlotNumber := ℕ
abbrev ValidatorIndex := ℕ
abbrev StakingModuleId := ℕ
abbrev NodeOperatorId := ℕ
abbrev NodeOperatorGlobalIndex := StakingModuleId × NodeOperatorId

abbrev HexStr := String
abbrev ChecksumAddress := String
abbrev BlockRoot := String
abbrev CID := String
abbrev HexBytes := List UInt8

def ZERO_HASH : HexBytes := List.replicate 32 0

/-- `bytes.fromhex(s[2:]) if s.startswith("0x") else bytes.fromhex(s)` -/
def hexStrToBytes {χ : Type} (hexStr : HexStr) : Py χ HexBytes :=
  Py.fromHex (if "0x".toList <+: hexStr.toList then hexStr.toList.drop 2 else hexStr.toList)

/-- `b.to_0x_hex()` -/
def HexBytes.to0xHex (bytes : HexBytes) : HexStr := String.ofList ("0x".toList ++ Py.toHex bytes)

theorem prefix_to0xHex (bytes : HexBytes) : "0x".toList <+: bytes.to0xHex.toList := by
  have htext : bytes.to0xHex.toList = "0x".toList ++ Py.toHex bytes := String.toList_ofList
  rw [htext]
  exact List.prefix_append _ _

theorem hexStrToBytes_to0xHex {χ : Type} (bytes : HexBytes) :
    (hexStrToBytes bytes.to0xHex : Py χ HexBytes) = .ok bytes := by
  have htext : bytes.to0xHex.toList = "0x".toList ++ Py.toHex bytes := String.toList_ofList
  rw [hexStrToBytes, if_pos (prefix_to0xHex bytes), htext]
  exact Py.fromHex_toHex bytes

/-- `s[:4] == prefix` for the two-digit credential prefixes -/
def hasCredentialPrefix (credentials : HexStr) (pre : String) : Bool :=
  credentials.toList.take 4 == pre.toList

/-- The cap that the withdrawal credentials of a validator set on its effective balance -/
def maxEffectiveBalanceOf (credentials : HexStr) : Gwei :=
  if hasCredentialPrefix credentials COMPOUNDING_WITHDRAWAL_PREFIX then MAX_EFFECTIVE_BALANCE_ELECTRA
  else MIN_ACTIVATION_BALANCE

structure ValidatorState where
  pubkey : HexStr
  withdrawalCredentials : HexStr
  effectiveBalance : Gwei
  slashed : Bool
  activationEligibilityEpoch : EpochNumber
  activationEpoch : EpochNumber
  exitEpoch : EpochNumber
  withdrawableEpoch : EpochNumber
  effectiveBalance_le : effectiveBalance ≤ maxEffectiveBalanceOf withdrawalCredentials
  deriving DecidableEq

structure Validator where
  index : ValidatorIndex
  balance : Gwei
  validator : ValidatorState
  deriving DecidableEq

structure PendingDeposit where
  pubkey : HexStr
  withdrawalCredentials : HexStr
  amount : Gwei
  signature : HexStr
  slot : SlotNumber
  deriving DecidableEq

structure ConsolidationRequest where
  sourceIndex : ValidatorIndex
  targetIndex : ValidatorIndex
  amount : Gwei
  deriving DecidableEq

/-- A deposited key, as the Keys API reports it -/
structure LidoKey where
  index : ℕ
  key : HexStr
  operatorIndex : NodeOperatorId
  moduleAddress : ChecksumAddress
  deriving DecidableEq

structure LidoValidator extends Validator where
  lidoId : LidoKey
  pendingTopups : List PendingDeposit
  consolidatingAsSource : Option ConsolidationRequest
  consolidatingAsTarget : List ConsolidationRequest
  deriving DecidableEq

structure StakingModule where
  id : StakingModuleId
  stakingModuleAddress : ChecksumAddress
  name : String
  exitedValidatorsCount : ℕ
  /-- in basis points -/
  priorityExitShareThreshold : ℕ
  deriving DecidableEq

inductive NodeOperatorLimitMode where
  | disabled
  | soft
  | force
  deriving DecidableEq

structure NodeOperator where
  id : NodeOperatorId
  isTargetLimitActive : NodeOperatorLimitMode
  targetValidatorsCount : ℕ
  totalExitedValidators : ℕ
  stakingModule : StakingModule
  deriving DecidableEq

def NodeOperator.globalIndex (no : NodeOperator) : NodeOperatorGlobalIndex :=
  (no.stakingModule.id, no.id)

end LidoOracle
