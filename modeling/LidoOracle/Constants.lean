import Mathlib

/-! Protocol constants. Amounts are in Gwei. -/

namespace LidoOracle

def FAR_FUTURE_EPOCH : ℕ := 2 ^ 64 - 1
def MIN_VALIDATOR_WITHDRAWABILITY_DELAY : ℕ := 2 ^ 8
def MAX_SEED_LOOKAHEAD : ℕ := 4
def EPOCHS_PER_SLASHINGS_VECTOR : ℕ := 2 ^ 13
def EFFECTIVE_BALANCE_INCREMENT : ℕ := 2 ^ 0 * 10 ^ 9
def MAX_EFFECTIVE_BALANCE : ℕ := 32 * 10 ^ 9
def MAX_EFFECTIVE_BALANCE_ELECTRA : ℕ := 2 ^ 11 * 10 ^ 9
def MIN_DEPOSIT_AMOUNT : ℕ := 2 ^ 0 * 10 ^ 9
def MIN_ACTIVATION_BALANCE : ℕ := 2 ^ 5 * 10 ^ 9
def MAX_WITHDRAWALS_PER_PAYLOAD : ℕ := 2 ^ 4
def MAX_PENDING_PARTIALS_PER_WITHDRAWALS_SWEEP : ℕ := 2 ^ 3
def ETH1_ADDRESS_WITHDRAWAL_PREFIX : String := "0x01"
def COMPOUNDING_WITHDRAWAL_PREFIX : String := "0x02"
def CHURN_LIMIT_QUOTIENT : ℕ := 2 ^ 16
def MIN_PER_EPOCH_CHURN_LIMIT_ELECTRA : ℕ := 2 ^ 7 * 10 ^ 9
def MAX_PER_EPOCH_ACTIVATION_EXIT_CHURN_LIMIT : ℕ := 2 ^ 8 * 10 ^ 9
def TOTAL_BASIS_POINTS : ℕ := 10000
def GWEI_TO_WEI : ℕ := 10 ^ 9
/-- `10**PRECISION_E27` -/
def SHARE_RATE_PRECISION_E27 : ℕ := 10 ^ 27

def ATTESTATIONS_WEIGHT : ℕ := 54
def BLOCKS_WEIGHT : ℕ := 8
def SYNC_WEIGHT : ℕ := 2

/-- `int(365.25 * 24 * 60 * 60)` -/
def SECONDS_IN_YEAR : ℕ := 31557600

def CURATED_V1_MODULE_NAME : String := "curated-onchain-v1"
def CURATED_V2_MODULE_NAME : String := "curated-onchain-v2"

end LidoOracle
