import LidoOracle.Lib.FloatingPoint
import LidoOracle.Lib.Python
import LidoOracle.Types

/-! What the parameters registry and the collected duties give the staking
module oracle. A float is the rational that it is, and every operation on floats
rounds to a double. -/

namespace LidoOracle

namespace StakingModules

open FloatingPoint (double)

abbrev StrikesValidator := NodeOperatorId × HexBytes
abbrev RewardsShares := ℕ
abbrev ParticipationShares := ℤ

/-- The exceptions of a distribution, one for each place that raises -/
inductive DistributionError where
  | invalidAccumulator
  | noFrameData
  | invalidPerformance
  | keyNumberBelowOne
  | noValueForKeyNumber
  | negativeRebateShare
  | negativeRewardsToDistribute
  | distributedAboveRewards
  | distributedAboveTotal
  | nothingDistributed
  | inconsistentData
  deriving DecidableEq, Repr

abbrev Distributing := Py DistributionError

structure DutyAccumulator where
  assigned : ℕ
  included : ℕ
  deriving DecidableEq

def DutyAccumulator.perf (d : DutyAccumulator) : ℚ :=
  if d.assigned ≠ 0 then double ((d.included : ℚ) / d.assigned) else 0

structure ValidatorDuties where
  attestation : Option DutyAccumulator
  proposal : Option DutyAccumulator
  sync : Option DutyAccumulator
  deriving DecidableEq

structure PerformanceCoefficients where
  attestationsWeight : ℕ
  blocksWeight : ℕ
  syncWeight : ℕ
  deriving DecidableEq

def defaultCoefficients : PerformanceCoefficients where
  attestationsWeight := ATTESTATIONS_WEIGHT
  blocksWeight := BLOCKS_WEIGHT
  syncWeight := SYNC_WEIGHT

/-- One duty of the weighted mean, after the base and the performance so far -/
def addDuty (acc : ℕ × ℚ) (duty : Option DutyAccumulator) (weight : ℕ) : ℕ × ℚ :=
  match duty with
  | some duty => (acc.1 + weight, double (acc.2 + double (duty.perf * double weight)))
  | none => acc

def PerformanceCoefficients.calcPerformance (coeffs : PerformanceCoefficients)
    (duties : ValidatorDuties) : Distributing ℚ := do
  let acc := addDuty (0, 0) duties.attestation coeffs.attestationsWeight
  let acc := addDuty acc duties.proposal coeffs.blocksWeight
  let (base, performance) := addDuty acc duties.sync coeffs.syncWeight
  let mean ← Py.trueDiv performance (double base)
  let performance := double mean
  if 1 < performance then throw (.raised .invalidPerformance)
  return performance

structure KeyNumberValueInterval where
  minKeyNumber : ℕ
  value : ℕ
  deriving DecidableEq

abbrev KeyNumberValueIntervalList := List KeyNumberValueInterval

/-- `sorted(intervals, key=minKeyNumber, reverse=True)`: a reversed sort keeps the order of equals. -/
def sortedIntervals (intervals : KeyNumberValueIntervalList) : KeyNumberValueIntervalList :=
  Sorted.sortedBy (fun i => OrderDual.toDual i.minKeyNumber) intervals

/-- The value of the first interval, from the highest start down, that contains the key number -/
def getFor (intervals : KeyNumberValueIntervalList) (keyNumber : ℕ) : Distributing ℚ :=
  if keyNumber < 1 then .error (.raised .keyNumberBelowOne)
  else match (sortedIntervals intervals).find? fun i => i.minKeyNumber ≤ keyNumber with
    | some interval => .ok (double ((interval.value : ℚ) / TOTAL_BASIS_POINTS))
    | none => .error (.raised .noValueForKeyNumber)

structure StrikesParams where
  lifetime : ℕ
  threshold : ℕ
  deriving DecidableEq

structure CurveParams where
  perfCoeffs : PerformanceCoefficients
  perfLeewayData : KeyNumberValueIntervalList
  rewardShareData : KeyNumberValueIntervalList
  strikesParams : StrikesParams
  deriving DecidableEq

end StakingModules

end LidoOracle
