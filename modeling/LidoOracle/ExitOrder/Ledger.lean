import LidoOracle.ExitOrder.Iterator

/-! The iterator's five aggregates as one additive quantity. Every posting of
the source, a counted balance as much as a group's share, shifts the running
records by a `Delta`, and shifts add up. -/

namespace LidoOracle

structure Delta where
  total : ℤ
  smBalance : StakingModuleId → ℤ
  smStake : StakingModuleId → ℚ
  noValidators : NodeOperatorGlobalIndex → ℤ
  noBalance : NodeOperatorGlobalIndex → ℤ
  noStake : NodeOperatorGlobalIndex → ℚ

namespace Delta

@[ext] theorem ext {a b : Delta} (h₁ : a.total = b.total) (h₂ : a.smBalance = b.smBalance)
    (h₃ : a.smStake = b.smStake) (h₄ : a.noValidators = b.noValidators)
    (h₅ : a.noBalance = b.noBalance) (h₆ : a.noStake = b.noStake) : a = b := by
  cases a; cases b; simp_all

instance : Zero Delta := ⟨⟨0, 0, 0, 0, 0, 0⟩⟩

instance : Add Delta := ⟨fun a b => ⟨a.total + b.total, a.smBalance + b.smBalance,
  a.smStake + b.smStake, a.noValidators + b.noValidators, a.noBalance + b.noBalance,
  a.noStake + b.noStake⟩⟩

instance : Neg Delta := ⟨fun a => ⟨-a.total, -a.smBalance, -a.smStake, -a.noValidators,
  -a.noBalance, -a.noStake⟩⟩

@[simp] theorem zero_total : (0 : Delta).total = 0 := rfl
@[simp] theorem zero_smBalance : (0 : Delta).smBalance = 0 := rfl
@[simp] theorem zero_smStake : (0 : Delta).smStake = 0 := rfl
@[simp] theorem zero_noValidators : (0 : Delta).noValidators = 0 := rfl
@[simp] theorem zero_noBalance : (0 : Delta).noBalance = 0 := rfl
@[simp] theorem zero_noStake : (0 : Delta).noStake = 0 := rfl

section

variable (a b : Delta)

@[simp] theorem add_total : (a + b).total = a.total + b.total := rfl
@[simp] theorem add_smBalance : (a + b).smBalance = a.smBalance + b.smBalance := rfl
@[simp] theorem add_smStake : (a + b).smStake = a.smStake + b.smStake := rfl
@[simp] theorem add_noValidators : (a + b).noValidators = a.noValidators + b.noValidators := rfl
@[simp] theorem add_noBalance : (a + b).noBalance = a.noBalance + b.noBalance := rfl
@[simp] theorem add_noStake : (a + b).noStake = a.noStake + b.noStake := rfl
@[simp] theorem neg_total : (-a).total = -a.total := rfl
@[simp] theorem neg_smBalance : (-a).smBalance = -a.smBalance := rfl
@[simp] theorem neg_smStake : (-a).smStake = -a.smStake := rfl
@[simp] theorem neg_noValidators : (-a).noValidators = -a.noValidators := rfl
@[simp] theorem neg_noBalance : (-a).noBalance = -a.noBalance := rfl
@[simp] theorem neg_noStake : (-a).noStake = -a.noStake := rfl

end

instance : AddCommGroup Delta where
  add_assoc a b c := by ext1 <;> simp [add_assoc]
  zero_add a := by ext1 <;> simp
  add_zero a := by ext1 <;> simp
  add_comm a b := by ext1 <;> simp [add_comm]
  neg_add_cancel a := by ext1 <;> simp
  nsmul := nsmulRec
  zsmul := zsmulRec

@[simp] theorem sum_total (l : List Delta) : l.sum.total = (l.map total).sum := by
  induction l <;> simp_all

@[simp] theorem sum_smBalance (l : List Delta) : l.sum.smBalance = (l.map smBalance).sum := by
  induction l <;> simp_all

@[simp] theorem sum_smStake (l : List Delta) : l.sum.smStake = (l.map smStake).sum := by
  induction l <;> simp_all

@[simp] theorem sum_noValidators (l : List Delta) :
    l.sum.noValidators = (l.map noValidators).sum := by
  induction l <;> simp_all

@[simp] theorem sum_noBalance (l : List Delta) : l.sum.noBalance = (l.map noBalance).sum := by
  induction l <;> simp_all

@[simp] theorem sum_noStake (l : List Delta) : l.sum.noStake = (l.map noStake).sum := by
  induction l <;> simp_all

/-- A posting to Lido's total alone -/
def lido (x : ℤ) : Delta := { (0 : Delta) with total := x }

/-- A posting to one module's record: balance and stake -/
def module (id : StakingModuleId) (x : ℤ) (y : ℚ) : Delta :=
  { (0 : Delta) with smBalance := Pi.single id x, smStake := Pi.single id y }

/-- A posting to one operator's record: validators, balance and stake -/
def operator (gid : NodeOperatorGlobalIndex) (n x : ℤ) (y : ℚ) : Delta :=
  { (0 : Delta) with
    noValidators := Pi.single gid n, noBalance := Pi.single gid x, noStake := Pi.single gid y }

/-- A balance counted for one operator -/
def credit (gid : NodeOperatorGlobalIndex) (x : ℤ) : Delta :=
  lido x + module gid.1 x x + operator gid 0 x x

/-- Validators counted for one operator -/
def count (gid : NodeOperatorGlobalIndex) (n : ℤ) : Delta := operator gid n 0 0

/-- Stake posted to one module -/
def moduleStake (id : StakingModuleId) (x : ℚ) : Delta := module id 0 x

/-- Stake posted to operators -/
def operatorStake (x : NodeOperatorGlobalIndex → ℚ) : Delta := { (0 : Delta) with noStake := x }

theorem operator_stake (gid : NodeOperatorGlobalIndex) (y : ℚ) :
    operator gid 0 0 y = operatorStake (Pi.single gid y) := by
  ext1 <;> simp [operator, operatorStake]

theorem neg_moduleStake (id : StakingModuleId) (y : ℚ) : -moduleStake id y = moduleStake id (-y) := by
  ext1 <;> simp [moduleStake, module, Pi.single_neg]

theorem neg_operatorStake (f : NodeOperatorGlobalIndex → ℚ) :
    -operatorStake f = operatorStake (-f) := by
  ext1 <;> simp [operatorStake]

theorem module_add (id : StakingModuleId) (x x' : ℤ) (y y' : ℚ) :
    module id (x + x') (y + y') = module id x y + module id x' y' := by
  ext1 <;> simp [module, Pi.single_add]

theorem moduleStake_add (id : StakingModuleId) (y y' : ℚ) :
    moduleStake id (y + y') = moduleStake id y + moduleStake id y' := module_add id 0 0 y y'

theorem moduleStake_zero (id : StakingModuleId) : moduleStake id 0 = 0 := by
  ext1 <;> simp [moduleStake, module]

theorem operatorStake_add (x y : NodeOperatorGlobalIndex → ℚ) :
    operatorStake (x + y) = operatorStake x + operatorStake y := by
  ext1 <;> simp [operatorStake]

theorem neg_operatorStake_sum {l : List NodeOperatorGlobalIndex} {f : NodeOperatorGlobalIndex → ℚ} :
    -operatorStake (l.map fun gid => Pi.single gid (f gid)).sum =
      operatorStake (l.map fun gid => Pi.single gid (-f gid)).sum := by
  rw [neg_operatorStake]
  induction l with
  | nil => simp
  | cons gid l ih =>
    rw [List.map_cons, List.map_cons, List.sum_cons, List.sum_cons, neg_add, operatorStake_add,
      operatorStake_add, ih, Pi.single_neg]

theorem sum_operatorStake {α : Type} (l : List α) (f : α → NodeOperatorGlobalIndex → ℚ) :
    (l.map fun a => operatorStake (f a)).sum = operatorStake (l.map f).sum := by
  induction l with
  | nil => rfl
  | cons a l ih => rw [List.map_cons, List.map_cons, List.sum_cons, List.sum_cons, ih, operatorStake_add]

end Delta

def StakingModuleStats.shift (sm : StakingModuleStats) (id : StakingModuleId) (d : Delta) :
    StakingModuleStats :=
  { sm with predictableBalance := sm.predictableBalance + d.smBalance id,
            totalStake := sm.totalStake + d.smStake id }

def NodeOperatorStats.shift (no : NodeOperatorStats) (gid : NodeOperatorGlobalIndex) (d : Delta) :
    NodeOperatorStats :=
  { no with predictableValidators := no.predictableValidators + d.noValidators gid,
            predictableBalance := no.predictableBalance + d.noBalance gid,
            totalStake := no.totalStake + d.noStake gid }

namespace ValidatorExitIterator

/-- Rewrite the operators' records, keys and order kept. -/
def mapNodeOperators (it : ValidatorExitIterator)
    (f : NodeOperatorGlobalIndex → NodeOperatorStats → NodeOperatorStats) :
    ValidatorExitIterator :=
  { it with nodeOperatorsStats := it.nodeOperatorsStats.mapKV f }

def shift (it : ValidatorExitIterator) (d : Delta) : ValidatorExitIterator :=
  { it with
    totalLidoPredictableBalance := it.totalLidoPredictableBalance + d.total
    moduleStats := it.moduleStats.mapKV fun id sm => sm.shift id d
    nodeOperatorsStats := it.nodeOperatorsStats.mapKV fun gid no => no.shift gid d }

theorem shift_shift (it : ValidatorExitIterator) (a b : Delta) :
    (it.shift a).shift b = it.shift (a + b) := by
  simp only [shift, Dict.mapKV_mapKV, Delta.add_total, add_assoc]
  congr 1
  · exact Dict.mapKV_congr fun id sm _ => by simp [StakingModuleStats.shift, add_assoc]
  · exact Dict.mapKV_congr fun gid no _ => by simp [NodeOperatorStats.shift, add_assoc]

@[simp] theorem shift_zero (it : ValidatorExitIterator) : it.shift 0 = it := by
  simp only [shift, Delta.zero_total, add_zero]
  rw [Dict.mapKV_id, Dict.mapKV_id]
  · exact fun gid no _ => by simp [NodeOperatorStats.shift]
  · exact fun id sm _ => by simp [StakingModuleStats.shift]

section Frame

variable (it : ValidatorExitIterator) (d : Delta)
  (f : NodeOperatorGlobalIndex → NodeOperatorStats → NodeOperatorStats)

@[simp] theorem shift_maxCurrentExitBalance :
    (it.shift d).maxCurrentExitBalance = it.maxCurrentExitBalance := rfl
@[simp] theorem shift_exitLimitInGwei : (it.shift d).exitLimitInGwei = it.exitLimitInGwei := rfl
@[simp] theorem shift_exitableValidators :
    (it.shift d).exitableValidators = it.exitableValidators := rfl
@[simp] theorem shift_cmV2Id : (it.shift d).cmV2Id = it.cmV2Id := rfl
@[simp] theorem shift_nodeOperatorsStats :
    (it.shift d).nodeOperatorsStats = it.nodeOperatorsStats.mapKV fun gid no => no.shift gid d :=
  rfl
@[simp] theorem shift_moduleStats :
    (it.shift d).moduleStats = it.moduleStats.mapKV fun id sm => sm.shift id d := rfl
@[simp] theorem mapNodeOperators_nodeOperatorsStats :
    (it.mapNodeOperators f).nodeOperatorsStats = it.nodeOperatorsStats.mapKV f := rfl
@[simp] theorem mapNodeOperators_moduleStats :
    (it.mapNodeOperators f).moduleStats = it.moduleStats := rfl
@[simp] theorem mapNodeOperators_exitableValidators :
    (it.mapNodeOperators f).exitableValidators = it.exitableValidators := rfl
@[simp] theorem mapNodeOperators_cmV2Id : (it.mapNodeOperators f).cmV2Id = it.cmV2Id := rfl

end Frame

theorem mapNodeOperators_mapNodeOperators (it : ValidatorExitIterator)
    (f g : NodeOperatorGlobalIndex → NodeOperatorStats → NodeOperatorStats) :
    (it.mapNodeOperators f).mapNodeOperators g = it.mapNodeOperators fun k v => g k (f k v) := by
  simp [mapNodeOperators]

theorem mapNodeOperators_congr {it : ValidatorExitIterator}
    {f g : NodeOperatorGlobalIndex → NodeOperatorStats → NodeOperatorStats}
    (h : ∀ gid no, f gid no = g gid no) : it.mapNodeOperators f = it.mapNodeOperators g := by
  rw [show f = g from funext fun gid => funext (h gid)]

theorem mapNodeOperators_id {it : ValidatorExitIterator}
    {f : NodeOperatorGlobalIndex → NodeOperatorStats → NodeOperatorStats}
    (h : ∀ gid no, f gid no = no) : it.mapNodeOperators f = it := by
  rw [mapNodeOperators, Dict.mapKV_id fun gid no _ => h gid no]

/-- Rewriting links and weights commutes with posting. -/
theorem mapNodeOperators_shift (it : ValidatorExitIterator) (d : Delta)
    {f : NodeOperatorGlobalIndex → NodeOperatorStats → NodeOperatorStats}
    (hf : ∀ gid no, f gid (no.shift gid d) = (f gid no).shift gid d) :
    (it.shift d).mapNodeOperators f = (it.mapNodeOperators f).shift d := by
  simp [mapNodeOperators, shift, hf]

instance decidableMemGids (gid : NodeOperatorGlobalIndex) (gids : List NodeOperatorGlobalIndex) :
    Decidable (gid ∈ gids) := inferInstance

/-- Apply `f` to the records of the listed operators. -/
def mark (gids : List NodeOperatorGlobalIndex) (f : NodeOperatorStats → NodeOperatorStats)
    (gid : NodeOperatorGlobalIndex) (no : NodeOperatorStats) : NodeOperatorStats :=
  if gid ∈ gids then f no else no

theorem mark_singleton (gid : NodeOperatorGlobalIndex) (f : NodeOperatorStats → NodeOperatorStats) :
    mark [gid] f = fun k no => if k = gid then f no else no := by
  funext k no
  simp [mark]

theorem modifyNodeOperator_ok_iff {it it' : ValidatorExitIterator} {gid : NodeOperatorGlobalIndex}
    {f : NodeOperatorStats → NodeOperatorStats} :
    it.modifyNodeOperator gid f = .ok it' ↔ gid ∈ it.nodeOperatorsStats ∧
      it' = it.mapNodeOperators (mark [gid] f) := by
  simp only [mark_singleton, modifyNodeOperator, Except.bind_eq_ok, Py.updateItem_eq_ok, Except.pure_eq_ok]
  constructor
  · rintro ⟨d, ⟨hk, rfl⟩, rfl⟩
    exact ⟨hk, rfl⟩
  · rintro ⟨hk, rfl⟩
    exact ⟨_, ⟨hk, rfl⟩, rfl⟩

theorem modifyModule_ok_iff {it it' : ValidatorExitIterator} {id : StakingModuleId}
    {f : StakingModuleStats → StakingModuleStats} :
    it.modifyModule id f = .ok it' ↔ id ∈ it.moduleStats ∧
      it' = { it with moduleStats := it.moduleStats.modify id f } := by
  simp only [modifyModule, Except.bind_eq_ok, Py.updateItem_eq_ok, Except.pure_eq_ok]
  constructor
  · rintro ⟨d, ⟨hk, rfl⟩, rfl⟩
    exact ⟨hk, rfl⟩
  · rintro ⟨hk, rfl⟩
    exact ⟨_, ⟨hk, rfl⟩, rfl⟩

theorem lido_eq_shift (it : ValidatorExitIterator) (x : ℤ) :
    { it with totalLidoPredictableBalance := it.totalLidoPredictableBalance + x } =
      it.shift (Delta.lido x) := by
  simp only [shift, Delta.lido]
  rw [Dict.mapKV_id fun id sm _ => by simp [StakingModuleStats.shift],
    Dict.mapKV_id fun gid no _ => by simp [NodeOperatorStats.shift]]

/-- An update that adds to one module's figures is a posting. -/
theorem modifyModule_post_ok_iff {it it' : ValidatorExitIterator} {id : StakingModuleId}
    {f : StakingModuleStats → StakingModuleStats} {x : ℤ} {y : ℚ}
    (hf : ∀ sm, f sm = { sm with predictableBalance := sm.predictableBalance + x,
                                 totalStake := sm.totalStake + y }) :
    it.modifyModule id f = .ok it' ↔ id ∈ it.moduleStats ∧ it' = it.shift (Delta.module id x y) := by
  rw [modifyModule_ok_iff]
  refine and_congr_right fun _ => ?_
  suffices h : { it with moduleStats := it.moduleStats.modify id f } =
      it.shift (Delta.module id x y) by rw [h]
  simp only [shift, Dict.modify, Delta.module, Delta.zero_total, add_zero]
  congr 1
  · refine Dict.mapKV_congr fun k sm _ => ?_
    by_cases hk : k = id <;> simp [hk, hf, StakingModuleStats.shift]
  · exact (Dict.mapKV_id fun gid no _ => by simp [NodeOperatorStats.shift]).symm

/-- An update that adds to one operator's figures is a posting. -/
theorem modifyNodeOperator_post_ok_iff {it it' : ValidatorExitIterator}
    {gid : NodeOperatorGlobalIndex} {f : NodeOperatorStats → NodeOperatorStats} {n x : ℤ} {y : ℚ}
    (hf : ∀ no, f no = { no with predictableValidators := no.predictableValidators + n,
                                 predictableBalance := no.predictableBalance + x,
                                 totalStake := no.totalStake + y }) :
    it.modifyNodeOperator gid f = .ok it' ↔
      gid ∈ it.nodeOperatorsStats ∧ it' = it.shift (Delta.operator gid n x y) := by
  rw [modifyNodeOperator_ok_iff]
  refine and_congr_right fun _ => ?_
  suffices h : it.mapNodeOperators (mark [gid] f) = it.shift (Delta.operator gid n x y) by rw [h]
  simp only [shift, mapNodeOperators, Delta.operator, Delta.zero_total, add_zero]
  congr 1
  · exact (Dict.mapKV_id fun id sm _ => by simp [StakingModuleStats.shift]).symm
  · refine Dict.mapKV_congr fun k no _ => ?_
    by_cases hk : k = gid <;> simp [mark, hk, hf, NodeOperatorStats.shift]

theorem modifyModule_stake_ok_iff {it it' : ValidatorExitIterator} {id : StakingModuleId} {y : ℚ} :
    (it.modifyModule id fun sm => { sm with totalStake := sm.totalStake + y }) = .ok it' ↔
      id ∈ it.moduleStats ∧ it' = it.shift (Delta.moduleStake id y) :=
  modifyModule_post_ok_iff fun sm => by simp

theorem modifyNodeOperator_stake_ok_iff {it it' : ValidatorExitIterator}
    {gid : NodeOperatorGlobalIndex} {y : ℚ} :
    (it.modifyNodeOperator gid fun no => { no with totalStake := no.totalStake + y }) = .ok it' ↔
      gid ∈ it.nodeOperatorsStats ∧ it' = it.shift (Delta.operatorStake (Pi.single gid y)) := by
  rw [← Delta.operator_stake]
  exact modifyNodeOperator_post_ok_iff fun no => by simp

theorem addPredictableBalance_ok_iff {it it' : ValidatorExitIterator}
    {gid : NodeOperatorGlobalIndex} {x : Gwei} :
    it.addPredictableBalance gid x = .ok it' ↔
      (gid.1 ∈ it.moduleStats ∧ gid ∈ it.nodeOperatorsStats) ∧
        it' = it.shift (Delta.credit gid x) := by
  unfold addPredictableBalance
  rw [lido_eq_shift, Except.bind_eq_ok]
  have hmod : ∀ it₁, ((it.shift (Delta.lido x)).modifyModule gid.1 fun sm =>
      { sm with totalStake := sm.totalStake + x, predictableBalance := sm.predictableBalance + x }) =
        .ok it₁ ↔ gid.1 ∈ it.moduleStats ∧
          it₁ = it.shift (Delta.lido x + Delta.module gid.1 x x) := fun it₁ => by
    rw [modifyModule_post_ok_iff fun sm => rfl, shift_shift]
    simp
  have hno : ∀ it₁ it' : ValidatorExitIterator, (it₁.modifyNodeOperator gid fun no =>
      { no with predictableBalance := no.predictableBalance + x,
                totalStake := no.totalStake + x }) = .ok it' ↔ gid ∈ it₁.nodeOperatorsStats ∧
          it' = it₁.shift (Delta.operator gid 0 x x) := fun it₁ it' =>
    modifyNodeOperator_post_ok_iff fun no => by simp
  simp only [hmod, hno]
  constructor
  · rintro ⟨_, ⟨hm, rfl⟩, hn, rfl⟩
    exact ⟨⟨hm, by simpa using hn⟩, shift_shift _ _ _⟩
  · rintro ⟨⟨hm, hn⟩, rfl⟩
    exact ⟨_, ⟨hm, rfl⟩, by simpa using hn, (shift_shift _ _ _).symm⟩

theorem addPredictableValidators_ok_iff {it it' : ValidatorExitIterator}
    {gid : NodeOperatorGlobalIndex} {n : ℕ} :
    it.addPredictableValidators gid n = .ok it' ↔
      gid ∈ it.nodeOperatorsStats ∧ it' = it.shift (Delta.count gid n) :=
  modifyNodeOperator_post_ok_iff fun no => by simp

/-- A loop of postings posts their sum. -/
theorem foldlM_shift_ok_iff {α : Type} {step : ValidatorExitIterator → α → Iter ValidatorExitIterator}
    {it it' : ValidatorExitIterator} {C : α → Prop} {δ : α → Delta}
    (hstep : ∀ d x it', step (it.shift d) x = .ok it' ↔ C x ∧ it' = (it.shift d).shift (δ x))
    {xs : List α} :
    xs.foldlM step it = .ok it' ↔ (∀ x ∈ xs, C x) ∧ it' = it.shift (xs.map δ).sum := by
  have hgen : ∀ d, xs.foldlM step (it.shift d) = .ok it' ↔
      (∀ x ∈ xs, C x) ∧ it' = it.shift (d + (xs.map δ).sum) := by
    induction xs with
    | nil =>
      intro d
      rw [List.foldlM_nil, Except.pure_eq_ok]
      simp [eq_comm]
    | cons x xs ih =>
      intro d
      rw [ExceptRun.foldlM_cons_ok, List.forall_mem_cons, List.map_cons, List.sum_cons, ← add_assoc]
      simp only [hstep, shift_shift]
      constructor
      · rintro ⟨_, ⟨hx, rfl⟩, h⟩
        obtain ⟨hxs, rfl⟩ := (ih _).mp h
        exact ⟨⟨hx, hxs⟩, rfl⟩
      · rintro ⟨⟨hx, hxs⟩, rfl⟩
        exact ⟨_, ⟨hx, rfl⟩, (ih _).mpr ⟨hxs, rfl⟩⟩
  simpa using hgen 0

end ValidatorExitIterator

end LidoOracle
