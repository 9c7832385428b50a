import LidoOracle.Consensus.ReportCycle
import LidoOracle.Lib.Quorum

/-! The committee. Members run their cycles at the same time, each with a node of
its own, on contracts that go on changing; a member may be stopped anywhere, and
its transactions are executed late or never. As long as a quorum needs a member
that is not faulty, the contracts agree on the report that the code builds. -/

namespace LidoOracle

/-- The blockstamp of a reference slot is that of the latest block up to it. -/
def BlockChain.ReferenceOf (chain : BlockChain) (slotsPerEpoch : ℕ) (refSlot : SlotNumber)
    (blockstamp : ReferenceBlockStamp) : Prop :=
  ∃ block, chain.LatestBefore (refSlot + 1) block ∧ blockstamp =
    buildReferenceBlockstamp block.toBlockDetails refSlot ((refSlot : ℤ).fdiv slotsPerEpoch).toNat

/-- `HashConsensus` and the oracle contract, by their states: what they answer, and which transactions of which
accounts they execute -/
structure ReportContracts (σ Report : Type) where
  view : σ → ReportView
  quorum : σ → ℕ
  /-- The hash that the hash consensus has provided for the current frame -/
  consensusReport : σ → Option HexBytes
  /-- The report whose processing was started in the current frame -/
  processed : σ → Option Report
  executes : ChecksumAddress → Transaction Report → σ → σ → Prop
  /-- New blocks and frames, and changes of the committee and of the settings -/
  drifts : σ → σ → Prop

namespace ReportContracts

variable {σ Report : Type} (contracts : ReportContracts σ Report)

def refSlot (s : σ) : SlotNumber := (contracts.view s).getInitialOrCurrentFrame.refSlot

/-- The hash reported by the member for the current frame, if any -/
def reportOf (s : σ) (member : ChecksumAddress) : Option HexBytes :=
  ((contracts.view s).memberState member).bind fun state =>
    if state.currentFrameMemberReport = ZERO_HASH then none else some state.currentFrameMemberReport

/-- What the contracts' documentation says: a report counts for the member that submitted it and for the current
reference slot only, the consensus takes a quorum, and the data that is processed has the hash of the consensus. -/
structure Documented (encodeDataHash : Report → HexBytes) : Prop where
  report_of_executes : ∀ account transaction s s' member hash, contracts.executes account transaction s s' →
    contracts.reportOf s' member = some hash →
    (contracts.refSlot s' = contracts.refSlot s ∧ contracts.reportOf s member = some hash) ∨
      (member = account ∧ ∃ version, transaction = .submitReport (contracts.refSlot s') hash version)
  report_of_drifts : ∀ s s' member hash, contracts.drifts s s' → contracts.reportOf s' member = some hash →
    contracts.refSlot s' = contracts.refSlot s ∧ contracts.reportOf s member = some hash
  consensus : ∀ s hash, contracts.consensusReport s = some hash →
    contracts.quorum s ≤ Quorum.support (contracts.view s).members (contracts.reportOf s) hash
  processed_of_executes : ∀ account transaction s s' report, contracts.executes account transaction s s' →
    contracts.processed s' = some report → contracts.refSlot s' = contracts.refSlot s ∧
      (contracts.processed s = some report ∨ ((∃ version, transaction = .submitReportData report version) ∧
        contracts.consensusReport s = some (encodeDataHash report)))
  processed_of_drifts : ∀ s s' report, contracts.drifts s s' → contracts.processed s' = some report →
    contracts.refSlot s' = contracts.refSlot s ∧ contracts.processed s = some report

end ReportContracts

section Committee

variable {σ Report : Type} (chain : BlockChain) (slotsPerEpoch : ℕ) (encodeDataHash : Report → HexBytes)
  (truth : ReferenceBlockStamp → Report)

/-- A daemon that runs the code on the chain: its node serves the finalized blocks, and what it builds on a reference
block, if anything, is the report of that block. -/
structure ConsensusModule.Honest (m : ConsensusModule Report) (lastFinalized : BlockStamp) : Prop where
  serves : m.cc.Serves chain lastFinalized.slotNumber
  slotsPerEpoch_eq : (m.converterAt lastFinalized).chainConfig.slotsPerEpoch = slotsPerEpoch
  encodes : m.encodeDataHash = encodeDataHash
  builds : ∀ blockstamp report, m.buildReport blockstamp = .ok report → report = truth blockstamp

/-- The hash is that of the report on the block of the reference slot. -/
def IsReportHash (refSlot : SlotNumber) (hash : HexBytes) : Prop :=
  ∃ blockstamp, chain.ReferenceOf slotsPerEpoch refSlot blockstamp ∧ hash = encodeDataHash (truth blockstamp)

/-- What an honest member sends is the report on the block of one reference slot, or its hash for that slot. -/
def Truthful : Transaction Report → Prop
  | .submitReport refSlot reportHash _ => IsReportHash chain slotsPerEpoch encodeDataHash truth refSlot reportHash
  | .submitReportData report _ =>
    ∃ refSlot blockstamp, chain.ReferenceOf slotsPerEpoch refSlot blockstamp ∧ report = truth blockstamp

/-- The committee on the contracts. The faulty accounts send what they want, and so does everybody who is no
member. -/
def committee (contracts : ReportContracts σ Report) (faulty : ChecksumAddress → Bool) :
    Interaction ChecksumAddress σ ReportView (Transaction Report) (PyError ReportError) where
  view := contracts.view
  starts account program := faulty account = false ∧ ∃ (m : ConsensusModule Report) (lastFinalized : BlockStamp),
    m.account = some account ∧ m.Honest chain slotsPerEpoch encodeDataHash truth lastFinalized ∧
      program = m.executeModule lastFinalized
  effect := contracts.executes
  others s s' := contracts.drifts s s' ∨
    ∃ account transaction, faulty account = true ∧ contracts.executes account transaction s s'

/-- Every honest report and every report that is processed is the one of the current frame. -/
structure Agreed (contracts : ReportContracts σ Report) (faulty : ChecksumAddress → Bool) (s : σ) : Prop where
  reported : ∀ member, faulty member = false → ∀ hash, contracts.reportOf s member = some hash →
    IsReportHash chain slotsPerEpoch encodeDataHash truth (contracts.refSlot s) hash
  processed : ∀ report, contracts.processed s = some report →
    IsReportHash chain slotsPerEpoch encodeDataHash truth (contracts.refSlot s) (encodeDataHash report)

/-- Fewer members are faulty than a quorum takes. -/
def Reliable (contracts : ReportContracts σ Report) (faulty : ChecksumAddress → Bool) (s : σ) : Prop :=
  Quorum.FewFaulty (contracts.view s).members faulty (contracts.quorum s)

variable {chain slotsPerEpoch encodeDataHash truth} {contracts : ReportContracts σ Report}
  {faulty : ChecksumAddress → Bool} {s s' : σ}

/-- A cycle of an honest member is truthful, whatever it reads. -/
theorem ConsensusModule.Honest.truthful {m : ConsensusModule Report} {lastFinalized : BlockStamp}
    (h : m.Honest chain slotsPerEpoch encodeDataHash truth lastFinalized) :
    (m.executeModule lastFinalized).Meets (Truthful chain slotsPerEpoch encodeDataHash truth) fun _ => True := by
  refine meets_executeModule fun refSlot blockstamp hstamp report hreport version => ?_
  obtain ⟨details, hdetails, hbuild⟩ := Except.bind_eq_ok.mp hstamp
  obtain ⟨block, hlatest, rfl⟩ := h.serves.latest_of_ok hdetails
  rw [Except.pure_eq_ok] at hbuild
  have hreference : chain.ReferenceOf slotsPerEpoch refSlot blockstamp := by
    refine ⟨block, hlatest, ?_⟩
    rw [← hbuild, Web3Converter.getEpochBySlot, h.slotsPerEpoch_eq]
  have hslot : blockstamp.refSlot = refSlot := by rw [← hbuild]; rfl
  have htruth := h.builds blockstamp report hreport
  refine ⟨⟨refSlot, blockstamp, hreference, htruth⟩, ?_⟩
  rw [hslot]
  exact ⟨blockstamp, hreference, by rw [htruth, h.encodes]⟩

section Step

variable (hdoc : contracts.Documented encodeDataHash)
include hdoc

/-- The consensus is backed by an honest member. -/
theorem Agreed.consensus (hreliable : Reliable contracts faulty s)
    (h : Agreed chain slotsPerEpoch encodeDataHash truth contracts faulty s) {hash : HexBytes}
    (hconsensus : contracts.consensusReport s = some hash) :
    IsReportHash chain slotsPerEpoch encodeDataHash truth (contracts.refSlot s) hash := by
  obtain ⟨member, -, hhonest, hreport⟩ := hreliable.exists_backer (hdoc.consensus s hash hconsensus)
  exact h.reported member hhonest hash hreport

theorem Agreed.executes {account : ChecksumAddress} {transaction : Transaction Report}
    (hreliable : Reliable contracts faulty s)
    (htruthful : faulty account = false → Truthful chain slotsPerEpoch encodeDataHash truth transaction)
    (h : Agreed chain slotsPerEpoch encodeDataHash truth contracts faulty s)
    (hexecutes : contracts.executes account transaction s s') :
    Agreed chain slotsPerEpoch encodeDataHash truth contracts faulty s' where
  reported member hhonest hash hreport := by
    rcases hdoc.report_of_executes _ _ _ _ _ _ hexecutes hreport with ⟨hslot, hbefore⟩ | ⟨rfl, version, rfl⟩
    · rw [hslot]
      exact h.reported member hhonest hash hbefore
    · exact htruthful hhonest
  processed report hprocessed := by
    obtain ⟨hslot, hbefore | ⟨-, hconsensus⟩⟩ := hdoc.processed_of_executes _ _ _ _ _ hexecutes hprocessed
    · rw [hslot]
      exact h.processed report hbefore
    · rw [hslot]
      exact Agreed.consensus hdoc hreliable h hconsensus

theorem Agreed.drifts (h : Agreed chain slotsPerEpoch encodeDataHash truth contracts faulty s)
    (hdrifts : contracts.drifts s s') : Agreed chain slotsPerEpoch encodeDataHash truth contracts faulty s' where
  reported member hhonest hash hreport := by
    obtain ⟨hslot, hbefore⟩ := hdoc.report_of_drifts _ _ _ _ hdrifts hreport
    rw [hslot]
    exact h.reported member hhonest hash hbefore
  processed report hprocessed := by
    obtain ⟨hslot, hbefore⟩ := hdoc.processed_of_drifts _ _ _ hdrifts hprocessed
    rw [hslot]
    exact h.processed report hbefore

end Step

/-- Agreement: in every run from a frame that nobody has reported for, the consensus and the data that is processed are
those of the report on the block of the reference slot, and the honest members send nothing else. -/
theorem committee_agrees (contracts : ReportContracts σ Report) (faulty : ChecksumAddress → Bool)
    (hdoc : contracts.Documented encodeDataHash) (start : σ) (hfresh : ∀ member, contracts.reportOf start member = none)
    (hnone : contracts.processed start = none)
    (hreliable : ∀ c, (committee chain slotsPerEpoch encodeDataHash truth contracts faulty).Run (.quiet start) c →
      Reliable contracts faulty c.shared)
    (c : Interaction.Config ChecksumAddress σ ReportView (Transaction Report) (PyError ReportError))
    (hrun : (committee chain slotsPerEpoch encodeDataHash truth contracts faulty).Run (.quiet start) c) :
    (∀ hash, contracts.consensusReport c.shared = some hash →
      IsReportHash chain slotsPerEpoch encodeDataHash truth (contracts.refSlot c.shared) hash) ∧
    (∀ report, contracts.processed c.shared = some report →
      IsReportHash chain slotsPerEpoch encodeDataHash truth (contracts.refSlot c.shared) (encodeDataHash report)) ∧
    ∀ e ∈ c.pending, Truthful chain slotsPerEpoch encodeDataHash truth e.2 := by
  have hstart : Agreed chain slotsPerEpoch encodeDataHash truth contracts faulty start :=
    ⟨fun member _ hash hreport => by simp [hfresh member] at hreport,
      fun report hprocessed => by simp [hnone] at hprocessed⟩
  have hkeeps : Interaction.Keeps (fun _ => Truthful chain slotsPerEpoch encodeDataHash truth)
      (Agreed chain slotsPerEpoch encodeDataHash truth contracts faulty) c := by
    refine Interaction.Keeps.run ?_ ?_ ?_ hreliable (Interaction.keeps_quiet hstart) hrun
    · rintro account program ⟨-, m, lastFinalized, -, hhonest, rfl⟩
      exact hhonest.truthful
    · intro account transaction s s' hs htruthful hagreed hexecutes
      exact hagreed.executes hdoc hs (fun _ => htruthful) hexecutes
    · rintro s s' hs hagreed (hdrifts | ⟨account, transaction, hfaulty, hexecutes⟩)
      · exact hagreed.drifts hdoc hdrifts
      · exact hagreed.executes hdoc hs (fun hhonest => absurd hhonest (by simp [hfaulty])) hexecutes
  exact ⟨fun hash hconsensus => hkeeps.shared.consensus hdoc (hreliable c hrun) hconsensus, hkeeps.shared.processed,
    hkeeps.pending⟩

end Committee

/-! Three members, of which two make a quorum and one is faulty -/

section Trio

structure TrioState where
  slotNumber : SlotNumber
  votes : ChecksumAddress → Option HexBytes
  processed : Option ℕ

def trio : List ChecksumAddress := ["0xA", "0xB", "0xC"]

/-- Everybody but two members of the committee -/
def trioFaulty (account : ChecksumAddress) : Bool := account ≠ "0xA" && account ≠ "0xB"

def trioHash (report : ℕ) : HexBytes := List.replicate 31 0 ++ [UInt8.ofNat report]

def trioConverter : Web3Converter := ⟨.oneSlotEpochs, ⟨10, 100, Nat.zero_lt_succ 99⟩⟩

namespace TrioState

def vote (s : TrioState) (member : ChecksumAddress) : Option HexBytes :=
  if member ∈ trio then (s.votes member).filter fun hash => hash ≠ ZERO_HASH else none

/-- The first hash that two members report -/
def consensus (s : TrioState) : Option HexBytes :=
  (trio.filterMap s.vote).find? fun hash => 2 ≤ Quorum.support trio s.vote hash

def view (s : TrioState) : ReportView where
  slotNumber := s.slotNumber
  converter := trioConverter
  fastLaneLengthSlots := 0
  members := trio
  currentFrame := some ⟨16, 100⟩
  memberState address := if address ∈ trio then
    some ⟨⟨s.consensus.getD ZERO_HASH, true⟩, true, (s.vote address).getD ZERO_HASH⟩ else none
  hasSubmitRole _ := true
  lastProcessingRefSlot := if s.processed.isSome then 16 else 6
  contractVersion := 1
  consensusVersion := 1

end TrioState

def trioContracts : ReportContracts TrioState ℕ where
  view := TrioState.view
  quorum _ := 2
  consensusReport := TrioState.consensus
  processed := TrioState.processed
  executes account transaction s s' := match transaction with
    | .submitReport refSlot reportHash _ => account ∈ trio ∧ refSlot = 16 ∧
        s' = { s with votes := Function.update s.votes account (some reportHash) }
    | .submitReportData report _ => s.consensus = some (trioHash report) ∧ s' = { s with processed := some report }
  drifts s s' := ∃ slots, s' = { s with slotNumber := s.slotNumber + slots }

/-- The daemon of a member. Every block has the report 7. -/
def trioModule (account : ChecksumAddress) : ConsensusModule ℕ where
  account := some account
  cc := gapClient
  converterAt _ := trioConverter
  contractVersionAt _ := 1
  consensusVersionAt _ := 1
  submitDataDelayInSlots := 6
  compatibleContractVersion := 1
  compatibleConsensusVersion := 1
  encodeDataHash := trioHash
  buildReport _ := .ok 7
  isMainDataSubmitted := SMPerformanceOracle.isMainDataSubmitted
  isContractReportable := SMPerformanceOracle.isContractReportable
  isReportingAllowed _ := .ok true

theorem trioContracts_reportOf (s : TrioState) (member : ChecksumAddress) :
    trioContracts.reportOf s member = s.vote member := by
  by_cases hmember : member ∈ trio
  · have hview : trioContracts.reportOf s member =
        if (s.vote member).getD ZERO_HASH = ZERO_HASH then none else some ((s.vote member).getD ZERO_HASH) := by
      simp [ReportContracts.reportOf, trioContracts, TrioState.view, hmember]
    rw [hview, TrioState.vote, if_pos hmember]
    rcases s.votes member with _ | hash
    · simp
    · by_cases hzero : hash = ZERO_HASH <;> simp [hzero, Option.filter]
  · simp [ReportContracts.reportOf, trioContracts, TrioState.view, TrioState.vote, hmember]

theorem trioContracts_documented : trioContracts.Documented trioHash where
  report_of_executes account transaction s s' member hash hexecutes hreport := by
    rw [trioContracts_reportOf] at hreport ⊢
    cases transaction with
    | submitReport refSlot reportHash version =>
      obtain ⟨haccount, rfl, rfl⟩ := hexecutes
      by_cases hmember : member = account
      · subst hmember
        simp only [TrioState.vote, if_pos haccount, Function.update_self] at hreport
        obtain ⟨hsome, -⟩ := Option.filter_eq_some_iff.mp hreport
        exact .inr ⟨rfl, version, by rw [Option.some.inj hsome]; rfl⟩
      · refine .inl ⟨rfl, ?_⟩
        simpa only [TrioState.vote, Function.update_of_ne hmember] using hreport
    | submitReportData report version =>
      obtain ⟨-, rfl⟩ := hexecutes
      exact .inl ⟨rfl, hreport⟩
  report_of_drifts s s' member hash hdrifts hreport := by
    obtain ⟨slots, rfl⟩ := hdrifts
    exact ⟨rfl, hreport⟩
  consensus s hash hconsensus := by
    have hquorum : 2 ≤ Quorum.support trio s.vote hash := by simpa using List.find?_some hconsensus
    rwa [funext fun member => trioContracts_reportOf s member]
  processed_of_executes account transaction s s' report hexecutes hprocessed := by
    cases transaction with
    | submitReport refSlot reportHash version =>
      obtain ⟨-, -, rfl⟩ := hexecutes
      exact ⟨rfl, .inl hprocessed⟩
    | submitReportData data version =>
      obtain ⟨hconsensus, rfl⟩ := hexecutes
      obtain rfl := Option.some.inj hprocessed
      exact ⟨rfl, .inr ⟨⟨version, rfl⟩, hconsensus⟩⟩
  processed_of_drifts s s' report hdrifts hprocessed := by
    obtain ⟨slots, rfl⟩ := hdrifts
    exact ⟨rfl, hprocessed⟩

def trioFinalized : BlockStamp := buildBlockstamp block23.toBlockDetails

def trioCommittee : Interaction ChecksumAddress TrioState ReportView (Transaction ℕ) (PyError ReportError) :=
  committee gapChain 1 trioHash (fun _ => 7) trioContracts trioFaulty

theorem trioCommittee_starts {account : ChecksumAddress} (hhonest : trioFaulty account = false) :
    trioCommittee.starts account ((trioModule account).executeModule trioFinalized) :=
  ⟨hhonest, trioModule account, trioFinalized, rfl,
    ⟨gapClient_serves _, rfl, rfl, fun _ _ hreport => (Except.ok.inj hreport).symm⟩, rfl⟩

theorem trioContracts_reliable (s : TrioState) : Reliable trioContracts trioFaulty s := by
  have hcount : trio.countP trioFaulty = 1 := by decide
  exact hcount.trans_lt one_lt_two

def trioStart : TrioState := ⟨23, fun _ => none, none⟩

/-- The chain is one slot further, and the faulty member has voted for another report. -/
def trioMoved : TrioState := ⟨24, Function.update trioStart.votes "0xC" (some (trioHash 9)), none⟩

def trioVoted : TrioState :=
  ⟨24, Function.update (Function.update trioMoved.votes "0xA" (some (trioHash 7))) "0xB" (some (trioHash 7)), none⟩

/-- Both honest members are in the middle of their cycles when the faulty one votes. Their votes are executed in the
other order, the consensus is theirs, and of the two that submit the data then one transaction is lost. -/
theorem committee_agrees_trio : ∃ c, trioCommittee.Run (.quiet trioStart) c ∧
    trioContracts.reportOf c.shared "0xC" = some (trioHash 9) ∧
    trioContracts.consensusReport c.shared = some (trioHash 7) ∧ trioContracts.processed c.shared = some 7 ∧
    IsReportHash gapChain 1 trioHash (fun _ => 7) (trioContracts.refSlot c.shared) (trioHash 7) := by
  have hA : trioCommittee.starts "0xA" ((trioModule "0xA").executeModule trioFinalized) :=
    trioCommittee_starts (by decide)
  have hB : trioCommittee.starts "0xB" ((trioModule "0xB").executeModule trioFinalized) :=
    trioCommittee_starts (by decide)
  have hreports : (((trioModule "0xB").executeModule trioFinalized).follow (fun _ => trioStart.view) 0).2.map Prod.fst =
      [.submitReport 16 (trioHash 7) 1] := rfl
  obtain ⟨next, hread, hnext⟩ : ∃ next, (trioModule "0xA").executeModule trioFinalized = .read next ∧
      ((next trioStart.view).follow (fun _ => trioMoved.view) 1).2.map Prod.fst = [.submitReport 16 (trioHash 7) 1] :=
    ⟨_, rfl, rfl⟩
  have hsubmits (account : ChecksumAddress) (haccount : account = "0xA" ∨ account = "0xB") :
      (((trioModule account).executeModule trioFinalized).follow (fun _ => trioVoted.view) 0).2.map Prod.fst =
        [.submitReportData 7 1] := by
    rcases haccount with rfl | rfl <;> rfl
  -- The cycle of A has read the latest block once when B goes through its own.
  let begun : Interaction.Config ChecksumAddress TrioState ReportView (Transaction ℕ) (PyError ReportError) :=
    ⟨trioStart, Function.update (Function.update (fun _ => none) "0xA"
      (some ((trioModule "0xA").executeModule trioFinalized))) "0xA" (some (next trioStart.view)), []⟩
  have hbegun : trioCommittee.Run (.quiet trioStart) begun :=
    .head (.start "0xA" hA) (.single (.read "0xA" (by simp only [Function.update_self, hread])))
  obtain ⟨c₁, hrun₁, hshared₁, hothers₁, hpending₁⟩ := trioCommittee.exists_run_started (c := begun) hB
  have hdrift : trioCommittee.Step c₁ { c₁ with shared := { trioStart with slotNumber := 24 } } :=
    .others (.inl (by rw [hshared₁]; exact ⟨1, rfl⟩))
  have hfaulty : trioCommittee.Step { c₁ with shared := { trioStart with slotNumber := 24 } }
      { c₁ with shared := trioMoved } :=
    .others (.inr ⟨"0xC", .submitReport 16 (trioHash 9) 1, by decide, by decide, rfl, rfl⟩)
  have hwaiting : c₁.running "0xA" = some (next trioStart.view) := by
    rw [hothers₁ "0xA" (by decide)]
    simp only [begun, Function.update_self]
  obtain ⟨c₂, hrun₂, hshared₂, -, hpending₂⟩ := trioCommittee.exists_run_uninterrupted "0xA" (next trioStart.view) 1
    { c₁ with shared := trioMoved } hwaiting
  have hvotes : c₂.pending = [("0xB", .submitReport 16 (trioHash 7) 1), ("0xA", .submitReport 16 (trioHash 7) 1)] := by
    rw [hpending₂, hpending₁]
    exact congrArg₂ (fun x y => [] ++ x.map (fun a => ("0xB", a)) ++ y.map fun a => ("0xA", a)) hreports hnext
  have hvoteA : trioCommittee.Step c₂ { c₂ with
      shared := { trioMoved with votes := Function.update trioMoved.votes "0xA" (some (trioHash 7)) },
      pending := [("0xB", .submitReport 16 (trioHash 7) 1)] ++ [] } :=
    .effect hvotes (by rw [hshared₂]; exact ⟨by decide, rfl, rfl⟩)
  have hvoteB : trioCommittee.Step { c₂ with
      shared := { trioMoved with votes := Function.update trioMoved.votes "0xA" (some (trioHash 7)) },
      pending := [("0xB", .submitReport 16 (trioHash 7) 1)] ++ [] }
      { c₂ with shared := trioVoted, pending := [] ++ [] } :=
    .effect rfl ⟨by decide, rfl, rfl⟩
  -- The second cycles of both find the consensus.
  obtain ⟨c₃, hrun₃, hshared₃, -, hpending₃⟩ := trioCommittee.exists_run_started
    (c := { c₂ with shared := trioVoted, pending := [] ++ [] }) hA
  obtain ⟨c₄, hrun₄, hshared₄, -, hpending₄⟩ := trioCommittee.exists_run_started (c := c₃) hB
  have hconsensus : trioVoted.consensus = some (trioHash 7) := by decide
  have hdata : c₄.pending = [("0xA", .submitReportData 7 1), ("0xB", .submitReportData 7 1)] := by
    rw [hpending₄, hpending₃, hshared₃]
    exact congrArg₂ (fun x y => [] ++ x.map (fun a => ("0xA", a)) ++ y.map fun a => ("0xB", a))
      (hsubmits "0xA" (.inl rfl)) (hsubmits "0xB" (.inr rfl))
  have hprocess : trioCommittee.Step c₄ { c₄ with
      shared := { trioVoted with processed := some 7 }, pending := [] ++ [("0xB", .submitReportData 7 1)] } :=
    .effect hdata (by rw [hshared₄, hshared₃]; exact ⟨hconsensus, rfl⟩)
  have hlose : trioCommittee.Step { c₄ with
      shared := { trioVoted with processed := some 7 }, pending := [] ++ [("0xB", .submitReportData 7 1)] }
      { c₄ with shared := { trioVoted with processed := some 7 }, pending := [] ++ [] } := .lose rfl
  have hrun : trioCommittee.Run (.quiet trioStart)
      { c₄ with shared := { trioVoted with processed := some 7 }, pending := [] ++ [] } :=
    (hbegun.trans hrun₁).trans <| .head hdrift <| .head hfaulty <| hrun₂.trans <| .head hvoteA <| .head hvoteB <|
      (hrun₃.trans hrun₄).trans <| .head hprocess <| .single hlose
  have hagrees := committee_agrees trioContracts trioFaulty trioContracts_documented trioStart
    (fun member => by rw [trioContracts_reportOf]; simp [TrioState.vote, trioStart]) rfl
    (fun c _ => trioContracts_reliable c.shared) _ hrun
  have hother : trioVoted.vote "0xC" = some (trioHash 9) := by decide
  exact ⟨_, hrun, (trioContracts_reportOf _ "0xC").trans hother, hconsensus, rfl, hagrees.2.1 7 rfl⟩

end Trio

end LidoOracle
