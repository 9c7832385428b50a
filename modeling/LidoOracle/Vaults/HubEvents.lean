import LidoOracle.Execution.Events
import LidoOracle.Lib.Itertools
import LidoOracle.Vaults.LiquidityFee

/-! The events of the vault hub between two reports. The code fetches them kind by
kind and files them under the vaults they name; what it files under a vault is
the history of that vault in the window. -/

namespace LidoOracle

inductive VaultEventKind where
  | vaultFeesUpdated
  | mintedSharesOnVault
  | burnedSharesOnVault
  | vaultRebalanced
  | badDebtWrittenOffToBeInternalized
  | badDebtSocialized
  | vaultConnected
  deriving DecidableEq

namespace VaultEventType

def kind : VaultEventType → VaultEventKind
  | vaultFeesUpdated _ _ _ _ => .vaultFeesUpdated
  | mintedSharesOnVault _ _ _ => .mintedSharesOnVault
  | burnedSharesOnVault _ _ _ => .burnedSharesOnVault
  | vaultRebalanced _ _ _ => .vaultRebalanced
  | badDebtWrittenOffToBeInternalized _ _ _ => .badDebtWrittenOffToBeInternalized
  | badDebtSocialized _ _ _ _ => .badDebtSocialized
  | vaultConnected _ _ _ => .vaultConnected

/-- The vaults an event names, the donor of a bad debt before its acceptor -/
def vaults : VaultEventType → List ChecksumAddress
  | vaultFeesUpdated _ vault _ _ => [vault]
  | mintedSharesOnVault _ vault _ => [vault]
  | burnedSharesOnVault _ vault _ => [vault]
  | vaultRebalanced _ vault _ => [vault]
  | badDebtWrittenOffToBeInternalized _ vault _ => [vault]
  | badDebtSocialized _ vaultDonor vaultAcceptor _ => [vaultDonor, vaultAcceptor]
  | vaultConnected _ vault _ => [vault]

end VaultEventType

/-- `VaultHub`, by the logs that its node returns for each kind of event -/
structure VaultHubContract where
  getLogs : VaultEventKind → BlockNumber → BlockNumber → List VaultEventType
  eventsSearchStep : ℕ

namespace VaultHubContract

variable (vaultHub : VaultHubContract)

/-- The events of the hub are not selected by a timestamp. -/
def contractEvent (kind : VaultEventKind) : ContractEvent VaultEventType where
  getLogs := vaultHub.getLogs kind
  blockNumber := VaultEventType.blockNumber
  timestampField := fun _ => 0

def getEvents (kind : VaultEventKind) (fromBlock toBlock : BlockNumber) : Events (List VaultEventType) :=
  (vaultHub.contractEvent kind).getEventsInRange vaultHub.eventsSearchStep fromBlock toBlock

def getVaultFeeUpdatedEvents := vaultHub.getEvents .vaultFeesUpdated

def getMintedEvents := vaultHub.getEvents .mintedSharesOnVault

def getBurnedEvents := vaultHub.getEvents .burnedSharesOnVault

def getVaultRebalancedEvents := vaultHub.getEvents .vaultRebalanced

def getBadDebtWrittenOffToBeInternalizedEvents := vaultHub.getEvents .badDebtWrittenOffToBeInternalized

def getBadDebtSocializedEvents := vaultHub.getEvents .badDebtSocialized

def getVaultConnectedEvents := vaultHub.getEvents .vaultConnected

/-- The node returns every event of a kind, once. -/
def Returns (log : List VaultEventType) : Prop :=
  ∀ kind, (vaultHub.contractEvent kind).Returns (log.filter fun event => event.kind = kind)

end VaultHubContract

namespace StakingVaultsService

abbrev VaultEvents := Dict ChecksumAddress (List VaultEventType)

/-- `events[vault].append(event)`, for each vault of the event -/
def fileEvent (events : VaultEvents) (event : VaultEventType) : VaultEvents :=
  event.vaults.foldl (fun events vault => events.push vault event) events

def getVaultEventsForFees (vaultHub : VaultHubContract) (fromBlock toBlock : BlockNumber) :
    Events (VaultEvents × List ChecksumAddress) := do
  let feesUpdatedEvents ← vaultHub.getVaultFeeUpdatedEvents fromBlock toBlock
  let mintedEvents ← vaultHub.getMintedEvents fromBlock toBlock
  let burnedEvents ← vaultHub.getBurnedEvents fromBlock toBlock
  let rebalancedEvents ← vaultHub.getVaultRebalancedEvents fromBlock toBlock
  let writtenOffEvents ← vaultHub.getBadDebtWrittenOffToBeInternalizedEvents fromBlock toBlock
  let socializedEvents ← vaultHub.getBadDebtSocializedEvents fromBlock toBlock
  let vaultConnectedEvents ← vaultHub.getVaultConnectedEvents fromBlock toBlock
  let events := (feesUpdatedEvents ++ mintedEvents ++ burnedEvents ++ rebalancedEvents ++ writtenOffEvents ++
    socializedEvents ++ vaultConnectedEvents).foldl fileEvent Dict.empty
  return (events, vaultConnectedEvents.flatMap VaultEventType.vaults)

/-! The hub on the chain -/

abbrev HubState := ChecksumAddress → VaultPosition

/-- An event changes the vaults that it names. -/
def HubStep (event : VaultEventType) (pre post : HubState) : Prop :=
  ∀ vault, if vault ∈ event.vaults then Changes vault event (pre vault) (post vault) else post vault = pre vault

def HubRun : HubState → List (VaultEventType × HubState) → Prop
  | _, [] => True
  | pre, change :: changes => HubStep change.1 pre change.2 ∧ HubRun change.2 changes

/-- All that ever happened to the vaults, in the order of the chain. No vault takes over its own bad debt, and no
vault owes a negative amount. -/
structure HubHistory (chain : ExecutionChain) where
  initial : HubState
  changes : List (VaultEventType × HubState)
  run : HubRun initial changes
  chronological : (changes.map Prod.fst).Pairwise fun a b => a.key < b.key
  onChain : ∀ change ∈ changes, change.1.blockNumber ≤ chain.head
  apart : ∀ change ∈ changes, change.1.vaults.Nodup
  owed : (∀ vault, 0 ≤ (initial vault).liabilityShares) ∧ ∀ change ∈ changes, ∀ vault, 0 ≤ (change.2 vault).liabilityShares

namespace HubHistory

variable {chain : ExecutionChain} (history : HubHistory chain)

def slotOf (chain : ExecutionChain) (event : VaultEventType) : ℕ := chain.slot event.blockNumber

/-- The vaults as they stand at the end of a slot -/
def stateAt (slot : SlotNumber) : HubState := Timeline.valueAt (slotOf chain) history.initial history.changes slot

def windowOf (first last : SlotNumber) : List (VaultEventType × HubState) :=
  Timeline.window (slotOf chain) history.changes first last

end HubHistory

/-- What a list of changes of the hub means for one vault -/
def changesOf (vault : ChecksumAddress) (changes : List (VaultEventType × HubState)) :
    List (VaultEventType × VaultPosition) :=
  (changes.filter fun change => vault ∈ change.1.vaults).map fun change => (change.1, change.2 vault)

section Projection

variable {vault : ChecksumAddress} {pre : HubState} {change : VaultEventType × HubState}
  {changes before after : List (VaultEventType × HubState)}

theorem changesOf_cons_of_mem (h : vault ∈ change.1.vaults) :
    changesOf vault (change :: changes) = (change.1, change.2 vault) :: changesOf vault changes := by
  rw [changesOf, List.filter_cons_of_pos (by simpa using h)]
  rfl

theorem changesOf_cons_of_not_mem (h : vault ∉ change.1.vaults) :
    changesOf vault (change :: changes) = changesOf vault changes := by
  rw [changesOf, List.filter_cons_of_neg (by simpa using h)]
  rfl

/-- The run of the hub is a history of each vault, which ends where the hub has the vault at the end. -/
theorem HubRun.history (h : HubRun pre changes) : History vault (pre vault) (changesOf vault changes) ∧
    Timeline.last (pre vault) (changesOf vault changes) = Timeline.last pre changes vault := by
  induction changes generalizing pre with
  | nil => exact ⟨trivial, rfl⟩
  | cons change changes ih =>
    obtain ⟨hhistory, hlast⟩ := ih h.2
    have hstep := h.1 vault
    have hcons : Timeline.last pre (change :: changes) = Timeline.last change.2 changes := rfl
    rw [hcons, ← hlast]
    by_cases hvault : vault ∈ change.1.vaults
    · rw [if_pos hvault] at hstep
      rw [changesOf_cons_of_mem hvault]
      exact ⟨⟨hstep, hhistory⟩, rfl⟩
    · rw [if_neg hvault] at hstep
      rw [changesOf_cons_of_not_mem hvault, ← hstep]
      exact ⟨hhistory, rfl⟩

end Projection

namespace HubHistory

variable {chain : ExecutionChain} (history : HubHistory chain) {first last : SlotNumber}

end HubHistory

/-! What the code files under a vault -/

section Filed

variable {vaultHub : VaultHubContract} {log : List VaultEventType} {fromBlock toBlock : ℕ}

def inRange (log : List VaultEventType) (fromBlock toBlock : ℕ) : List VaultEventType :=
  log.filter fun event => fromBlock ≤ event.blockNumber ∧ event.blockNumber ≤ toBlock

end Filed

end StakingVaultsService

end LidoOracle
