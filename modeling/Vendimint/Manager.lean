import Vendimint.Iroh.Manager
import Vendimint.Wallet

/-! # A manager

The two passes of the manager's syncer: sweeping payments from the documents of its machines to the
wallet, and giving each machine its configuration. -/

namespace Vendimint

open Vendimint.Store Vendimint.Async Vendimint.ManagerProtocol

namespace Manager
variable (J : Serde)

/-- Claim contracts one by one, collecting those that were claimed. -/
def claimPayments : List Payment → List Payment → Fut (List Payment)
  | [], claimedContracts => return claimedContracts
  | (machineId, federationId, claimableContract) :: claimableContracts, claimedContracts => do
    let r ← (Wallet.claimContracts federationId [claimableContract]).run
    match r with
    | .error _ => claimPayments claimableContracts claimedContracts
    | .ok _ =>
      claimPayments claimableContracts
        (claimedContracts ++ [(machineId, federationId, claimableContract)])

/-- The sweep of one pass. Its value is what the code drops: the contracts that were claimed and the
result of their removal from the documents, if it got that far. -/
def sweepPayments : Fut (Option (List Payment × Except Error Unit)) := do
  let claimableContractsOr ← (getClaimableContracts J).run
  match claimableContractsOr with
  | .error _ => return none
  | .ok claimableContracts =>
    let claimedContracts ← claimPayments claimableContracts []
    if claimedContracts.isEmpty then
      return none
    else
      let r ← (removeClaimableContracts J claimedContracts).run
      return some (claimedContracts, r)

/-- Give the new configuration to those of the machines that need it. -/
def updateMachines (newConfig : MachineConfig) : List (EndpointId × DocTicket) → Fut Unit
  | [] => return ()
  | (machineId, _) :: machines => do
    let cfgOr ← (getMachineConfig J machineId).run
    match cfgOr with
    | .error _ => updateMachines newConfig machines
    | .ok cfg =>
      let needsUpdate :=
        match cfg with
        | some c =>
          decide (c.federationInviteCode.federationId ≠ newConfig.federationInviteCode.federationId)
        | none => true
      if needsUpdate then
        let _ ← (setMachineConfig J machineId newConfig).run
        updateMachines newConfig machines
      else
        updateMachines newConfig machines

def updateMachineConfigs : Fut Unit := do
  let defaultOr ← (Wallet.getDefaultFederation J).run
  match defaultOr with
  | .ok (some defaultInvite) =>
    let claimerPkOr ← Wallet.getLnv2ClaimPubkey defaultInvite.federationId
    match claimerPkOr with
    | none => return ()
    | some claimerPk =>
      let machinesOr ← (listMachines J).run
      match machinesOr with
      | .error _ => return ()
      | .ok machines => updateMachines J ⟨defaultInvite, claimerPk⟩ machines
  | _ => return ()

def updateFederation (secret : Mnemonic) (inviteCode : InviteCode) : FutResult Unit := do
  Wallet.setDefaultFederation J secret inviteCode
  liftM (updateMachineConfigs J)

end Manager

end Vendimint
