import Vendimint.Wallet

/-! # A machine

The pass of the machine's syncer, which moves completed payments from the wallet to the document,
and the invoices of the machine. -/

namespace Vendimint

open Vendimint.Store Vendimint.Async

namespace Machine
variable (J : Serde)

/-- Write contracts to the document, collecting the identities of those written. -/
def writePayments (federationId : FederationId) :
    List ClaimableContract → List ContractId → Fut (List ContractId)
  | [], contractIds => return contractIds
  | claimableContract :: claimableContracts, contractIds => do
    let r ← (MachineProtocol.writePaymentToMachineDoc J federationId claimableContract).run
    match r with
    | .ok _ =>
      writePayments federationId claimableContracts
        (contractIds ++ [claimableContract.contract.contractId])
    | .error _ => writePayments federationId claimableContracts contractIds

def makeCompletedPaymentsSyncable (machineConfig : MachineConfig) : Fut Unit := do
  let federationId := machineConfig.federationInviteCode.federationId
  let claimableContractsOr ←
    Wallet.getClaimableContracts federationId machineConfig.claimerPk none
  match claimableContractsOr with
  | none => return ()
  | some claimableContracts =>
    let contractIds ← writePayments J federationId claimableContracts []
    if contractIds.isEmpty then
      return ()
    else
      Wallet.removeClaimedContracts federationId contractIds

/-- One iteration of the syncer loop. -/
def syncerPass (secret : Mnemonic) : Fut Unit := do
  let state ← (MachineProtocol.getMachineState J).run
  match state with
  | .ok (.claimed (some machineConfig)) =>
    let r ← (Wallet.setDefaultFederation J secret machineConfig.federationInviteCode).run
    match r with
    | .error _ => return ()
    | .ok _ => makeCompletedPaymentsSyncable J machineConfig
  | _ => return ()

def receivePayment (request : InvoiceRequest) : FutResult OperationId := do
  let state ← MachineProtocol.getMachineState J
  match state with
  | .unclaimed => throw "Machine cannot accept payments as it is not claimed"
  | .claimed none => throw "Machine cannot accept payments as it is not configured"
  | .claimed (some machineConfig) =>
    Wallet.receivePayment machineConfig.federationInviteCode.federationId machineConfig.claimerPk
      request

end Machine

end Vendimint
