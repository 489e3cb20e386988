import Vendimint.Iroh.Machine

/-! # The fedimint wallet of a device

The wallet keeps one fedimint client per federation it has joined: a directory on disk and an entry
in the map of clients. `secret` stands for the root secret, a function of the wallet's mnemonic. -/

namespace Vendimint

open Vendimint.Store Vendimint.Async

namespace Wallet
variable (J : Serde)

/-- Drop the write guard on the clients, then ask for a new view and wait for it. -/
def forceUpdateView : Fut Unit := do
  call .clientsRelease
  let _ ← call .forceUpdateSend
  let _ ← call .forceUpdateRecv
  return ()

/-- The federation that a directory is named after. -/
def federationOfName : FileName → Option FederationId
  | .federation id => some id
  | _ => none

/-! ### Clients -/

def buildClientFromInviteCode (secret : Mnemonic) (inviteCode : InviteCode) : FutResult Unit := do
  let isInitialized ← await (.dbIsInitialized inviteCode.federationId)
  attempt (call .clientBuilder)
  attempt (call .clientConnectors)
  if isInitialized then
    attempt (call (.clientOpen inviteCode.federationId secret))
  else
    attempt (call (.clientPreview inviteCode))
    attempt (call (.clientJoin inviteCode secret))

def buildClientFromFederationId (secret : Mnemonic) (federationId : FederationId) :
    FutResult Unit := do
  let isInitialized ← await (.dbIsInitialized federationId)
  attempt (call .clientBuilder)
  attempt (call .clientConnectors)
  if isInitialized then
    attempt (call (.clientOpen federationId secret))
  else
    throw "Federation is not initialized."

/-- Connect to those of the federations that are not in the map yet. -/
def connectTo (secret : Mnemonic) : List FederationId → FutResult Unit
  | [] => return ()
  | federationId :: federationIds => do
    let connected ← await (.clientsContains federationId)
    if connected then
      connectTo secret federationIds
    else
      attempt (call (.dbOpen federationId))
      buildClientFromFederationId secret federationId
      await (.clientsInsert federationId)
      connectTo secret federationIds

/-- The part of `connectToJoinedFederations` that holds the lock on the directory. -/
def connectToListed (secret : Mnemonic) : FutResult Unit := do
  let readDir ← attempt (call (.readDir .clientsDataDir))
  await .clientsWrite
  let r ← liftM (connectTo secret (readDir.filterMap federationOfName)).run
  match r with
  | .error e =>
    await .clientsRelease
    throw e
  | .ok _ => liftM forceUpdateView

def connectToJoinedFederations (secret : Mnemonic) : FutResult Unit := do
  await .dataDirLock
  guarded (connectToListed secret) .dataDirRelease

/-! ### Start -/

/-- Write a new mnemonic, unless there is a file for it. -/
def ensureMnemonic : FutResult Unit := do
  let exist ← attempt (call (.tryExists .mnemonic))
  if exist then
    return ()
  else
    let mnemonic ← await .mnemonicGenerate
    attempt (call (.writeFile .mnemonic (J.mnemonic.enc mnemonic)))

def new : FutResult Mnemonic := do
  attempt (call (.createDirAll .clientsDataDir))
  ensureMnemonic J
  let mnemonicString ← attempt (call (.readFile .mnemonic))
  let mnemonic ← Fallible.unwrap (J.mnemonic.dec mnemonicString)
  connectToJoinedFederations mnemonic
  return mnemonic

/-! ### Federations -/

/-- Insert a client into the map. -/
def insertClient (federationId : FederationId) : FutResult Unit := do
  await .clientsWrite
  await (.clientsInsert federationId)
  liftM forceUpdateView

/-- Join the federation of an invitation. -/
def joinFederation (secret : Mnemonic) (inviteCode : InviteCode) : FutResult Unit := do
  attempt (call (.dbOpen inviteCode.federationId))
  buildClientFromInviteCode secret inviteCode
  insertClient inviteCode.federationId

/-- The part of `setDefaultFederation` that holds the lock on the directory. -/
def setDefaultLocked (secret : Mnemonic) (inviteCode : InviteCode) : FutResult Unit := do
  let isDir ← await (.isDir (.federationDir inviteCode.federationId))
  if isDir then
    attempt (call (.writeFile .defaultFederation (J.invite.enc inviteCode)))
  else
    joinFederation secret inviteCode
    attempt (call (.writeFile .defaultFederation (J.invite.enc inviteCode)))

def setDefaultFederation (secret : Mnemonic) (inviteCode : InviteCode) : FutResult Unit := do
  await .dataDirLock
  guarded (setDefaultLocked J secret inviteCode) .dataDirRelease

def getDefaultFederation : FutResult (Option InviteCode) := do
  await .dataDirLock
  guarded
    (do
      let exist ← await (.pathExists .defaultFederation)
      if exist then
        let inviteStr ← attempt (call (.readFile .defaultFederation))
        return some (← fromSlice (J.invite.dec inviteStr))
      else
        return none)
    .dataDirRelease

/-- Remove the directory of a federation that was left. -/
def removeFederationDir (federationId : FederationId) : FutResult Unit := do
  let isDir ← await (.isDir (.federationDir federationId))
  if isDir then
    attempt (call (.removeDirAll (.federationDir federationId)))
  else
    return ()

/-- The part of `leaveFederation` that holds the lock on the clients, for a client that was in the
map. -/
def leaveClient (federationId : FederationId) : FutResult Unit := do
  let balance ← await (.clientBalance federationId)
  match balance with
  | .error _ =>
    -- The panic drops the guard.
    await .clientsRelease
    Fallible.unwrapFailed
  | .ok msats =>
    if msats ≠ 0 then
      await (.clientsInsert federationId)
      throw "Cannot leave federation with non-zero balance"
    else
      await (.clientShutdown federationId)
      await .dataDirLock
      guarded (removeFederationDir federationId) .dataDirRelease

def leaveFederation (federationId : FederationId) : FutResult Unit := do
  await .clientsWrite
  let removed ← await (.clientsRemove federationId)
  if removed then
    let r ← liftM (leaveClient federationId).run
    match r with
    | .error e =>
      await .clientsRelease
      throw e
    | .ok _ => liftM forceUpdateView
  else
    liftM forceUpdateView

/-! ### Payments -/

/-- Run `p` on the client of a federation, if there is one, with a read guard on the clients. -/
def withClient {α : Type} (federationId : FederationId) (p : Fut α) : Fut (Option α) := do
  call .clientsRead
  let connected ← call (.clientsContains federationId)
  if connected then
    let a ← p
    call .clientsRelease
    return some a
  else
    call .clientsRelease
    return none

theorem withClient_eq {α : Type} (federationId : FederationId) (p : Fut α) :
    withClient federationId p = .await .clientsRead fun _ =>
      .await (.clientsContains federationId) fun connected =>
        if connected then p.bind fun a => .await .clientsRelease fun _ => .pure (some a)
        else .await .clientsRelease fun _ => .pure none := rfl

def getLnv2ClaimPubkey (federationId : FederationId) : Fut (Option PublicKey) :=
  withClient federationId (call (.lnPublicKey federationId))

def receivePayment (federationId : FederationId) (claimerPk : PublicKey)
    (request : InvoiceRequest) : FutResult OperationId := do
  let r ← liftM (withClient federationId (call (.lnRemoteReceive federationId claimerPk request)))
  match r with
  | some (.ok operationId) => return operationId
  | some (.error e) => throw e
  | none => throw "Client for federation not found"

def getClaimableContracts (federationId : FederationId) (claimerPk : PublicKey)
    (limitOr : Option ℕ) : Fut (Option (List ClaimableContract)) :=
  withClient federationId (call (.lnGetClaimableContracts federationId claimerPk limitOr))

def removeClaimedContracts (federationId : FederationId) (contractIds : List ContractId) :
    Fut Unit := do
  let _ ← withClient federationId (call (.lnRemoveClaimedContracts federationId contractIds))
  return ()

def claimContracts (federationId : FederationId) (claimableContracts : List ClaimableContract) :
    FutResult Unit := do
  let r ← liftM (withClient federationId (call (.lnClaimContracts federationId claimableContracts)))
  match r with
  | some (.ok _) => return ()
  | some (.error e) => throw e
  | none => throw "Client not found"

/-- The client on which the operation is, and its final state. -/
def awaitOn (operationId : OperationId) : List FederationId → FutResult Bytes
  | [] => throw "Client not found containing operation id"
  | federationId :: federationIds => do
    let exist ← await (.clientOperationExists federationId operationId)
    if exist then
      attempt (call (.lnAwaitRemoteReceive federationId operationId))
    else
      awaitOn operationId federationIds

def awaitReceivePaymentFinalState (operationId : OperationId) : FutResult Bytes := do
  await .clientsRead
  guarded
    (do
      let federationIds ← await .clientsIter
      awaitOn operationId federationIds)
    .clientsRelease

/-- The balances of the clients, added to `balance`. The panic drops the guard. -/
def addBalances : List FederationId → ℕ → Fut ℕ
  | [], balance => return balance
  | federationId :: federationIds, balance => do
    let r ← call (.clientBalance federationId)
    match r with
    | .error _ =>
      call .clientsRelease
      .panic
    | .ok msats => addBalances federationIds (balance + msats)

def getLocalBalance : Fut ℕ := do
  call .clientsRead
  let federationIds ← call .clientsIter
  let balance ← addBalances federationIds 0
  call .clientsRelease
  return balance

/-- The notes of a client, if there are any. -/
def spendNotes (federationId : FederationId) : Fut (Except Error (Option Bytes)) := do
  let ecashBalance ← call (.mintTotalAmount federationId)
  if ecashBalance = 0 then
    return .ok none
  else
    let r ← call (.mintSpendNotes federationId ecashBalance)
    match r with
    | .error e => return .error e
    | .ok oobNotes => return .ok (some oobNotes)

def sweepAllEcashNotes (federationId : FederationId) : FutResult (Option Bytes) := do
  let r ← liftM (withClient federationId (spendNotes federationId))
  match r with
  | some (.ok oobNotes) => return oobNotes
  | some (.error e) => throw e
  | none => throw "Client for federation not found"

/-! ### The view -/

/-- Insertion into a map that is ordered by its keys. -/
def insertView (view : FederationView) : List FederationView → List FederationView
  | [] => [view]
  | w :: views =>
    if view.federationId.hash.bytes < w.federationId.hash.bytes then view :: w :: views
    else if view.federationId = w.federationId then view :: views
    else w :: insertView view views

/-- The views of the clients, added to `federations`. -/
def addViews : List FederationId → List FederationView → Fut WalletView
  | [], federations => return ⟨federations⟩
  | federationId :: federationIds, federations => do
    let name ← call (.clientConfig federationId)
    let balance ← call (.clientBalance federationId)
    match balance with
    | .error _ => .panic
    | .ok msats => addViews federationIds (insertView ⟨federationId, name, msats⟩ federations)

def getCurrentState : Fut WalletView := do
  let federationIds ← call .clientsIter
  addViews federationIds []

/-- The end of an iteration that a caller asked for. -/
def reply : Option ℕ → Fut Unit
  | none => return ()
  | some caller => call (.forceUpdateReply caller)

/-- The first iterations of the task that updates the view. -/
def viewUpdateTask : ℕ → Option WalletView → Fut Unit
  | 0, _ => return ()
  | n + 1, lastStateOr => do
    let callerOr ← call .forceUpdateWait
    call .clientsRead
    let currentState ← getCurrentState
    call .clientsRelease
    let hasChanged :=
      match lastStateOr with
      | some lastState => decide (currentState ≠ lastState)
      | none => true
    if hasChanged then
      let r ← call (.viewSend currentState)
      match r with
      | .error _ => return ()
      | .ok _ =>
        reply callerOr
        viewUpdateTask n (some currentState)
    else
      reply callerOr
      viewUpdateTask n lastStateOr

end Wallet

end Vendimint
