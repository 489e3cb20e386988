import Vendimint.Iroh.Shared

/-! # The iroh side of a machine

The claim handler (`accept`), the start of the machine (`new`), the document that the machine shares
with its manager (`getOrCreateMachineDoc`), and what is read from and written to it: payments, the
configuration, and the entries of the key/value store. -/

namespace Vendimint

open Vendimint.Store Vendimint.Async

/-- Who wrote an entry of the key/value store. -/
inductive KvEntryAuthor
  | manager
  | machine
  deriving DecidableEq

/-- A key/value pair in the store of a machine. -/
structure KvEntry where
  key : Bytes
  value : Bytes
  author : KvEntryAuthor
  timestamp : ℕ
  deriving DecidableEq

/-- The state of a machine with respect to its manager. -/
inductive MachineState
  | claimed (config : Option MachineConfig)
  | unclaimed
  deriving DecidableEq

/-- A value read from JSON, or the error of a value that does not decode. -/
def fromSlice {α : Type} : Option α → FutResult α
  | some a => pure a
  | none => throw "expected value"

@[simp] theorem run_fromSlice_some {α : Type} (a : α) : (fromSlice (some a)).run = .pure (.ok a) := rfl

@[simp] theorem run_fromSlice_none {α : Type} :
    (fromSlice (none : Option α)).run = .pure (.error "expected value") := rfl

def KvEntry.fromIrohEntry (entry : Entry AuthorId) (readerDevice : KvEntryAuthor) :
    FutResult KvEntry := do
  let value ← attempt (call (.blobsGetBytes entry.content))
  let userKey := if KV_PREFIX <+: entry.key then entry.key.drop KV_PREFIX.length else entry.key
  let authorDefault ← attempt (call .authorDefault)
  let author :=
    if entry.author = authorDefault then readerDevice
    else
      match readerDevice with
      | .machine => .manager
      | .manager => .machine
  return ⟨userKey, value, author, entry.timestamp⟩

namespace MachineProtocol
variable (J : Serde)

/-- The ticket in the file, if it can be read and decoded. -/
def ticketOf : Except Error Bytes → Option DocTicket
  | .ok docTicketStr => J.ticket.dec docTicketStr
  | .error _ => none

/-- The owner in the file, if it can be read and decoded. -/
def ownerOf : Except Error Bytes → Option EndpointId
  | .ok managerPublicKeyStr => J.endpointId.dec managerPublicKeyStr
  | .error _ => none

/-- The document of the machine, created if there is no ticket for it. -/
def getOrCreateMachineDoc : FutResult NamespaceId := do
  attempt (call (.createDirAll .appDir))
  let docTicketStr ← await (.readFile .docTicket)
  match ticketOf J docTicketStr with
  | some docTicket =>
    let docOr ← attempt (call (.docsOpen docTicket.capability.id))
    Fallible.unwrap docOr
  | none =>
    let newDoc ← attempt (call .docsCreate)
    let newDocTicket ← attempt (call (.docShare newDoc))
    attempt (call (.writeFile .docTicket (J.ticket.enc newDocTicket)))
    return newDoc

/-! ### Claims -/

/-- The machine is owned by another manager than the one that claims it. -/
def claimedByOther (claimedManagerPubkey : Option EndpointId) (claimerPubkey : EndpointId) : Bool :=
  claimedManagerPubkey.any fun m => decide (m ≠ claimerPubkey)

/-- The part of `accept` that holds the lock on the owner, from the PIN on: the ticket for the
manager, or nothing if the operator rejects the claim. -/
def acceptClaim (claimerPubkey : EndpointId) : FutResult (Option DocTicket) := do
  let km ← await .exportKeyingMaterial
  attempt (call (.claimRequestSend (claimPinFromKeyingMaterial km)))
  let answer ← await .answer
  if answer.getD false then
    attempt (call .acceptBi)
    -- One byte more than expected, to see that the ping is no longer than that.
    let ping ← attempt (call (.readToEnd (PING_MAGIC_BYTES.length + 1)))
    if ping ≠ PING_MAGIC_BYTES then
      throw "invalid manager stream open ping"
    else
      let doc ← getOrCreateMachineDoc J
      let ticket ← attempt (call (.docShare doc))
      attempt (call (.writeFile .managerPublicKey (J.endpointId.enc claimerPubkey)))
      await (.ownerSet claimerPubkey)
      return some ticket
  else
    await (.close "rejected")
    return none

/-- The end of `accept`: the ticket goes to the manager. -/
def sendTicket (ticket : DocTicket) : FutResult Unit := do
  attempt (call (.writeAll (J.ticket.enc ticket)))
  attempt (call .finish)
  attempt (call .stopped)
  attempt (call .sendShutdown)
  await (.close "finished")

/-- The claim handler, for a connection from `claimerPubkey`. -/
def accept (claimerPubkey : EndpointId) : FutResult Unit := do
  let claimedManagerPubkey ← await .ownerLock
  if claimedByOther claimedManagerPubkey claimerPubkey then
    await (.close "already_claimed")
    await .ownerUnlock
  else
    let ticketOr ← guarded (acceptClaim J claimerPubkey) .ownerUnlock
    match ticketOr with
    | some ticket => sendTicket J ticket
    | none => return ()

def new : FutResult (SecretKey × Option EndpointId) := do
  let secretKey ← SharedProtocol.new
  let managerPublicKeyStr ← await (.readFile .managerPublicKey)
  await (.routerSpawn secretKey (ownerOf J managerPublicKeyStr))
  return (secretKey, ownerOf J managerPublicKeyStr)

/-- The next claim request: its PIN, which stands for the sender of the answer as well. The guard on
the receiver is dropped as the call returns. -/
def awaitNextIncomingClaimRequest : Fut (Option ClaimPin) := do
  call .receiverLock
  call .claimRequestRecv

/-! ### The document -/

def writePaymentToMachineDoc (federationId : FederationId) (claimableContract : ClaimableContract) :
    FutResult Unit := do
  let doc ← getOrCreateMachineDoc J
  let author ← attempt (call .authorDefault)
  attempt (call (.docSetBytes doc author
    (SharedProtocol.createClaimableContractMachineDocKey federationId claimableContract)
    (J.contract.enc claimableContract)))

def getMachineConfig : FutResult (Option MachineConfig) := do
  let doc ← getOrCreateMachineDoc J
  let entryOr ← attempt (call (.docGetOne doc MACHINE_CONFIG_KEY))
  match entryOr with
  | none => return none
  | some entry =>
    let bytes ← attempt (call (.blobsGetBytes entry.content))
    return some (← fromSlice (J.config.dec bytes))

def getMachineState : FutResult MachineState := do
  let claimedManagerPubkey ← await .ownerLock
  guarded
    (if claimedManagerPubkey.isSome then do
      return .claimed (← getMachineConfig J)
    else
      return .unclaimed)
    .ownerUnlock

def getKvValue (key : Bytes) : FutResult (Option KvEntry) := do
  let doc ← getOrCreateMachineDoc J
  let entryOr ← attempt (call (.docGetOne doc (KV_PREFIX ++ key)))
  match entryOr with
  | none => return none
  | some entry => return some (← KvEntry.fromIrohEntry entry .machine)

def setKvValue (key value : Bytes) : FutResult Unit := do
  let doc ← getOrCreateMachineDoc J
  let author ← attempt (call .authorDefault)
  attempt (call (.docSetBytes doc author (KV_PREFIX ++ key) value))

/-- The entries of a stream, up to the first error. -/
def kvEntriesOf (readerDevice : KvEntryAuthor) :
    List (Except Error (Entry AuthorId)) → List KvEntry → FutResult (List KvEntry)
  | [], entries => return entries
  | .error e :: _, _ => throw e
  | .ok entry :: stream, entries => do
    let kvEntry ← KvEntry.fromIrohEntry entry readerDevice
    kvEntriesOf readerDevice stream (entries ++ [kvEntry])

def getKvEntries : FutResult (List KvEntry) := do
  let doc ← getOrCreateMachineDoc J
  let entryStream ← attempt (call (.docGetMany doc KV_PREFIX))
  kvEntriesOf .machine entryStream []

end MachineProtocol

end Vendimint
