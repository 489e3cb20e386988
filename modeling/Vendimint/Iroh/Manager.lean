import Vendimint.Iroh.Machine

/-! # The iroh side of a manager

The task that claims a machine and stores its ticket (`claimTask`), the list of claimed machines, and
what is read from and written to their documents: the configuration, the claimable contracts and the
entries of the key/value store. -/

namespace Vendimint

open Vendimint.Store Vendimint.Async

namespace ManagerProtocol
variable (J : Serde)

/-! ### Claims -/

/-- What the manager does with the bytes that a machine sent: a ticket to write to the document is
imported and stored, errors in this are ignored. -/
def storeTicket (machineId : EndpointId) (bytes : Bytes) : FutResult Unit :=
  match J.ticket.dec bytes with
  | some machineDocTicket =>
    match machineDocTicket.capability with
    | .write _ => do
      let _ ← await (.docsImport machineDocTicket)
      let _ ← await (.writeFile (.machineDocTicket (.endpoint machineId))
        (J.ticket.enc machineDocTicket))
      return ()
    | .read _ => return ()
  | none => return ()

/-- The manager's side of a claim, up to an error that ends the task. -/
def claimOnConnection (machineId : EndpointId) : FutResult Unit := do
  let answer ← await .answer
  if answer.getD false then
    let opened ← await .openBi
    match opened with
    | .error _ => return ()
    | .ok _ =>
      attempt (call (.writeAll PING_MAGIC_BYTES))
      attempt (call .finish)
      attempt (call .stopped)
      let bytesOr ← await (.readToEnd (1024 * 1024))
      match bytesOr with
      | .error _ => attempt (call .sendShutdown)
      | .ok bytes =>
        storeTicket J machineId bytes
        attempt (call .sendShutdown)
  else return ()

/-- The task that `claim_machine` spawns for the connection to the machine. -/
def claimTask (machineId : EndpointId) : Fut Unit := do
  let r ← (claimOnConnection J machineId).run
  match r with
  | .ok _ => call (.close "done")
  | .error _ => return ()

/-! ### Claimed machines -/

def getMachine (machineId : EndpointId) : FutResult DocTicket := do
  let machineDocTicketStr ← attempt (call (.readFile (.machineDocTicket (.endpoint machineId))))
  fromSlice (J.ticket.dec machineDocTicketStr)

/-- The identity of the endpoint that a file is named after. -/
def endpointOfName : FileName → Option EndpointId
  | .endpoint id => some id
  | _ => none

/-- The machines of the entries of the ticket directory. -/
def machinesOf : List FileName → List (EndpointId × DocTicket) →
    FutResult (List (EndpointId × DocTicket))
  | [], machines => return machines
  | name :: readDir, machines => do
    let isFile ← attempt (call (.isFile (.machineDocTicket name)))
    if isFile then
      let machineId ← Fallible.unwrap (endpointOfName name)
      let machineDocTicketStr ← attempt (call (.readFile (.machineDocTicket name)))
      let machineDocTicket ← Fallible.unwrap (J.ticket.dec machineDocTicketStr)
      machinesOf readDir (machines ++ [(machineId, machineDocTicket)])
    else
      machinesOf readDir machines

def listMachines : FutResult (List (EndpointId × DocTicket)) := do
  let readDir ← attempt (call (.readDir .machineDocTicketsDir))
  machinesOf J readDir []

/-- The document of a claimed machine. -/
def openMachineDoc (machineDocTicket : DocTicket) : FutResult NamespaceId := do
  let docOr ← attempt (call (.docsOpen machineDocTicket.capability.id))
  Fallible.unwrap docOr

/-! ### Configuration -/

def getMachineConfig (machineId : EndpointId) : FutResult (Option MachineConfig) := do
  let machineDocTicket ← getMachine J machineId
  let machineDoc ← openMachineDoc machineDocTicket
  let entryOr ← attempt (call (.docGetOne machineDoc MACHINE_CONFIG_KEY))
  match entryOr with
  | none => return none
  | some entry =>
    let bytes ← attempt (call (.blobsGetBytes entry.content))
    return some (← fromSlice (J.config.dec bytes))

def setMachineConfig (machineId : EndpointId) (machineConfig : MachineConfig) : FutResult Unit := do
  let machineDocTicket ← getMachine J machineId
  let machineDoc ← openMachineDoc machineDocTicket
  let author ← attempt (call .authorDefault)
  attempt (call (.docSetBytes machineDoc author MACHINE_CONFIG_KEY (J.config.enc machineConfig)))

/-! ### Claimable contracts -/

/-- A contract that a machine has put into its document. -/
abbrev Payment := EndpointId × FederationId × ClaimableContract

/-- The payments of the entries of one document. -/
def paymentsOf (machineId : EndpointId) :
    List (Except Error (Entry AuthorId)) → List Payment → FutResult (List Payment)
  | [], payments => return payments
  | .error _ :: contractStream, payments => paymentsOf machineId contractStream payments
  | .ok entry :: contractStream, payments =>
    match SharedProtocol.parseIncomingContractMachineDocKey entry.key with
    | .error _ => paymentsOf machineId contractStream payments
    | .ok (federationId, _) => do
      let bytes ← attempt (call (.blobsGetBytes entry.content))
      if bytes.isEmpty then
        paymentsOf machineId contractStream payments
      else
        let claimableContract ← fromSlice (J.contract.dec bytes)
        paymentsOf machineId contractStream (payments ++ [(machineId, federationId, claimableContract)])

/-- The payments of the documents of some machines. -/
def paymentsOfMachines : List (EndpointId × DocTicket) → List Payment → FutResult (List Payment)
  | [], payments => return payments
  | (machineId, machineDocTicket) :: machines, payments => do
    let machineDoc ← openMachineDoc machineDocTicket
    let contractStream ← attempt (call (.docGetMany machineDoc CLAIMABLE_CONTRACT_PREFIX))
    let payments ← paymentsOf J machineId contractStream payments
    paymentsOfMachines machines payments

def getClaimableContracts : FutResult (List Payment) := do
  let machines ← listMachines J
  paymentsOfMachines J machines []

/-- The contracts of one machine, in the order given. -/
def contractsOf (machineId : EndpointId) (claimableContracts : List Payment) :
    List (FederationId × ClaimableContract) :=
  claimableContracts.filterMap fun p => if p.1 = machineId then some p.2 else none

theorem mem_contractsOf {machineId : EndpointId} {claimableContracts : List Payment}
    {x : FederationId × ClaimableContract} :
    x ∈ contractsOf machineId claimableContracts ↔ (machineId, x) ∈ claimableContracts := by
  simp only [contractsOf, List.mem_filterMap, Option.ite_none_right_eq_some, Option.some.injEq]
  constructor
  · rintro ⟨⟨m, y⟩, hp, rfl, rfl⟩; exact hp
  · exact fun h => ⟨_, h, rfl, rfl⟩

/-- The removals of contracts from one document. -/
def deleteFrom (machineDoc : NamespaceId) (author : AuthorId) :
    List (FederationId × ClaimableContract) → FutResult Unit
  | [] => return ()
  | (federationId, claimableContract) :: contracts => do
    attempt (call (.docDel machineDoc author
      (SharedProtocol.createClaimableContractMachineDocKey federationId claimableContract)))
    deleteFrom machineDoc author contracts

/-- The removals of contracts from the documents of some machines. -/
def deleteFromMachines (author : AuthorId) (claimableContracts : List Payment) :
    List EndpointId → FutResult Unit
  | [] => return ()
  | machineId :: machineIds => do
    let machineDocTicket ← getMachine J machineId
    let machineDoc ← openMachineDoc machineDocTicket
    deleteFrom machineDoc author (contractsOf machineId claimableContracts)
    deleteFromMachines author claimableContracts machineIds

def removeClaimableContracts (claimableContracts : List Payment) : FutResult Unit := do
  let author ← attempt (call .authorDefault)
  -- The contracts are grouped in a hash map, whose order of iteration is not known.
  let machineIds ← await (.hashOrder (claimableContracts.map Prod.fst).dedup)
  deleteFromMachines J author claimableContracts machineIds

/-! ### The key/value store of a machine -/

def getKvValue (machineId : EndpointId) (key : Bytes) : FutResult (Option KvEntry) := do
  let machineDocTicket ← getMachine J machineId
  let machineDoc ← openMachineDoc machineDocTicket
  let entryOr ← attempt (call (.docGetOne machineDoc (KV_PREFIX ++ key)))
  match entryOr with
  | none => return none
  | some entry => return some (← KvEntry.fromIrohEntry entry .manager)

def setKvValue (machineId : EndpointId) (key value : Bytes) : FutResult Unit := do
  let machineDocTicket ← getMachine J machineId
  let machineDoc ← openMachineDoc machineDocTicket
  let author ← attempt (call .authorDefault)
  attempt (call (.docSetBytes machineDoc author (KV_PREFIX ++ key) value))

def getKvEntries (machineId : EndpointId) : FutResult (List KvEntry) := do
  let machineDocTicket ← getMachine J machineId
  let machineDoc ← openMachineDoc machineDocTicket
  let entryStream ← attempt (call (.docGetMany machineDoc KV_PREFIX))
  MachineProtocol.kvEntriesOf .manager entryStream []

end ManagerProtocol

end Vendimint
