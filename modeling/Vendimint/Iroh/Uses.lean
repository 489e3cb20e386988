import Vendimint.Iroh.Manager

/-! # The operations that programs await

For each function that several parts of the development look at, the operations that it may await: if
they are in `C`, the function is a program over `C`. -/

namespace Vendimint

open Vendimint.Store Vendimint.Async

section Uses
variable {C : Op → Prop}

theorem uses_fromSlice {β : Type} (b : Option β) : (fromSlice b).run.Uses C := by
  cases b <;> trivial

theorem uses_fromIrohEntry (entry : Entry AuthorId) (d : KvEntryAuthor)
    (hbytes : C (.blobsGetBytes entry.content)) (hauthor : C .authorDefault) :
    (KvEntry.fromIrohEntry entry d).run.Uses C := by
  unfold KvEntry.fromIrohEntry
  rw [Fallible.run_bind]
  refine Prog.Uses.andThen ⟨hbytes, fun _ => trivial⟩ fun _ => ?_
  rw [Fallible.run_bind]
  exact Prog.Uses.andThen ⟨hauthor, fun _ => trivial⟩ fun _ => trivial

theorem uses_kvEntriesOf (d : KvEntryAuthor) (hbytes : ∀ b, C (.blobsGetBytes b))
    (hauthor : C .authorDefault) : ∀ (stream : List (Except Error (Entry AuthorId)))
    (entries : List KvEntry), (MachineProtocol.kvEntriesOf d stream entries).run.Uses C
  | [], _ => trivial
  | .error _ :: _, _ => trivial
  | .ok entry :: stream, _ =>
    (uses_fromIrohEntry entry d (hbytes _) hauthor).andThen fun _ =>
      uses_kvEntriesOf d hbytes hauthor stream _

/-! ### Start -/

/-- The operations that start the endpoint of a device. -/
def Starting : Op → Prop
  | .readFile .secretKey | .fillBytes | .createDirAll _ | .writeFile .secretKey _ | .endpointBind _
  | .blobsLoad | .docsSpawn => True
  | _ => False

theorem SharedProtocol.uses_loadSecretKey : loadSecretKey.run.Uses Starting := by
  simp only [loadSecretKey, Fallible.run_bind]
  refine Prog.Uses.andThen ⟨trivial, fun _ => trivial⟩ fun r => ?_
  rcases r with e | keyBytes
  · simp only [Fallible.run_bind]
    refine Prog.Uses.andThen ⟨trivial, fun _ => trivial⟩ fun keyBytes => ?_
    refine Prog.Uses.andThen ⟨trivial, fun _ => trivial⟩ fun _ => ?_
    exact Prog.Uses.andThen ⟨trivial, fun _ => trivial⟩ fun _ => trivial
  · simp only [Fallible.run_bind]
    rcases BytesN.ofBytes 32 keyBytes with _ | key <;> trivial

theorem SharedProtocol.uses_new : new.run.Uses Starting := by
  simp only [new, Fallible.run_bind]
  refine uses_loadSecretKey.andThen fun secretKey => ?_
  refine Prog.Uses.andThen ⟨trivial, fun _ => trivial⟩ fun _ => ?_
  refine Prog.Uses.andThen ⟨trivial, fun _ => trivial⟩ fun _ => ?_
  refine Prog.Uses.andThen ⟨trivial, fun _ => trivial⟩ fun _ => ?_
  refine Prog.Uses.andThen ⟨trivial, fun _ => trivial⟩ fun _ => ?_
  exact Prog.Uses.andThen ⟨trivial, fun _ => trivial⟩ fun _ => trivial

namespace MachineProtocol
variable {J : Serde}

/-- The operations that open the document of a machine, or create it, and read its configuration. -/
def Opening : Op → Prop
  | .createDirAll .appDir | .readFile .docTicket | .docsOpen _ | .docsCreate | .docShare _
  | .writeFile .docTicket _ | .docGetOne _ _ | .blobsGetBytes _ => True
  | _ => False

theorem uses_getOrCreateMachineDoc : (getOrCreateMachineDoc J).run.Uses Opening := by
  simp only [getOrCreateMachineDoc, Fallible.run_bind]
  refine Prog.Uses.andThen ⟨trivial, fun _ => trivial⟩ fun _ => ?_
  refine Prog.Uses.andThen ⟨trivial, fun _ => trivial⟩ fun r => ?_
  rcases ticketOf J r with _ | ticket
  · simp only [Fallible.run_bind]
    refine Prog.Uses.andThen ⟨trivial, fun _ => trivial⟩ fun doc => ?_
    refine Prog.Uses.andThen ⟨trivial, fun _ => trivial⟩ fun newTicket => ?_
    exact Prog.Uses.andThen ⟨trivial, fun _ => trivial⟩ fun _ => trivial
  · simp only [Fallible.run_bind]
    refine Prog.Uses.andThen ⟨trivial, fun _ => trivial⟩ fun docOr => ?_
    cases docOr <;> trivial

theorem uses_getMachineConfig : (getMachineConfig J).run.Uses Opening := by
  simp only [getMachineConfig, Fallible.run_bind]
  refine uses_getOrCreateMachineDoc.andThen fun doc => ?_
  refine Prog.Uses.andThen ⟨trivial, fun _ => trivial⟩ fun entryOr => ?_
  rcases entryOr with _ | entry
  · trivial
  · simp only [Fallible.run_bind]
    refine Prog.Uses.andThen ⟨trivial, fun _ => trivial⟩ fun bytes => ?_
    exact (uses_fromSlice _).andThen fun _ => trivial

theorem uses_writePaymentToMachineDoc (hopen : ∀ op, Opening op → C op) (hauthor : C .authorDefault)
    (federationId : FederationId) (claimableContract : ClaimableContract)
    (hset : ∀ d a, C (.docSetBytes d a
      (SharedProtocol.createClaimableContractMachineDocKey federationId claimableContract)
      (J.contract.enc claimableContract))) :
    (writePaymentToMachineDoc J federationId claimableContract).run.Uses C := by
  rw [writePaymentToMachineDoc, Fallible.run_bind]
  refine Prog.Uses.andThen (uses_getOrCreateMachineDoc.mono hopen) fun d => ?_
  rw [Fallible.run_bind]
  exact Prog.Uses.andThen ⟨hauthor, fun _ => trivial⟩ fun a => ⟨hset d a, fun _ => trivial⟩

end MachineProtocol

namespace ManagerProtocol
variable {J : Serde}

theorem uses_getMachine (m : EndpointId) (hread : C (.readFile (.machineDocTicket (.endpoint m)))) :
    (getMachine J m).run.Uses C := by
  rw [getMachine, Fallible.run_bind]
  exact Prog.Uses.andThen ⟨hread, fun _ => trivial⟩ fun _ => uses_fromSlice _

theorem uses_openMachineDoc (t : DocTicket) (hopen : C (.docsOpen t.capability.id)) :
    (openMachineDoc t).run.Uses C := by
  rw [openMachineDoc, Fallible.run_bind]
  refine Prog.Uses.andThen ⟨hopen, fun _ => trivial⟩ fun docOr => ?_
  cases docOr <;> trivial

theorem uses_machinesOf (hfile : ∀ n, C (.isFile (.machineDocTicket n)))
    (hread : ∀ n, C (.readFile (.machineDocTicket n))) :
    ∀ (names : List FileName) (machines : List (EndpointId × DocTicket)),
      (machinesOf J names machines).run.Uses C
  | [], _ => trivial
  | name :: names, machines => by
    simp only [machinesOf, Fallible.run_bind, Fallible.run_ite]
    refine Prog.Uses.andThen ⟨hfile name, fun _ => trivial⟩ fun isFile => ?_
    split
    · rcases endpointOfName name with _ | m
      · trivial
      refine Prog.Uses.andThen trivial fun m => ?_
      refine Prog.Uses.andThen ⟨hread name, fun _ => trivial⟩ fun b => ?_
      rcases J.ticket.dec b with _ | t
      · trivial
      · exact uses_machinesOf hfile hread names _
    · exact uses_machinesOf hfile hread names machines

theorem uses_listMachines (hdir : C (.readDir .machineDocTicketsDir))
    (hfile : ∀ n, C (.isFile (.machineDocTicket n)))
    (hread : ∀ n, C (.readFile (.machineDocTicket n))) : (listMachines J).run.Uses C := by
  rw [listMachines, Fallible.run_bind]
  exact Prog.Uses.andThen ⟨hdir, fun _ => trivial⟩ fun _ => uses_machinesOf hfile hread _ []

theorem uses_paymentsOf (m : EndpointId) (hbytes : ∀ b, C (.blobsGetBytes b)) :
    ∀ (stream : List (Except Error (Entry AuthorId))) (payments : List Payment),
      (paymentsOf J m stream payments).run.Uses C
  | [], _ => trivial
  | .error _ :: stream, payments => uses_paymentsOf m hbytes stream payments
  | .ok entry :: stream, payments => by
    rw [paymentsOf]
    rcases SharedProtocol.parseIncomingContractMachineDocKey entry.key with _ | ⟨f, id⟩
    · exact uses_paymentsOf m hbytes stream payments
    · simp only [Fallible.run_bind]
      refine Prog.Uses.andThen ⟨hbytes _, fun _ => trivial⟩ fun b => ?_
      rw [Fallible.run_ite]
      split_ifs
      · exact uses_paymentsOf m hbytes stream payments
      · rw [Fallible.run_bind]
        exact (uses_fromSlice _).andThen fun c => uses_paymentsOf m hbytes stream _

theorem uses_getMachineConfig (m : EndpointId)
    (hread : C (.readFile (.machineDocTicket (.endpoint m)))) (hopen : ∀ d, C (.docsOpen d))
    (hget : ∀ d, C (.docGetOne d MACHINE_CONFIG_KEY)) (hbytes : ∀ b, C (.blobsGetBytes b)) :
    (getMachineConfig J m).run.Uses C := by
  simp only [getMachineConfig, Fallible.run_bind]
  refine (uses_getMachine m hread).andThen fun t => ?_
  refine (uses_openMachineDoc t (hopen _)).andThen fun d => ?_
  refine Prog.Uses.andThen ⟨hget d, fun _ => trivial⟩ fun entryOr => ?_
  rcases entryOr with _ | entry
  · trivial
  simp only [Fallible.run_bind]
  refine Prog.Uses.andThen ⟨hbytes _, fun _ => trivial⟩ fun b => ?_
  exact (uses_fromSlice _).andThen fun _ => trivial

theorem uses_deleteFrom (hdel : ∀ d a k, C (.docDel d a k)) (d : NamespaceId) (a : AuthorId) :
    ∀ l : List (FederationId × ClaimableContract), (deleteFrom d a l).run.Uses C
  | [] => trivial
  | (f, c) :: l => by
    rw [deleteFrom, Fallible.run_bind]
    exact Prog.Uses.andThen ⟨hdel d a _, fun _ => trivial⟩ fun _ => uses_deleteFrom hdel d a l

theorem uses_deleteFromMachines (hread : ∀ n, C (.readFile (.machineDocTicket n)))
    (hopen : ∀ d, C (.docsOpen d)) (hdel : ∀ d a k, C (.docDel d a k)) (a : AuthorId)
    (cs : List Payment) : ∀ ms : List EndpointId, (deleteFromMachines J a cs ms).run.Uses C
  | [] => trivial
  | m :: ms => by
    rw [deleteFromMachines, Fallible.run_bind]
    refine Prog.Uses.andThen (uses_getMachine m (hread _)) fun t => ?_
    rw [Fallible.run_bind]
    refine Prog.Uses.andThen (uses_openMachineDoc t (hopen _)) fun d => ?_
    rw [Fallible.run_bind]
    exact Prog.Uses.andThen (uses_deleteFrom hdel d a _) fun _ =>
      uses_deleteFromMachines hread hopen hdel a cs ms

theorem uses_removeClaimableContracts (hauthor : C .authorDefault) (horder : ∀ l, C (.hashOrder l))
    (hread : ∀ n, C (.readFile (.machineDocTicket n))) (hopen : ∀ d, C (.docsOpen d))
    (hdel : ∀ d a k, C (.docDel d a k)) (cs : List Payment) :
    (removeClaimableContracts J cs).run.Uses C := by
  rw [removeClaimableContracts, Fallible.run_bind]
  refine Prog.Uses.andThen ⟨hauthor, fun _ => trivial⟩ fun a => ?_
  rw [Fallible.run_bind]
  exact Prog.Uses.andThen ⟨horder _, fun _ => trivial⟩ fun ms =>
    uses_deleteFromMachines hread hopen hdel a cs ms

end ManagerProtocol

end Uses

end Vendimint
