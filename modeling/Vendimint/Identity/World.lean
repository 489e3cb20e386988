import Vendimint.Async.Pool
import Vendimint.Iroh.Machine

/-! # The storage directory of a machine

A machine starts, serves claims and the calls that use its document, and crashes, any number of times,
on one directory, whatever was in it at first. Any read of a file may fail. A write may fail, and a
crash may cut it short: the file then is as it was, or holds a proper prefix of what was written. A
crash halts the machine, and its tasks are dropped. Any other operation may fail as well.

Histories tell which secret keys were generated and which were used, which documents
`get_or_create_machine_doc` has returned (it does so as it has opened one or has written the ticket of a
new one), which ones a call has read, written or sent the ticket of, and which tasks are on their way to
create one because they have found no ticket. -/

namespace Vendimint.Identity

open Vendimint.Store Vendimint.Async

/-- The tasks: the starts of the machine, and the calls of its operations. -/
inductive TaskId
  | start (n : ℕ)
  | call (n : ℕ)
  deriving DecidableEq

/-- The operations that use the document of the machine. -/
inductive Call
  | accept (manager : EndpointId)
  | getMachineState
  | getMachineConfig
  | writePaymentToMachineDoc (federationId : FederationId) (claimableContract : ClaimableContract)
  | getKvValue (key : Bytes)
  | setKvValue (key value : Bytes)
  | getKvEntries

/-- The directory, the memory of the machine, and the histories. -/
structure State where
  files : Path → Option Bytes
  docs : List NamespaceId
  starter : Option ℕ
  running : Bool
  halted : Bool
  owner : Option EndpointId
  lock : Option TaskId
  begun : List TaskId
  creating : List TaskId
  generated : List SecretKey
  keys : List SecretKey
  returned : List NamespaceId
  used : List NamespaceId

/-! ### What is stored -/

section Stored
variable (J : Serde) (s : State)

/-- The secret key, if it is completely stored. -/
def storedKey : Option SecretKey :=
  (s.files .secretKey).bind fun keyBytes => (BytesN.ofBytes 32 keyBytes).map (⟨·⟩)

/-- The owner, if it is completely stored. -/
def storedOwner : Option EndpointId := (s.files .managerPublicKey).bind J.endpointId.dec

/-- The document ticket, if it is completely stored. -/
def storedTicket : Option DocTicket := (s.files .docTicket).bind J.ticket.dec

/-- The file holds a complete value. -/
def Whole : Path → Prop
  | .secretKey => storedKey s ≠ none
  | .managerPublicKey => storedOwner J s ≠ none
  | .docTicket => storedTicket J s ≠ none
  | _ => False

/-- The document of the ticket that a byte string encodes, if any. -/
def docOf (b : Bytes) : List NamespaceId := (J.ticket.dec b).toList.map fun t => t.capability.id

end Stored

/-! ### Steps of the state -/

namespace State

/-- A directory with a machine that has not started yet. -/
def initial (files : Path → Option Bytes) (docs : List NamespaceId) : State where
  files := files
  docs := docs
  starter := none
  running := false
  halted := false
  owner := none
  lock := none
  begun := []
  creating := []
  generated := []
  keys := []
  returned := []
  used := []

variable (s : State)

/-- The contents of a file. -/
def write (p : Path) (b : Bytes) : State := { s with files := Function.update s.files p (some b) }

/-- The task is no longer on its way to create a document. -/
def settle (i : TaskId) : State := { s with creating := s.creating.filter (· ≠ i) }

/-- The task drops the lock, if it holds it. -/
def release (i : TaskId) : State := { s with lock := if s.lock = some i then none else s.lock }

/-- The memory is lost. -/
def crash : State :=
  { s with
    starter := none
    running := false
    halted := false
    owner := none
    lock := none
    creating := [] }

end State

/-- What is left of a write of `b` that fails. -/
def Short (p : Path) (b : Bytes) (s s' : State) : Prop :=
  s' = s ∨ ∃ n, n < b.length ∧ s' = s.write p (b.take n)

section Semantics
variable (J : Serde)

/-- What the operations of the task `i` do. -/
def effect (i : TaskId) : (op : Op) → State → op.Ret → State → Prop
  | .readFile .docTicket, s, r, s' =>
    (∀ b, r = .ok b → s.files .docTicket = some b) ∧
      s' = if MachineProtocol.ticketOf J r = none then { s with creating := i :: s.creating } else s
  | .readFile p, s, r, s' => (∀ b, r = .ok b → s.files p = some b) ∧ s' = s
  | .writeFile .docTicket b, s, r, s' =>
    r = .ok () ∧ s' = { s.settle i with
      files := Function.update s.files .docTicket (some b), returned := docOf J b ++ s.returned } ∨
    (∃ e, r = .error e) ∧ Short .docTicket b (s.settle i) s'
  | .writeFile p b, s, r, s' => r = .ok () ∧ s' = s.write p b ∨ (∃ e, r = .error e) ∧ Short p b s s'
  | .fillBytes, s, r, s' => s' = { s with generated := ⟨r⟩ :: s.generated }
  | .endpointBind k, s, _, s' => s' = { s with keys := k :: s.keys }
  | .routerSpawn _ owner, s, _, s' => s' = { s with running := true, owner := owner }
  | .docsCreate, s, r, s' =>
    (∃ d, d ∉ s.docs ∧ r = .ok d ∧ s' = { s with docs := d :: s.docs }) ∨
    (∃ e, r = .error e) ∧ s' = s.settle i
  | .docShare d, s, r, s' =>
    (∃ t, r = .ok t ∧ t.capability.id = d) ∧ s' = s ∨ (∃ e, r = .error e) ∧ s' = s.settle i
  -- The code unwraps the document: the panic drops the guard.
  | .docsOpen d, s, r, s' =>
    d ∈ s.docs ∧ r = .ok (some d) ∧ s' = { s with returned := d :: s.returned } ∨
    d ∉ s.docs ∧ r = .ok none ∧ s' = s.release i ∨
    (∃ e, r = .error e) ∧ s' = s
  | .docGetOne d _, s, _, s' => s' = { s with used := d :: s.used }
  | .docGetMany d _, s, _, s' => s' = { s with used := d :: s.used }
  | .docSetBytes d _ _ _, s, _, s' => s' = { s with used := d :: s.used }
  | .writeAll b, s, _, s' => s' = { s with used := docOf J b ++ s.used }
  | .ownerLock, s, r, s' => s.lock = none ∧ r = s.owner ∧ s' = { s with lock := some i }
  | .ownerSet manager, s, _, s' => s' = { s with owner := some manager }
  | .ownerUnlock, s, _, s' => s' = { s with lock := none }
  | _, s, _, s' => s' = s

/-- **The operations of a machine.** -/
def directory : World TaskId Op Op.Ret State where
  exec i op s r s' := s.halted = false ∧ effect J i op s r s'
  cut _ op s s' := s.halted = true ∧ (s' = s ∨ ∃ p b, op = .writeFile p b ∧ Short p b s s')

/-- What the tasks return. -/
inductive Result
  | started (r : Except Error (SecretKey × Option EndpointId))
  | accepted (r : Except Error Unit)
  | state (r : Except Error MachineState)
  | config (r : Except Error (Option MachineConfig))
  | written (r : Except Error Unit)
  | value (r : Except Error (Option KvEntry))
  | entries (r : Except Error (List KvEntry))

/-- The start of the machine. -/
def starting : Fut Result := (MachineProtocol.new J).run.bind fun r => .pure (.started r)

/-- The program of a call. -/
def Call.program : Call → Fut Result
  | accept manager => (MachineProtocol.accept J manager).run.bind fun r => .pure (.accepted r)
  | getMachineState => (MachineProtocol.getMachineState J).run.bind fun r => .pure (.state r)
  | getMachineConfig => (MachineProtocol.getMachineConfig J).run.bind fun r => .pure (.config r)
  | writePaymentToMachineDoc federationId claimableContract =>
    (MachineProtocol.writePaymentToMachineDoc J federationId claimableContract).run.bind fun r =>
      .pure (.written r)
  | getKvValue key => (MachineProtocol.getKvValue J key).run.bind fun r => .pure (.value r)
  | setKvValue key value => (MachineProtocol.setKvValue J key value).run.bind fun r => .pure (.written r)
  | getKvEntries => (MachineProtocol.getKvEntries J).run.bind fun r => .pure (.entries r)

/-- A task starts: the machine, if no process is up, or a call on a machine that runs. -/
def Spawns (i : TaskId) (p : Fut Result) (s s' : State) : Prop :=
  i ∉ s.begun ∧ ((∃ n, i = .start n ∧ s.starter = none ∧ s.running = false ∧ p = starting J ∧
      s' = { s with starter := some n, begun := i :: s.begun }) ∨
    ∃ n c, i = .call n ∧ s.running = true ∧ p = Call.program J c ∧ s' = { s with begun := i :: s.begun })

/-- **A machine on its directory.** -/
def machine : System TaskId Op Op.Ret Result State where
  toWorld := directory J
  spawn := Spawns J
  env s s' dead :=
    s.starter ≠ none ∧ s' = { s with halted := true } ∧ (∀ i, dead i = false) ∨
    s.halted = true ∧ s' = s.crash ∧ ∀ i, dead i = true

end Semantics

/-! ### Conditions on the steps -/

section Conditions
variable (J : Serde)

/-- No task that has found no ticket is on its way to create a document when another one reads the
ticket. -/
def Apart (op : Op) (s : State) : Prop := op = .readFile .docTicket → s.creating = []

/-- A file that holds a complete value is read, and a write to it that fails leaves it as it was. -/
def Sound (op : Op) (s : State) (r : op.Ret) (s' : State) : Prop :=
  match op with
  | .readFile p => Whole J s p → ∃ b, r = .ok b
  | .writeFile p _ => Whole J s p → (∃ e, r = .error e) → s'.files p = s.files p
  | _ => True

/-- **The condition under which the identity persists.** -/
def Calm (_ : TaskId) (op : Op) (s : State) (r : op.Ret) (s' : State) : Prop :=
  Apart op s ∧ Sound J op s r s'

/-- A write that a crash cuts short is not one to a file that holds a complete value. -/
def CalmCut (_ : TaskId) (_ : Op) (s s' : State) : Prop :=
  ∀ p, Whole J s p → s'.files p = s.files p

/-- The operations on files and documents, other than reads of files. -/
def OnDocuments : Op → Prop
  | .writeFile _ _ | .createDirAll _ | .docsCreate | .docsOpen _ | .docShare _ | .authorDefault => True
  | .docGetOne _ _ | .docGetMany _ _ | .docSetBytes _ _ _ _ | .blobsGetBytes _ => True
  | _ => False

/-- Every operation on files and documents succeeds. -/
def Smooth (_ : TaskId) (op : Op) (s : State) (r : op.Ret) (_ : State) : Prop :=
  (OnDocuments op → op.Succeeds r) ∧
    match op with
    | .readFile p => s.files p ≠ none → ∃ b, r = .ok b
    | _ => True

/-- Nothing is left of a write that a crash cuts short. -/
def SmoothCut (_ : TaskId) (_ : Op) (s s' : State) : Prop := s' = s

end Conditions

end Vendimint.Identity
