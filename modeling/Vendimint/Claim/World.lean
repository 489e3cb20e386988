import Vendimint.Async.Pool
import Vendimint.Iroh.Manager

/-! # Claims between machines and managers

Any number of machines and managers, with any number of claim connections between them. On a machine
a connection is served by `accept`, which holds the lock on the owner while it asks the operator; on
the manager it is served by `claimTask`. Machines start, answer `get_machine_state`, and may end at
any time, as managers may; what is in their memory is then lost and their tasks are gone. Any step of
a task may fail, the read of a file that is there as well. Files are written whole or not at all, and
what is read of a file is what was written.

A `Setting` says what is assumed: that the peers are `honest` (what is read from a stream was sent by
the task of the other side), that the document ticket of a machine is `readable`, that a machine that
starts reads its owner if it is `known`, that `again` a connection of the owner may take the lock. On
the connections of `sure` no step fails.

`requests`, `answers` and `managerAnswers` are histories: the claim requests that were given to the
operators of machines, and the connections on which an operator answered `true`. -/

namespace Vendimint.Claim

open Vendimint.Store Vendimint.Async

/-- A claim connection. -/
structure ConnId where
  machine : EndpointId
  manager : EndpointId
  n : ℕ
  deriving DecidableEq

/-- The tasks: both sides of a connection, the starts of a machine, its calls of `get_machine_state`,
and the calls of `list_machines` of a manager. -/
inductive TaskId
  | accept (c : ConnId)
  | claim (c : ConnId)
  | start (machine : EndpointId)
  | query (machine : EndpointId) (n : ℕ)
  | list (manager : EndpointId) (n : ℕ)
  deriving DecidableEq

/-- The device that a task runs on. -/
def TaskId.device : TaskId → EndpointId
  | accept c => c.machine
  | claim c => c.manager
  | start m => m
  | query m _ => m
  | list M _ => M

/-- A machine: the owner in memory, the lock on it, whether the machine is running, and its files. -/
structure Host where
  owner : Option EndpointId
  lock : Option TaskId
  running : Bool
  ownerFile : Option Bytes
  ticketFile : Option Bytes

/-- One direction of a stream: what was sent on it, and whether it is complete. -/
structure Stream where
  sent : Bytes
  finished : Bool

/-- The machines and managers. -/
structure State where
  host : EndpointId → Host
  tickets : EndpointId → EndpointId → Option Bytes
  toMachine : ConnId → Stream
  toManager : ConnId → Stream
  requests : List ConnId
  answers : List ConnId
  managerAnswers : List ConnId
  begun : List TaskId

/-- What is assumed, with the encodings. -/
structure Setting where
  serde : Serde
  honest : Prop
  readable : Prop
  known : Prop
  again : Prop

/-- Encodings by framed bytes, honest peers and readable tickets. -/
abbrev Setting.framed (known again : Prop) : Setting := ⟨.framed, True, True, known, again⟩

/-! ### Steps of the state -/

/-- A machine that has never run. -/
def Host.fresh : Host := ⟨none, none, false, none, none⟩

/-- A stream on which nothing was sent. -/
def Stream.empty : Stream := ⟨[], false⟩

namespace State

/-- Nothing has happened. -/
def fresh : State :=
  ⟨fun _ => .fresh, fun _ _ => none, fun _ => .empty, fun _ => .empty, [], [], [], []⟩

/-- The machine `m` is `h`. -/
def setHost (s : State) (m : EndpointId) (h : Host) : State :=
  { s with host := Function.update s.host m h }

/-- The lock of the machine `m` is `l`. -/
def setLock (s : State) (m : EndpointId) (l : Option TaskId) : State :=
  s.setHost m { s.host m with lock := l }

/-- The task `i` drops the lock, if it holds it. -/
def release (s : State) (i : TaskId) : State :=
  if (s.host i.device).lock = some i then s.setLock i.device none else s

/-- The owner of the machine `m` is `M`, in memory. -/
def setOwner (s : State) (m M : EndpointId) : State :=
  s.setHost m { s.host m with owner := some M }

/-- The owner is written to the file of the machine `m`. -/
def writeOwner (s : State) (m : EndpointId) (b : Bytes) : State :=
  s.setHost m { s.host m with ownerFile := some b }

/-- The document ticket is written to the file of the machine `m`. -/
def writeTicket (s : State) (m : EndpointId) (b : Bytes) : State :=
  s.setHost m { s.host m with ticketFile := some b }

/-- The machine `m` starts to run. -/
def run (s : State) (m : EndpointId) (owner : Option EndpointId) : State :=
  s.setHost m { s.host m with owner := owner, running := true }

/-- The process on the device `d` ends. -/
def crash (s : State) (d : EndpointId) : State :=
  s.setHost d { s.host d with owner := none, lock := none, running := false }

/-- The manager `M` stores the ticket of the machine `m`. -/
def putTicket (s : State) (M m : EndpointId) (b : Bytes) : State :=
  { s with tickets := Function.update s.tickets M (Function.update (s.tickets M) m (some b)) }

/-- The task `i` gives a claim request to the operator. -/
def request (s : State) : TaskId → State
  | .accept c => { s with requests := c :: s.requests }
  | _ => s

/-- The operator of the task `i` answers `true`. -/
def answer (s : State) : TaskId → State
  | .accept c => { s with answers := c :: s.answers }
  | .claim c => { s with managerAnswers := c :: s.managerAnswers }
  | _ => s

/-- The stream that the task `i` reads. -/
def incoming (s : State) : TaskId → Stream
  | .accept c => s.toMachine c
  | .claim c => s.toManager c
  | _ => .empty

/-- The stream that the task `i` writes becomes `f` of it. -/
def outgoing (s : State) (f : Stream → Stream) : TaskId → State
  | .accept c => { s with toManager := Function.update s.toManager c (f (s.toManager c)) }
  | .claim c => { s with toMachine := Function.update s.toMachine c (f (s.toMachine c)) }
  | _ => s

/-- The task `i` sends `b`. -/
def send (s : State) (i : TaskId) (b : Bytes) : State :=
  s.outgoing (fun x => { x with sent := x.sent ++ b }) i

/-- The task `i` has sent everything. -/
def finish (s : State) (i : TaskId) : State :=
  s.outgoing (fun x => { x with finished := true }) i

/-- The task `i` has begun. -/
def begin (s : State) (i : TaskId) : State := { s with begun := i :: s.begun }

end State

/-! ### Operations -/

section Semantics
variable (Z : Setting) (sure : ConnId → Prop)

/-- What the operations of the task `i` do. -/
def effect (i : TaskId) : (op : Op) → State → op.Ret → State → Prop
  | .ownerLock, s, r, s' =>
    ((s.host i.device).running = true ∧ (s.host i.device).lock = none ∧
      (∀ c, i = .accept c → ¬ Z.again → (s.host i.device).owner ≠ some c.manager)) ∧
    r = (s.host i.device).owner ∧ s' = s.setLock i.device (some i)
  | .ownerUnlock, s, _, s' => s' = s.setLock i.device none
  | .ownerSet M, s, _, s' => s' = s.setOwner i.device M
  | .claimRequestSend _, s, r, s' => (r = .ok () ∧ s' = s.request i) ∨ (r ≠ .ok () ∧ s' = s)
  | .answer, s, r, s' => (r = some true ∧ s' = s.answer i) ∨ (r ≠ some true ∧ s' = s)
  | .readToEnd _, s, r, s' => s' = s ∧ ∀ l, r = .ok l → Z.honest → l <+: (s.incoming i).sent
  | .writeAll b, s, r, s' =>
    (r = .ok () ∧ s' = s.send i b) ∨ (r ≠ .ok () ∧ ∃ p, p <+: b ∧ s' = s.send i p)
  | .finish, s, r, s' => (r = .ok () ∧ s' = s.finish i) ∨ (r ≠ .ok () ∧ s' = s)
  | .readFile .docTicket, s, r, s' =>
    s' = s ∧ (∀ b, r = .ok b → (s.host i.device).ticketFile = some b) ∧
      (Z.readable → (s.host i.device).ticketFile ≠ none → ∃ b, r = .ok b)
  | .readFile .managerPublicKey, s, r, s' =>
    s' = s ∧ (∀ b, r = .ok b → (s.host i.device).ownerFile = some b) ∧
      (Z.known → (s.host i.device).ownerFile ≠ none → ∃ b, r = .ok b)
  -- The code unwraps the document: the panic drops the guard.
  | .docsOpen d, s, r, s' =>
    (∀ o, r = .ok (some o) → o = d) ∧
      ((r ≠ .ok none ∧ s' = s) ∨ (r = .ok none ∧ s' = s.setLock i.device none))
  | .docShare d, s, r, s' => s' = s ∧ ∀ t, r = .ok t → t.capability = .write d
  | .writeFile .docTicket b, s, r, s' =>
    (r = .ok () ∧ s' = s.writeTicket i.device b) ∨ (r ≠ .ok () ∧ s' = s)
  | .writeFile .managerPublicKey b, s, r, s' =>
    (r = .ok () ∧ s' = s.writeOwner i.device b) ∨ (r ≠ .ok () ∧ s' = s)
  | .writeFile (.machineDocTicket (.endpoint m)) b, s, r, s' =>
    (r = .ok () ∧ s' = s.putTicket i.device m b) ∨ (r ≠ .ok () ∧ s' = s)
  | .routerSpawn _ owner, s, _, s' => s' = s.run i.device owner
  | .readDir .machineDocTicketsDir, s, r, s' =>
    s' = s ∧ ∀ l, r = .ok l →
      l.Nodup ∧ ∀ n, n ∈ l ↔ ∃ m, n = .endpoint m ∧ s.tickets i.device m ≠ none
  | .isFile (.machineDocTicket (.endpoint m)), s, r, s' =>
    s' = s ∧ ∀ b, r = .ok b → b = (s.tickets i.device m).isSome
  | .readFile (.machineDocTicket (.endpoint m)), s, r, s' =>
    s' = s ∧ ∀ b, r = .ok b → s.tickets i.device m = some b
  | _, s, _, s' => s' = s

/-- No step of the task `i` fails. -/
def Sure : TaskId → Prop
  | .accept c => sure c
  | .claim c => sure c
  | _ => False

/-- The operation of the task `i` does not fail: the operator answers `true`, and a stream is read to
its end. -/
def Smooth (i : TaskId) (s : State) : (op : Op) → op.Ret → Prop
  | .answer, r => r = some true
  | .readToEnd _, r => (s.incoming i).finished = true ∧ r = .ok (s.incoming i).sent
  | op, r => op.Succeeds r

/-- What is left when a call of `get_machine_state` is dropped: it may be waiting for the lock, or hold
it. -/
def dropped (i : TaskId) (op : Op) (s s' : State) : Prop :=
  (∃ m n, i = .query m n) ∧ op ≠ .ownerUnlock ∧
    ((op = .ownerLock ∧ s' = s) ∨ (op ≠ .ownerLock ∧ (s' = s.release i ∨
      ∃ b, op = .writeFile .docTicket b ∧ s' = (s.writeTicket i.device b).release i)))

/-- **The operations of machines and managers.** -/
def network : World TaskId Op Op.Ret State where
  exec i op s r s' := effect Z i op s r s' ∧ (Sure sure i → Smooth i s op r)
  cut := dropped

/-- What the tasks return. -/
inductive Result
  | accepted (r : Except Error Unit)
  | claimed
  | started (r : Except Error (SecretKey × Option EndpointId))
  | state (r : Except Error MachineState)
  | listed (r : Except Error (List (EndpointId × DocTicket)))

/-- The program of a task. -/
def program (J : Serde) : TaskId → Fut Result
  | .accept c => (MachineProtocol.accept J c.manager).run.bind fun r => .pure (.accepted r)
  | .claim c => (ManagerProtocol.claimTask J c.machine).bind fun _ => .pure .claimed
  | .start _ => (MachineProtocol.new J).run.bind fun r => .pure (.started r)
  | .query _ _ => (MachineProtocol.getMachineState J).run.bind fun r => .pure (.state r)
  | .list _ _ => (ManagerProtocol.listMachines J).run.bind fun r => .pure (.listed r)

/-- When a task may begin. -/
def MayBegin (i : TaskId) (s : State) : Prop :=
  match i with
  | .accept c => (s.host c.machine).running = true ∧ .accept c ∉ s.begun
  | .claim c => .claim c ∉ s.begun
  | .start m => (s.host m).running = false
  | .query m _ => (s.host m).running = true
  | .list _ _ => True

/-- **Machines and managers.** -/
def claims : System TaskId Op Op.Ret Result State where
  toWorld := network Z sure
  spawn i p s s' := MayBegin i s ∧ p = program Z.serde i ∧ s' = s.begin i
  env s s' dead := ∃ d, s' = s.crash d ∧ ∀ i, dead i = decide (i.device = d)

end Semantics

/-! ### What the steps change -/

namespace State
variable (s : State) (i : TaskId) (m m' M : EndpointId) (h : Host)

@[simp] theorem setHost_self : (s.setHost m h).host m = h := Function.update_self ..

theorem setHost_of_ne (hne : m' ≠ m) : (s.setHost m h).host m' = s.host m' :=
  Function.update_of_ne hne ..

@[simp] theorem request_host : (s.request i).host = s.host := by cases i <;> rfl

@[simp] theorem answer_host : (s.answer i).host = s.host := by cases i <;> rfl

@[simp] theorem outgoing_host (f : Stream → Stream) : (s.outgoing f i).host = s.host := by
  cases i <;> rfl

@[simp] theorem outgoing_toManager (f : Stream → Stream) (c : ConnId) :
    (s.outgoing f (.accept c)).toManager c = f (s.toManager c) := Function.update_self ..

@[simp] theorem outgoing_toMachine (f : Stream → Stream) (c : ConnId) :
    (s.outgoing f (.claim c)).toMachine c = f (s.toMachine c) := Function.update_self ..

@[simp] theorem begin_host : (s.begin i).host = s.host := rfl

@[simp] theorem putTicket_host (b : Bytes) : (s.putTicket M m b).host = s.host := rfl

end State

end Vendimint.Claim
