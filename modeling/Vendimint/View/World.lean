import Vendimint.Async.Pool
import Vendimint.Wallet

/-! # The view of a wallet and the task that updates it

One task updates the view, and any number of calls of the operations that change the map of clients
run beside it. The state is the locks, the map, the channel of the callers that ask for an update, the
callers that have their reply, and the value that the watch channel holds. Any step of a call may
fail; a call may be dropped at any time, which drops its guards. Balances change at any time. The task
ends when a client cannot tell its balance, when nobody receives its views, or with the wallet.

Histories tell how fresh a view is: the published views; how many reads of the map the task has begun
and how many it has finished; what the operations answered during each read (`transcript`); and for
each call, how many reads had begun when it first dropped a guard on the clients, which it does just
once. -/

namespace Vendimint.View

open Vendimint.Store Vendimint.Async

/-- The tasks: the one that updates the view, and the calls. -/
inductive TaskId
  | view
  | call (n : ℕ)
  deriving DecidableEq

/-- The operations that change the map of clients. -/
inductive Call
  | connectToJoinedFederations
  | setDefaultFederation (inviteCode : InviteCode)
  | leaveFederation (federationId : FederationId)

/-- Operations with their answers. -/
abbrev Transcript := List (Σ op : Op, op.Ret)

/-- The wallet. -/
structure State where
  dataDir : Option ℕ
  writer : Option ℕ
  reading : Bool
  clients : List FederationId
  balance : FederationId → ℕ
  queue : List ℕ
  replied : List ℕ
  alive : Bool
  view : WalletView
  published : List WalletView
  begun : List ℕ
  reads : ℕ
  done : ℕ
  transcript : ℕ → Transcript
  released : ℕ → Option ℕ

namespace State

/-- A wallet that has just started. -/
def fresh : State where
  dataDir := none
  writer := none
  reading := false
  clients := []
  balance _ := 0
  queue := []
  replied := []
  alive := true
  view := ⟨[]⟩
  published := []
  begun := []
  reads := 0
  done := 0
  transcript _ := []
  released _ := none

variable (s : State)

/-- The task begins to read the map. -/
def beginRead : State :=
  { s with reading := true, reads := s.reads + 1, transcript := Function.update s.transcript s.done [] }

/-- The task has read the map. -/
def endRead : State := { s with reading := false, done := s.reads }

/-- The task has got an answer. -/
def log (x : Σ op : Op, op.Ret) : State :=
  { s with transcript := Function.update s.transcript s.done (s.transcript s.done ++ [x]) }

/-- The task is gone, and with it its guard and the receiver of the channel. -/
def die : State := { s with reading := false, alive := false }

/-- The call `n` drops its guard on the clients. -/
def dropGuard (n : ℕ) : State :=
  { s with
    writer := none
    released := Function.update s.released n ((s.released n).or (some s.reads)) }

/-- The guards of the call `n` are dropped with it. -/
def abandon (n : ℕ) : State :=
  { s with
    writer := if s.writer = some n then none else s.writer
    dataDir := if s.dataDir = some n then none else s.dataDir }

/-- The view `v` is published. -/
def publish (v : WalletView) : State := { s with view := v, published := v :: s.published }

end State

/-- The capacity of the channel of the callers. -/
def capacity : ℕ := 100

/-- What the operations of the task `i` do. -/
def exec (i : TaskId) : (op : Op) → State → op.Ret → State → Prop
  | .dataDirLock, s, _, s' =>
    s.dataDir = none ∧ ∃ n, i = .call n ∧ s' = { s with dataDir := some n }
  | .dataDirRelease, s, _, s' => s' = { s with dataDir := none }
  | .clientsRead, s, _, s' => s.writer = none ∧ i = .view ∧ s' = s.beginRead
  | .clientsWrite, s, _, s' =>
    s.writer = none ∧ s.reading = false ∧ ∃ n, i = .call n ∧ s' = { s with writer := some n }
  | .clientsRelease, s, _, s' =>
    i = .view ∧ s' = s.endRead ∨ ∃ n, i = .call n ∧ s' = s.dropGuard n
  | .clientsContains f, s, r, s' => s' = s ∧ r = decide (f ∈ s.clients)
  | .clientsInsert f, s, _, s' => s' = { s with clients := s.clients.insert f }
  | .clientsRemove f, s, r, s' =>
    s' = { s with clients := s.clients.erase f } ∧ r = decide (f ∈ s.clients)
  | .clientsIter, s, r, s' => r.Perm s.clients ∧ i = .view ∧ s' = s.log ⟨.clientsIter, r⟩
  | .clientConfig f, s, r, s' => i = .view ∧ s' = s.log ⟨.clientConfig f, r⟩
  -- The task unwraps the balance.
  | .clientBalance f, s, r, s' =>
    i = .view ∧ (r = .ok (s.balance f) ∧ s' = s.log ⟨.clientBalance f, r⟩ ∨
      (∃ e, r = .error e) ∧ s' = (s.log ⟨.clientBalance f, r⟩).die) ∨
    (∃ n, i = .call n) ∧ s' = s
  | .forceUpdateSend, s, r, s' =>
    r = .ok () ∧ s.alive = true ∧ s.queue.length < capacity ∧
      (∃ n, i = .call n ∧ s' = { s with queue := s.queue ++ [n] }) ∨
    (∃ e, r = .error e) ∧ s.alive = false ∧ s' = s
  | .forceUpdateRecv, s, r, s' =>
    s' = s ∧ (r = .ok () ∧ (∃ n, i = .call n ∧ n ∈ s.replied) ∨
      (∃ e, r = .error e) ∧ s.alive = false)
  -- Either a caller asks for an update, or the time is over.
  | .forceUpdateWait, s, r, s' =>
    i = .view ∧ ((∃ n rest, s.queue = n :: rest ∧ r = some n ∧ s' = { s with queue := rest }) ∨
      r = none ∧ s' = s)
  | .forceUpdateReply n, s, _, s' => i = .view ∧ s' = { s with replied := n :: s.replied }
  | .viewSend v, s, r, s' =>
    i = .view ∧ (r = .ok () ∧ s' = s.publish v ∨ (∃ e, r = .error e) ∧ s' = s.die)
  | _, s, _, s' => s' = s

/-- **The operations of a wallet.** -/
def operations : World TaskId Op Op.Ret State where
  exec := exec
  cut i _ s s' := ∃ n, i = .call n ∧ s' = s.abandon n

/-- What the tasks return. -/
inductive Result
  | viewed
  | called (r : Except Error Unit)

/-- The program of a call. -/
def Call.program (J : Serde) (secret : Mnemonic) : Call → Fut Result
  | connectToJoinedFederations =>
    (Wallet.connectToJoinedFederations secret).run.bind fun r => .pure (.called r)
  | setDefaultFederation inviteCode =>
    (Wallet.setDefaultFederation J secret inviteCode).run.bind fun r => .pure (.called r)
  | leaveFederation federationId =>
    (Wallet.leaveFederation federationId).run.bind fun r => .pure (.called r)

/-- **A wallet**: calls start and end, balances change, and the wallet is dropped. -/
def wallet (J : Serde) (secret : Mnemonic) : System TaskId Op Op.Ret Result State where
  toWorld := operations
  spawn i p s s' := ∃ n c, i = .call n ∧ p = Call.program J secret c ∧ n ∉ s.begun ∧
    s' = { s with begun := n :: s.begun }
  env s s' dead := (∃ balance, s' = { s with balance := balance }) ∧ (∀ i, dead i = false) ∨
    s' = s.die ∧ ∀ i, dead i = true

/-- A wallet whose task has just started, with its first iterations. -/
def opened (iterations : ℕ) : Pool TaskId Op Op.Ret Result State where
  st := .fresh
  task i := if i = .view then
    some ((Wallet.viewUpdateTask iterations none).bind fun _ => .pure .viewed) else none

end Vendimint.View
