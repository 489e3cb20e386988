import Vendimint.Async.Lock
import Vendimint.View.World
import Mathlib.Data.Finset.Basic

/-! # The locks of a wallet

Any number of calls of a wallet run beside the task that updates its view. The mutex on the data
directory and the lock on the map of clients are handed out in the order in which tasks ask for them,
and a task waits for a place in the channel of the callers and for its reply. Any step of a call may
fail, with or without its effect; a call may be dropped at any time, and a task that panics is unwound:
its guards and its places in the queues go with it. When the task that updates the view is gone,
everybody who waits for it is told.

`WaitsFor P i j` says that, in the pool `P`, the task `i` waits for something that only `j` can give. -/

namespace Vendimint.Lock

open Vendimint.Store Vendimint.Async
open Vendimint.View (TaskId capacity)

/-- The modes of the lock on the clients. -/
inductive Mode
  | read
  | write
  deriving DecidableEq

/-- Two modes in which not both of two tasks may hold the lock. -/
def Mode.Conflict : Mode → Mode → Prop
  | read, read => False
  | _, _ => True

/-- No two tasks may hold a mutex. -/
def Exclusive (_ _ : Unit) : Prop := True

/-- The locks of a wallet, the federations whose clients are in the map, those that have a directory,
the channel of the callers that ask for a view, and the callers that have their reply. -/
structure State where
  dataDir : FairLock TaskId Unit
  clients : FairLock TaskId Mode
  connected : Finset FederationId
  dirs : Finset FederationId
  queue : List ℕ
  replied : List ℕ
  alive : Bool
  begun : List ℕ

namespace State

/-- A wallet that nobody uses: it is connected to some of the federations that have a directory. -/
def idle (connected others : Finset FederationId) : State where
  dataDir := .free
  clients := .free
  connected := connected
  dirs := connected ∪ others
  queue := []
  replied := []
  alive := true
  begun := []

variable (s : State)

/-- There is a directory for the database of `f`. -/
def makeDir (f : FederationId) : State := { s with dirs := insert f s.dirs }

/-- The directory of `f` is removed. -/
def removeDir (f : FederationId) : State := { s with dirs := s.dirs.erase f }

/-- The guards of the task `i` are dropped with it, and its places in the queues. -/
def abandon (i : TaskId) : State :=
  { s with dataDir := s.dataDir.leave i, clients := s.clients.leave i }

/-- The task `i` has panicked; if it is the one that updates the view, it is gone for its callers. -/
def unwind (i : TaskId) : State :=
  { s.abandon i with alive := s.alive && decide (i ≠ .view) }

/-- The wallet is dropped. -/
def dropped : State := { s with dataDir := .free, clients := .free, alive := false }

end State

/-- What the operations of the task `i` do. -/
def exec (i : TaskId) : (op : Op) → State → op.Ret → State → Prop
  | .dataDirLock, s, _, s' =>
    ∃ L, FairLock.Grants Exclusive i () s.dataDir L ∧ s' = { s with dataDir := L }
  | .dataDirRelease, s, _, s' => s' = { s with dataDir := s.dataDir.release i }
  | .clientsRead, s, _, s' =>
    ∃ L, FairLock.Grants Mode.Conflict i .read s.clients L ∧ s' = { s with clients := L }
  | .clientsWrite, s, _, s' =>
    ∃ L, FairLock.Grants Mode.Conflict i .write s.clients L ∧ s' = { s with clients := L }
  | .clientsRelease, s, _, s' => s' = { s with clients := s.clients.release i }
  | .clientsContains f, s, r, s' => s' = s ∧ r = decide (f ∈ s.connected)
  | .clientsInsert f, s, _, s' => s' = { s with connected := insert f s.connected }
  | .clientsRemove f, s, r, s' =>
    s' = { s with connected := s.connected.erase f } ∧ r = decide (f ∈ s.connected)
  | .clientsIter, s, r, s' => s' = s ∧ r.Nodup ∧ r.toFinset = s.connected
  | .isDir (.federationDir f), s, r, s' => s' = s ∧ r = decide (f ∈ s.dirs)
  | .readDir .clientsDataDir, s, r, s' =>
    s' = s ∧ ∀ l, r = .ok l → ∀ f, .federation f ∈ l ↔ f ∈ s.dirs
  | .dbOpen f, s, r, s' => r = .ok () ∧ s' = s.makeDir f ∨
    (∃ e, r = .error e) ∧ (s' = s ∨ s' = s.makeDir f)
  | .removeDirAll (.federationDir f), s, r, s' => r = .ok () ∧ s' = s.removeDir f ∨
    (∃ e, r = .error e) ∧ (s' = s ∨ s' = s.removeDir f)
  | .forceUpdateSend, s, r, s' =>
    r = .ok () ∧ s.alive = true ∧ s.queue.length < capacity ∧
      (∃ n, i = .call n ∧ s' = { s with queue := s.queue ++ [n] }) ∨
    (∃ e, r = .error e) ∧ s.alive = false ∧ s' = s
  | .forceUpdateRecv, s, r, s' =>
    s' = s ∧ (r = .ok () ∧ (∃ n, i = .call n ∧ n ∈ s.replied) ∨
      (∃ e, r = .error e) ∧ s.alive = false)
  -- Either a caller asks for an update, or the time is over.
  | .forceUpdateWait, s, r, s' =>
    i = .view ∧ ((∃ n rest, s.queue = n :: rest ∧ r = some n ∧ s' = { s with queue := rest }) ∨
      r = none ∧ s' = s)
  | .forceUpdateReply n, s, _, s' => i = .view ∧ s' = { s with replied := n :: s.replied }
  -- The task ends when nobody receives its views.
  | .viewSend _, s, r, s' =>
    i = .view ∧ (r = .ok () ∧ s' = s ∨ (∃ e, r = .error e) ∧ s' = { s with alive := false })
  | _, s, _, s' => s' = s

/-- What a task asks for before it does an operation: a place in the queue of a lock. -/
def ask (i : TaskId) : Op → State → State → Prop
  | .dataDirLock, s, s' => i ∉ s.dataDir.waiting ∧ s' = { s with dataDir := s.dataDir.ask i () }
  | .clientsRead, s, s' => i ∉ s.clients.waiting ∧ s' = { s with clients := s.clients.ask i .read }
  | .clientsWrite, s, s' => i ∉ s.clients.waiting ∧ s' = { s with clients := s.clients.ask i .write }
  | _, _, _ => False

/-- What may be left of an operation at which its task is dropped. -/
def left : Op → State → State → Prop
  | .dbOpen f, s, s' => s' = s ∨ s' = s.makeDir f
  | .removeDirAll (.federationDir f), s, s' => s' = s ∨ s' = s.removeDir f
  | _, s, s' => s' = s

/-- **The operations of a wallet.** -/
def operations : World TaskId Op Op.Ret State where
  exec := exec
  cut i op s s' := ∃ n t, i = .call n ∧ left op s t ∧ s' = t.abandon i

/-- The operations that may be under way beside the task that updates the view. -/
inductive Call
  | setDefaultFederation (inviteCode : InviteCode)
  | getDefaultFederation
  | leaveFederation (federationId : FederationId)
  | connectToJoinedFederations
  | getLnv2ClaimPubkey (federationId : FederationId)
  | receivePayment (federationId : FederationId) (claimerPk : PublicKey) (request : InvoiceRequest)
  | awaitReceivePaymentFinalState (operationId : OperationId)
  | getLocalBalance
  | sweepAllEcashNotes (federationId : FederationId)
  | getClaimableContracts (federationId : FederationId) (claimerPk : PublicKey) (limitOr : Option ℕ)
  | removeClaimedContracts (federationId : FederationId) (contractIds : List ContractId)
  | claimContracts (federationId : FederationId) (claimableContracts : List ClaimableContract)

/-- The program, with its value dropped. -/
def ended {α : Type} (p : Fut α) : Fut Unit := p.bind fun _ => .pure ()

/-- The program of a call. -/
def Call.program (J : Serde) (secret : Mnemonic) : Call → Fut Unit
  | setDefaultFederation inviteCode => ended (Wallet.setDefaultFederation J secret inviteCode).run
  | getDefaultFederation => ended (Wallet.getDefaultFederation J).run
  | leaveFederation federationId => ended (Wallet.leaveFederation federationId).run
  | connectToJoinedFederations => ended (Wallet.connectToJoinedFederations secret).run
  | getLnv2ClaimPubkey federationId => ended (Wallet.getLnv2ClaimPubkey federationId)
  | receivePayment federationId claimerPk request =>
    ended (Wallet.receivePayment federationId claimerPk request).run
  | awaitReceivePaymentFinalState operationId =>
    ended (Wallet.awaitReceivePaymentFinalState operationId).run
  | getLocalBalance => ended Wallet.getLocalBalance
  | sweepAllEcashNotes federationId => ended (Wallet.sweepAllEcashNotes federationId).run
  | getClaimableContracts federationId claimerPk limitOr =>
    ended (Wallet.getClaimableContracts federationId claimerPk limitOr)
  | removeClaimedContracts federationId contractIds =>
    ended (Wallet.removeClaimedContracts federationId contractIds)
  | claimContracts federationId claimableContracts =>
    ended (Wallet.claimContracts federationId claimableContracts).run

/-- **A wallet**: calls start and end, and the wallet is dropped. -/
def wallet (J : Serde) (secret : Mnemonic) : Queued TaskId Op Op.Ret Unit State where
  toWorld := operations
  spawn i p s s' := ∃ n c, i = .call n ∧ p = Call.program J secret c ∧ n ∉ s.begun ∧
    s' = { s with begun := n :: s.begun }
  env s s' dead := s' = s.dropped ∧ ∀ i, dead i = true
  ask := ask
  unwind i s s' := s' = s.unwind i

/-- The tasks of a wallet. -/
abbrev Tasks := Pool TaskId Op Op.Ret Unit State

/-- A wallet whose task has just started, with its first iterations. -/
def opened (iterations : ℕ) (connected others : Finset FederationId) : Tasks where
  st := .idle connected others
  task i := if i = .view then some (Wallet.viewUpdateTask iterations none) else none

/-! ### Waiting -/

/-- **The task `i` waits for the task `j`**: for a lock that `j` holds or has asked for before, or, as a
caller of `forceUpdateView`, for the task that updates the view. -/
inductive WaitsFor (P : Tasks) : TaskId → TaskId → Prop
  | dataDir {i j : TaskId} : P.st.dataDir.Blocks Exclusive j i → WaitsFor P i j
  | clients {i j : TaskId} : P.st.clients.Blocks Mode.Conflict j i → WaitsFor P i j
  | send {i : TaskId} {k : Op.forceUpdateSend.Ret → Fut Unit} :
      P.task i = some (.await .forceUpdateSend k) → P.st.alive = true →
      capacity ≤ P.st.queue.length → WaitsFor P i .view
  | reply {i : TaskId} {k : Op.forceUpdateRecv.Ret → Fut Unit} :
      P.task i = some (.await .forceUpdateRecv k) → P.st.alive = true →
      (∀ n ∈ P.st.replied, i ≠ .call n) → WaitsFor P i .view

/-- There is a cycle of tasks each of which waits for the next. -/
def Deadlocked (P : Tasks) : Prop := ∃ i, Relation.TransGen (WaitsFor P) i i

/-- The task `i` does not wait for another one at the operation, now or later. -/
def Passes (s : State) (i : TaskId) : Op → Prop
  | .clientsRead | .clientsWrite => False
  | .forceUpdateSend => s.alive = false
  | .forceUpdateRecv => s.alive = false ∨ ∃ n ∈ s.replied, i = .call n
  | _ => True

/-- If the task `i` asks for the mutex while it holds the clients, then nobody who holds the mutex or
has asked for it may still have to wait for the clients or for the view. -/
def Clear (P : Tasks) (i : TaskId) (op : Op) : Prop :=
  op = .dataDirLock → P.st.clients.Holds i → ∀ j p, P.st.dataDir.Holds j ∨ j ∈ P.st.dataDir.waiting →
    P.task j = some p → p.Uses (Passes P.st j)

end Vendimint.Lock
