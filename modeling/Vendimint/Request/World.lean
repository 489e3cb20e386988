import Vendimint.Async.Pool
import Vendimint.Iroh.Machine

/-! # Claim requests between the handlers of a machine and its application

One machine with any number of claim connections, each served by `accept`, and any number of calls of
`await_next_incoming_claim_request`. A handler holds the lock on the owner while its request is in
the channel, which has room for one, and while it waits for the answer; a call holds the lock on the
receiver while it waits for a request. Any other step of a handler may fail or answer anything.

A shutdown begins (`stopping`): no connection is accepted any more and the handlers are dropped one
by one. When it is complete (`down`) no handler is left, and with the handlers go all senders of the
channel. A call may be dropped at any time. -/

namespace Vendimint.Request

open Vendimint.Store Vendimint.Async

/-- A claim connection. -/
structure Conn where
  manager : EndpointId
  n : ℕ
  deriving DecidableEq

/-- The tasks: the handlers of connections, and the calls for the next request. -/
inductive TaskId
  | accept (c : Conn)
  | next (n : ℕ)
  deriving DecidableEq

/-- The machine: its owner, who holds the lock on it, the requests in the channel, the call that
holds the lock on the receiver, and how far a shutdown has come. -/
structure State where
  owner : Option EndpointId
  lock : Option Conn
  unread : List (Conn × ClaimPin)
  receiver : Option ℕ
  stopping : Bool
  down : Bool

/-- A machine that has just started. -/
def State.started (owner : Option EndpointId) : State := ⟨owner, none, [], none, false, false⟩

/-- The guards of the task `i` are dropped. -/
def State.release (s : State) : TaskId → State
  | .accept c => { s with lock := if s.lock = some c then none else s.lock }
  | .next n => { s with receiver := if s.receiver = some n then none else s.receiver }

/-- What the operations of the task `i` do. -/
def exec (i : TaskId) : (op : Op) → State → op.Ret → State → Prop
  | .ownerLock, s, r, s' =>
    s.lock = none ∧ r = s.owner ∧ ∃ c, i = .accept c ∧ s' = { s with lock := some c }
  | .ownerUnlock, s, _, s' => s' = { s with lock := none }
  | .ownerSet M, s, _, s' => s' = { s with owner := some M }
  | .claimRequestSend pin, s, r, s' =>
    r = .ok () ∧ s.unread = [] ∧ (∃ c, i = .accept c ∧ s' = { s with unread := [(c, pin)] }) ∨
      r ≠ .ok () ∧ s' = s
  -- The sender of the answer is in the channel until the request is received.
  | .answer, s, _, s' => s' = s ∧ ∀ c, i = .accept c → ∀ q ∈ s.unread, q.1 ≠ c
  -- The code unwraps the document: the panic drops the guard.
  | .docsOpen _, s, r, s' => r = .ok none ∧ s' = s.release i ∨ r ≠ .ok none ∧ s' = s
  | .receiverLock, s, _, s' =>
    s.receiver = none ∧ ∃ n, i = .next n ∧ s' = { s with receiver := some n }
  | .claimRequestRecv, s, r, s' =>
    (∃ n, i = .next n) ∧ ((∃ q rest, s.unread = q :: rest ∧ r = some q.2 ∧
        s' = { s with unread := rest, receiver := none }) ∨
      s.unread = [] ∧ s.down = true ∧ r = none ∧ s' = { s with receiver := none })
  | _, s, _, s' => s' = s

/-- **The operations of a machine.** -/
def requests : World TaskId Op Op.Ret State where
  exec := exec
  cut i _ s s' := (∀ c, i = .accept c → s.stopping = true) ∧ s' = s.release i

/-- What the tasks return. -/
inductive Result
  | accepted (r : Except Error Unit)
  | request (r : Option ClaimPin)

/-- The program of a task. -/
def program (J : Serde) : TaskId → Fut Result
  | .accept c => (MachineProtocol.accept J c.manager).run.bind fun r => .pure (.accepted r)
  | .next _ => MachineProtocol.awaitNextIncomingClaimRequest.bind fun r => .pure (.request r)

/-- The handler of a connection. -/
def TaskId.isAccept : TaskId → Bool
  | accept _ => true
  | next _ => false

/-- **A machine**, which may be shut down. -/
def machine (J : Serde) : System TaskId Op Op.Ret Result State where
  toWorld := requests
  spawn i p s s' := (∀ c, i = .accept c → s.stopping = false) ∧ p = program J i ∧ s' = s
  env s s' dead := s' = { s with stopping := true } ∧ (∀ i, dead i = false) ∨
    s.stopping = true ∧ s' = { s with down := true, lock := none } ∧ ∀ i, dead i = i.isAccept

/-! ### The discipline -/

/-- A request in the channel is from the owner, if there is one. -/
def Fresh (s : State) : Prop :=
  ∀ q ∈ s.unread, s.owner = none ∨ s.owner = some q.1.manager

/-- The handler of `c` keeps the lock and the owner, and no request is sent meanwhile. -/
def Keeps (c : Conn) (s s' : State) : Prop :=
  s.lock = some c → s'.lock = some c ∧ s'.owner = s.owner ∧ s'.unread ⊆ s.unread

theorem Keeps.refl (c : Conn) (s : State) : Keeps c s s := fun h => ⟨h, rfl, List.Subset.refl _⟩

theorem Keeps.trans {c : Conn} {s s' t : State} (h : Keeps c s s') (h' : Keeps c s' t) :
    Keeps c s t := by
  intro hs
  obtain ⟨h1, h2, h3⟩ := h hs
  obtain ⟨h1', h2', h3'⟩ := h' h1
  exact ⟨h1', h2'.trans h2, List.Subset.trans h3' h3⟩

/-- Requests are fresh, and a handler that holds the lock is undisturbed. -/
def discipline : Discipline TaskId State where
  inv := Fresh
  rely i s s' := ∀ c, i = .accept c → Keeps c s s'
  guar i s s' := ∀ c, i ≠ .accept c → Keeps c s s'
  rely_refl _ s c _ := .refl c s
  rely_trans h h' c hc := (h c hc).trans (h' c hc)
  compat hne _ _ hg c hc := hg c fun hj => hne (hc.trans hj.symm)

section Rules
variable {i : TaskId} {s s' t : State} {c : Conn} {op : Op} {r : op.Ret} {α : Type}

/-- The operation has to do with the lock, the owner or the channel. -/
def Special : Op → Prop
  | .ownerLock => True
  | .ownerUnlock => True
  | .ownerSet _ => True
  | .claimRequestSend _ => True
  | .answer => True
  | .docsOpen _ => True
  | .receiverLock => True
  | .claimRequestRecv => True
  | _ => False

theorem eq_of_exec (hop : ¬ Special op) (he : exec i op s r s') : s' = s := by
  unfold exec at he
  split at he
  all_goals first | exact he | exact absurd trivial hop

theorem release_ok (hi : Fresh s) (i : TaskId) :
    Fresh (s.release i) ∧ discipline.guar i s (s.release i) := by
  cases i with
  | accept c =>
    refine ⟨hi, fun c' hne hlock => ⟨?_, rfl, List.Subset.refl _⟩⟩
    have hc : s.lock ≠ some c := by
      rw [hlock]
      intro h
      exact hne (congrArg TaskId.accept (Option.some.inj h).symm)
    show (if s.lock = some c then none else s.lock) = some c'
    rw [if_neg hc, hlock]
  | next n => exact ⟨hi, fun c' _ hlock => ⟨hlock, rfl, List.Subset.refl _⟩⟩

theorem guar_refl (i : TaskId) (s : State) : discipline.guar i s s := fun c _ => .refl c s

/-- An operation, at which the task may be dropped. -/
theorem safe_op {k : op.Ret → Fut α} {R : α → State → Prop}
    (h : ∀ t r u, discipline.rely i s t → Fresh t → exec i op t r u →
      Fresh u ∧ discipline.guar i t u ∧ Safe requests discipline i (k r) (Outcome.returns R) u) :
    Safe requests discipline i (.await op k) (Outcome.returns R) s := by
  refine Safe.act fun t ht hi => ⟨fun r u hu => h t r u ht hi hu, fun u hu => ?_⟩
  rw [hu.2]
  exact release_ok hi i

end Rules

end Vendimint.Request
