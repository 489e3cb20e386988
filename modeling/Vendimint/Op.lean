import Vendimint.Async.Pool
import Vendimint.Data

/-! # The operations that machines and managers await

One constructor per call into the file system, the document and blob stores, a claim connection, the
channels and locks between tasks, and the fedimint client; `Op.Ret` is the type of its result. The
programs of `Iroh`, `Wallet`, `Machine` and `Manager` are written over these. -/

namespace Vendimint

open Vendimint.Store Vendimint.Async

inductive Op
  -- the file system
  | createDirAll (p : Path)
  | tryExists (p : Path)
  | pathExists (p : Path)
  | isDir (p : Path)
  | readFile (p : Path)
  | writeFile (p : Path) (contents : Bytes)
  | readDir (p : Path)
  | isFile (p : Path)
  | removeDirAll (p : Path)
  -- start-up of a device
  | fillBytes
  | endpointBind (secret : SecretKey)
  | blobsLoad
  | docsSpawn
  | routerSpawn (secret : SecretKey) (owner : Option EndpointId)
  -- documents and blobs
  | docsCreate
  | docsOpen (id : NamespaceId)
  | docsImport (ticket : DocTicket)
  | authorDefault
  | docShare (doc : NamespaceId)
  | docSetBytes (doc : NamespaceId) (author : AuthorId) (key value : Bytes)
  | docDel (doc : NamespaceId) (author : AuthorId) (key : Bytes)
  | docGetOne (doc : NamespaceId) (key : Bytes)
  | docGetMany (doc : NamespaceId) (keyPrefix : Bytes)
  | blobsGetBytes (hash : Bytes)
  -- the lock on the owner of a machine
  | ownerLock
  | ownerSet (owner : EndpointId)
  | ownerUnlock
  -- the receiver of the claim requests of a machine
  | receiverLock
  | claimRequestRecv
  -- a claim connection
  | exportKeyingMaterial
  | claimRequestSend (pin : ClaimPin)
  | answer
  | acceptBi
  | openBi
  | readToEnd (limit : ℕ)
  | writeAll (contents : Bytes)
  | finish
  | stopped
  | sendShutdown
  | close (reason : String)
  -- the locks and the clients of a wallet
  | clientsRead
  | clientsWrite
  | clientsRelease
  | dataDirLock
  | dataDirRelease
  | clientsContains (id : FederationId)
  | clientsInsert (id : FederationId)
  | clientsRemove (id : FederationId)
  | forceUpdateSend
  | forceUpdateRecv
  -- the task that updates the view of a wallet: `caller` stands for the sender of a reply
  | forceUpdateWait
  | forceUpdateReply (caller : ℕ)
  | viewSend (view : WalletView)
  | clientsIter
  | clientConfig (id : FederationId)
  -- building a client
  | mnemonicGenerate
  | dbOpen (id : FederationId)
  | dbIsInitialized (id : FederationId)
  | clientBuilder
  | clientConnectors
  | clientOpen (id : FederationId) (secret : Mnemonic)
  | clientPreview (invite : InviteCode)
  | clientJoin (invite : InviteCode) (secret : Mnemonic)
  | clientBalance (id : FederationId)
  | clientShutdown (id : FederationId)
  -- the lightning module of a client
  | lnPublicKey (id : FederationId)
  | lnRemoteReceive (id : FederationId) (claimerPk : PublicKey) (request : InvoiceRequest)
  | lnGetClaimableContracts (id : FederationId) (claimerPk : PublicKey) (limit : Option ℕ)
  | lnRemoveClaimedContracts (id : FederationId) (contractIds : List ContractId)
  | lnClaimContracts (id : FederationId) (contracts : List ClaimableContract)
  | lnAwaitRemoteReceive (id : FederationId) (operationId : OperationId)
  -- operations and notes of a client
  | clientOperationExists (id : FederationId) (operationId : OperationId)
  | mintTotalAmount (id : FederationId)
  | mintSpendNotes (id : FederationId) (amount : ℕ)
  -- the iteration order of a hash map with these keys
  | hashOrder (keys : List EndpointId)
  deriving DecidableEq

/-- The results of the operations. -/
@[reducible] def Op.Ret : Op → Type
  | createDirAll _ | writeFile _ _ | removeDirAll _ => Except Error Unit
  | tryExists _ | isFile _ => Except Error Bool
  | pathExists _ | isDir _ => Bool
  | readFile _ => Except Error Bytes
  | readDir _ => Except Error (List FileName)
  | fillBytes => BytesN 32
  | endpointBind _ | blobsLoad | docsSpawn => Except Error Unit
  | routerSpawn _ _ => Unit
  | docsCreate => Except Error NamespaceId
  | docsOpen _ => Except Error (Option NamespaceId)
  | docsImport _ => Except Error Unit
  | authorDefault => Except Error AuthorId
  | docShare _ => Except Error DocTicket
  | docSetBytes _ _ _ _ | docDel _ _ _ => Except Error Unit
  | docGetOne _ _ => Except Error (Option (Entry AuthorId))
  | docGetMany _ _ => Except Error (List (Except Error (Entry AuthorId)))
  | blobsGetBytes _ => Except Error Bytes
  | ownerLock => Option EndpointId
  | ownerSet _ | ownerUnlock => Unit
  | receiverLock => Unit
  | claimRequestRecv => Option ClaimPin
  | exportKeyingMaterial => BytesN 32
  | claimRequestSend _ => Except Error Unit
  | answer => Option Bool
  | acceptBi | openBi | writeAll _ | finish | stopped | sendShutdown => Except Error Unit
  | readToEnd _ => Except Error Bytes
  | close _ => Unit
  | clientsRead | clientsWrite | clientsRelease | dataDirLock | dataDirRelease => Unit
  | clientsContains _ | clientsRemove _ => Bool
  | clientsInsert _ => Unit
  | forceUpdateSend | forceUpdateRecv => Except Error Unit
  | forceUpdateWait => Option ℕ
  | forceUpdateReply _ => Unit
  | viewSend _ => Except Error Unit
  | clientsIter => List FederationId
  | clientConfig _ => Option String
  | mnemonicGenerate => Mnemonic
  | dbOpen _ => Except Error Unit
  | dbIsInitialized _ => Bool
  | clientBuilder | clientConnectors | clientOpen _ _ | clientPreview _ | clientJoin _ _ =>
    Except Error Unit
  | clientBalance _ => Except Error ℕ
  | clientShutdown _ => Unit
  | lnPublicKey _ => PublicKey
  | lnRemoteReceive _ _ _ => Except Error OperationId
  | lnGetClaimableContracts _ _ _ => List ClaimableContract
  | lnRemoveClaimedContracts _ _ => Unit
  | lnClaimContracts _ _ => Except Error Unit
  | lnAwaitRemoteReceive _ _ => Except Error Bytes
  | clientOperationExists _ _ => Bool
  | mintTotalAmount _ => ℕ
  | mintSpendNotes _ _ => Except Error Bytes
  | hashOrder _ => List EndpointId

/-- The operation succeeded. -/
def Op.Succeeds : (op : Op) → op.Ret → Prop
  | createDirAll _, r => ∃ a, r = .ok a
  | tryExists _, r => ∃ a, r = .ok a
  | readFile _, r => ∃ a, r = .ok a
  | writeFile _ _, r => ∃ a, r = .ok a
  | readDir _, r => ∃ a, r = .ok a
  | isFile _, r => ∃ a, r = .ok a
  | removeDirAll _, r => ∃ a, r = .ok a
  | endpointBind _, r => ∃ a, r = .ok a
  | blobsLoad, r => ∃ a, r = .ok a
  | docsSpawn, r => ∃ a, r = .ok a
  | docsCreate, r => ∃ a, r = .ok a
  | docsOpen _, r => ∃ a, r = .ok (some a)
  | docsImport _, r => ∃ a, r = .ok a
  | authorDefault, r => ∃ a, r = .ok a
  | docShare _, r => ∃ a, r = .ok a
  | docSetBytes _ _ _ _, r => ∃ a, r = .ok a
  | docDel _ _ _, r => ∃ a, r = .ok a
  | docGetOne _ _, r => ∃ a, r = .ok a
  | docGetMany _ _, r => ∃ a, r = .ok a
  | blobsGetBytes _, r => ∃ a, r = .ok a
  | claimRequestSend _, r => ∃ a, r = .ok a
  | acceptBi, r => ∃ a, r = .ok a
  | openBi, r => ∃ a, r = .ok a
  | readToEnd _, r => ∃ a, r = .ok a
  | writeAll _, r => ∃ a, r = .ok a
  | finish, r => ∃ a, r = .ok a
  | stopped, r => ∃ a, r = .ok a
  | sendShutdown, r => ∃ a, r = .ok a
  | forceUpdateSend, r => ∃ a, r = .ok a
  | forceUpdateRecv, r => ∃ a, r = .ok a
  | dbOpen _, r => ∃ a, r = .ok a
  | clientBuilder, r => ∃ a, r = .ok a
  | clientConnectors, r => ∃ a, r = .ok a
  | clientOpen _ _, r => ∃ a, r = .ok a
  | clientPreview _, r => ∃ a, r = .ok a
  | clientJoin _ _, r => ∃ a, r = .ok a
  | clientBalance _, r => ∃ a, r = .ok a
  | lnRemoteReceive _ _ _, r => ∃ a, r = .ok a
  | lnClaimContracts _ _, r => ∃ a, r = .ok a
  | viewSend _, r => ∃ a, r = .ok a
  | lnAwaitRemoteReceive _ _, r => ∃ a, r = .ok a
  | mintSpendNotes _ _, r => ∃ a, r = .ok a
  | _, _ => True

/-- Asynchronous functions of the code. -/
abbrev Fut (α : Type) := Prog Op Op.Ret α

/-- Asynchronous functions of the code that may fail. -/
abbrev FutResult (α : Type) := Fallible Op Op.Ret Error α

/-- Await an operation. -/
def call (op : Op) : Fut op.Ret := Prog.call op

/-- Await an operation that cannot fail, or whose result is inspected. -/
def await (op : Op) : FutResult op.Ret := liftM (call op)

/-- Await a function and return its error, if any: `.await?`. -/
def attempt {α : Type} (p : Fut (Except Error α)) : FutResult α := Fallible.of p

/-- `x`, then `op` on every way out: a guard that is dropped at the end of its scope. -/
def guarded {α : Type} (x : FutResult α) (op : Op) : FutResult α :=
  attempt (x.run.bind fun r => (call op).bind fun _ => .pure r)

@[simp] theorem call_eq (op : Op) : call op = Prog.await op .pure := rfl

@[simp] theorem await_eq (op : Op) : await op = Fallible.of (.await op fun r => .pure (.ok r)) := rfl

@[simp] theorem run_attempt {α : Type} (p : Fut (Except Error α)) : (attempt p).run = p := rfl

@[simp] theorem run_guarded {α : Type} (x : FutResult α) (op : Op) :
    (guarded x op).run = x.run.bind fun r => Prog.await op fun _ => .pure r := rfl

/-- A run that starts with the operation `op`, its result `r` and the state `s'`. -/
theorem runs_next {ι S α : Type} {W : World ι Op Op.Ret S} {i : ι} {E : S → S → Prop} (op : Op)
    (r : op.Ret) {k : op.Ret → Fut α} {s : S} (s' : S) {s'' : S} {o : Outcome α}
    (he : W.exec i op s r s') (h : Runs W i E (k r) s' o s'') : Runs W i E (.await op k) s o s'' :=
  .step he h

/-- The same, for the beginning of a run. -/
theorem begins_next {ι S α : Type} {W : World ι Op Op.Ret S} {i : ι} (op : Op) (r : op.Ret)
    {k : op.Ret → Fut α} {q : Fut α} {s : S} (s' : S) {s'' : S} (he : W.exec i op s r s')
    (h : Begins W i (k r) s' q s'') : Begins W i (.await op k) s q s'' :=
  .step he h

end Vendimint
