import Vendimint.Async.Pool
import Vendimint.Wallet
import Mathlib.Data.Finset.Basic
import Mathlib.Data.Finset.Dedup
import Mathlib.Data.Finset.Lattice.Lemmas

/-! # The storage of a wallet

The directory of a wallet holds its mnemonic, the default invitation and one directory per federation,
with the database of its client; the clients themselves are in memory. `wallet` is the semantics of
the operations on these, with two locks between the tasks. If it is `faulty`, an operation may fail
and a task may be dropped at any operation: a file is then left empty or cut short, a directory that
was to be removed is there still, is there without its database, or is gone. A database is created by
a completed join only.

The `log` of a state is a history: what has happened to directories and clients, the newest first. -/

namespace Vendimint.Federation

open Vendimint.Store Vendimint.Async

/-- What happens to the directory of a federation and to its client. -/
inductive Event
  | made (f : FederationId)
  | joined (f : FederationId)
  | inserted (f : FederationId)
  | taken (f : FederationId)
  | deleted (f : FederationId)
  deriving DecidableEq

/-- The federation whose directory was made, if no join was completed since. -/
def opening : List Event → Option FederationId
  | [] => none
  | .made f :: _ => some f
  | .joined _ :: _ => none
  | _ :: log => opening log

/-- The federations that were joined and not left since. -/
def members : List Event → Finset FederationId
  | [] => ∅
  | .joined f :: log => insert f (members log)
  | .deleted f :: log => (members log).erase f
  | _ :: log => members log

/-- The directory, the clients and the locks of a wallet with the tasks `ι`. -/
structure State (ι : Type) where
  dirs : Finset FederationId
  initialized : Finset FederationId
  mnemonicFile : Option Bytes
  defaultFile : Option Bytes
  clients : Finset FederationId
  dirLock : Option ι
  clientsLock : Option ι
  log : List Event

namespace State
variable {ι : Type}

/-- The empty directory. -/
def fresh : State ι := ⟨∅, ∅, none, none, ∅, none, none, []⟩

/-- The directory of `f` is there. -/
def makeDir (s : State ι) (f : FederationId) : State ι :=
  if f ∈ s.dirs then s else { s with dirs := insert f s.dirs, log := .made f :: s.log }

/-- The join of `f` is complete. -/
def join (s : State ι) (f : FederationId) : State ι :=
  { s with initialized := insert f s.initialized, log := .joined f :: s.log }

/-- The client of `f` is put into the map. -/
def insertClient (s : State ι) (f : FederationId) : State ι :=
  { s with clients := insert f s.clients, log := .inserted f :: s.log }

/-- The client of `f` is taken out of the map, if there is one. -/
def takeClient (s : State ι) (f : FederationId) : State ι :=
  if f ∈ s.clients then { s with clients := s.clients.erase f, log := .taken f :: s.log } else s

/-- The directory of `f` is gone. -/
def deleteDir (s : State ι) (f : FederationId) : State ι :=
  { s with
    dirs := s.dirs.erase f
    initialized := s.initialized.erase f
    log := .deleted f :: s.log }

/-- The directory of `f` has lost its database. -/
def spoilDir (s : State ι) (f : FederationId) : State ι :=
  { s with initialized := s.initialized.erase f }

/-- The guards of the task `i` are dropped. -/
def release [DecidableEq ι] (s : State ι) (i : ι) : State ι :=
  { s with
    dirLock := if s.dirLock = some i then none else s.dirLock
    clientsLock := if s.clientsLock = some i then none else s.clientsLock }

/-- The process ends. -/
def crash (s : State ι) : State ι := { s with clients := ∅, dirLock := none, clientsLock := none }

end State

section Semantics
variable {ι : Type} [DecidableEq ι]

/-- The operations of the task `i`. -/
def effect (i : ι) : (op : Op) → State ι → op.Ret → State ι → Prop
  | .dataDirLock, s, _, s' => s.dirLock = none ∧ s' = { s with dirLock := some i }
  | .dataDirRelease, s, _, s' => s' = { s with dirLock := none }
  | .clientsWrite, s, _, s' => s.clientsLock = none ∧ s' = { s with clientsLock := some i }
  | .clientsRelease, s, _, s' => s' = { s with clientsLock := none }
  | .createDirAll _, s, r, s' => s' = s ∧ r = .ok ()
  | .tryExists .mnemonic, s, r, s' => s' = s ∧ r = .ok s.mnemonicFile.isSome
  | .pathExists .defaultFederation, s, r, s' => s' = s ∧ r = s.defaultFile.isSome
  | .readFile .mnemonic, s, r, s' => s' = s ∧ r = s.mnemonicFile.elim (.error notFound) .ok
  | .readFile .defaultFederation, s, r, s' => s' = s ∧ r = s.defaultFile.elim (.error notFound) .ok
  | .writeFile .mnemonic b, s, r, s' => s' = { s with mnemonicFile := some b } ∧ r = .ok ()
  | .writeFile .defaultFederation b, s, r, s' => s' = { s with defaultFile := some b } ∧ r = .ok ()
  | .readDir .clientsDataDir, s, r, s' =>
    s' = s ∧ ∃ l, r = .ok l ∧ ∀ f, .federation f ∈ l ↔ f ∈ s.dirs
  | .isDir (.federationDir f), s, r, s' => s' = s ∧ r = decide (f ∈ s.dirs)
  | .removeDirAll (.federationDir f), s, r, s' => s' = s.deleteDir f ∧ r = .ok ()
  | .dbOpen f, s, r, s' => s' = s.makeDir f ∧ r = .ok ()
  | .dbIsInitialized f, s, r, s' => s' = s ∧ r = decide (f ∈ s.initialized)
  | .forceUpdateSend, s, r, s' => s' = s ∧ r = .ok ()
  | .forceUpdateRecv, s, r, s' => s' = s ∧ r = .ok ()
  | .clientBuilder, s, r, s' => s' = s ∧ r = .ok ()
  | .clientConnectors, s, r, s' => s' = s ∧ r = .ok ()
  | .clientPreview _, s, r, s' => s' = s ∧ r = .ok ()
  | .clientOpen _ _, s, r, s' => s' = s ∧ r = .ok ()
  | .clientJoin invite _, s, r, s' => s' = s.join invite.federationId ∧ r = .ok ()
  | .clientsContains f, s, r, s' => s' = s ∧ r = decide (f ∈ s.clients)
  | .clientsInsert f, s, _, s' => s' = s.insertClient f
  | .clientsRemove f, s, r, s' => s' = s.takeClient f ∧ r = decide (f ∈ s.clients)
  | _, s, _, s' => s' = s

/-- What an operation may leave when it fails, or when its task is dropped. -/
def damage : Op → State ι → State ι → Prop
  | .dbOpen f, s, s' => s' = s ∨ s' = s.makeDir f
  | .removeDirAll (.federationDir f), s, s' => s' = s ∨ s' = s.spoilDir f ∨ s' = s.deleteDir f
  | .writeFile .mnemonic b, s, s' => s' = s ∨ ∃ l, l <+: b ∧ s' = { s with mnemonicFile := some l }
  | .writeFile .defaultFederation b, s, s' =>
    s' = s ∨ ∃ l, l <+: b ∧ s' = { s with defaultFile := some l }
  | _, s, s' => s' = s

/-- **The wallet.** -/
def wallet (faulty : Prop) : World ι Op Op.Ret (State ι) where
  exec i op s r s' := effect i op s r s' ∨ faulty ∧ ¬ op.Succeeds r ∧ damage op s s'
  cut i op s s' := faulty ∧ ∃ t, damage op s t ∧ s' = t.release i

/-- An operation without faults. -/
theorem wallet_exec_iff {i : ι} {op : Op} {s s' : State ι} {r : op.Ret} :
    (wallet False).exec i op s r s' ↔ effect i op s r s' :=
  ⟨fun h => h.resolve_right fun h => h.1, Or.inl⟩

/-- No task is dropped without faults. -/
theorem wallet_not_cut {i : ι} {op : Op} {s s' : State ι} : ¬ (wallet False).cut i op s s' :=
  fun h => h.1

/-- An operation without faults that has one result. -/
theorem ensures_next {α : Type} {i : ι} {op : Op} {k : op.Ret → Fut α}
    {Q : Outcome α → State ι → Prop} {s : State ι} (r : op.Ret) (s' : State ι)
    (he : effect i op s r s') (hdet : ∀ r' t, effect i op s r' t → r' = r ∧ t = s')
    (h : Ensures (wallet False) i (k r) Q s') : Ensures (wallet False) i (.await op k) Q s :=
  .next r s' (Or.inl he) (fun r' t ht => hdet r' t (wallet_exec_iff.mp ht)) (fun _ => wallet_not_cut) h

end Semantics

end Vendimint.Federation
