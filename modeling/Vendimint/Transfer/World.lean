import Vendimint.Async.Pool
import Vendimint.Machine
import Vendimint.Manager

/-! # The devices that a payment passes

A payment is recorded by the wallet of a machine, written to the machine's replica of its document,
replicated to the manager, claimed by the manager's wallet, and removed from the document. `State` is
the state of any number of machines and of their manager; `system` is its semantics:

* the tasks are passes of machines (`makeCompletedPaymentsSyncable`), passes of the manager
  (`sweepPayments`) and its queries (`getClaimableContracts`), any number at a time;
* an operation that may fail may fail, with or without its effect, and a task may be dropped at any
  operation, with or without its effect;
* the environment funds contracts, replicates records, writes configurations and entries of the
  key/value store, and restarts devices.

`docOf` gives the document of each machine, which does not change. `clock` relates the time stamp of
each write of a device to that of the write before. -/

namespace Vendimint.Transfer

open Vendimint.Store Vendimint.Async Vendimint.ManagerProtocol Vendimint.SharedProtocol

/-! ### State -/

/-- The claimable contracts of a client, one per identity. -/
structure Client where
  contracts : List ClaimableContract
  nodup : (contracts.map fun c => c.contract.contractId).Nodup

namespace Client

/-- The client of a federation that was just joined. -/
def empty : Client := ⟨[], List.nodup_nil⟩

/-- A contract is funded. -/
def record (w : Client) (c : ClaimableContract) : Client :=
  if h : c.contract.contractId ∈ w.contracts.map fun c => c.contract.contractId then w
  else ⟨c :: w.contracts, by rw [List.map_cons, List.nodup_cons]; exact ⟨h, w.nodup⟩⟩

/-- Contracts are removed. -/
def remove (w : Client) (ids : List ContractId) : Client :=
  ⟨w.contracts.filter fun c => c.contract.contractId ∉ ids,
    w.nodup.sublist (List.filter_sublist.map _)⟩

theorem mem_remove {w : Client} {ids : List ContractId} {c : ClaimableContract} :
    c ∈ (w.remove ids).contracts ↔ c ∈ w.contracts ∧ c.contract.contractId ∉ ids := by
  simp [remove]

theorem mem_record_of_mem {w : Client} {c c' : ClaimableContract} (h : c' ∈ w.contracts) :
    c' ∈ (w.record c).contracts := by
  unfold record
  split_ifs
  · exact h
  · exact List.mem_cons_of_mem _ h

/-- A client has one contract per identity. -/
theorem eq_of_id {w : Client} {c c' : ClaimableContract} (h : c ∈ w.contracts)
    (h' : c' ∈ w.contracts) (hid : c.contract.contractId = c'.contract.contractId) : c = c' :=
  List.inj_on_of_nodup_map w.nodup h h' hid

/-- After a contract was funded, there is one with its identity. -/
theorem exists_mem_record (w : Client) (c : ClaimableContract) :
    ∃ c' ∈ (w.record c).contracts, c'.contract.contractId = c.contract.contractId := by
  unfold record
  split_ifs with h
  · obtain ⟨c', hc', hid⟩ := List.mem_map.mp h
    exact ⟨c', hc', hid⟩
  · exact ⟨c, by simp, rfl⟩

end Client

/-- The machines and their manager. The last three fields are a history: the contracts that the
wallets of the machines recorded, those that the manager's wallet accepted, and the time stamp of the
last write. -/
structure State where
  wallet : EndpointId → FederationId → Client
  atMachine : NamespaceId → Replica AuthorId
  atManager : NamespaceId → Replica AuthorId
  recorded : List (EndpointId × FederationId × ContractId)
  accepted : List (FederationId × ContractId)
  now : ℕ

namespace State

/-- Nothing has happened yet. -/
def init : State := ⟨fun _ _ => .empty, fun _ => .empty, fun _ => .empty, [], [], 0⟩

/-- The wallet of `m` records a funded contract. -/
def fund (s : State) (m : EndpointId) (f : FederationId) (c : ClaimableContract) : State :=
  { s with
    wallet := Function.update s.wallet m (Function.update (s.wallet m) f ((s.wallet m f).record c))
    recorded := (m, f, c.contract.contractId) :: s.recorded }

/-- The wallet of `m` forgets contracts. -/
def forget (s : State) (m : EndpointId) (f : FederationId) (ids : List ContractId) : State :=
  { s with
    wallet := Function.update s.wallet m (Function.update (s.wallet m) f ((s.wallet m f).remove ids)) }

/-- The manager's wallet accepts contracts. -/
def accept (s : State) (f : FederationId) (cs : List ClaimableContract) : State :=
  { s with accepted := cs.map (fun c => (f, c.contract.contractId)) ++ s.accepted }

/-- The machine's replica of a document becomes `R`. -/
def setMachine (s : State) (d : NamespaceId) (R : Replica AuthorId) : State :=
  { s with atMachine := Function.update s.atMachine d R }

/-- The manager's replica of a document becomes `R`. -/
def setManager (s : State) (d : NamespaceId) (R : Replica AuthorId) : State :=
  { s with atManager := Function.update s.atManager d R }

@[simp] theorem setMachine_atMachine (s : State) (d : NamespaceId) (R : Replica AuthorId) :
    (s.setMachine d R).atMachine = Function.update s.atMachine d R := rfl

@[simp] theorem setManager_atManager (s : State) (d : NamespaceId) (R : Replica AuthorId) :
    (s.setManager d R).atManager = Function.update s.atManager d R := rfl

end State

/-! ### Operations -/

section Semantics
variable (J : Serde) (docOf : EndpointId → NamespaceId) (clock : ℕ → ℕ → Prop)

/-- A device writes a record to a machine's replica. -/
def MachinePut (d : NamespaceId) (a : AuthorId) (k v : Bytes) (s s' : State) : Prop :=
  ∃ t R, clock s.now t ∧ (s.atMachine d).put ⟨a, k, t, v⟩ = some R ∧
    s' = State.setMachine { s with now := t } d R

/-- A device writes a record to a manager's replica. -/
def ManagerPut (d : NamespaceId) (a : AuthorId) (k v : Bytes) (s s' : State) : Prop :=
  ∃ t R, clock s.now t ∧ (s.atManager d).put ⟨a, k, t, v⟩ = some R ∧
    s' = State.setManager { s with now := t } d R

/-- The operations of the machine `m`. -/
def machineExec (m : EndpointId) : (op : Op) → State → op.Ret → State → Prop
  | .readFile .docTicket, s, r, s' =>
    s' = s ∧ ∀ t, MachineProtocol.ticketOf J r = some t → t.capability.id = docOf m
  | .docsCreate, s, r, s' => s' = s ∧ ∀ d, r = .ok d → d = docOf m
  | .docsOpen id, s, r, s' => s' = s ∧ ∀ d, r = .ok (some d) → d = id
  | .authorDefault, s, r, s' => s' = s ∧ ∀ a, r = .ok a → a = .machine
  | .docSetBytes d a k v, s, r, s' =>
    MachinePut clock d a k v s s' ∨ s' = s ∧ ∃ e, r = .error e
  | .lnGetClaimableContracts f pk limit, s, r, s' =>
    s' = s ∧ (∀ c ∈ r, c ∈ (s.wallet m f).contracts ∧ c.contract.claimPk = pk) ∧
      (limit = none → ∀ c ∈ (s.wallet m f).contracts, c.contract.claimPk = pk → c ∈ r)
  | .lnRemoveClaimedContracts f ids, s, _, s' => s' = s.forget m f ids
  | _, s, _, s' => s' = s

/-- What may be left of an operation of the machine `m` at which its task is dropped. -/
def machineCut (m : EndpointId) : Op → State → State → Prop
  | .docSetBytes d a k v, s, s' => s' = s ∨ MachinePut clock d a k v s s'
  | .lnRemoveClaimedContracts f ids, s, s' => s' = s ∨ s' = s.forget m f ids
  | _, s, s' => s' = s

/-- The operations of the manager. -/
def managerExec : (op : Op) → State → op.Ret → State → Prop
  | .readFile (.machineDocTicket (.endpoint m)), s, r, s' =>
    s' = s ∧ ∀ t, MachineProtocol.ticketOf J r = some t → t.capability.id = docOf m
  | .docsOpen id, s, r, s' => s' = s ∧ ∀ d, r = .ok (some d) → d = id
  | .authorDefault, s, r, s' => s' = s ∧ ∀ a, r = .ok a → a = .manager
  | .docGetMany d keyPrefix, s, r, s' =>
    s' = s ∧ ∀ l, r = .ok l → ∀ e, .ok e ∈ l →
      e ∈ (s.atManager d).visible ∧ keyPrefix <+: e.key ∧ e.content ≠ []
  | .blobsGetBytes hash, s, r, s' => s' = s ∧ ∀ b, r = .ok b → b = hash
  | .docDel d a k, s, r, s' => ManagerPut clock d a k [] s s' ∨ s' = s ∧ ∃ e, r = .error e
  | .lnClaimContracts f cs, s, r, s' => s' = s.accept f cs ∨ s' = s ∧ ∃ e, r = .error e
  | .hashOrder keys, s, r, s' => s' = s ∧ r.Perm keys
  | _, s, _, s' => s' = s

/-- What may be left of an operation of the manager at which its task is dropped. -/
def managerCut : Op → State → State → Prop
  | .docDel d a k, s, s' => s' = s ∨ ManagerPut clock d a k [] s s'
  | .lnClaimContracts f cs, s, s' => s' = s ∨ s' = s.accept f cs
  | _, s, s' => s' = s

/-! ### Tasks and environment -/

/-- The tasks of the devices. -/
inductive TaskId
  | machine (m : EndpointId) (n : ℕ)
  | manager (n : ℕ)
  deriving DecidableEq

/-- The machine that a task runs on, if it does not run on the manager. -/
def TaskId.device : TaskId → Option EndpointId
  | .machine m _ => some m
  | .manager _ => none

/-- What the tasks return. -/
inductive Result
  | transferred
  | swept (r : Option (List Payment × Except Error Unit))
  | listed (r : Except Error (List Payment))

/-- The payments that a task of the manager has listed, or claimed. -/
def Result.Reports : Result → Payment → Prop
  | .listed (.ok l), p => p ∈ l
  | .swept (some (claimed, _)), p => p ∈ claimed
  | _, _ => False

/-- The payments that a task of the manager has claimed and removed. -/
def Result.Removed : Result → Payment → Prop
  | .swept (some (claimed, .ok _)), p => p ∈ claimed
  | _, _ => False

/-- The program of a pass of a machine. -/
def transfer (machineConfig : MachineConfig) : Fut Result :=
  (Machine.makeCompletedPaymentsSyncable J machineConfig).bind fun _ => .pure .transferred

/-- The program of a pass of the manager. -/
def sweep : Fut Result := (Manager.sweepPayments J).bind fun r => .pure (.swept r)

/-- The program of a query of the manager. -/
def listing : Fut Result := (getClaimableContracts J).run.bind fun r => .pure (.listed r)

/-- A device starts a task. The configuration of a machine may be another at each pass. -/
def Spawns : TaskId → Fut Result → Prop
  | .machine _ _, p => ∃ machineConfig, p = transfer J machineConfig
  | .manager _, p => p = sweep J ∨ p = listing J

/-- The keys that the devices write besides those of contracts. -/
def OtherKey (k : Bytes) : Prop := k = MACHINE_CONFIG_KEY ∨ KV_PREFIX <+: k

/-- What happens besides the tasks. -/
inductive EnvStep : State → State → Prop
  | fund (s : State) (m : EndpointId) (f : FederationId) (c : ClaimableContract) :
      EnvStep s (s.fund m f c)
  | toManager {s : State} {d : NamespaceId} {e : Entry AuthorId} :
      e ∈ (s.atMachine d).entries → EnvStep s (s.setManager d ((s.atManager d).receive e))
  | toMachine {s : State} {d : NamespaceId} {e : Entry AuthorId} :
      e ∈ (s.atManager d).entries → EnvStep s (s.setMachine d ((s.atMachine d).receive e))
  | atMachine {s s' : State} {d : NamespaceId} {k v : Bytes} :
      OtherKey k → MachinePut clock d .machine k v s s' → EnvStep s s'
  | atManager {s s' : State} {d : NamespaceId} {k v : Bytes} :
      OtherKey k → ManagerPut clock d .manager k v s s' → EnvStep s s'

/-- **The devices.** -/
def system : System TaskId Op Op.Ret Result State where
  exec i op s r s' :=
    match i with
    | .machine m _ => machineExec J docOf clock m op s r s'
    | .manager _ => managerExec J docOf clock op s r s'
  cut i op s s' :=
    match i with
    | .machine m _ => machineCut clock m op s s'
    | .manager _ => managerCut clock op s s'
  spawn i p s s' := Spawns J i p ∧ s' = s
  env s s' dead :=
    (EnvStep clock s s' ∧ ∀ i, dead i = false) ∨
      s' = s ∧ ∃ device, ∀ i : TaskId, dead i = decide (i.device = device)

end Semantics

/-! ### Keys -/

/-- No record under another key drops one under the key of a contract. -/
def Whole (k : Bytes) : Prop := ∀ f id, k <+: contractKey f id → k = contractKey f id

theorem whole_contractKey (f : FederationId) (id : ContractId) : Whole (contractKey f id) :=
  fun _ _ h => (eq_of_prefix_contractKey h (length_contractKey _ _)).symm

theorem OtherKey.not_prefix {k : Bytes} (h : OtherKey k) (f : FederationId) (id : ContractId) :
    ¬ k <+: contractKey f id := by
  intro hk
  rcases h with rfl | h
  · simp [contractKey, CLAIMABLE_CONTRACT_PREFIX, MACHINE_CONFIG_KEY] at hk
  · have := h.trans hk
    simp [contractKey, CLAIMABLE_CONTRACT_PREFIX, KV_PREFIX] at this

theorem OtherKey.whole {k : Bytes} (h : OtherKey k) : Whole k :=
  fun f id hk => absurd hk (h.not_prefix f id)

theorem OtherKey.ne {k : Bytes} (h : OtherKey k) (f : FederationId) (id : ContractId) :
    k ≠ contractKey f id :=
  fun hk => h.not_prefix f id (hk ▸ List.prefix_rfl)

/-! ### Records -/

/-- A replica of the document has the record. -/
def State.Has (s : State) (d : NamespaceId) (e : Entry AuthorId) : Prop :=
  e ∈ (s.atMachine d).entries ∨ e ∈ (s.atManager d).entries

section Records
variable {clock : ℕ → ℕ → Prop} {s s' : State} {d d' : NamespaceId} {a a' : AuthorId}
  {k k' v : Bytes} {e o : Entry AuthorId}

theorem not_has_init : ¬ State.init.Has d e := by simp [State.Has, State.init, Replica.empty]

theorem State.has_setMachine {R : Replica AuthorId} (h : (s.setMachine d R).Has d' o) :
    s.Has d' o ∨ d' = d ∧ o ∈ R.entries := by
  rcases h with h | h
  · rw [setMachine_atMachine] at h
    by_cases hd : d' = d
    · subst hd
      rw [Function.update_self] at h
      exact Or.inr ⟨rfl, h⟩
    · rw [Function.update_of_ne hd] at h
      exact Or.inl (Or.inl h)
  · exact Or.inl (Or.inr h)

theorem State.has_setManager {R : Replica AuthorId} (h : (s.setManager d R).Has d' o) :
    s.Has d' o ∨ d' = d ∧ o ∈ R.entries := by
  rcases h with h | h
  · exact Or.inl (Or.inl h)
  · rw [setManager_atManager] at h
    by_cases hd : d' = d
    · subst hd
      rw [Function.update_self] at h
      exact Or.inr ⟨rfl, h⟩
    · rw [Function.update_of_ne hd] at h
      exact Or.inl (Or.inr h)

/-- After a write, a record is an old one or the one written. -/
theorem MachinePut.has (hput : MachinePut clock d a k v s s') (h : s'.Has d' o) :
    s.Has d' o ∨ d' = d ∧ o = ⟨a, k, s'.now, v⟩ := by
  obtain ⟨t, R, -, hR, rfl⟩ := hput
  rcases State.has_setMachine h with ho | ⟨rfl, ho⟩
  · exact Or.inl ho
  · rcases (Replica.mem_put hR).mp ho with rfl | ho
    · exact Or.inr ⟨rfl, rfl⟩
    · exact Or.inl (Or.inl ho.1)

theorem ManagerPut.has (hput : ManagerPut clock d a k v s s') (h : s'.Has d' o) :
    s.Has d' o ∨ d' = d ∧ o = ⟨a, k, s'.now, v⟩ := by
  obtain ⟨t, R, -, hR, rfl⟩ := hput
  rcases State.has_setManager h with ho | ⟨rfl, ho⟩
  · exact Or.inl ho
  · rcases (Replica.mem_put hR).mp ho with rfl | ho
    · exact Or.inr ⟨rfl, rfl⟩
    · exact Or.inl (Or.inr ho.1)

theorem MachinePut.stamped (hput : MachinePut clock d a k v s s') : clock s.now s'.now := by
  obtain ⟨t, R, ht, -, rfl⟩ := hput
  exact ht

theorem ManagerPut.stamped (hput : ManagerPut clock d a k v s s') : clock s.now s'.now := by
  obtain ⟨t, R, ht, -, rfl⟩ := hput
  exact ht

/-- Replication brings no new records. -/
theorem State.has_toManager (he : e ∈ (s.atMachine d).entries)
    (h : (s.setManager d ((s.atManager d).receive e)).Has d' o) : s.Has d' o := by
  rcases State.has_setManager h with ho | ⟨rfl, ho⟩
  · exact ho
  · rcases Replica.mem_receive ho with rfl | ho
    · exact Or.inl he
    · exact Or.inr ho

theorem State.has_toMachine (he : e ∈ (s.atManager d).entries)
    (h : (s.setMachine d ((s.atMachine d).receive e)).Has d' o) : s.Has d' o := by
  rcases State.has_setMachine h with ho | ⟨rfl, ho⟩
  · exact ho
  · rcases Replica.mem_receive ho with rfl | ho
    · exact Or.inr he
    · exact Or.inl ho

/-- The machine's replica has a record of the author at the key. -/
def State.AtMachine (s : State) (d : NamespaceId) (a : AuthorId) (k : Bytes) : Prop :=
  ((s.atMachine d).get a k).isSome

/-- The manager's replica has a record of the author at the key. -/
def State.AtManager (s : State) (d : NamespaceId) (a : AuthorId) (k : Bytes) : Prop :=
  ((s.atManager d).get a k).isSome

theorem State.AtMachine.set {R : Replica AuthorId} (h : s.AtMachine d' a k)
    (hR : ((s.atMachine d).get a k).isSome → (R.get a k).isSome) :
    (s.setMachine d R).AtMachine d' a k := by
  unfold AtMachine at *
  rw [setMachine_atMachine]
  by_cases hd : d' = d
  · subst hd
    rw [Function.update_self]
    exact hR h
  · rwa [Function.update_of_ne hd]

theorem State.AtManager.set {R : Replica AuthorId} (h : s.AtManager d' a k)
    (hR : ((s.atManager d).get a k).isSome → (R.get a k).isSome) :
    (s.setManager d R).AtManager d' a k := by
  unfold AtManager at *
  rw [setManager_atManager]
  by_cases hd : d' = d
  · subst hd
    rw [Function.update_self]
    exact hR h
  · rwa [Function.update_of_ne hd]

/-- A write to a machine's replica leaves the rest. -/
theorem MachinePut.same (hput : MachinePut clock d a k v s s') :
    s'.wallet = s.wallet ∧ s'.recorded = s.recorded ∧ s'.accepted = s.accepted ∧
      s'.atManager = s.atManager := by
  obtain ⟨t, R, -, -, rfl⟩ := hput
  exact ⟨rfl, rfl, rfl, rfl⟩

/-- A write to a manager's replica leaves the rest. -/
theorem ManagerPut.same (hput : ManagerPut clock d a k v s s') :
    s'.wallet = s.wallet ∧ s'.recorded = s.recorded ∧ s'.accepted = s.accepted ∧
      s'.atMachine = s.atMachine := by
  obtain ⟨t, R, -, -, rfl⟩ := hput
  exact ⟨rfl, rfl, rfl, rfl⟩

theorem MachinePut.keeps (hput : MachinePut clock d a k v s s') (hk : k <+: k' → k = k')
    (h : s.AtMachine d' a' k') : s'.AtMachine d' a' k' := by
  obtain ⟨t, R, -, hR, rfl⟩ := hput
  exact State.AtMachine.set h (Replica.get_put_isSome hR hk)

theorem ManagerPut.keeps (hput : ManagerPut clock d a k v s s') (hk : k <+: k' → k = k')
    (h : s.AtManager d' a' k') : s'.AtManager d' a' k' := by
  obtain ⟨t, R, -, hR, rfl⟩ := hput
  exact State.AtManager.set h (Replica.get_put_isSome hR hk)

theorem MachinePut.gives (hput : MachinePut clock d a k v s s') : s'.AtMachine d a k := by
  obtain ⟨t, R, -, hR, rfl⟩ := hput
  simp [State.AtMachine, State.setMachine, Replica.get_put_self hR]

theorem ManagerPut.gives (hput : ManagerPut clock d a k v s s') : s'.AtManager d a k := by
  obtain ⟨t, R, -, hR, rfl⟩ := hput
  simp [State.AtManager, State.setManager, Replica.get_put_self hR]

end Records

end Vendimint.Transfer
