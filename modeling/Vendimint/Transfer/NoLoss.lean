import Vendimint.Transfer.Passes

/-! # No payment is lost

Each contract that the wallet of a machine ever recorded is still there, or is shown by a replica of
the machine's document, or was accepted by the manager's wallet, in every state that any interleaving
of passes, replication, funding and restarts reaches, whatever fails and wherever a pass is dropped.

The invariant (`Inv`): a removal is under the key of a contract only if the contract was accepted; a
contract that has left the wallet of its machine is secured (`Secured`), that is, accepted or written
to the machine's replica by the machine. What is secured stays so (`Grows`).

* `discipline`: every task keeps the invariant.
* `recorded_not_lost`: **no payment is lost**. -/

namespace Vendimint.Transfer

open Vendimint.Store Vendimint.Async Vendimint.ManagerProtocol Vendimint.SharedProtocol

/-! ### The invariant -/

/-- What holds of every record: under the key of a contract, the manager has removed an accepted
contract or the machine has written one. -/
structure Proper (accepted : List (FederationId × ContractId)) (e : Entry AuthorId) : Prop where
  whole : Whole e.key
  removed : ∀ f id, e.key = contractKey f id → e.author = .manager → (f, id) ∈ accepted
  written : ∀ f id, e.key = contractKey f id → e.author = .machine → e.content ≠ []

theorem Proper.mono {accepted accepted' : List (FederationId × ContractId)} {e : Entry AuthorId}
    (h : Proper accepted e) (hsub : accepted ⊆ accepted') : Proper accepted' e :=
  ⟨h.whole, fun f id hk ha => hsub (h.removed f id hk ha), h.written⟩

theorem proper_other {accepted : List (FederationId × ContractId)} {a : AuthorId} {k v : Bytes}
    (hk : OtherKey k) (t : ℕ) : Proper accepted ⟨a, k, t, v⟩ :=
  ⟨hk.whole, fun f id h => absurd h (hk.ne f id), fun f id h => absurd h (hk.ne f id)⟩

/-- The removal of an accepted contract. -/
theorem proper_del {accepted : List (FederationId × ContractId)} {f : FederationId}
    {c : ClaimableContract} (h : (f, c.contract.contractId) ∈ accepted) (t : ℕ) :
    Proper accepted ⟨.manager, createClaimableContractMachineDocKey f c, t, []⟩ := by
  refine ⟨whole_contractKey _ _, fun f' id hk _ => ?_, fun _ _ _ h => by cases h⟩
  obtain ⟨rfl, rfl⟩ := contractKey_inj hk
  exact h

instance : Nontrivial ClaimableContract :=
  ⟨⟨⟨⟨⟨.replicate 32 0⟩, ⟨.replicate 33 0⟩⟩, .replicate 40 0⟩,
    ⟨⟨⟨.replicate 32 1⟩, ⟨.replicate 33 0⟩⟩, .replicate 40 0⟩, by decide⟩⟩

/-- The contract is in the wallet of the machine. -/
def State.Waits (s : State) (m : EndpointId) (f : FederationId) (id : ContractId) : Prop :=
  ∃ c ∈ (s.wallet m f).contracts, c.contract.contractId = id

/-- The contract is accepted, or its machine has written it to its replica. -/
def State.Secured (docOf : EndpointId → NamespaceId) (s : State) (m : EndpointId) (f : FederationId)
    (id : ContractId) : Prop :=
  (f, id) ∈ s.accepted ∨ s.AtMachine (docOf m) .machine (contractKey f id)

/-- What is secured stays so. -/
structure Grows (s s' : State) : Prop where
  accepted : s.accepted ⊆ s'.accepted
  written : ∀ d f id, s.AtMachine d .machine (contractKey f id) →
    s'.AtMachine d .machine (contractKey f id)

theorem Grows.refl (s : State) : Grows s s := ⟨List.Subset.refl _, fun _ _ _ => id⟩

theorem Grows.trans {s s' s'' : State} (h : Grows s s') (h' : Grows s' s'') : Grows s s'' :=
  ⟨List.Subset.trans h.accepted h'.accepted, fun d f id hs => h'.written d f id (h.written d f id hs)⟩

theorem Grows.secured {docOf : EndpointId → NamespaceId} {s s' : State} (h : Grows s s')
    {m : EndpointId} {f : FederationId} {id : ContractId} (hs : s.Secured docOf m f id) :
    s'.Secured docOf m f id :=
  hs.imp (fun ha => h.accepted ha) (h.written _ _ _)

/-- **The invariant.** -/
structure Inv (docOf : EndpointId → NamespaceId) (s : State) : Prop where
  proper : ∀ {d e}, s.Has d e → Proper s.accepted e
  kept : ∀ m f id, (m, f, id) ∈ s.recorded → s.Waits m f id ∨ s.Secured docOf m f id

section Steps
variable {docOf : EndpointId → NamespaceId} {clock : ℕ → ℕ → Prop} {s s' : State}
  {d : NamespaceId} {a : AuthorId} {k v : Bytes} {e : Entry AuthorId}

theorem inv_init : Inv docOf State.init := ⟨fun h => absurd h not_has_init, fun _ _ _ h => by cases h⟩

/-- A step that leaves the wallets of the machines. -/
theorem Inv.of_grows (h : Inv docOf s) (hg : Grows s s') (hp : ∀ {d e}, s'.Has d e → Proper s'.accepted e)
    (hw : s'.wallet = s.wallet) (hr : s'.recorded = s.recorded) : Inv docOf s' := by
  refine ⟨hp, fun m f id hrec => ?_⟩
  rw [hr] at hrec
  refine (h.kept m f id hrec).imp (fun hwait => ?_) hg.secured
  rwa [State.Waits, hw]

theorem Inv.machinePut (h : Inv docOf s) (hput : MachinePut clock d a k v s s')
    (hk : ∀ t, Proper s.accepted ⟨a, k, t, v⟩) : Inv docOf s' ∧ Grows s s' := by
  obtain ⟨hw, hr, ha, -⟩ := hput.same
  have hg : Grows s s' :=
    ⟨by rw [ha]; exact List.Subset.refl _, fun d f id => hput.keeps ((hk 0).whole f id)⟩
  refine ⟨h.of_grows hg (fun ho => ?_) hw hr, hg⟩
  rw [ha]
  rcases hput.has ho with ho | ⟨-, rfl⟩
  · exact h.proper ho
  · exact hk _

theorem Inv.managerPut (h : Inv docOf s) (hput : ManagerPut clock d a k v s s')
    (hk : ∀ t, Proper s.accepted ⟨a, k, t, v⟩) : Inv docOf s' ∧ Grows s s' := by
  obtain ⟨hw, hr, ha, hm⟩ := hput.same
  have hg : Grows s s' :=
    ⟨by rw [ha]; exact List.Subset.refl _, fun d f id hs => by rwa [State.AtMachine, hm]⟩
  refine ⟨h.of_grows hg (fun ho => ?_) hw hr, hg⟩
  rw [ha]
  rcases hput.has ho with ho | ⟨-, rfl⟩
  · exact h.proper ho
  · exact hk _

theorem Inv.toManager (h : Inv docOf s) (he : e ∈ (s.atMachine d).entries) :
    Inv docOf (s.setManager d ((s.atManager d).receive e)) ∧
      Grows s (s.setManager d ((s.atManager d).receive e)) := by
  have hg : Grows s (s.setManager d ((s.atManager d).receive e)) :=
    ⟨List.Subset.refl _, fun _ _ _ => id⟩
  exact ⟨h.of_grows hg (fun ho => h.proper (State.has_toManager he ho)) rfl rfl, hg⟩

theorem Inv.toMachine (h : Inv docOf s) (he : e ∈ (s.atManager d).entries) :
    Inv docOf (s.setMachine d ((s.atMachine d).receive e)) ∧
      Grows s (s.setMachine d ((s.atMachine d).receive e)) := by
  have hwhole := (h.proper (Or.inr he)).whole
  have hg : Grows s (s.setMachine d ((s.atMachine d).receive e)) :=
    ⟨List.Subset.refl _, fun _ f id hs =>
      hs.set (Replica.get_receive_isSome (hwhole f id))⟩
  exact ⟨h.of_grows hg (fun ho => h.proper (State.has_toMachine he ho)) rfl rfl, hg⟩

theorem Inv.fund (h : Inv docOf s) (m : EndpointId) (f : FederationId) (c : ClaimableContract) :
    Inv docOf (s.fund m f c) ∧ Grows s (s.fund m f c) := by
  have hg : Grows s (s.fund m f c) := ⟨List.Subset.refl _, fun _ _ _ => id⟩
  refine ⟨⟨h.proper, fun m' f' id hrec => ?_⟩, hg⟩
  have hwallet : ∀ c' ∈ (s.wallet m' f').contracts, c' ∈ ((s.fund m f c).wallet m' f').contracts := by
    intro c' hc'
    simp only [State.fund]
    by_cases hm : m' = m
    · subst hm
      rw [Function.update_self]
      by_cases hf : f' = f
      · subst hf
        rw [Function.update_self]
        exact Client.mem_record_of_mem hc'
      · rwa [Function.update_of_ne hf]
    · rwa [Function.update_of_ne hm]
  rcases List.mem_cons.mp hrec with hnew | hrec
  · simp only [Prod.mk.injEq] at hnew
    obtain ⟨rfl, rfl, rfl⟩ := hnew
    obtain ⟨c', hc', hid⟩ := (s.wallet m' f').exists_mem_record c
    exact Or.inl ⟨c', by simpa [State.fund] using hc', hid⟩
  · refine (h.kept m' f' id hrec).imp ?_ hg.secured
    rintro ⟨c', hc', hid⟩
    exact ⟨c', hwallet c' hc', hid⟩

/-- A wallet may forget what is secured. -/
theorem Inv.forget (h : Inv docOf s) {m : EndpointId} {f : FederationId} {ids : List ContractId}
    (hids : ∀ id ∈ ids, s.Secured docOf m f id) :
    Inv docOf (s.forget m f ids) ∧ Grows s (s.forget m f ids) := by
  have hg : Grows s (s.forget m f ids) := ⟨List.Subset.refl _, fun _ _ _ => id⟩
  refine ⟨⟨h.proper, fun m' f' id hrec => ?_⟩, hg⟩
  by_cases hx : m' = m ∧ f' = f ∧ id ∈ ids
  · obtain ⟨rfl, rfl, hid⟩ := hx
    exact Or.inr (hg.secured (hids id hid))
  refine (h.kept m' f' id hrec).imp ?_ hg.secured
  rintro ⟨c, hc, rfl⟩
  refine ⟨c, ?_, rfl⟩
  simp only [State.forget]
  by_cases hm : m' = m
  · subst hm
    rw [Function.update_self]
    by_cases hf : f' = f
    · subst hf
      rw [Function.update_self]
      exact Client.mem_remove.mpr ⟨hc, fun hid => hx ⟨rfl, rfl, hid⟩⟩
    · rwa [Function.update_of_ne hf]
  · rwa [Function.update_of_ne hm]

theorem Inv.accept (h : Inv docOf s) (f : FederationId) (cs : List ClaimableContract) :
    Inv docOf (s.accept f cs) ∧ Grows s (s.accept f cs) := by
  have hsub : s.accepted ⊆ (s.accept f cs).accepted := List.subset_append_right _ _
  have hg : Grows s (s.accept f cs) := ⟨hsub, fun _ _ _ => id⟩
  exact ⟨h.of_grows hg (fun ho => (h.proper ho).mono hsub) rfl rfl, hg⟩

theorem Inv.env (h : Inv docOf s) (he : EnvStep clock s s') : Inv docOf s' ∧ Grows s s' := by
  cases he with
  | fund m f c => exact h.fund m f c
  | toManager he => exact h.toManager he
  | toMachine he => exact h.toMachine he
  | atMachine hk hput => exact h.machinePut hput (proper_other hk)
  | atManager hk hput => exact h.managerPut hput (proper_other hk)

end Steps

/-! ### The discipline -/

variable {J : Serde} {docOf : EndpointId → NamespaceId} {clock : ℕ → ℕ → Prop}

/-- Every task relies on what is secured to stay so, and keeps it so. -/
def growing (docOf : EndpointId → NamespaceId) : Discipline TaskId State where
  inv := Inv docOf
  rely _ := Grows
  guar _ := Grows
  rely_refl _ := Grows.refl
  rely_trans := Grows.trans
  compat _ _ _ h := h

theorem growing_writes (m : EndpointId) (n : ℕ) :
    Writes (system J docOf clock).toWorld (growing docOf) J docOf m n
      (fun f id s => s.Secured docOf m f id) where
  exec {f c s r s'} h he := by
    have hproper : ∀ t, Proper s.accepted
        ⟨.machine, createClaimableContractMachineDocKey f c, t, J.contract.enc c⟩ := fun t =>
      ⟨whole_contractKey _ _, fun _ _ _ h => (by cases h), fun _ _ _ _ => J.contract.enc_ne_nil c⟩
    rcases he with hput | ⟨rfl, e, rfl⟩
    · obtain ⟨hinv, hg⟩ := h.machinePut hput hproper
      exact ⟨hinv, hg, fun _ => Or.inr hput.gives⟩
    · exact ⟨h, Grows.refl _, fun h => by cases h⟩
  cut {f c s s'} h hc := by
    rcases hc with rfl | hput
    · exact ⟨h, Grows.refl _⟩
    · exact h.machinePut hput fun t =>
        ⟨whole_contractKey _ _, fun _ _ _ h => (by cases h), fun _ _ _ _ => J.contract.enc_ne_nil c⟩
  stable h := h.secured
  kept h := h.secured
  forget h hids := h.forget hids

theorem growing_removes (n : ℕ) :
    Removes (system J docOf clock).toWorld (growing docOf) docOf n
      (fun f id s => (f, id) ∈ s.accepted) (fun _ _ _ _ => True) where
  claim {f c s r s'} h he := by
    rcases he with rfl | ⟨rfl, e, rfl⟩
    · exact ⟨(h.accept f [c]).1, (h.accept f [c]).2, fun _ => by simp [State.accept]⟩
    · exact ⟨h, Grows.refl _, fun h => by cases h⟩
  claimCut {f c s s'} h hc := by
    rcases hc with rfl | rfl
    · exact ⟨h, Grows.refl _⟩
    · exact h.accept f [c]
  del {m f c s r s'} h ha he := by
    rcases he with hput | ⟨rfl, -⟩
    · obtain ⟨hinv, hg⟩ := h.managerPut hput fun t => proper_del ha t
      exact ⟨hinv, hg, fun _ => trivial⟩
    · exact ⟨h, Grows.refl _, fun _ => trivial⟩
  delCut {m f c s s'} h ha hc := by
    rcases hc with rfl | hput
    · exact ⟨h, Grows.refl _⟩
    · exact h.managerPut hput fun t => proper_del ha t
  claimed_stable h ha := h.accepted ha
  claimed_kept h ha := h.accepted ha
  removed_stable _ _ := trivial
  removed_kept _ _ := trivial

/-- **The discipline of the devices**: every task keeps what is secured. -/
def discipline (J : Serde) (docOf : EndpointId → NamespaceId) (clock : ℕ → ℕ → Prop) :
    RelyGuarantee (system J docOf clock) where
  toDiscipline := growing docOf
  post _ := Outcome.returns fun _ _ => True
  env_ok h he := by
    rcases he with ⟨he, -⟩ | ⟨rfl, -⟩
    · exact ⟨(h.env he).1, fun _ _ => (h.env he).2⟩
    · exact ⟨h, fun _ _ => Grows.refl _⟩
  spawn_ok {i p s s'} h hs := by
    obtain ⟨hp, rfl⟩ := hs
    refine ⟨h, fun _ _ => Grows.refl _, ?_⟩
    have hW := World.Within.refl (system J docOf clock).toWorld
    have hP : Shown J docOf (growing docOf) fun _ => True :=
      fun _ _ _ _ _ _ _ _ _ _ _ => trivial
    cases i with
    | machine m n =>
      obtain ⟨machineConfig, rfl⟩ := hp
      exact (transfer_safe hW (fun _ => Grows.refl) (growing_writes m n) machineConfig h).mono
        fun o _ _ _ => by cases o <;> trivial
    | manager n =>
      rcases hp with rfl | rfl
      · exact (sweep_safe hW (fun _ => Grows.refl) (growing_removes n) hP h).mono
          fun o _ _ _ => by cases o <;> trivial
      · exact (listing_safe hW (fun _ => Grows.refl) hP h).mono fun o _ _ _ => by cases o <;> trivial

/-! ### A contract on its way -/

namespace Sale

/-- The federation, the machine and its document. -/
def fed : FederationId := ⟨.replicate 32 7⟩
def machine : EndpointId := ⟨.replicate 32 1⟩
def doc : NamespaceId := ⟨.replicate 32 9⟩

/-- The ticket of the document, in the files of both devices. -/
def ticket : DocTicket := ⟨.write doc⟩

/-- A contract for each byte, and the configuration that it was issued under. -/
def config (b : UInt8) : MachineConfig := ⟨⟨fed, []⟩, ⟨.replicate 33 b⟩⟩
def contract (b : UInt8) : ClaimableContract :=
  ⟨⟨⟨.replicate 32 b⟩, (config b).claimerPk⟩, .replicate 40 b⟩
def payment (b : UInt8) : Payment := (machine, fed, contract b)

/-- The key of a contract, its record when it is written at `t`, and its removal at `t`. -/
def key (b : UInt8) : Bytes := createClaimableContractMachineDocKey fed (contract b)
def entry (b : UInt8) (t : ℕ) : Entry AuthorId :=
  ⟨.machine, key b, t, Serde.framed.contract.enc (contract b)⟩
def removal (b : UInt8) (t : ℕ) : Entry AuthorId := ⟨.manager, key b, t, []⟩

/-- The devices. -/
abbrev devices : System TaskId Op Op.Ret Result State := system Serde.framed (fun _ => doc) (· < ·)

/-- The contract has just been written at `t`. -/
def writtenAt (b : UInt8) (t : ℕ) (s : State) : State :=
  State.setMachine { s with now := t } doc ((s.atMachine doc).receive (entry b t))

/-- The record written at `t` has just been replicated. -/
def syncedAt (b : UInt8) (t : ℕ) (s : State) : State :=
  s.setManager doc ((s.atManager doc).receive (entry b t))

/-- The contract has just been accepted and removed at `t`. -/
def sweptAt (b : UInt8) (t : ℕ) (s : State) : State :=
  State.setManager { s.accept fed [contract b] with now := t } doc
    ((s.atManager doc).receive (removal b t))

@[simp] theorem writtenAt_atMachine (b : UInt8) (t : ℕ) (s : State) :
    (writtenAt b t s).atMachine doc = (s.atMachine doc).receive (entry b t) := by
  rw [writtenAt, State.setMachine_atMachine, Function.update_self]

@[simp] theorem writtenAt_atManager (b : UInt8) (t : ℕ) (s : State) :
    (writtenAt b t s).atManager = s.atManager := rfl

@[simp] theorem syncedAt_atManager (b : UInt8) (t : ℕ) (s : State) :
    (syncedAt b t s).atManager doc = (s.atManager doc).receive (entry b t) := by
  rw [syncedAt, State.setManager_atManager, Function.update_self]

@[simp] theorem syncedAt_atMachine (b : UInt8) (t : ℕ) (s : State) :
    (syncedAt b t s).atMachine = s.atMachine := rfl

@[simp] theorem sweptAt_atManager (b : UInt8) (t : ℕ) (s : State) :
    (sweptAt b t s).atManager doc = (s.atManager doc).receive (removal b t) := by
  rw [sweptAt, State.setManager_atManager, Function.update_self]

@[simp] theorem sweptAt_atMachine (b : UInt8) (t : ℕ) (s : State) :
    (sweptAt b t s).atMachine = s.atMachine := rfl

theorem ticket_read (t : DocTicket)
    (ht : MachineProtocol.ticketOf Serde.framed (.ok (Serde.framed.ticket.enc ticket)) = some t) :
    t.capability.id = doc := by
  rw [MachineProtocol.ticketOf, Format.decode_encode, Option.some.injEq] at ht
  rw [← ht]
  rfl

section Runs
variable {W : World TaskId Op Op.Ret State} {b : UInt8} {n : ℕ} {s : State} {t : ℕ}

/-- A pass of the machine that is dropped between its write and the removal from the wallet. -/
theorem transfer_runs
    (hW : ∀ {op r s'}, (∀ d a k v, op ≠ .docSetBytes d a k v) →
      devices.exec (.machine machine n) op s r s' → W.exec (.machine machine n) op s r s')
    (hset : ∀ {v r s'}, devices.exec (.machine machine n) (.docSetBytes doc .machine (key b) v) s r s' →
      W.exec (.machine machine n) (.docSetBytes doc .machine (key b) v) s r s')
    (hcut : W.cut (.machine machine n) .clientsRead (writtenAt b t s) (writtenAt b t s))
    (ht : s.now < t)
    (hw : ∀ c, c ∈ (s.wallet machine fed).contracts ∧ c.contract.claimPk = (config b).claimerPk ↔
      c = contract b)
    (hold : ∀ o ∈ (s.atMachine doc).entries, o.timestamp < t) :
    Runs W (.machine machine n) Alone (transfer Serde.framed (config b)) s .aborted
      (writtenAt b t s) := by
  have hclaimable : devices.exec (.machine machine n)
      (.lnGetClaimableContracts fed (config b).claimerPk none) s [contract b] s :=
    ⟨rfl, fun c hc => (hw c).mpr (List.mem_singleton.mp hc),
      fun _ c hc hpk => List.mem_singleton.mpr ((hw c).mp ⟨hc, hpk⟩)⟩
  have hwrite : devices.exec (.machine machine n)
      (.docSetBytes doc .machine (key b) (Serde.framed.contract.enc (contract b))) s (.ok ())
      (writtenAt b t s) :=
    Or.inl ⟨t, _, ht, Replica.put_eq_receive hold, rfl⟩
  refine runs_next .clientsRead () s (hW (by simp) rfl) ?_
  refine runs_next (.clientsContains fed) true s (hW (by simp) rfl) ?_
  refine runs_next (.lnGetClaimableContracts fed (config b).claimerPk none) [contract b] s
    (hW (by simp) hclaimable) ?_
  refine runs_next .clientsRelease () s (hW (by simp) rfl) ?_
  refine runs_next (.createDirAll .appDir) (.ok ()) s (hW (by simp) rfl) ?_
  refine runs_next (.readFile .docTicket) (.ok (Serde.framed.ticket.enc ticket)) s
    (hW (by simp) ⟨rfl, ticket_read⟩) ?_
  refine runs_next (.docsOpen doc) (.ok (some doc)) s
    (hW (by simp) ⟨rfl, fun d hd => by cases hd; rfl⟩) ?_
  refine runs_next .authorDefault (.ok .machine) s (hW (by simp) ⟨rfl, fun a ha => by cases ha; rfl⟩) ?_
  refine runs_next (.docSetBytes doc .machine (key b) _) (.ok ()) (writtenAt b t s) (hset hwrite) ?_
  exact .aborted hcut

variable
  (hW : ∀ {op s r s'}, devices.exec (.manager n) op s r s' → W.exec (.manager n) op s r s')
include hW

/-- The entry of the contract is read. -/
theorem paymentsOf_runs (b : UInt8) (t : ℕ) :
    Runs W (.manager n) Alone (paymentsOf Serde.framed machine [.ok (entry b t)] []).run s
      (.returned (.ok [payment b])) s := by
  have hk : parseIncomingContractMachineDocKey (entry b t).key =
      .ok (fed, (contract b).contract.contractId) := parse_contractKey _ _
  have hd : Serde.framed.contract.dec (entry b t).content = some (contract b) :=
    Format.decode_encode _ _
  have hne : (entry b t).content.isEmpty = false := by
    rw [List.isEmpty_eq_false_iff]
    exact Serde.framed.contract.enc_ne_nil (contract b)
  simp only [paymentsOf, hk, Fallible.run_bind, Fallible.run_ite, run_attempt, call_eq,
    Prog.await_bind, Prog.pure_bind]
  refine runs_next (.blobsGetBytes (entry b t).content) (.ok (entry b t).content) s
    (hW ⟨rfl, fun b hb => by cases hb; rfl⟩) ?_
  simp only [Fallible.andThen_ok, hne, Bool.false_eq_true, if_false, hd, run_fromSlice_some,
    Prog.pure_bind, List.nil_append]
  exact .returned _ _

theorem listMachines_runs :
    Runs W (.manager n) Alone (listMachines Serde.framed).run s
      (.returned (.ok [(machine, ticket)])) s := by
  refine runs_next (.readDir .machineDocTicketsDir) (.ok [.endpoint machine]) s (hW rfl) ?_
  refine runs_next (.isFile (.machineDocTicket (.endpoint machine))) (.ok true) s (hW rfl) ?_
  refine runs_next (.readFile (.machineDocTicket (.endpoint machine)))
    (.ok (Serde.framed.ticket.enc ticket)) s (hW ⟨rfl, ticket_read⟩) ?_
  exact .returned _ _

/-- A query of the manager to which its replica shows the contract. -/
theorem found_runs (he : entry b t ∈ (s.atManager doc).visible) :
    Runs W (.manager n) Alone (getClaimableContracts Serde.framed).run s
      (.returned (.ok [payment b])) s := by
  have hmany : devices.exec (.manager n) (.docGetMany doc CLAIMABLE_CONTRACT_PREFIX) s
      (.ok [.ok (entry b t)]) s := by
    refine ⟨rfl, fun l hl e hel => ?_⟩
    cases hl
    cases List.mem_singleton.mp hel
    exact ⟨he, prefix_contractKey _ _, Serde.framed.contract.enc_ne_nil (contract b)⟩
  simp only [getClaimableContracts, Fallible.run_bind]
  refine Runs.bind (listMachines_runs hW) rfl ?_
  simp only [Fallible.andThen_ok, paymentsOfMachines, openMachineDoc, Fallible.run_bind, run_attempt,
    call_eq, Prog.await_bind, Prog.pure_bind]
  refine runs_next (.docsOpen doc) (.ok (some doc)) s (hW ⟨rfl, fun d hd => by cases hd; rfl⟩) ?_
  simp only [Fallible.andThen_ok, Fallible.run_unwrap_some, Prog.pure_bind]
  refine runs_next (.docGetMany doc CLAIMABLE_CONTRACT_PREFIX) (.ok [.ok (entry b t)]) s
    (hW hmany) ?_
  exact Runs.bind (paymentsOf_runs hW b t) rfl (.returned _ _)

/-- A query of the manager as a task. -/
theorem listing_runs (he : entry b t ∈ (s.atManager doc).visible) :
    Runs W (.manager n) Alone (listing Serde.framed) s (.returned (.listed (.ok [payment b]))) s :=
  (found_runs hW he).bind rfl (.returned _ _)

/-- A pass of the manager that claims and removes the contract. -/
theorem sweep_runs {t' : ℕ} (he : entry b t ∈ (s.atManager doc).visible) (ht' : s.now < t')
    (hold : ∀ o ∈ (s.atManager doc).entries, o.timestamp < t') :
    Runs W (.manager n) Alone (sweep Serde.framed) s
      (.returned (.swept (some ([payment b], .ok ())))) (sweptAt b t' s) := by
  have hdel : devices.exec (.manager n) (.docDel doc .manager (key b)) (s.accept fed [contract b])
      (.ok ()) (sweptAt b t' s) :=
    Or.inl ⟨t', _, ht', Replica.put_eq_receive hold, rfl⟩
  let s' := s.accept fed [contract b]
  refine Runs.bind (Runs.bind (found_runs hW he) rfl ?_) rfl (.returned _ _)
  refine runs_next .clientsRead () s (hW rfl) ?_
  refine runs_next (.clientsContains fed) true s (hW rfl) ?_
  refine runs_next (.lnClaimContracts fed [contract b]) (.ok ()) s' (hW (Or.inl rfl)) ?_
  refine runs_next .clientsRelease () s' (hW rfl) ?_
  refine runs_next .authorDefault (.ok .manager) s' (hW ⟨rfl, fun a ha => by cases ha; rfl⟩) ?_
  refine runs_next (.hashOrder [machine]) [machine] s' (hW ⟨rfl, List.Perm.refl _⟩) ?_
  refine runs_next (.readFile (.machineDocTicket (.endpoint machine)))
    (.ok (Serde.framed.ticket.enc ticket)) s' (hW ⟨rfl, ticket_read⟩) ?_
  refine runs_next (.docsOpen doc) (.ok (some doc)) s' (hW ⟨rfl, fun d hd => by cases hd; rfl⟩) ?_
  refine runs_next (.docDel doc .manager (key b)) (.ok ()) (sweptAt b t' s) (hW hdel) ?_
  exact .returned _ _

end Runs

/-! The states of the run. A contract is funded, written, replicated, and then claimed and removed. -/

def funded : State := State.init.fund machine fed (contract 5)
def written : State := writtenAt 5 1 funded
def synced : State := syncedAt 5 1 written
def swept : State := sweptAt 5 2 synced

/-- The tasks after the pass of the manager. -/
def sweptTasks : TaskId → Option (Fut Result) :=
  Function.update (fun _ => none) (.manager 0)
    (some (.pure (.swept (some ([payment 5], .ok ())))))

theorem funded_wallet : (funded.wallet machine fed).contracts = [contract 5] := by
  simp [funded, State.fund, State.init, Client.record, Client.empty]

theorem swept_wallet : (swept.wallet machine fed).contracts = [contract 5] := funded_wallet

/-- A wallet with one contract. -/
theorem wallet_one {s : State} (h : (s.wallet machine fed).contracts = [contract 5])
    (c : ClaimableContract) :
    c ∈ (s.wallet machine fed).contracts ∧ c.contract.claimPk = (config 5).claimerPk ↔
      c = contract 5 := by
  rw [h, List.mem_singleton]
  exact ⟨And.left, fun h => ⟨h, by rw [h]; rfl⟩⟩

theorem mem_written {o : Entry AuthorId} (ho : o ∈ (written.atMachine doc).entries) :
    o = entry 5 1 := by
  rw [written, writtenAt_atMachine] at ho
  exact (Replica.mem_receive ho).resolve_right (by simp [funded, State.fund, State.init,
    Replica.empty])

theorem mem_synced {o : Entry AuthorId} (ho : o ∈ (synced.atManager doc).entries) :
    o = entry 5 1 := by
  rw [synced, syncedAt_atManager] at ho
  exact (Replica.mem_receive ho).resolve_right (by simp [written, funded, State.fund, State.init,
    Replica.empty])

theorem mem_swept {o : Entry AuthorId} (ho : o ∈ (swept.atManager doc).entries) :
    o = removal 5 2 ∨ o = entry 5 1 := by
  rw [swept, sweptAt_atManager] at ho
  exact (Replica.mem_receive ho).imp_right mem_synced

/-- A record that was just written is replicated. -/
theorem synced_step {b : UInt8} {t : ℕ} {s : State}
    (hold : ∀ o ∈ (s.atMachine doc).entries, o.timestamp < t) :
    EnvStep (· < ·) (writtenAt b t s) (syncedAt b t (writtenAt b t s)) :=
  .toManager (by
    rw [writtenAt_atMachine]
    exact (Replica.mem_put (Replica.put_eq_receive hold)).mpr (Or.inl rfl))

/-- **The run up to the removal**, in any system that has it. -/
theorem swept_steps {Y : System TaskId Op Op.Ret Result State}
    (hspawn : Y.spawn = devices.spawn) (henv : Y.env = devices.env)
    (hW : ∀ {op r s'}, (∀ d a k v, op ≠ .docSetBytes d a k v) →
      devices.exec (.machine machine 0) op funded r s' → Y.exec (.machine machine 0) op funded r s')
    (hset : ∀ {v r s'},
      devices.exec (.machine machine 0) (.docSetBytes doc .machine (key 5) v) funded r s' →
        Y.exec (.machine machine 0) (.docSetBytes doc .machine (key 5) v) funded r s')
    (hcut : Y.cut (.machine machine 0) .clientsRead written written)
    (hW' : ∀ {op s r s'}, devices.exec (.manager 0) op s r s' → Y.exec (.manager 0) op s r s') :
    Steps Y (Pool.idle State.init) ⟨swept, sweptTasks⟩ := by
  have hold : ∀ o ∈ (funded.atMachine doc).entries, o.timestamp < 1 := by
    simp [funded, State.fund, State.init, Replica.empty]
  have h1 : Steps Y (Pool.idle State.init) ⟨funded, fun _ => none⟩ :=
    steps_of_env (henv ▸ Or.inl ⟨.fund _ machine fed (contract 5), fun _ => rfl⟩)
  have h2 : Steps Y ⟨funded, fun _ => none⟩ ⟨written, fun _ => none⟩ :=
    steps_of_abort (hspawn ▸ ⟨⟨config 5, rfl⟩, rfl⟩) rfl
      (transfer_runs hW hset hcut (by decide) (wallet_one funded_wallet) hold)
  have h3 : Steps Y ⟨written, fun _ => none⟩ ⟨synced, fun _ => none⟩ :=
    steps_of_env (henv ▸ Or.inl ⟨synced_step hold, fun _ => rfl⟩)
  have hvisible : entry 5 1 ∈ (synced.atManager doc).visible := by
    rw [synced, syncedAt_atManager]
    exact Replica.mem_visible_receive (by simp [written, funded, State.fund, State.init, Replica.empty])
  have h4 : Steps Y ⟨synced, fun _ => none⟩ ⟨swept, sweptTasks⟩ :=
    steps_of_return (hspawn ▸ ⟨Or.inl rfl, rfl⟩) rfl
      (sweep_runs hW' hvisible (by decide) fun o ho => by rw [mem_synced ho]; decide)
  exact ((h1.trans h2).trans h3).trans h4

end Sale

/-! ### No loss -/

/-- What a machine has written to its replica is accepted or shown by the replica. -/
theorem Inv.accepted_or_shows {s : State} (h : Inv docOf s) {d : NamespaceId} {f : FederationId}
    {id : ContractId} (hw : s.AtMachine d .machine (contractKey f id)) :
    (f, id) ∈ s.accepted ∨ (s.atMachine d).Shows (contractKey f id) := by
  obtain ⟨o, ho, -, hok⟩ := Replica.get_isSome.mp hw
  rcases hl : (s.atMachine d).latestAt (contractKey f id) with _ | e
  · exact absurd hok (Replica.latestAt_eq_none.mp hl o ho)
  obtain ⟨he, hek, -⟩ := Replica.latestAt_spec hl
  have hproper := h.proper (Or.inl he)
  cases ha : e.author with
  | manager => exact Or.inl (hproper.removed f id hek ha)
  | machine => exact Or.inr ⟨e, hl, hproper.written f id hek ha⟩

/-- **No payment is lost.** In every state that is reached, a contract that the wallet of a machine
ever recorded is in the wallet, or shown by a replica of the document, or was accepted by the wallet
of the manager. -/
theorem recorded_not_lost {P : Pool TaskId Op Op.Ret Result State}
    (h : Steps (system J docOf clock) (Pool.idle State.init) P) {m : EndpointId} {f : FederationId}
    {id : ContractId} (hrec : (m, f, id) ∈ P.st.recorded) :
    P.st.Waits m f id ∨ (P.st.atMachine (docOf m)).Shows (contractKey f id) ∨
      (P.st.atManager (docOf m)).Shows (contractKey f id) ∨ (f, id) ∈ P.st.accepted := by
  have hgood : Good (discipline J docOf clock) P := good_steps (good_idle inv_init) h
  have hinv : Inv docOf P.st := hgood.1
  rcases hinv.kept m f id hrec with hwait | hacc | hwritten
  · exact Or.inl hwait
  · exact Or.inr (Or.inr (Or.inr hacc))
  · rcases hinv.accepted_or_shows hwritten with hacc | hshows
    · exact Or.inr (Or.inr (Or.inr hacc))
    · exact Or.inr (Or.inl hshows)

open Sale in
/-- A contract that was funded and written, in a pass that was dropped then, and that has been
replicated, accepted and removed. -/
theorem recorded_not_lost_swept :
    Steps devices (Pool.idle State.init) ⟨swept, sweptTasks⟩ ∧
      (swept.Waits machine fed (contract 5).contract.contractId ∨
        (swept.atMachine doc).Shows (key 5) ∨ (swept.atManager doc).Shows (key 5) ∨
        (fed, (contract 5).contract.contractId) ∈ swept.accepted) := by
  have hsteps : Steps devices (Pool.idle State.init) ⟨swept, sweptTasks⟩ :=
    swept_steps rfl rfl (fun _ => id) id rfl id
  exact ⟨hsteps, recorded_not_lost hsteps (List.mem_cons_self ..)⟩

end Vendimint.Transfer
