import Vendimint.Async.Follow
import Vendimint.Store.Sync
import Vendimint.Transfer.Rerun

/-! # Payments arrive

What the devices promise: a contract that the wallet of a machine has recorded is claimed by the wallet
of the manager as soon as a pass of the machine, an exchange of records and a pass of the manager have
gone well, whatever has failed before, whatever else happens meanwhile, and whatever fails there.

* `Advances`: what every step of the devices keeps.
* `arrival`: the discipline.
* `transfer_secures`, `sweep_accepts`: what a pass that goes well has done.
* `payments_arrive`: **a recorded contract is accepted after the three**. -/

namespace Vendimint.Transfer

open Vendimint.Store Vendimint.Async Vendimint.ManagerProtocol Vendimint.SharedProtocol

/-! ### What every step keeps -/

/-- The wallet of the machine has the contract, and it is for `pk`. -/
def State.Due (s : State) (m : EndpointId) (f : FederationId) (id : ContractId) (pk : PublicKey) :
    Prop :=
  ∃ c ∈ (s.wallet m f).contracts, c.contract.contractId = id ∧ c.contract.claimPk = pk

/-- What is secured, what has reached the manager, and what is due until it is secured. -/
structure Advances (docOf : EndpointId → NamespaceId) (s s' : State) : Prop extends Grows s s' where
  replicated : ∀ d f id, s.AtManager d .machine (contractKey f id) →
    s'.AtManager d .machine (contractKey f id)
  due : ∀ m f id pk, s.Due m f id pk → s'.Due m f id pk ∨ s'.Secured docOf m f id

/-- What a record under the key of a contract is: a contract of the machine, or a removal. -/
def Encodes (J : Serde) (e : Entry AuthorId) : Prop :=
  ∀ f id, e.key = contractKey f id →
    (e.author = .machine → ∃ c, e.content = J.contract.enc c ∧ c.contract.contractId = id) ∧
    (e.author = .manager → e.content = [])

/-- **The invariant.** -/
structure Arriving (J : Serde) (docOf : EndpointId → NamespaceId) (s : State) : Prop
    extends Inv docOf s where
  encodes : ∀ {d e}, s.Has d e → Encodes J e

section Steps
variable {J : Serde} {docOf : EndpointId → NamespaceId} {clock : ℕ → ℕ → Prop} {s s' s'' : State}
  {d : NamespaceId} {a : AuthorId} {k v : Bytes} {e : Entry AuthorId} {f : FederationId}

theorem Advances.refl (s : State) : Advances docOf s s :=
  ⟨Grows.refl s, fun _ _ _ => id, fun _ _ _ _ h => Or.inl h⟩

theorem Advances.trans (h : Advances docOf s s') (h' : Advances docOf s' s'') :
    Advances docOf s s'' := by
  refine ⟨h.toGrows.trans h'.toGrows, fun d f id hs => h'.replicated d f id (h.replicated d f id hs),
    fun m f id pk hs => ?_⟩
  rcases h.due m f id pk hs with hs | hs
  · exact h'.due m f id pk hs
  · exact Or.inr (h'.toGrows.secured hs)

theorem encodes_other (hk : OtherKey k) (t : ℕ) : Encodes J ⟨a, k, t, v⟩ :=
  fun f id h => absurd h (hk.ne f id)

theorem encodes_contract (f : FederationId) (c : ClaimableContract) (t : ℕ) :
    Encodes J ⟨.machine, createClaimableContractMachineDocKey f c, t, J.contract.enc c⟩ := by
  intro f' id hk
  exact ⟨fun _ => ⟨c, rfl, (contractKey_inj hk).2⟩, fun ha => (by cases ha)⟩

theorem encodes_removal (t : ℕ) : Encodes J ⟨.manager, k, t, []⟩ :=
  fun _ _ _ => ⟨fun ha => (by cases ha), fun _ => rfl⟩

/-- A step that leaves the wallets and the manager's replica. -/
theorem Grows.advances (h : Grows s s') (hw : s'.wallet = s.wallet) (hm : s'.atManager = s.atManager) :
    Advances docOf s s' := by
  refine ⟨h, fun d f id hs => ?_, fun m f id pk hs => Or.inl ?_⟩
  · rwa [State.AtManager, hm]
  · rwa [State.Due, hw]

theorem Arriving.machinePut (h : Arriving J docOf s) (hput : MachinePut clock d a k v s s')
    (hk : ∀ t, Proper s.accepted ⟨a, k, t, v⟩) (he : ∀ t, Encodes J ⟨a, k, t, v⟩) :
    Arriving J docOf s' ∧ Advances docOf s s' := by
  obtain ⟨hinv, hgrows⟩ := h.toInv.machinePut hput hk
  obtain ⟨hw, -, -, hm⟩ := hput.same
  refine ⟨⟨hinv, fun ho => ?_⟩, hgrows.advances hw hm⟩
  rcases hput.has ho with ho | ⟨-, rfl⟩
  · exact h.encodes ho
  · exact he _

theorem Arriving.managerPut (h : Arriving J docOf s) (hput : ManagerPut clock d a k v s s')
    (hk : ∀ t, Proper s.accepted ⟨a, k, t, v⟩) (he : ∀ t, Encodes J ⟨a, k, t, v⟩) :
    Arriving J docOf s' ∧ Advances docOf s s' := by
  obtain ⟨hinv, hgrows⟩ := h.toInv.managerPut hput hk
  obtain ⟨hw, -⟩ := hput.same
  refine ⟨⟨hinv, fun ho => ?_⟩, hgrows, fun _ f id => hput.keeps ((hk 0).whole f id),
    fun m f id pk hs => Or.inl ?_⟩
  · rcases hput.has ho with ho | ⟨-, rfl⟩
    · exact h.encodes ho
    · exact he _
  · rwa [State.Due, hw]

theorem Arriving.toManager (h : Arriving J docOf s) (he : e ∈ (s.atMachine d).entries) :
    Arriving J docOf (s.setManager d ((s.atManager d).receive e)) ∧
      Advances docOf s (s.setManager d ((s.atManager d).receive e)) := by
  obtain ⟨hinv, hgrows⟩ := h.toInv.toManager he
  refine ⟨⟨hinv, fun ho => h.encodes (State.has_toManager he ho)⟩, hgrows, fun _ f id hs => ?_,
    fun m f id pk hs => Or.inl hs⟩
  exact hs.set (Replica.get_receive_isSome ((h.proper (Or.inl he)).whole f id))

theorem Arriving.toMachine (h : Arriving J docOf s) (he : e ∈ (s.atManager d).entries) :
    Arriving J docOf (s.setMachine d ((s.atMachine d).receive e)) ∧
      Advances docOf s (s.setMachine d ((s.atMachine d).receive e)) := by
  obtain ⟨hinv, hgrows⟩ := h.toInv.toMachine he
  exact ⟨⟨hinv, fun ho => h.encodes (State.has_toMachine he ho)⟩, hgrows.advances rfl rfl⟩

/-- The wallets of machines only change by what is funded and forgotten. -/
theorem Arriving.fund (h : Arriving J docOf s) (m : EndpointId) (f : FederationId)
    (c : ClaimableContract) :
    Arriving J docOf (s.fund m f c) ∧ Advances docOf s (s.fund m f c) := by
  obtain ⟨hinv, hgrows⟩ := h.toInv.fund m f c
  refine ⟨⟨hinv, h.encodes⟩, hgrows, fun _ _ _ => id, fun m' f' id pk hs => Or.inl ?_⟩
  obtain ⟨c', hc', hid⟩ := hs
  refine ⟨c', ?_, hid⟩
  simp only [State.fund]
  by_cases hm : m' = m
  · subst hm
    rw [Function.update_self]
    by_cases hf : f' = f
    · subst hf
      rw [Function.update_self]
      exact Client.mem_record_of_mem hc'
    · rwa [Function.update_of_ne hf]
  · rwa [Function.update_of_ne hm]

theorem Arriving.forget (h : Arriving J docOf s) {m : EndpointId} {ids : List ContractId}
    (hids : ∀ id ∈ ids, s.Secured docOf m f id) :
    Arriving J docOf (s.forget m f ids) ∧ Advances docOf s (s.forget m f ids) := by
  obtain ⟨hinv, hgrows⟩ := h.toInv.forget hids
  refine ⟨⟨hinv, h.encodes⟩, hgrows, fun _ _ _ => id, fun m' f' id pk hs => ?_⟩
  by_cases hx : m' = m ∧ f' = f ∧ id ∈ ids
  · obtain ⟨rfl, rfl, hid⟩ := hx
    exact Or.inr (hgrows.secured (hids id hid))
  obtain ⟨c, hc, rfl, hpk⟩ := hs
  refine Or.inl ⟨c, ?_, rfl, hpk⟩
  simp only [State.forget]
  by_cases hm : m' = m
  · subst hm
    rw [Function.update_self]
    by_cases hf : f' = f
    · subst hf
      rw [Function.update_self]
      exact Client.mem_remove.mpr ⟨hc, fun hid => hx ⟨rfl, rfl, hid⟩⟩
    · rwa [Function.update_of_ne hf]
  · rwa [Function.update_of_ne hm]

theorem Arriving.accept (h : Arriving J docOf s) (f : FederationId) (cs : List ClaimableContract) :
    Arriving J docOf (s.accept f cs) ∧ Advances docOf s (s.accept f cs) := by
  obtain ⟨hinv, hgrows⟩ := h.toInv.accept f cs
  exact ⟨⟨hinv, h.encodes⟩, hgrows.advances rfl rfl⟩

theorem Arriving.env (h : Arriving J docOf s) (he : EnvStep clock s s') :
    Arriving J docOf s' ∧ Advances docOf s s' := by
  cases he with
  | fund m f c => exact h.fund m f c
  | toManager he => exact h.toManager he
  | toMachine he => exact h.toMachine he
  | atMachine hk hput => exact h.machinePut hput (proper_other hk) (encodes_other hk)
  | atManager hk hput => exact h.managerPut hput (proper_other hk) (encodes_other hk)

theorem arriving_init : Arriving J docOf State.init := ⟨inv_init, fun h => absurd h not_has_init⟩

end Steps

/-! ### The discipline -/

variable {J : Serde} {docOf : EndpointId → NamespaceId} {clock : ℕ → ℕ → Prop}

/-- Every task relies on all others to advance, and does so. -/
def advancing (J : Serde) (docOf : EndpointId → NamespaceId) : Discipline TaskId State where
  inv := Arriving J docOf
  rely _ := Advances docOf
  guar _ := Advances docOf
  rely_refl _ := Advances.refl
  rely_trans := Advances.trans
  compat _ _ _ h := h

theorem advancing_writes (m : EndpointId) (n : ℕ) :
    Writes (system J docOf clock).toWorld (advancing J docOf) J docOf m n
      (fun f id s => s.Secured docOf m f id) where
  exec {f c s r s'} h he := by
    have hproper : ∀ t, Proper s.accepted
        ⟨.machine, createClaimableContractMachineDocKey f c, t, J.contract.enc c⟩ := fun t =>
      ⟨whole_contractKey _ _, fun _ _ _ h => (by cases h), fun _ _ _ _ => J.contract.enc_ne_nil c⟩
    rcases he with hput | ⟨rfl, e, rfl⟩
    · obtain ⟨hinv, hadv⟩ := h.machinePut hput hproper (encodes_contract f c)
      exact ⟨hinv, hadv, fun _ => Or.inr hput.gives⟩
    · exact ⟨h, Advances.refl _, fun h => (by cases h)⟩
  cut {f c s s'} h hc := by
    rcases hc with rfl | hput
    · exact ⟨h, Advances.refl _⟩
    · refine h.machinePut hput (fun t => ⟨whole_contractKey _ _, fun _ _ _ h => (by cases h),
        fun _ _ _ _ => J.contract.enc_ne_nil c⟩) (encodes_contract f c)
  stable h := h.toGrows.secured
  kept h := h.toGrows.secured
  forget h hids := h.forget hids

theorem advancing_removes (n : ℕ) :
    Removes (system J docOf clock).toWorld (advancing J docOf) docOf n
      (fun f id s => (f, id) ∈ s.accepted) (fun _ _ _ _ => True) where
  claim {f c s r s'} h he := by
    rcases he with rfl | ⟨rfl, e, rfl⟩
    · exact ⟨(h.accept f [c]).1, (h.accept f [c]).2, fun _ => by simp [State.accept]⟩
    · exact ⟨h, Advances.refl _, fun h => (by cases h)⟩
  claimCut {f c s s'} h hc := by
    rcases hc with rfl | rfl
    · exact ⟨h, Advances.refl _⟩
    · exact h.accept f [c]
  del {m f c s r s'} h ha he := by
    rcases he with hput | ⟨rfl, -⟩
    · obtain ⟨hinv, hadv⟩ := h.managerPut hput (fun t => proper_del ha t) encodes_removal
      exact ⟨hinv, hadv, fun _ => trivial⟩
    · exact ⟨h, Advances.refl _, fun _ => trivial⟩
  delCut {m f c s s'} h ha hc := by
    rcases hc with rfl | hput
    · exact ⟨h, Advances.refl _⟩
    · exact h.managerPut hput (fun t => proper_del ha t) encodes_removal
  claimed_stable h ha := h.accepted ha
  claimed_kept h ha := h.accepted ha
  removed_stable _ _ := trivial
  removed_kept _ _ := trivial

/-- **The discipline of the devices**: every task advances. -/
def arrival (J : Serde) (docOf : EndpointId → NamespaceId) (clock : ℕ → ℕ → Prop) :
    RelyGuarantee (system J docOf clock) where
  toDiscipline := advancing J docOf
  post _ := Outcome.returns fun _ _ => True
  env_ok h he := by
    rcases he with ⟨he, -⟩ | ⟨rfl, -⟩
    · exact ⟨(h.env he).1, fun _ _ => (h.env he).2⟩
    · exact ⟨h, fun _ _ => Advances.refl _⟩
  spawn_ok {i p s s'} h hs := by
    obtain ⟨hp, rfl⟩ := hs
    refine ⟨h, fun _ _ => Advances.refl _, ?_⟩
    have hW := World.Within.refl (system J docOf clock).toWorld
    have hP : Shown J docOf (advancing J docOf) fun _ => True :=
      fun _ _ _ _ _ _ _ _ _ _ _ => trivial
    cases i with
    | machine m n =>
      obtain ⟨machineConfig, rfl⟩ := hp
      exact (transfer_safe hW (fun _ => Advances.refl) (advancing_writes m n) machineConfig h).mono
        fun o _ _ _ => by cases o <;> trivial
    | manager n =>
      rcases hp with rfl | rfl
      · exact (sweep_safe hW (fun _ => Advances.refl) (advancing_removes n) hP h).mono
          fun o _ _ _ => by cases o <;> trivial
      · exact (listing_safe hW (fun _ => Advances.refl) hP h).mono
          fun o _ _ _ => by cases o <;> trivial

/-! ### Passes that go well -/

/-- The operations of a pass go well: none fails, the federation `f` is connected, the machine `m` is
listed, and a query of a document shows all entries. -/
def GoesWell (m : EndpointId) (f : FederationId) : (op : Op) → State → op.Ret → State → Prop
  | .clientsContains f', _, r, _ => f' = f → r = true
  | .readFile .docTicket, _, _, _ => True
  | .readDir .machineDocTicketsDir, _, r, _ => ∃ names, r = .ok names ∧ .endpoint m ∈ names
  | .isFile (.machineDocTicket name), _, r, _ => ∃ b, r = .ok b ∧ (name = .endpoint m → b = true)
  | .docGetMany d keyPrefix, s, r, _ =>
    ∃ l, r = .ok l ∧ ∀ e ∈ (s.atManager d).visible, keyPrefix <+: e.key → e.content ≠ [] → .ok e ∈ l
  | op, _, r, _ => op.Succeeds r

section Machine
variable {m : EndpointId} {n : ℕ} {f : FederationId} {id : ContractId} {pk : PublicKey} {s : State}

/-- The world of a pass that goes well. -/
abbrev wellWorld (J : Serde) (docOf : EndpointId → NamespaceId) (clock : ℕ → ℕ → Prop)
    (m : EndpointId) (f : FederationId) : World TaskId Op Op.Ret State :=
  attending (arrival J docOf clock) (GoesWell m f)

/-- What is secured stays so. -/
theorem secured_kept {α : Type} (p : Fut α) (h : s.Secured docOf m f id) :
    Safe (wellWorld J docOf clock m f) (advancing J docOf) (.machine m n) p
      (Outcome.returns fun _ t => t.Secured docOf m f id) s :=
  safe_kept (L := arrival J docOf clock) (fun h => h.toGrows.secured) (fun h => h.toGrows.secured) p h

/-- The document is opened or created. -/
theorem getOrCreateMachineDoc_well :
    Safe (wellWorld J docOf clock m f) (advancing J docOf) (.machine m n)
      (MachineProtocol.getOrCreateMachineDoc J).run (Outcome.succeeds fun d _ => d = docOf m) s := by
  simp only [MachineProtocol.getOrCreateMachineDoc, Fallible.run_bind, run_attempt, await_eq,
    Fallible.run_of, call_eq, Prog.await_bind, Prog.pure_bind]
  refine .attend fun t r u _ _ _ hw _ _ => ?_
  obtain ⟨-, rfl⟩ := hw
  refine .attend fun t r u _ _ he _ _ _ => ?_
  have hticket := he.2
  simp only [Fallible.andThen_ok]
  rcases htk : MachineProtocol.ticketOf J r with _ | ticket
  · simp only [Fallible.run_bind, run_attempt, Prog.await_bind, Prog.pure_bind]
    refine .attend fun t r u _ _ he hw _ _ => ?_
    obtain ⟨d, rfl⟩ := hw
    have hd : d = docOf m := he.2 d rfl
    refine .attend fun t r u _ _ _ hw _ _ => ?_
    obtain ⟨newDocTicket, rfl⟩ := hw
    refine .attend fun t r u _ _ _ hw _ _ => ?_
    obtain ⟨-, rfl⟩ := hw
    exact .succeeded fun _ _ _ => hd
  · simp only [Fallible.run_bind, run_attempt, Prog.await_bind, Prog.pure_bind]
    refine .attend fun t r u _ _ he hw _ _ => ?_
    obtain ⟨d, rfl⟩ := hw
    exact .succeeded fun _ _ _ => (he.2 d rfl).trans (hticket ticket htk)

theorem writePaymentToMachineDoc_well (c : ClaimableContract) (hi : Arriving J docOf s) :
    Safe (wellWorld J docOf clock m f) (advancing J docOf) (.machine m n)
      (MachineProtocol.writePaymentToMachineDoc J f c).run
      (Outcome.succeeds fun _ t => t.Secured docOf m f c.contract.contractId) s := by
  simp only [MachineProtocol.writePaymentToMachineDoc, Fallible.run_bind, run_attempt, call_eq,
    Prog.await_bind, Prog.pure_bind]
  refine .andThen_succeeds hi getOrCreateMachineDoc_well ?_
  rintro d t hit rfl
  refine .attend fun t r u _ _ he hw _ _ => ?_
  obtain ⟨a, rfl⟩ := hw
  obtain rfl : a = .machine := he.2 a rfl
  refine .attend fun t r u _ _ hwrite hw _ _ => ?_
  obtain ⟨w, rfl⟩ := hw
  have hput := hwrite.resolve_right fun h => by cases h.2.choose_spec
  exact .succeeded fun v hv _ => hv.toGrows.secured (Or.inr hput.gives)

/-- Every contract is written. -/
theorem writePayments_well (id : ContractId) :
    ∀ (cs : List ClaimableContract) (ids : List ContractId) {s : State},
    Arriving J docOf s →
      Safe (wellWorld J docOf clock m f) (advancing J docOf) (.machine m n)
        (Machine.writePayments J f cs ids)
        (Outcome.returns fun _ t => (∃ c ∈ cs, c.contract.contractId = id) → t.Secured docOf m f id) s
  | [], ids, s, _ => .returned fun _ _ _ h => by simp at h
  | c :: cs, ids, s, hi => by
    simp only [Machine.writePayments, Prog.bind_eq]
    refine .bind_returns hi (writePaymentToMachineDoc_well c hi) fun r t hit hr => ?_
    obtain ⟨-, rfl, hsecured⟩ := hr
    by_cases hid : c.contract.contractId = id
    · subst hid
      exact (secured_kept _ hsecured).returns_mono fun _ _ hu _ => hu
    · refine (writePayments_well id cs _ hit).returns_mono fun ids u hu => ?_
      rintro ⟨c', hc', rfl⟩
      rcases List.mem_cons.mp hc' with rfl | hc'
      · exact absurd rfl hid
      · exact hu ⟨c', hc', rfl⟩

/-- The contract is due, or secured already. -/
def State.Pending (docOf : EndpointId → NamespaceId) (s : State) (m : EndpointId) (f : FederationId)
    (id : ContractId) (pk : PublicKey) : Prop :=
  s.Due m f id pk ∨ s.Secured docOf m f id

theorem Advances.pending {s' : State} (h : Advances docOf s s') (hs : s.Pending docOf m f id pk) :
    s'.Pending docOf m f id pk :=
  hs.elim (h.due m f id pk) fun hs => Or.inr (h.toGrows.secured hs)

/-- The contract is fetched from the wallet. -/
theorem walletGetClaimableContracts_well (hs : s.Pending docOf m f id pk) :
    Safe (wellWorld J docOf clock m f) (advancing J docOf) (.machine m n)
      (Wallet.getClaimableContracts f pk none) (Outcome.returns fun or t => ∃ l, or = some l ∧
        ((∃ c ∈ l, c.contract.contractId = id) ∨ t.Secured docOf m f id)) s := by
  rw [Wallet.getClaimableContracts, Wallet.withClient_eq]
  refine .attend fun t _ u ht _ he _ _ hg => ?_
  have hu := Advances.pending hg (ht.pending hs)
  refine .attend fun t connected v ht _ _ hw _ hg => ?_
  obtain rfl := hw rfl
  have hv := Advances.pending hg (ht.pending hu)
  refine .attend fun t r w ht _ he _ _ hg => ?_
  obtain ⟨rfl, -, hall⟩ := he
  have hfound : (∃ c ∈ r, c.contract.contractId = id) ∨ w.Secured docOf m f id := by
    refine (ht.pending hv).imp_left ?_
    rintro ⟨c, hc, hid, hpk⟩
    exact ⟨c, hall rfl c hc hpk, hid⟩
  refine .attend fun t _ x ht _ _ _ _ hg => ?_
  refine .returned fun y hy _ => ⟨r, rfl, hfound.imp_right fun h => ?_⟩
  exact hy.toGrows.secured (hg.toGrows.secured (ht.toGrows.secured h))

/-- **A pass of a machine that goes well** secures what is due. -/
theorem transfer_secures {machineConfig : MachineConfig}
    (hf : machineConfig.federationInviteCode.federationId = f) (hi : Arriving J docOf s)
    (hs : s.Pending docOf m f id machineConfig.claimerPk) :
    Safe (wellWorld J docOf clock m f) (advancing J docOf) (.machine m n) (transfer J machineConfig)
      (Outcome.returns fun _ t => t.Secured docOf m f id) s := by
  simp only [transfer, Machine.makeCompletedPaymentsSyncable, Prog.bind_eq]
  have hend : ∀ {t : State}, t.Secured docOf m f id →
      Safe (wellWorld J docOf clock m f) (advancing J docOf) (.machine m n) (.pure Result.transferred)
        (Outcome.returns fun _ t => t.Secured docOf m f id) t :=
    fun ht => .returned fun u hu _ => hu.toGrows.secured ht
  rw [hf]
  refine .bind_returns hi ?_ fun _ _ _ ht => hend ht
  refine .bind_returns hi (walletGetClaimableContracts_well hs) fun or t hit hor => ?_
  obtain ⟨claimableContracts, rfl, hfound⟩ := hor
  rcases hfound with hfound | hsecured
  · refine .bind_returns hit (writePayments_well id claimableContracts [] hit) fun ids u _ hu => ?_
    exact secured_kept _ (hu hfound)
  · exact secured_kept _ hsecured

end Machine

section Manager
variable {m : EndpointId} {n : ℕ} {f : FederationId} {id : ContractId} {s : State}

/-- The machine is among those listed, each with its document. -/
def Listed (docOf : EndpointId → NamespaceId) (m : EndpointId)
    (machines : List (EndpointId × DocTicket)) : Prop :=
  (∃ t, (m, t) ∈ machines) ∧ ∀ mt ∈ machines, mt.2.capability.id = docOf mt.1

theorem machinesOf_well : ∀ (names : List FileName) (machines : List (EndpointId × DocTicket))
    {s : State}, (∀ mt ∈ machines, mt.2.capability.id = docOf mt.1) →
      ((∃ t, (m, t) ∈ machines) ∨ .endpoint m ∈ names) →
      Safe (wellWorld J docOf clock m f) (advancing J docOf) (.manager n)
        (machinesOf J names machines).run (Outcome.succeeds fun machines _ => Listed docOf m machines) s
  | [], machines, s, hdocs, hm =>
    .succeeded fun _ _ _ => ⟨hm.resolve_right List.not_mem_nil, hdocs⟩
  | name :: names, machines, s, hdocs, hm => by
    simp only [machinesOf, Fallible.run_bind, Fallible.run_ite, run_attempt, call_eq,
      Prog.await_bind, Prog.pure_bind]
    refine .attend fun t r u _ _ _ hw _ _ => ?_
    obtain ⟨isFile, rfl, hfile⟩ := hw
    cases isFile with
    | false =>
      refine machinesOf_well names machines hdocs (hm.imp_right fun h => ?_)
      rcases List.mem_cons.mp h with rfl | h
      · exact absurd (hfile rfl) Bool.false_ne_true
      · exact h
    | true =>
      simp only [Fallible.andThen_ok, if_true]
      cases name with
      | federation _ => exact .panicked
      | other _ => exact .panicked
      | endpoint m' =>
        simp only [endpointOfName, Fallible.run_unwrap_some, Prog.pure_bind, Fallible.andThen_ok]
        refine .attend fun t r u _ _ he hw _ _ => ?_
        obtain ⟨bytes, rfl⟩ := hw
        have hticket := he.2
        simp only [MachineProtocol.ticketOf] at hticket
        simp only [Fallible.andThen_ok]
        rcases hd : J.ticket.dec bytes with _ | ticket
        · exact .panicked
        · refine machinesOf_well names _ (fun mt hmt => ?_) ?_
          · rcases List.mem_append.mp hmt with hmt | hmt
            · exact hdocs mt hmt
            · rw [List.mem_singleton.mp hmt]
              exact hticket _ hd
          · rcases hm with ⟨t, ht⟩ | hm
            · exact Or.inl ⟨t, List.mem_append_left _ ht⟩
            · rcases List.mem_cons.mp hm with hm | hm
              · obtain rfl := FileName.endpoint.inj hm
                exact Or.inl ⟨ticket, by simp⟩
              · exact Or.inr hm

theorem listMachines_well :
    Safe (wellWorld J docOf clock m f) (advancing J docOf) (.manager n) (listMachines J).run
      (Outcome.succeeds fun machines _ => Listed docOf m machines) s := by
  simp only [listMachines, Fallible.run_bind, run_attempt, call_eq, Prog.await_bind, Prog.pure_bind]
  refine .attend fun t r u _ _ _ hw _ _ => ?_
  obtain ⟨names, rfl, hm⟩ := hw
  exact machinesOf_well names [] (by simp) (Or.inr hm)

/-- Every entry under the key of a contract has yielded its payment. -/
def Found (m : EndpointId) (stream : List (Except Error (Entry AuthorId))) (payments : List Payment) :
    Prop :=
  ∀ e f id, .ok e ∈ stream → e.key = contractKey f id →
    ∃ c, (m, f, c) ∈ payments ∧ c.contract.contractId = id

/-- The payments of a stream, if all that is under the key of a contract decodes. -/
theorem paymentsOf_well (m' : EndpointId) :
    ∀ (stream : List (Except Error (Entry AuthorId))) (payments : List Payment) {s : State},
      (∀ e, .ok e ∈ stream → e.content ≠ [] ∧ Encodes J e) →
        Safe (wellWorld J docOf clock m f) (advancing J docOf) (.manager n)
          (paymentsOf J m' stream payments).run
          (Outcome.succeeds fun ps _ => payments ⊆ ps ∧ Found m' stream ps) s
  | [], payments, s, _ =>
    .succeeded fun _ _ _ => ⟨List.Subset.refl _, fun _ _ _ he => absurd he List.not_mem_nil⟩
  | .error err :: stream, payments, s, hs => by
    have ih := paymentsOf_well (s := s) m' stream payments
      fun e he => hs e (List.mem_cons_of_mem _ he)
    refine ih.succeeds_mono fun ps _ hps => ⟨hps.1, fun e f id he => ?_⟩
    rcases List.mem_cons.mp he with he | he
    · cases he
    · exact hps.2 e f id he
  | .ok e :: stream, payments, s, hs => by
    obtain ⟨hne, henc⟩ := hs e List.mem_cons_self
    have ih : ∀ payments {s}, _ := fun payments {s} => paymentsOf_well (s := s) m' stream payments
      fun e he => hs e (List.mem_cons_of_mem _ he)
    simp only [paymentsOf]
    rcases hk : parseIncomingContractMachineDocKey e.key with err | ⟨f', id'⟩
    · refine (ih payments).succeeds_mono fun ps _ hps => ⟨hps.1, fun o f id ho hkey => ?_⟩
      rcases List.mem_cons.mp ho with ho | ho
      · cases ho
        rw [hkey, parse_contractKey] at hk
        cases hk
      · exact hps.2 o f id ho hkey
    · have hkey := eq_contractKey_of_parse hk
      obtain ⟨c, hc, rfl⟩ : ∃ c, e.content = J.contract.enc c ∧ c.contract.contractId = id' := by
        cases ha : e.author with
        | machine => exact (henc f' id' hkey).1 ha
        | manager => exact absurd ((henc f' id' hkey).2 ha) hne
      simp only [Fallible.run_bind, Fallible.run_ite, run_attempt, call_eq, Prog.await_bind,
        Prog.pure_bind]
      refine .attend fun t r u _ _ he hw _ _ => ?_
      obtain ⟨bytes, rfl⟩ := hw
      obtain rfl := he.2 bytes rfl
      rw [hc, ← List.isEmpty_eq_false_iff] at hne
      simp only [Fallible.andThen_ok, hc, hne, Bool.false_eq_true, if_false, Format.decode_encode,
        run_fromSlice_some, Prog.pure_bind]
      refine (ih (payments ++ [(m', f', c)])).succeeds_mono fun ps _ hps =>
        ⟨fun p hp => hps.1 (List.mem_append_left _ hp), fun o f id ho ho' => ?_⟩
      rcases List.mem_cons.mp ho with ho | ho
      · cases ho
        obtain ⟨rfl, rfl⟩ := contractKey_inj (hkey.symm.trans ho')
        exact ⟨c, hps.1 (List.mem_append_right _ List.mem_cons_self), rfl⟩
      · exact hps.2 o f id ho ho'

/-- The contract has reached the manager, or is accepted already. -/
def State.Reached (docOf : EndpointId → NamespaceId) (s : State) (m : EndpointId) (f : FederationId)
    (id : ContractId) : Prop :=
  (f, id) ∈ s.accepted ∨ s.AtManager (docOf m) .machine (contractKey f id)

theorem Advances.reached {s' : State} (h : Advances docOf s s') (hs : s.Reached docOf m f id) :
    s'.Reached docOf m f id :=
  hs.imp (fun hs => h.accepted hs) (h.replicated _ _ _)

/-- What has reached the manager is accepted or shown by its replica. -/
theorem Arriving.shown (h : Arriving J docOf s) (hs : s.Reached docOf m f id) :
    (f, id) ∈ s.accepted ∨
      ∃ e ∈ (s.atManager (docOf m)).visible, e.key = contractKey f id ∧ e.content ≠ [] := by
  rcases hs with hs | hs
  · exact Or.inl hs
  obtain ⟨o, ho, -, hok⟩ := Replica.get_isSome.mp hs
  rcases hl : (s.atManager (docOf m)).latestAt (contractKey f id) with _ | e
  · exact absurd hok (Replica.latestAt_eq_none.mp hl o ho)
  obtain ⟨he, hek, -⟩ := Replica.latestAt_spec hl
  have hproper := h.proper (Or.inr he)
  cases ha : e.author with
  | manager => exact Or.inl (hproper.removed f id hek ha)
  | machine =>
    refine Or.inr ⟨e, Replica.mem_visible.mpr ?_, hek, hproper.written f id hek ha⟩
    rw [hek]
    exact hl

/-- The payment is found, or accepted already. -/
theorem paymentsOfMachines_well : ∀ (machines : List (EndpointId × DocTicket))
    (payments : List Payment) {s : State}, Arriving J docOf s → s.Reached docOf m f id →
      (∀ mt ∈ machines, mt.2.capability.id = docOf mt.1) →
        Safe (wellWorld J docOf clock m f) (advancing J docOf) (.manager n)
          (paymentsOfMachines J machines payments).run
          (Outcome.succeeds fun ps t => payments ⊆ ps ∧ ((∃ tk, (m, tk) ∈ machines) →
            (f, id) ∈ t.accepted ∨ ∃ c, (m, f, c) ∈ ps ∧ c.contract.contractId = id)) s
  | [], payments, s, _, _, _ => .succeeded fun _ _ _ => ⟨List.Subset.refl _, by simp⟩
  | (m', ticket) :: machines, payments, s, hi, hs, hdocs => by
    simp only [paymentsOfMachines, openMachineDoc, Fallible.run_bind, run_attempt, call_eq,
      Prog.await_bind, Prog.pure_bind]
    refine .attend fun t r u ht _ he hw _ hg => ?_
    have hu := Advances.reached hg (ht.reached hs)
    obtain ⟨d, rfl⟩ := hw
    obtain rfl : d = docOf m' := (he.2 d rfl).trans (hdocs (m', ticket) List.mem_cons_self)
    simp only [Fallible.andThen_ok, Fallible.run_unwrap_some, Prog.pure_bind]
    refine .attend fun t r v ht hit he hw hiv hg => ?_
    obtain ⟨stream, rfl, hall⟩ := hw
    obtain ⟨rfl, hstream⟩ := he
    have hv := ht.reached hu
    have hfound : m' = m → (f, id) ∈ v.accepted ∨
        ∃ e, .ok e ∈ stream ∧ e.key = contractKey f id := by
      rintro rfl
      refine (Arriving.shown hit hv).imp_right ?_
      rintro ⟨e, hvisible, hkey, hne⟩
      exact ⟨e, hall e hvisible (hkey ▸ prefix_contractKey f id) hne, hkey⟩
    have hstream' : ∀ e, .ok e ∈ stream → e.content ≠ [] ∧ Encodes J e := fun e he => by
      obtain ⟨hvisible, -, hne⟩ := hstream stream rfl e he
      exact ⟨hne, Arriving.encodes hit (Or.inr (Replica.latestAt_spec (Replica.mem_visible.mp hvisible)).1)⟩
    -- What was accepted when the document was read stays so.
    have hrest : Safe (wellWorld J docOf clock m f) (advancing J docOf) (.manager n)
        ((paymentsOf J m' stream payments).run.bind
          (Fallible.andThen fun payments => (paymentsOfMachines J machines payments).run))
        (Outcome.succeeds fun ps t => payments ⊆ ps ∧ Found m' stream ps ∧
          ((∃ tk, (m, tk) ∈ machines) →
            (f, id) ∈ t.accepted ∨ ∃ c, (m, f, c) ∈ ps ∧ c.contract.contractId = id)) v := by
      refine .andThen_succeeds hit ((paymentsOf_well m' stream payments hstream').keeping
        (L := arrival J docOf clock) Advances.reached Advances.reached hv) fun ps w hiw hps => ?_
      obtain ⟨hw, hsub, hps⟩ := hps
      refine (paymentsOfMachines_well machines ps hiw hw
        fun mt hmt => hdocs mt (List.mem_cons_of_mem _ hmt)).succeeds_mono fun ps' x hps' => ?_
      refine ⟨List.Subset.trans hsub hps'.1, fun e f id he hk => ?_, hps'.2⟩
      obtain ⟨c, hc, hid⟩ := hps e f id he hk
      exact ⟨c, hps'.1 hc, hid⟩
    have hkept : ∀ {t u}, Advances docOf t u → ((f, id) ∈ v.accepted → (f, id) ∈ t.accepted) →
        (f, id) ∈ v.accepted → (f, id) ∈ u.accepted := fun h ht hv => h.accepted (ht hv)
    refine (hrest.keeping (L := arrival J docOf clock) hkept hkept (fun h => h)).succeeds_mono ?_
    rintro ps w ⟨hacc, hsub, hps, hrec⟩
    refine ⟨hsub, ?_⟩
    rintro ⟨tk, htk⟩
    rcases List.mem_cons.mp htk with htk | htk
    · rcases hfound (Prod.mk.inj htk).1.symm with h | ⟨e, he, hkey⟩
      · exact Or.inl (hacc h)
      · obtain ⟨c, hc, hid⟩ := hps e f id he hkey
        rw [(Prod.mk.inj htk).1]
        exact Or.inr ⟨c, hc, hid⟩
    · exact hrec ⟨tk, htk⟩

/-- **The query of a pass that goes well** finds what has reached the manager. -/
theorem getClaimableContracts_well (hi : Arriving J docOf s) (hs : s.Reached docOf m f id) :
    Safe (wellWorld J docOf clock m f) (advancing J docOf) (.manager n) (getClaimableContracts J).run
      (Outcome.succeeds fun ps t =>
        (f, id) ∈ t.accepted ∨ ∃ c, (m, f, c) ∈ ps ∧ c.contract.contractId = id) s := by
  simp only [getClaimableContracts, Fallible.run_bind]
  refine .andThen_succeeds hi (listMachines_well.keeping (L := arrival J docOf clock)
    Advances.reached Advances.reached hs) fun machines t hit hm => ?_
  obtain ⟨ht, hlisted, hdocs⟩ := hm
  exact (paymentsOfMachines_well machines [] hit ht hdocs).succeeds_mono
    fun ps u hps => hps.2 hlisted

/-- A contract that is offered is accepted. -/
theorem claimContracts_well (c : ClaimableContract) :
    Safe (wellWorld J docOf clock m f) (advancing J docOf) (.manager n)
      (Wallet.claimContracts f [c]).run
      (Outcome.succeeds fun _ t => (f, c.contract.contractId) ∈ t.accepted) s := by
  simp only [Wallet.claimContracts, Wallet.withClient_eq, call_eq, Fallible.run_bind,
    Fallible.run_lift, Prog.await_bind, Prog.pure_bind]
  refine .attend fun t _ u _ _ _ _ _ _ => ?_
  refine .attend fun t connected v _ _ _ hw _ _ => ?_
  obtain rfl := hw rfl
  refine .attend fun t r w _ _ hclaim hw _ _ => ?_
  obtain ⟨a, rfl⟩ := hw
  obtain rfl := hclaim.resolve_right fun h => by cases h.2.choose_spec
  refine .attend fun t _ x ht _ _ _ _ hg => ?_
  refine .succeeded fun y hy _ => hy.accepted (hg.accepted (ht.accepted ?_))
  simp [State.accept]

/-- What is accepted stays so. -/
theorem accepted_kept {α : Type} (p : Fut α) (h : (f, id) ∈ s.accepted) :
    Safe (wellWorld J docOf clock m f) (advancing J docOf) (.manager n) p
      (Outcome.returns fun _ t => (f, id) ∈ t.accepted) s :=
  safe_kept (L := arrival J docOf clock) (fun h ha => h.accepted ha) (fun h ha => h.accepted ha) p h

/-- All contracts of the federation that were found are accepted. -/
theorem claimPayments_well (id : ContractId) : ∀ (l claimed : List Payment) {s : State},
    Arriving J docOf s →
    Safe (wellWorld J docOf clock m f) (advancing J docOf) (.manager n)
      (Manager.claimPayments l claimed)
      (Outcome.returns fun _ t => (∃ c, (m, f, c) ∈ l ∧ c.contract.contractId = id) →
        (f, id) ∈ t.accepted) s
  | [], claimed, s, _ => .returned fun _ _ _ h => by simp at h
  | (m', f', c) :: l, claimed, s, hi => by
    simp only [Manager.claimPayments, Prog.bind_eq]
    by_cases h : f' = f ∧ c.contract.contractId = id
    · obtain ⟨rfl, rfl⟩ := h
      refine .bind_returns hi (claimContracts_well c) fun r t _ hr => ?_
      obtain ⟨-, rfl, hacc⟩ := hr
      exact (accepted_kept _ hacc).returns_mono fun _ _ hu _ => hu
    · have hany : Safe (wellWorld J docOf clock m f) (advancing J docOf) (.manager n)
          (Wallet.claimContracts f' [c]).run (Outcome.returns fun _ _ => True) s :=
        safe_kept (L := arrival J docOf clock) (K := fun _ => True) (fun _ h => h) (fun _ h => h) _ trivial
      refine .bind_returns hi hany fun r t hit _ => ?_
      have ih : ∀ claimed, _ := fun claimed => claimPayments_well id l claimed hit
      have hrest : ∀ claimed, Safe (wellWorld J docOf clock m f) (advancing J docOf) (.manager n)
          (Manager.claimPayments l claimed) (Outcome.returns fun _ t =>
            (∃ c', (m, f, c') ∈ (m', f', c) :: l ∧ c'.contract.contractId = id) →
              (f, id) ∈ t.accepted) t := by
        refine fun claimed => (ih claimed).returns_mono fun _ u hu => ?_
        rintro ⟨c', hc', hid⟩
        rcases List.mem_cons.mp hc' with hc' | hc'
        · cases hc'
          exact absurd ⟨rfl, hid⟩ h
        · exact hu ⟨c', hc', hid⟩
      cases r with
      | error e => exact hrest claimed
      | ok u => exact hrest _

/-- **A pass of the manager that goes well** claims what has reached it. -/
theorem sweep_accepts (hi : Arriving J docOf s) (hs : s.Reached docOf m f id) :
    Safe (wellWorld J docOf clock m f) (advancing J docOf) (.manager n) (sweep J)
      (Outcome.returns fun _ t => (f, id) ∈ t.accepted) s := by
  have hend : ∀ {α : Type} {p : Fut α} {g : α → Result} {t : State}, Arriving J docOf t →
      Safe (wellWorld J docOf clock m f) (advancing J docOf) (.manager n) p
        (Outcome.returns fun _ u => (f, id) ∈ u.accepted) t →
      Safe (wellWorld J docOf clock m f) (advancing J docOf) (.manager n) (p.bind fun a => .pure (g a))
        (Outcome.returns fun _ u => (f, id) ∈ u.accepted) t :=
    fun hi hp => .bind_returns hi hp fun _ _ _ hu => .returned fun _ hv _ => hv.accepted hu
  refine hend hi ?_
  simp only [Manager.sweepPayments, Prog.bind_eq]
  refine .bind_returns hi (getClaimableContracts_well hi hs) fun r t hit hr => ?_
  obtain ⟨claimableContracts, rfl, hfound⟩ := hr
  rcases hfound with hacc | hfound
  · exact accepted_kept _ hacc
  · refine .bind_returns hit (claimPayments_well id claimableContracts [] hit) fun claimed u _ hu => ?_
    exact accepted_kept _ (hu hfound)

end Manager

/-! ### Arrival -/

/-- The manager's replica of a document has caught up with the machine's. -/
def InSync (s : State) (d : NamespaceId) : Prop :=
  Replica.CaughtUp (s.atManager d) (s.atMachine d)

section Arrival
variable {m : EndpointId} {f : FederationId} {id : ContractId}
  {P P₁ P₂ P₃ : Pool TaskId Op Op.Ret Result State}

/-- Records of a machine are replicated one after the other. -/
theorem steps_of_replication {d : NamespaceId} {g : TaskId → Option (Fut Result)} :
    ∀ (l : List (Entry AuthorId)) (s : State), l ⊆ (s.atMachine d).entries →
      Steps (system J docOf clock) ⟨s, g⟩ ⟨s.setManager d ((s.atManager d).receiveAll l), g⟩
  | [], s, _ => by
    have hsame : s.setManager d ((s.atManager d).receiveAll []) = s := by
      simp [State.setManager, Replica.receiveAll]
    rw [hsame]
  | e :: l, s, hl => by
    have hstep : Steps (system J docOf clock) ⟨s, g⟩ ⟨s.setManager d ((s.atManager d).receive e), g⟩ :=
      steps_of_env (Or.inl ⟨.toManager (hl List.mem_cons_self), fun _ => rfl⟩)
    have hrest := steps_of_replication (g := g) l (s.setManager d ((s.atManager d).receive e))
      fun o ho => hl (List.mem_cons_of_mem _ ho)
    have hlast : (s.setManager d ((s.atManager d).receive e)).setManager d
        (((s.setManager d ((s.atManager d).receive e)).atManager d).receiveAll l) =
        s.setManager d ((s.atManager d).receiveAll (e :: l)) := by
      simp [State.setManager, Replica.receiveAll]
    rw [hlast] at hrest
    exact hstep.trans hrest

/-- From every pool an exchange of all records brings the manager up to the machine. -/
theorem exists_inSync (P : Pool TaskId Op Op.Ret Result State) (d : NamespaceId) :
    ∃ P', Steps (system J docOf clock) P P' ∧ P'.task = P.task ∧ InSync P'.st d := by
  refine ⟨_, steps_of_replication (P.st.atMachine d).entries P.st (List.Subset.refl _), rfl, ?_⟩
  rw [InSync, State.setManager_atManager, Function.update_self]
  exact Replica.caughtUp_receiveAll _ _

/-- What is secured has reached the manager when the replicas are in sync. -/
theorem Arriving.reached {s : State} (h : Arriving J docOf s) (hs : s.Secured docOf m f id)
    (hsync : InSync s (docOf m)) : s.Reached docOf m f id := by
  refine hs.imp (fun h => h) fun hs => hsync.get_isSome hs fun o ho hk => ?_
  exact (h.proper (Or.inr ho)).whole f id hk

/-- **Payments arrive.** -/
theorem payments_arrive {machineConfig : MachineConfig} {i j : ℕ} {r r' : Result}
    (h : Steps (system J docOf clock) (Pool.idle State.init) P)
    (hf : machineConfig.federationInviteCode.federationId = f)
    (hdue : P.st.Due m f id machineConfig.claimerPk)
    (hpass : P.task (.machine m i) = some (transfer J machineConfig))
    (h₁ : Attended (system J docOf clock) (.machine m i) (GoesWell m f) P P₁)
    (hend : P₁.task (.machine m i) = some (.pure r))
    (h₂ : Steps (system J docOf clock) P₁ P₂) (hsync : InSync P₂.st (docOf m))
    (hsweep : P₂.task (.manager j) = some (sweep J))
    (h₃ : Attended (system J docOf clock) (.manager j) (GoesWell m f) P₂ P₃)
    (hend' : P₃.task (.manager j) = some (.pure r')) : (f, id) ∈ P₃.st.accepted := by
  have hgood : Good (arrival J docOf clock) P := good_steps (good_idle arriving_init) h
  have hgood₁ := good_steps hgood (steps_of_attended h₁)
  have hgood₂ := good_steps hgood₁ h₂
  have hsecured : P₁.st.Secured docOf m f id :=
    hgood.attended_returned hpass (transfer_secures hf hgood.1 (Or.inl hdue)) h₁ hend
  have hadv : Advances docOf P₁.st P₂.st := by
    refine hgood₁.along Advances.refl Advances.trans (fun _ hg => hg) (fun _ hs => ?_) (fun hi he => ?_) h₂
    · obtain ⟨-, rfl⟩ := hs
      exact .refl _
    · rcases he with ⟨he, -⟩ | ⟨rfl, -⟩
      · exact (Arriving.env hi he).2
      · exact .refl _
  have hreached : P₂.st.Reached docOf m f id :=
    Arriving.reached hgood₂.1 (hadv.toGrows.secured hsecured) hsync
  exact hgood₂.attended_returned hsweep (sweep_accepts hgood₂.1 hreached) h₃ hend'

end Arrival

/-! ### A payment that arrives -/

namespace Sale

/-- The devices, for passes that go well. -/
def wellDevices : World TaskId Op Op.Ret State where
  exec i op s r s' := devices.exec i op s r s' ∧ GoesWell machine fed op s r s'
  cut _ _ _ _ := False

/-- The contract has been written, and the wallet has forgotten it; then it is replicated. -/
def moved : State := written.forget machine fed [(contract 5).contract.contractId]
def delivered : State := syncedAt 5 1 moved

theorem transfer_well_runs :
    Runs wellDevices (.machine machine 0) Alone (transfer Serde.framed (config 5)) funded
      (.returned .transferred) moved := by
  have hclaimable : devices.exec (.machine machine 0)
      (.lnGetClaimableContracts fed (config 5).claimerPk none) funded [contract 5] funded :=
    ⟨rfl, fun c hc => (wallet_one funded_wallet c).mpr (List.mem_singleton.mp hc),
      fun _ c hc hpk => List.mem_singleton.mpr ((wallet_one funded_wallet c).mp ⟨hc, hpk⟩)⟩
  have hold : ∀ o ∈ (funded.atMachine doc).entries, o.timestamp < 1 := by
    simp [funded, State.fund, State.init, Replica.empty]
  have hwrite : devices.exec (.machine machine 0)
      (.docSetBytes doc .machine (key 5) (Serde.framed.contract.enc (contract 5))) funded (.ok ())
      written :=
    Or.inl ⟨1, _, by decide, Replica.put_eq_receive hold, rfl⟩
  refine runs_next .clientsRead () funded ⟨rfl, trivial⟩ ?_
  refine runs_next (.clientsContains fed) true funded ⟨rfl, fun _ => rfl⟩ ?_
  refine runs_next (.lnGetClaimableContracts fed (config 5).claimerPk none) [contract 5] funded
    ⟨hclaimable, trivial⟩ ?_
  refine runs_next .clientsRelease () funded ⟨rfl, trivial⟩ ?_
  refine runs_next (.createDirAll .appDir) (.ok ()) funded ⟨rfl, (), rfl⟩ ?_
  refine runs_next (.readFile .docTicket) (.ok (Serde.framed.ticket.enc ticket)) funded
    ⟨⟨rfl, ticket_read⟩, trivial⟩ ?_
  refine runs_next (.docsOpen doc) (.ok (some doc)) funded
    ⟨⟨rfl, fun d hd => by cases hd; rfl⟩, doc, rfl⟩ ?_
  refine runs_next .authorDefault (.ok .machine) funded
    ⟨⟨rfl, fun a ha => by cases ha; rfl⟩, .machine, rfl⟩ ?_
  refine runs_next (.docSetBytes doc .machine (key 5) _) (.ok ()) written ⟨hwrite, (), rfl⟩ ?_
  refine runs_next .clientsRead () written ⟨rfl, trivial⟩ ?_
  refine runs_next (.clientsContains fed) true written ⟨rfl, fun _ => rfl⟩ ?_
  refine runs_next (.lnRemoveClaimedContracts fed [(contract 5).contract.contractId]) () moved
    ⟨rfl, trivial⟩ ?_
  refine runs_next .clientsRelease () moved ⟨rfl, trivial⟩ ?_
  exact .returned _ _

theorem mem_delivered {o : Entry AuthorId} (ho : o ∈ (delivered.atManager doc).entries) :
    o = entry 5 1 := by
  rw [delivered, syncedAt_atManager] at ho
  exact (Replica.mem_receive ho).resolve_right (by simp [moved, State.forget, written, funded,
    State.fund, State.init, Replica.empty])

theorem visible_delivered : entry 5 1 ∈ (delivered.atManager doc).visible := by
  rw [delivered, syncedAt_atManager]
  exact Replica.mem_visible_receive (by simp [moved, State.forget, written, funded, State.fund,
    State.init, Replica.empty])

theorem found_well_runs :
    Runs wellDevices (.manager 0) Alone (getClaimableContracts Serde.framed).run delivered
      (.returned (.ok [payment 5])) delivered := by
  have hmany : wellDevices.exec (.manager 0) (.docGetMany doc CLAIMABLE_CONTRACT_PREFIX) delivered
      (.ok [.ok (entry 5 1)]) delivered := by
    refine ⟨⟨rfl, fun l hl e hel => ?_⟩, [.ok (entry 5 1)], rfl, fun e he _ _ => ?_⟩
    · cases hl
      cases List.mem_singleton.mp hel
      exact ⟨visible_delivered, prefix_contractKey _ _, Serde.framed.contract.enc_ne_nil (contract 5)⟩
    · rw [mem_delivered (Replica.latestAt_spec (Replica.mem_visible.mp he)).1]
      exact List.mem_singleton_self _
  have hk : parseIncomingContractMachineDocKey (entry 5 1).key =
      .ok (fed, (contract 5).contract.contractId) := parse_contractKey _ _
  have hd : Serde.framed.contract.dec (entry 5 1).content = some (contract 5) :=
    Format.decode_encode _ _
  have hne : (entry 5 1).content.isEmpty = false :=
    List.isEmpty_eq_false_iff.mpr (Serde.framed.contract.enc_ne_nil (contract 5))
  have hpayments : Runs wellDevices (.manager 0) Alone
      (paymentsOf Serde.framed machine [.ok (entry 5 1)] []).run delivered
      (.returned (.ok [payment 5])) delivered := by
    simp only [paymentsOf, hk, Fallible.run_bind, Fallible.run_ite, run_attempt, call_eq,
      Prog.await_bind, Prog.pure_bind]
    refine runs_next (.blobsGetBytes (entry 5 1).content) (.ok (entry 5 1).content) delivered
      ⟨⟨rfl, fun b hb => by cases hb; rfl⟩, _, rfl⟩ ?_
    simp only [Fallible.andThen_ok, hne, Bool.false_eq_true, if_false, hd, run_fromSlice_some,
      Prog.pure_bind, List.nil_append]
    exact .returned _ _
  have hlist : Runs wellDevices (.manager 0) Alone (listMachines Serde.framed).run delivered
      (.returned (.ok [(machine, ticket)])) delivered := by
    refine runs_next (.readDir .machineDocTicketsDir) (.ok [.endpoint machine]) delivered
      ⟨rfl, _, rfl, List.mem_singleton_self _⟩ ?_
    refine runs_next (.isFile (.machineDocTicket (.endpoint machine))) (.ok true) delivered
      ⟨rfl, true, rfl, fun _ => rfl⟩ ?_
    refine runs_next (.readFile (.machineDocTicket (.endpoint machine)))
      (.ok (Serde.framed.ticket.enc ticket)) delivered ⟨⟨rfl, ticket_read⟩, _, rfl⟩ ?_
    exact .returned _ _
  simp only [getClaimableContracts, Fallible.run_bind]
  refine Runs.bind hlist rfl ?_
  simp only [Fallible.andThen_ok, paymentsOfMachines, openMachineDoc, Fallible.run_bind, run_attempt,
    call_eq, Prog.await_bind, Prog.pure_bind]
  refine runs_next (.docsOpen doc) (.ok (some doc)) delivered
    ⟨⟨rfl, fun d hd => by cases hd; rfl⟩, doc, rfl⟩ ?_
  simp only [Fallible.andThen_ok, Fallible.run_unwrap_some, Prog.pure_bind]
  refine runs_next (.docGetMany doc CLAIMABLE_CONTRACT_PREFIX) (.ok [.ok (entry 5 1)]) delivered
    hmany ?_
  exact Runs.bind hpayments rfl (.returned _ _)

theorem sweep_well_runs :
    Runs wellDevices (.manager 0) Alone (sweep Serde.framed) delivered
      (.returned (.swept (some ([payment 5], .ok ())))) (sweptAt 5 2 delivered) := by
  have hold : ∀ o ∈ (delivered.atManager doc).entries, o.timestamp < 2 := fun o ho => by
    rw [mem_delivered ho]
    decide
  have hdel : devices.exec (.manager 0) (.docDel doc .manager (key 5))
      (delivered.accept fed [contract 5]) (.ok ()) (sweptAt 5 2 delivered) :=
    Or.inl ⟨2, _, by decide, Replica.put_eq_receive hold, rfl⟩
  let s := delivered.accept fed [contract 5]
  refine Runs.bind (Runs.bind found_well_runs rfl ?_) rfl (.returned _ _)
  refine runs_next .clientsRead () delivered ⟨rfl, trivial⟩ ?_
  refine runs_next (.clientsContains fed) true delivered ⟨rfl, fun _ => rfl⟩ ?_
  refine runs_next (.lnClaimContracts fed [contract 5]) (.ok ()) s ⟨Or.inl rfl, (), rfl⟩ ?_
  refine runs_next .clientsRelease () s ⟨rfl, trivial⟩ ?_
  refine runs_next .authorDefault (.ok .manager) s
    ⟨⟨rfl, fun a ha => by cases ha; rfl⟩, .manager, rfl⟩ ?_
  refine runs_next (.hashOrder [machine]) [machine] s ⟨⟨rfl, List.Perm.refl _⟩, trivial⟩ ?_
  refine runs_next (.readFile (.machineDocTicket (.endpoint machine)))
    (.ok (Serde.framed.ticket.enc ticket)) s ⟨⟨rfl, ticket_read⟩, _, rfl⟩ ?_
  refine runs_next (.docsOpen doc) (.ok (some doc)) s ⟨⟨rfl, fun d hd => by cases hd; rfl⟩, doc, rfl⟩ ?_
  refine runs_next (.docDel doc .manager (key 5)) (.ok ()) (sweptAt 5 2 delivered) ⟨hdel, (), rfl⟩ ?_
  exact .returned _ _

/-- The pass of the machine is under way; it has returned; so is that of the manager; it has. -/
def passing : TaskId → Option (Fut Result) :=
  Function.update (fun _ => none) (.machine machine 0) (some (transfer Serde.framed (config 5)))
def passed : TaskId → Option (Fut Result) :=
  Function.update passing (.machine machine 0) (some (.pure .transferred))
def sweeping : TaskId → Option (Fut Result) :=
  Function.update passed (.manager 0) (some (sweep Serde.framed))
def arrived : TaskId → Option (Fut Result) :=
  Function.update sweeping (.manager 0) (some (.pure (.swept (some ([payment 5], .ok ())))))

theorem passing_steps : Steps devices (Pool.idle State.init) ⟨funded, passing⟩ := by
  have h1 : Steps devices (Pool.idle State.init) ⟨funded, fun _ => none⟩ :=
    steps_of_env (Or.inl ⟨.fund _ machine fed (contract 5), fun _ => rfl⟩)
  exact h1.tail (.spawn rfl ⟨⟨config 5, rfl⟩, rfl⟩)

theorem sweeping_steps : Steps devices ⟨moved, passed⟩ ⟨delivered, sweeping⟩ := by
  have hmem : entry 5 1 ∈ (moved.atMachine doc).entries := by
    show entry 5 1 ∈ (written.atMachine doc).entries
    rw [written, writtenAt_atMachine]
    refine (Replica.mem_put (Replica.put_eq_receive ?_)).mpr (Or.inl rfl)
    simp [funded, State.fund, State.init, Replica.empty]
  have h1 : Steps devices ⟨moved, passed⟩ ⟨delivered, passed⟩ :=
    steps_of_env (Or.inl ⟨.toManager hmem, fun _ => rfl⟩)
  exact h1.tail (.spawn rfl ⟨Or.inl rfl, rfl⟩)

theorem delivered_inSync : InSync delivered doc := by
  intro e he
  have he' : e ∈ (written.atMachine doc).entries := he
  rw [mem_written he', delivered, syncedAt_atManager]
  exact Replica.refuses_receive _ _

end Sale

open Sale in
/-- A contract that was funded, and has arrived. -/
theorem payments_arrive_funded :
    (fed, (contract 5).contract.contractId) ∈ (sweptAt 5 2 delivered).accepted := by
  have hdue : funded.Due machine fed (contract 5).contract.contractId (config 5).claimerPk :=
    ⟨contract 5, by rw [funded_wallet]; exact List.mem_singleton_self _, rfl, rfl⟩
  have hpassing : passing (.machine machine 0) = some (transfer Serde.framed (config 5)) :=
    Function.update_self ..
  have hpassed : passed (.machine machine 0) = some (.pure .transferred) :=
    Function.update_self ..
  have hsweeping : sweeping (.manager 0) = some (sweep Serde.framed) :=
    Function.update_self ..
  have hpass := attended_of_runs (Y := devices) (G := GoesWell machine fed) (fun h => h)
    transfer_well_runs rfl hpassing
  have hsweep := attended_of_runs (Y := devices) (G := GoesWell machine fed) (fun h => h)
    sweep_well_runs rfl hsweeping
  have harrived : arrived (.manager 0) = some (.pure (.swept (some ([payment 5], .ok ())))) :=
    Function.update_self ..
  have hfed : (config 5).federationInviteCode.federationId = fed := rfl
  exact payments_arrive passing_steps hfed hdue hpassing hpass hpassed sweeping_steps
    delivered_inSync hsweeping hsweep harrived

end Vendimint.Transfer
