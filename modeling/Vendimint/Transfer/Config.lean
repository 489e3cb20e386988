import Vendimint.Transfer.World

/-! # Changes of a machine's configuration

One iteration of the syncer loop of a machine, in which every operation succeeds, while the manager
sets configurations, the application issues invoices and contracts are funded. An iteration reads the
configuration once, and fetches only the contracts of its federation and claimer key.

* `syncerPass_safe`: what an iteration writes to the document.
* `syncerPass_writes_iff`: **an iteration has written all contracts** that were in the wallet when it
  started iff each of them is under the configuration that the iteration read, or was written before.
* `changed_config_strands`: a contract that is funded after the configuration has changed stays in the
  wallet. -/

namespace Vendimint.Transfer

open Vendimint.Store Vendimint.Async Vendimint.SharedProtocol

/-! ### A machine -/

/-- A machine: its document's configuration, its owner, the clients of its wallet, the invoices issued
(federation and claimer key), the records written to the document, and the configuration that the
iteration under way has read. -/
structure Device where
  config : Option MachineConfig
  owner : Option EndpointId
  clients : FederationId → Option Client
  issued : List (FederationId × PublicKey)
  written : List (NamespaceId × Bytes)
  seen : Option MachineConfig

namespace Device

/-- The wallet has the contract, with a client of the federation `f`. -/
def Holds (s : Device) (f : FederationId) (c : ClaimableContract) : Prop :=
  ∃ w, s.clients f = some w ∧ c ∈ w.contracts

/-- The client of `f` becomes `w`. -/
def setClient (s : Device) (f : FederationId) (w : Client) : Device :=
  { s with clients := Function.update s.clients f (some w) }

@[simp] theorem setClient_self (s : Device) (f : FederationId) (w : Client) :
    (s.setClient f w).clients f = some w := Function.update_self ..

theorem setClient_other (s : Device) {f f' : FederationId} (w : Client) (h : f' ≠ f) :
    (s.setClient f w).clients f' = s.clients f' := Function.update_of_ne h ..

/-- A federation was joined: there is a client for it. -/
def join (s : Device) (f : FederationId) : Device :=
  match s.clients f with
  | some _ => s
  | none => s.setClient f .empty

/-- The client of `f` forgets contracts. -/
def forget (s : Device) (f : FederationId) (ids : List ContractId) : Device :=
  match s.clients f with
  | some w => s.setClient f (w.remove ids)
  | none => s

/-- The contract was issued under the configuration that the iteration has read. -/
def Under (s : Device) (f : FederationId) (c : ClaimableContract) : Prop :=
  ∃ cfg, s.seen = some cfg ∧ cfg.federationInviteCode.federationId = f ∧
    cfg.claimerPk = c.contract.claimPk

end Device

section Semantics
variable (J : Serde) (doc : NamespaceId)

/-- What each operation does. -/
def effect : (op : Op) → Device → op.Ret → Device → Prop
  | .ownerLock, s, r, s' => s' = { s with seen := none } ∧ r = s.owner
  | .readFile .docTicket, s, r, s' =>
    s' = s ∧ ∀ t, MachineProtocol.ticketOf J r = some t → t.capability.id = doc
  | .docsCreate, s, r, s' => s' = s ∧ ∀ d, r = .ok d → d = doc
  | .docsOpen id, s, r, s' => s' = s ∧ ∀ d, r = .ok (some d) → d = id
  | .docGetOne _ _, s, r, s' => s' = { s with seen := s.config } ∧
    ∀ eOr, r = .ok eOr → eOr.map Entry.content = s.config.map J.config.enc
  | .blobsGetBytes hash, s, r, s' => s' = s ∧ ∀ b, r = .ok b → b = hash
  | .docSetBytes d _ k _, s, _, s' => s' = { s with written := (d, k) :: s.written }
  | .clientsContains f, s, r, s' => s' = s ∧ r = (s.clients f).isSome
  | .clientsInsert f, s, _, s' => s' = s.join f
  | .lnRemoteReceive f pk _, s, _, s' => s' = { s with issued := (f, pk) :: s.issued }
  | .lnGetClaimableContracts f pk limit, s, r, s' => s' = s ∧
    (∀ c ∈ r, s.Holds f c ∧ c.contract.claimPk = pk) ∧
      (limit = none → ∀ c, s.Holds f c → c.contract.claimPk = pk → c ∈ r)
  | .lnRemoveClaimedContracts f ids, s, _, s' => s' = s.forget f ids
  | _, s, _, s' => s' = s

/-- Every operation succeeds, and no task is dropped. -/
def succeeding : World Unit Op Op.Ret Device where
  exec _ op s r s' := op.Succeeds r ∧ effect J doc op s r s'
  cut _ _ _ _ := False

/-- What happens besides the iteration: the machine is claimed, the manager sets a configuration, the
application issues an invoice, and a contract is funded for one. -/
inductive Meanwhile : Device → Device → Prop
  | claim (s : Device) (m : EndpointId) : s.owner = none → Meanwhile s { s with owner := some m }
  | configure (s : Device) (cfg : MachineConfig) : Meanwhile s { s with config := some cfg }
  | issue (s : Device) (f : FederationId) (pk : PublicKey) :
      Meanwhile s { s with issued := (f, pk) :: s.issued }
  | fund (s : Device) {f : FederationId} {w : Client} {c : ClaimableContract} :
      s.clients f = some w → (f, c.contract.claimPk) ∈ s.issued → Meanwhile s (s.setClient f (w.record c))

end Semantics

/-! ### What stays -/

/-- The wallet loses nothing, and what was written and read stays. -/
structure Meantime (s s' : Device) : Prop where
  holds : ∀ {f c}, s.Holds f c → s'.Holds f c
  written : s'.written = s.written
  seen : s'.seen = s.seen

theorem Meantime.refl (s : Device) : Meantime s s := ⟨id, rfl, rfl⟩

theorem Meantime.trans {s s' s'' : Device} (h : Meantime s s') (h' : Meantime s' s'') :
    Meantime s s'' :=
  ⟨fun hs => h'.holds (h.holds hs), h'.written.trans h.written, h'.seen.trans h.seen⟩

theorem meantime_of_eq {s s' : Device} (h : s' = s) : Meantime s s' := h ▸ Meantime.refl s

theorem meantime_setClient {s : Device} {f : FederationId} {w w' : Client} (hw : s.clients f = some w)
    (hsub : ∀ c ∈ w.contracts, c ∈ w'.contracts) : Meantime s (s.setClient f w') := by
  refine ⟨fun {f' c} ⟨v, hv, hc⟩ => ?_, rfl, rfl⟩
  by_cases hf : f' = f
  · subst hf
    rw [hw, Option.some.injEq] at hv
    exact ⟨w', s.setClient_self f' w', hsub c (hv ▸ hc)⟩
  · exact ⟨v, (s.setClient_other w' hf).trans hv, hc⟩

theorem meantime_join (s : Device) (f : FederationId) : Meantime s (s.join f) := by
  unfold Device.join
  rcases hf : s.clients f with _ | w
  · refine ⟨fun {f' c} ⟨v, hv, hc⟩ => ⟨v, ?_, hc⟩, rfl, rfl⟩
    have hne : f' ≠ f := fun h => by rw [h, hf] at hv; cases hv
    exact (s.setClient_other .empty hne).trans hv
  · exact Meantime.refl s

theorem Meanwhile.meantime {s s' : Device} (h : Meanwhile s s') : Meantime s s' := by
  cases h with
  | claim => exact ⟨id, rfl, rfl⟩
  | configure => exact ⟨id, rfl, rfl⟩
  | issue => exact ⟨id, rfl, rfl⟩
  | fund hw _ => exact meantime_setClient hw fun c hc => Client.mem_record_of_mem hc

theorem forget_written (s : Device) (f : FederationId) (ids : List ContractId) :
    (s.forget f ids).written = s.written ∧ (s.forget f ids).seen = s.seen := by
  unfold Device.forget
  split <;> exact ⟨rfl, rfl⟩

/-- Two contracts of the wallet of one federation and identity are equal. -/
theorem Device.Holds.eq_of_id {s : Device} {f : FederationId} {c c' : ClaimableContract}
    (h : s.Holds f c) (h' : s.Holds f c') (hid : c.contract.contractId = c'.contract.contractId) :
    c = c' := by
  obtain ⟨w, hw, hc⟩ := h
  obtain ⟨w', hw', hc'⟩ := h'
  rw [hw, Option.some.injEq] at hw'
  subst hw'
  exact w.eq_of_id hc hc' hid

/-- The other parties meanwhile. -/
def meantime : Discipline Unit Device where
  inv _ := True
  rely _ := Meantime
  guar _ _ _ := True
  rely_refl _ := Meantime.refl
  rely_trans := Meantime.trans
  compat h := (h rfl).elim

/-! ### The functions of an iteration -/

section Functions
variable {J : Serde} {doc : NamespaceId} {α : Type} {s : Device}

/-- An operation that leaves what was written and read, since the state `b`. -/
theorem safe_step {b : Device} {op : Op} {k : op.Ret → Fut α} {R : α → Device → Prop}
    (hb : Meantime b s) (hop : ∀ t r u, effect J doc op t r u → Meantime t u)
    (h : ∀ t r u, Meantime b t → Meantime b u → op.Succeeds r → effect J doc op t r u →
      Safe (succeeding J doc) meantime () (k r) (Outcome.returns R) u) :
    Safe (succeeding J doc) meantime () (.await op k) (Outcome.returns R) s := by
  refine .act fun t ht _ => ⟨fun r u hu => ⟨trivial, trivial, ?_⟩, fun _ hu => hu.elim⟩
  exact h t r u (hb.trans ht) ((hb.trans ht).trans (hop t r u hu.2)) hu.1 hu.2

/-- The same, for an operation that leaves the state. -/
theorem safe_same {b : Device} {op : Op} {k : op.Ret → Fut α} {R : α → Device → Prop}
    (hb : Meantime b s) (hop : ∀ t r u, effect J doc op t r u → u = t)
    (h : ∀ r t, Meantime b t → op.Succeeds r → effect J doc op t r t →
      Safe (succeeding J doc) meantime () (k r) (Outcome.returns R) t) :
    Safe (succeeding J doc) meantime () (.await op k) (Outcome.returns R) s := by
  refine safe_step hb (fun t r u hu => meantime_of_eq (hop t r u hu)) fun t r u ht _ hr hu => ?_
  obtain rfl := hop t r u hu
  exact h r u ht hr hu

/-- A function under a guard that is released at its end. -/
theorem guarded_succeeds {x : Fut (Except Error α)} {op : Op} {R : α → Device → Prop}
    (hop : ∀ t r u, effect J doc op t r u → u = t)
    (hR : ∀ a {t u}, Meantime t u → R a t → R a u)
    (h : Safe (succeeding J doc) meantime () x (Outcome.succeeds R) s) :
    Safe (succeeding J doc) meantime () (x.bind fun r => .await op fun _ => .pure r)
      (Outcome.succeeds R) s := by
  refine .bind_returns trivial h fun r t _ hr => ?_
  obtain ⟨a, rfl, ha⟩ := hr
  refine safe_same (Meantime.refl t) hop fun _ u hu _ _ => ?_
  exact .succeeded fun v hv _ => hR a (hu.trans hv) ha

theorem getOrCreateMachineDoc_succeeds :
    Safe (succeeding J doc) meantime () (MachineProtocol.getOrCreateMachineDoc J).run
      (Outcome.succeeds fun d t => d = doc ∧ Meantime s t) s := by
  simp only [MachineProtocol.getOrCreateMachineDoc, Fallible.run_bind, run_attempt, await_eq,
    Fallible.run_of, call_eq, Prog.await_bind, Prog.pure_bind]
  refine safe_same (Meantime.refl s) (fun _ _ _ h => h) fun r t ht hr _ => ?_
  obtain ⟨_, rfl⟩ := hr
  refine safe_same ht (fun _ _ _ h => h.1) fun r t ht _ he => ?_
  have hticket := he.2
  simp only [Fallible.andThen_ok]
  rcases htk : MachineProtocol.ticketOf J r with _ | ticket
  · simp only [Fallible.run_bind, run_attempt, Prog.await_bind, Prog.pure_bind]
    refine safe_same ht (fun _ _ _ h => h.1) fun r t ht hr he => ?_
    obtain ⟨d, rfl⟩ := hr
    have hd : d = doc := he.2 d rfl
    refine safe_same ht (fun _ _ _ h => h) fun r t ht hr _ => ?_
    obtain ⟨newDocTicket, rfl⟩ := hr
    refine safe_same ht (fun _ _ _ h => h) fun r t ht hr _ => ?_
    obtain ⟨_, rfl⟩ := hr
    exact .succeeded fun u hu _ => ⟨hd, ht.trans hu⟩
  · have hid := hticket ticket htk
    simp only [Fallible.run_bind, run_attempt, Prog.await_bind, Prog.pure_bind]
    refine safe_same ht (fun _ _ _ h => h.1) fun r t ht hr he => ?_
    obtain ⟨d, rfl⟩ := hr
    have hd : d = ticket.capability.id := he.2 d rfl
    exact .succeeded fun u hu _ => ⟨hd.trans hid, ht.trans hu⟩

/-- Since `s` the configuration `cfgOr` was read. -/
structure ReadSince (s : Device) (cfgOr : Option MachineConfig) (t : Device) : Prop where
  seen : t.seen = cfgOr
  written : t.written = s.written
  holds : ∀ {f c}, s.Holds f c → t.Holds f c

theorem ReadSince.trans {s t u : Device} {cfgOr : Option MachineConfig} (h : ReadSince s cfgOr t)
    (h' : Meantime t u) : ReadSince s cfgOr u :=
  ⟨h'.seen.trans h.seen, h'.written.trans h.written, fun hs => h'.holds (h.holds hs)⟩

/-- Reading the configuration, which the iteration then works under. -/
theorem getMachineConfig_succeeds :
    Safe (succeeding J doc) meantime () (MachineProtocol.getMachineConfig J).run
      (Outcome.succeeds (ReadSince s)) s := by
  simp only [MachineProtocol.getMachineConfig, Fallible.run_bind, run_attempt, call_eq,
    Prog.await_bind, Prog.pure_bind]
  refine .andThen_succeeds trivial getOrCreateMachineDoc_succeeds ?_
  rintro d t - ⟨rfl, ht⟩
  refine .act fun u hu _ => ⟨fun r v hv => ⟨trivial, trivial, ?_⟩, fun _ hv => hv.elim⟩
  obtain ⟨⟨entryOr, rfl⟩, hv, hentry⟩ := hv
  have hcfg := hentry entryOr rfl
  have hread : ReadSince s u.config v := by
    rw [hv]
    exact ⟨rfl, hu.written.trans ht.written, fun hs => hu.holds (ht.holds hs)⟩
  rcases entryOr with _ | entry
  · have hnone : u.config = none := Option.map_eq_none_iff.mp hcfg.symm
    rw [hnone] at hread
    exact .succeeded fun w hw _ => hread.trans hw
  · obtain ⟨cfg, hsome, hcontent⟩ := Option.map_eq_some_iff.mp hcfg.symm
    rw [hsome] at hread
    simp only [Fallible.andThen_ok, Fallible.run_bind, run_attempt, Prog.await_bind, Prog.pure_bind]
    refine safe_same (Meantime.refl v) (fun _ _ _ h => h.1) fun r w hw hr he => ?_
    obtain ⟨bytes, rfl⟩ := hr
    obtain rfl : bytes = J.config.enc cfg := (he.2 bytes rfl).trans hcontent.symm
    simp only [Fallible.andThen_ok, Format.decode_encode, run_fromSlice_some, Prog.pure_bind]
    exact .succeeded fun x hx _ => hread.trans (hw.trans hx)

/-- The configuration of a state of the machine. -/
def configOf : MachineState → Option MachineConfig
  | .claimed cfgOr => cfgOr
  | .unclaimed => none

theorem getMachineState_succeeds :
    Safe (succeeding J doc) meantime () (MachineProtocol.getMachineState J).run
      (Outcome.succeeds fun state t => ReadSince s (configOf state) t) s := by
  simp only [MachineProtocol.getMachineState, Fallible.run_bind, Fallible.run_ite, await_eq,
    Fallible.run_of, run_guarded, Prog.await_bind, Prog.pure_bind, Fallible.andThen_ok,
    Fallible.run_pure]
  refine .act fun t ht _ => ⟨fun owner u hu => ⟨trivial, trivial, ?_⟩, fun _ hu => hu.elim⟩
  obtain ⟨-, hu, -⟩ := hu
  refine guarded_succeeds (R := fun state t => ReadSince s (configOf state) t) ?_
    (fun _ {_ _} h hr => hr.trans h) ?_
  · exact fun _ _ _ h => h
  split_ifs
  · refine .andThen_succeeds trivial getMachineConfig_succeeds fun cfgOr v _ hv => ?_
    refine .succeeded fun w hw _ => ?_
    have hw' := hv.trans hw
    refine ⟨hw'.seen, hw'.written.trans ?_, fun hs => hw'.holds ?_⟩
    · rw [hu]; exact ht.written
    · rw [hu]; exact ht.holds hs
  · refine .succeeded fun w hw _ => ?_
    refine ⟨hw.seen.trans (by rw [hu]; rfl), hw.written.trans ?_, fun hs => hw.holds ?_⟩
    · rw [hu]; exact ht.written
    · rw [hu]; exact ht.holds hs

theorem forceUpdateView_returns {R : Device → Prop} {b : Device} (hb : Meantime b s)
    (hR : ∀ t, Meantime b t → R t) :
    Safe (succeeding J doc) meantime () Wallet.forceUpdateView (Outcome.returns fun _ => R) s := by
  refine safe_same hb (fun _ _ _ h => h) fun _ t ht _ _ => ?_
  refine safe_same ht (fun _ _ _ h => h) fun _ t ht _ _ => ?_
  refine safe_same ht (fun _ _ _ h => h) fun _ t ht _ _ => ?_
  exact .returned fun u hu _ => hR u (ht.trans hu)

theorem buildClientFromInviteCode_succeeds {b : Device} (hb : Meantime b s) (secret : Mnemonic)
    (inviteCode : InviteCode) :
    Safe (succeeding J doc) meantime () (Wallet.buildClientFromInviteCode secret inviteCode).run
      (Outcome.succeeds fun _ t => Meantime b t) s := by
  simp only [Wallet.buildClientFromInviteCode, Fallible.run_bind, Fallible.run_ite, run_attempt,
    await_eq, Fallible.run_of, call_eq, Prog.await_bind, Prog.pure_bind]
  refine safe_same hb (fun _ _ _ h => h) fun initialized t ht _ _ => ?_
  refine safe_same ht (fun _ _ _ h => h) fun r t ht hr _ => ?_
  obtain ⟨_, rfl⟩ := hr
  refine safe_same ht (fun _ _ _ h => h) fun r t ht hr _ => ?_
  obtain ⟨_, rfl⟩ := hr
  cases initialized with
  | true =>
    refine safe_same ht (fun _ _ _ h => h) fun r t ht hr _ => ?_
    obtain ⟨_, rfl⟩ := hr
    exact .succeeded fun u hu _ => ht.trans hu
  | false =>
    refine safe_same ht (fun _ _ _ h => h) fun r t ht hr _ => ?_
    obtain ⟨_, rfl⟩ := hr
    refine safe_same ht (fun _ _ _ h => h) fun r t ht hr _ => ?_
    obtain ⟨_, rfl⟩ := hr
    exact .succeeded fun u hu _ => ht.trans hu

theorem joinFederation_succeeds {b : Device} (hb : Meantime b s) (secret : Mnemonic)
    (inviteCode : InviteCode) :
    Safe (succeeding J doc) meantime () (Wallet.joinFederation secret inviteCode).run
      (Outcome.succeeds fun _ t => Meantime b t) s := by
  simp only [Wallet.joinFederation, Wallet.insertClient, Fallible.run_bind, Fallible.run_lift,
    run_attempt, await_eq, Fallible.run_of, call_eq, Prog.await_bind, Prog.pure_bind]
  refine safe_same hb (fun _ _ _ h => h) fun r t ht hr _ => ?_
  obtain ⟨_, rfl⟩ := hr
  refine .andThen_succeeds trivial (buildClientFromInviteCode_succeeds ht secret inviteCode)
    fun _ t _ ht => ?_
  refine safe_same ht (fun _ _ _ h => h) fun _ t ht _ _ => ?_
  refine safe_step ht (fun t _ _ h => h ▸ meantime_join t _) fun _ _ t _ ht _ _ => ?_
  refine .bind_returns trivial (forceUpdateView_returns ht fun _ => id) fun _ t _ ht => ?_
  exact .succeeded fun u hu _ => ht.trans hu

theorem setDefaultLocked_succeeds {b : Device} (hb : Meantime b s) (secret : Mnemonic)
    (inviteCode : InviteCode) :
    Safe (succeeding J doc) meantime () (Wallet.setDefaultLocked J secret inviteCode).run
      (Outcome.succeeds fun _ t => Meantime b t) s := by
  simp only [Wallet.setDefaultLocked, Fallible.run_bind, Fallible.run_ite, run_attempt, await_eq,
    Fallible.run_of, call_eq, Prog.await_bind, Prog.pure_bind, Fallible.andThen_ok]
  refine safe_same hb (fun _ _ _ h => h) fun isDir t ht _ _ => ?_
  have hwrite : ∀ {t}, Meantime b t → Safe (succeeding J doc) meantime ()
      (.await (.writeFile .defaultFederation (J.invite.enc inviteCode)) .pure)
      (Outcome.succeeds fun _ t => Meantime b t) t := fun ht =>
    safe_same ht (fun _ _ _ h => h) fun r t ht hr _ => by
      obtain ⟨_, rfl⟩ := hr
      exact .succeeded fun u hu _ => ht.trans hu
  cases isDir with
  | true => exact hwrite ht
  | false =>
    exact .andThen_succeeds trivial (joinFederation_succeeds ht secret inviteCode)
      fun _ t _ ht => hwrite ht

theorem setDefaultFederation_succeeds (secret : Mnemonic) (inviteCode : InviteCode) :
    Safe (succeeding J doc) meantime () (Wallet.setDefaultFederation J secret inviteCode).run
      (Outcome.succeeds fun _ t => Meantime s t) s := by
  simp only [Wallet.setDefaultFederation, Fallible.run_bind, run_guarded, await_eq, Fallible.run_of,
    Prog.await_bind, Prog.pure_bind, Fallible.andThen_ok]
  refine safe_same (Meantime.refl s) (fun _ _ _ h => h) fun _ t ht _ _ => ?_
  refine guarded_succeeds (R := fun _ t => Meantime s t) ?_ (fun _ {_ _} h hr => hr.trans h)
    (setDefaultLocked_succeeds ht secret inviteCode)
  exact fun _ _ _ h => h

/-! ### What an iteration writes -/

/-- The contracts fetched for the federation `f` and the key `pk`: all of those that the wallet had in
`s`. -/
structure Fetched (s : Device) (f : FederationId) (pk : PublicKey) (l : List ClaimableContract) :
    Prop where
  key : ∀ c ∈ l, c.contract.claimPk = pk
  all : ∀ c, s.Holds f c → c.contract.claimPk = pk → c ∈ l
  unique : ∀ c ∈ l, ∀ c', s.Holds f c' → c.contract.contractId = c'.contract.contractId → c = c'

theorem getClaimableContracts_returns (f : FederationId) (pk : PublicKey) :
    Safe (succeeding J doc) meantime () (Wallet.getClaimableContracts f pk none)
      (Outcome.returns fun lOr t => Meantime s t ∧ Fetched s f pk (lOr.getD [])) s := by
  rw [Wallet.getClaimableContracts, Wallet.withClient_eq]
  refine safe_same (Meantime.refl s) (fun _ _ _ h => h) fun _ t ht _ _ => ?_
  refine safe_same ht (fun _ _ _ h => h.1) fun connected t ht _ he => ?_
  cases connected with
  | false =>
    have hnone : ∀ c, ¬ s.Holds f c := by
      rintro c hc
      obtain ⟨w, hw, -⟩ := ht.holds hc
      have := he.2
      rw [hw] at this
      cases this
    refine safe_same ht (fun _ _ _ h => h) fun _ t ht _ _ => ?_
    exact .returned fun u hu _ => ⟨ht.trans hu, by simp, fun c hc => absurd hc (hnone c), by simp⟩
  | true =>
    refine safe_same ht (fun _ _ _ h => h.1) fun l t ht _ he => ?_
    have hfetched : Fetched s f pk l :=
      ⟨fun c hc => (he.2.1 c hc).2, fun c hc => he.2.2 rfl c (ht.holds hc),
        fun c hc c' hc' => (he.2.1 c hc).1.eq_of_id (ht.holds hc')⟩
    refine safe_same ht (fun _ _ _ h => h) fun _ t ht _ _ => ?_
    exact .returned fun u hu _ => ⟨ht.trans hu, hfetched⟩

/-- Since `s` records were written under the keys of the contracts of `l`, and no others. -/
structure Wrote (doc : NamespaceId) (s : Device) (f : FederationId) (l : List ClaimableContract)
    (t : Device) : Prop where
  seen : t.seen = s.seen
  written : ∀ x, x ∈ t.written ↔
    (∃ c ∈ l, x = (doc, createClaimableContractMachineDocKey f c)) ∨ x ∈ s.written

theorem Wrote.nil {f : FederationId} {t : Device} (h : Meantime s t) : Wrote doc s f [] t :=
  ⟨h.seen, fun x => by simp [h.written]⟩

theorem Wrote.trans {f : FederationId} {l : List ClaimableContract} {t u : Device}
    (h : Wrote doc s f l t) (hseen : u.seen = t.seen) (hwritten : u.written = t.written) :
    Wrote doc s f l u :=
  ⟨hseen.trans h.seen, fun x => by rw [hwritten, h.written]⟩

theorem Wrote.cons {f : FederationId} {c : ClaimableContract} {l : List ClaimableContract}
    {t u : Device} (hseen : t.seen = s.seen)
    (hwritten : t.written = (doc, createClaimableContractMachineDocKey f c) :: s.written)
    (h : Wrote doc t f l u) : Wrote doc s f (c :: l) u := by
  refine ⟨h.seen.trans hseen, fun x => ?_⟩
  rw [h.written, hwritten, List.mem_cons]
  constructor
  · rintro (⟨d, hd, rfl⟩ | rfl | hx)
    · exact Or.inl ⟨d, List.mem_cons_of_mem _ hd, rfl⟩
    · exact Or.inl ⟨c, by simp, rfl⟩
    · exact Or.inr hx
  · rintro (⟨d, hd, rfl⟩ | hx)
    · rcases List.mem_cons.mp hd with rfl | hd
      · exact Or.inr (Or.inl rfl)
      · exact Or.inl ⟨d, hd, rfl⟩
    · exact Or.inr (Or.inr hx)

theorem writePaymentToMachineDoc_succeeds (f : FederationId) (c : ClaimableContract) :
    Safe (succeeding J doc) meantime () (MachineProtocol.writePaymentToMachineDoc J f c).run
      (Outcome.succeeds fun _ t => t.seen = s.seen ∧
        t.written = (doc, createClaimableContractMachineDocKey f c) :: s.written) s := by
  simp only [MachineProtocol.writePaymentToMachineDoc, Fallible.run_bind, run_attempt, call_eq,
    Prog.await_bind, Prog.pure_bind]
  refine .andThen_succeeds trivial getOrCreateMachineDoc_succeeds ?_
  rintro d t - ⟨rfl, ht⟩
  refine safe_same ht (fun _ _ _ h => h) fun r t ht hr _ => ?_
  obtain ⟨author, rfl⟩ := hr
  refine .act fun u hu _ => ⟨fun r v hv => ⟨trivial, trivial, ?_⟩, fun _ hv => hv.elim⟩
  obtain ⟨⟨_, rfl⟩, rfl⟩ := hv
  have hu' := ht.trans hu
  refine .succeeded fun w hw _ => ⟨hw.seen.trans hu'.seen, hw.written.trans ?_⟩
  rw [← hu'.written]

/-- All contracts given are written. -/
theorem writePayments_returns (f : FederationId) :
    ∀ (l : List ClaimableContract) (ids : List ContractId) {s : Device},
      Safe (succeeding J doc) meantime () (Machine.writePayments J f l ids)
        (Outcome.returns fun _ t => Wrote doc s f l t) s
  | [], ids, s => .returned fun _ ht _ => Wrote.nil ht
  | c :: l, ids, s => by
    refine .bind_returns trivial (writePaymentToMachineDoc_succeeds f c) ?_
    rintro r t - ⟨_, rfl, hseen, hwritten⟩
    exact (writePayments_returns f l _).mono fun o u _ hu => by
      cases o with
      | returned ids => exact Wrote.cons hseen hwritten hu
      | panicked => trivial
      | aborted => trivial

theorem removeClaimedContracts_returns (f : FederationId) (ids : List ContractId) :
    Safe (succeeding J doc) meantime () (Wallet.removeClaimedContracts f ids)
      (Outcome.returns fun _ t => t.seen = s.seen ∧ t.written = s.written) s := by
  refine Safe.bind_returns (R := fun _ t => t.seen = s.seen ∧ t.written = s.written) trivial ?_
    fun _ t _ ht => .returned fun u hu _ => ⟨hu.seen.trans ht.1, hu.written.trans ht.2⟩
  rw [Wallet.withClient_eq]
  refine safe_same (Meantime.refl s) (fun _ _ _ h => h) fun _ t ht _ _ => ?_
  refine safe_same ht (fun _ _ _ h => h.1) fun connected t ht _ _ => ?_
  cases connected with
  | false =>
    refine safe_same ht (fun _ _ _ h => h) fun _ t ht _ _ => ?_
    exact .returned fun u hu _ => ⟨(ht.trans hu).seen, (ht.trans hu).written⟩
  | true =>
    refine .act fun u hu _ => ⟨fun _ v hv => ⟨trivial, trivial, ?_⟩, fun _ hv => hv.elim⟩
    obtain ⟨-, rfl⟩ := hv
    have hu' := ht.trans hu
    obtain ⟨hwritten, hseen⟩ := forget_written u f ids
    refine safe_same (Meantime.refl _) (fun _ _ _ h => h) fun _ t ht _ _ => ?_
    exact .returned fun v hv _ => ⟨((ht.trans hv).seen.trans hseen).trans hu'.seen,
      ((ht.trans hv).written.trans hwritten).trans hu'.written⟩

/-- The contracts of the wallet under the configuration are written. -/
theorem makeCompletedPaymentsSyncable_returns (cfg : MachineConfig) :
    Safe (succeeding J doc) meantime () (Machine.makeCompletedPaymentsSyncable J cfg)
      (Outcome.returns fun _ t => ∃ l,
        Fetched s cfg.federationInviteCode.federationId cfg.claimerPk l ∧
          Wrote doc s cfg.federationInviteCode.federationId l t) s := by
  refine .bind_returns trivial (getClaimableContracts_returns _ cfg.claimerPk) ?_
  rintro lOr t - ⟨ht, hl⟩
  rcases lOr with _ | l
  · exact .returned fun u hu _ => ⟨_, hl, Wrote.nil (ht.trans hu)⟩
  refine .bind_returns trivial (writePayments_returns _ l []) fun ids u _ hu => ?_
  have hsu : Wrote doc s cfg.federationInviteCode.federationId l u :=
    ⟨hu.seen.trans ht.seen, fun x => by rw [hu.written, ht.written]⟩
  split_ifs
  · exact .returned fun v hv _ => ⟨l, hl, hsu.trans hv.seen hv.written⟩
  · refine (removeClaimedContracts_returns _ ids).mono fun o v _ hv => ?_
    cases o with
    | returned => exact ⟨l, hl, hsu.trans hv.1 hv.2⟩
    | panicked => trivial
    | aborted => trivial

/-- **What an iteration writes**: of the contracts in the wallet at its start, those under the
configuration that it has read. -/
theorem syncerPass_safe (secret : Mnemonic) :
    Safe (succeeding J doc) meantime () (Machine.syncerPass J secret)
      (Outcome.returns fun _ t => ∀ f c, s.Holds f c →
        ((doc, createClaimableContractMachineDocKey f c) ∈ t.written ↔
          t.Under f c ∨ (doc, createClaimableContractMachineDocKey f c) ∈ s.written)) s := by
  refine .bind_returns trivial getMachineState_succeeds ?_
  rintro r t - ⟨state, rfl, ht⟩
  -- Without a configuration nothing is written.
  have hnone : configOf state = none → ∀ u, Meantime t u → ∀ f c, s.Holds f c →
      ((doc, createClaimableContractMachineDocKey f c) ∈ u.written ↔
        u.Under f c ∨ (doc, createClaimableContractMachineDocKey f c) ∈ s.written) := by
    intro hn u hu f c _
    have hunder : ¬ u.Under f c := by
      rintro ⟨cfg, hcfg, -⟩
      rw [hu.seen, ht.seen, hn] at hcfg
      cases hcfg
    rw [hu.written, ht.written]
    simp only [hunder, false_or]
  rcases state with (_ | cfg) | _
  · exact .returned fun u hu _ => hnone rfl u hu
  · refine .bind_returns trivial (setDefaultFederation_succeeds secret cfg.federationInviteCode) ?_
    rintro r u - ⟨_, rfl, hu⟩
    refine (makeCompletedPaymentsSyncable_returns cfg).mono fun o v _ hv => ?_
    cases o with
    | panicked => trivial
    | aborted => trivial
    | returned =>
      obtain ⟨l, hl, hv⟩ := hv
      have hseen : v.seen = some cfg := (hv.seen.trans hu.seen).trans ht.seen
      intro f c hc
      have hcu : u.Holds f c := hu.holds (ht.holds hc)
      rw [hv.written, hu.written, ht.written]
      refine or_congr ⟨?_, ?_⟩ Iff.rfl
      · rintro ⟨c', hc', heq⟩
        obtain ⟨rfl, hid⟩ := contractKey_inj (Prod.mk.inj heq).2
        obtain rfl := hl.unique c' hc' c hcu hid.symm
        exact ⟨cfg, hseen, rfl, (hl.key _ hc').symm⟩
      · rintro ⟨cfg', hcfg', rfl, hpk⟩
        rw [hseen, Option.some.injEq] at hcfg'
        subst hcfg'
        exact ⟨c, hl.all c hcu hpk.symm, rfl⟩
  · exact .returned fun u hu _ => hnone rfl u hu

end Functions

/-- **After a complete iteration** every contract that was in the wallet at its start has been written
iff each of them was issued under the configuration that the iteration read, or was written before. -/
theorem syncerPass_writes_iff {J : Serde} {doc : NamespaceId} {secret : Mnemonic} {s s' : Device}
    (h : Runs (succeeding J doc) () Meanwhile (Machine.syncerPass J secret) s (.returned ()) s') :
    (∀ f c, s.Holds f c → (doc, createClaimableContractMachineDocKey f c) ∈ s'.written) ↔
      ∀ f c, s.Holds f c →
        s'.Under f c ∨ (doc, createClaimableContractMachineDocKey f c) ∈ s.written := by
  have hsafe := (h.sound (D := meantime) (fun _ he => ⟨trivial, he.meantime⟩) trivial
    (syncerPass_safe secret)).2
  exact ⟨fun hw f c hc => (hsafe f c hc).mp (hw f c hc), fun hw f c hc => (hsafe f c hc).mpr (hw f c hc)⟩

/-! ### A contract of an earlier configuration -/

section Histories
variable (J : Serde) (doc : NamespaceId)

/-- The machine before it is claimed. -/
def Device.init : Device := ⟨none, none, fun _ => none, [], [], none⟩

/-- What a machine may have been through when an iteration starts: invoices, complete iterations, and
whatever happens besides. -/
inductive History : Device → Prop
  | init : History Device.init
  | meanwhile {s s' : Device} : History s → Meanwhile s s' → History s'
  | invoice {s s' : Device} {request : InvoiceRequest} {r : Except Error OperationId} :
      History s →
      Runs (succeeding J doc) () Meanwhile (Machine.receivePayment J request).run s (.returned r) s' →
      History s'
  | iteration {s s' : Device} {secret : Mnemonic} :
      History s →
      Runs (succeeding J doc) () Meanwhile (Machine.syncerPass J secret) s (.returned ()) s' →
      History s'

end Histories

namespace Stranded

/-- Two federations, with one claimer key. -/
def fed (b : UInt8) : FederationId := ⟨.replicate 32 b⟩
def claimerPk : PublicKey := ⟨.replicate 33 2⟩
def config (b : UInt8) : MachineConfig := ⟨⟨fed b, []⟩, claimerPk⟩
def doc : NamespaceId := ⟨.replicate 32 9⟩
def manager : EndpointId := ⟨.replicate 32 5⟩
def secret : Mnemonic := ⟨.replicate 16 3⟩

/-- An invoice of the first federation, and the contract that is funded for it. -/
def request : InvoiceRequest := ⟨1000, 60, "coffee", none⟩
def contract : ClaimableContract := ⟨⟨⟨.replicate 32 4⟩, claimerPk⟩, .replicate 40 6⟩

/-- The manager sets a configuration. -/
def configured (s : Device) (b : UInt8) : Device := { s with config := some (config b) }

/-- An iteration has read the configuration and joined its federation. -/
def joined (s : Device) (b : UInt8) : Device :=
  { configured s b with seen := some (config b) }.setClient (fed b) .empty

/-- The machine is claimed and configured, has joined the first federation and issued an invoice; then
the manager sets the second federation, and the invoice is paid. -/
def claimed : Device := { Device.init with owner := some manager }
def invoiced : Device := { joined claimed 1 with issued := [(fed 1, claimerPk)] }
def paid : Device := (configured invoiced 2).setClient (fed 1) (Client.empty.record contract)

abbrev machine : World Unit Op Op.Ret Device := succeeding .framed doc

theorem ticket_read (t : DocTicket)
    (ht : MachineProtocol.ticketOf .framed (.ok (Serde.framed.ticket.enc ⟨.write doc⟩)) = some t) :
    t.capability.id = doc := by
  rw [MachineProtocol.ticketOf, Format.decode_encode, Option.some.injEq] at ht
  rw [← ht]
  rfl

section Runs
variable {E : Device → Device → Prop} {s : Device} {b : UInt8}

/-- Reading the state of a claimed and configured machine. -/
theorem getMachineState_runs (howner : s.owner = some manager) (hcfg : s.config = some (config b)) :
    Runs machine () E (MachineProtocol.getMachineState .framed).run s
      (.returned (.ok (.claimed (some (config b))))) { s with seen := some (config b) } := by
  refine runs_next .ownerLock (some manager) { s with seen := none } ⟨trivial, rfl, howner.symm⟩ ?_
  refine runs_next (.createDirAll .appDir) (.ok ()) _ ⟨⟨_, rfl⟩, rfl⟩ ?_
  refine runs_next (.readFile .docTicket) (.ok (Serde.framed.ticket.enc ⟨.write doc⟩)) _
    ⟨⟨_, rfl⟩, rfl, ticket_read⟩ ?_
  refine runs_next (.docsOpen doc) (.ok (some doc)) _
    ⟨⟨_, rfl⟩, rfl, fun d hd => by cases hd; rfl⟩ ?_
  refine runs_next (.docGetOne doc MACHINE_CONFIG_KEY)
    (.ok (some ⟨.manager, MACHINE_CONFIG_KEY, 0, Serde.framed.config.enc (config b)⟩))
    { s with seen := some (config b) }
    ⟨⟨_, rfl⟩, by rw [← hcfg], fun e he => by cases he; rw [hcfg]; rfl⟩ ?_
  refine runs_next (.blobsGetBytes (Serde.framed.config.enc (config b)))
    (.ok (Serde.framed.config.enc (config b))) _ ⟨⟨_, rfl⟩, rfl, fun c hc => by cases hc; rfl⟩ ?_
  refine runs_next .ownerUnlock () _ ⟨trivial, rfl⟩ ?_
  exact .returned _ _

/-- An iteration that joins the federation of the configuration. -/
theorem syncerPass_runs (howner : s.owner = some manager) (hcfg : s.config = some (config b))
    (hclient : s.clients (fed b) = none) :
    Runs machine () E (Machine.syncerPass .framed secret) s (.returned ()) (joined s b) := by
  refine Runs.bind (getMachineState_runs howner hcfg) rfl ?_
  refine runs_next .dataDirLock () _ ⟨trivial, rfl⟩ ?_
  refine runs_next (.isDir (.federationDir (fed b))) false _ ⟨trivial, rfl⟩ ?_
  refine runs_next (.dbOpen (fed b)) (.ok ()) _ ⟨⟨_, rfl⟩, rfl⟩ ?_
  refine runs_next (.dbIsInitialized (fed b)) false _ ⟨trivial, rfl⟩ ?_
  refine runs_next .clientBuilder (.ok ()) _ ⟨⟨_, rfl⟩, rfl⟩ ?_
  refine runs_next .clientConnectors (.ok ()) _ ⟨⟨_, rfl⟩, rfl⟩ ?_
  refine runs_next (.clientPreview ⟨fed b, []⟩) (.ok ()) _ ⟨⟨_, rfl⟩, rfl⟩ ?_
  refine runs_next (.clientJoin ⟨fed b, []⟩ secret) (.ok ()) _ ⟨⟨_, rfl⟩, rfl⟩ ?_
  refine runs_next .clientsWrite () _ ⟨trivial, rfl⟩ ?_
  refine runs_next (.clientsInsert (fed b)) () (joined s b) ⟨trivial, ?_⟩ ?_
  · show joined s b = Device.join { s with seen := some (config b) } (fed b)
    rw [Device.join, hclient, joined, configured, ← hcfg]
  refine runs_next .clientsRelease () _ ⟨trivial, rfl⟩ ?_
  refine runs_next .forceUpdateSend (.ok ()) _ ⟨⟨_, rfl⟩, rfl⟩ ?_
  refine runs_next .forceUpdateRecv (.ok ()) _ ⟨⟨_, rfl⟩, rfl⟩ ?_
  refine runs_next (.writeFile .defaultFederation _) (.ok ()) _ ⟨⟨_, rfl⟩, rfl⟩ ?_
  refine runs_next .dataDirRelease () _ ⟨trivial, rfl⟩ ?_
  refine runs_next .clientsRead () _ ⟨trivial, rfl⟩ ?_
  refine runs_next (.clientsContains (fed b)) true _ ⟨trivial, rfl, ?_⟩ ?_
  · show true = ((joined s b).clients (fed b)).isSome
    rw [joined, Device.setClient_self]
    rfl
  refine runs_next (.lnGetClaimableContracts (fed b) claimerPk none) [] _
    ⟨trivial, rfl, by simp, ?_⟩ ?_
  · rintro - c ⟨w, hw, hc⟩
    rw [joined, Device.setClient_self, Option.some.injEq] at hw
    subst hw
    exact absurd hc (by simp [Client.empty])
  refine runs_next .clientsRelease () _ ⟨trivial, rfl⟩ ?_
  exact .returned _ _

/-- An invoice under the configuration. -/
theorem receivePayment_runs (howner : s.owner = some manager) (hcfg : s.config = some (config b))
    (hclient : (s.clients (fed b)).isSome) :
    Runs machine () E (Machine.receivePayment .framed request).run s
      (.returned (.ok ⟨.replicate 32 8⟩))
      { s with seen := some (config b), issued := (fed b, claimerPk) :: s.issued } := by
  refine Runs.bind (getMachineState_runs howner hcfg) rfl ?_
  refine runs_next .clientsRead () _ ⟨trivial, rfl⟩ ?_
  refine runs_next (.clientsContains (fed b)) true _ ⟨trivial, rfl, hclient.symm⟩ ?_
  refine runs_next (.lnRemoteReceive (fed b) claimerPk request) (.ok ⟨.replicate 32 8⟩) _
    ⟨⟨_, rfl⟩, rfl⟩ ?_
  refine runs_next .clientsRelease () _ ⟨trivial, rfl⟩ ?_
  exact .returned _ _

end Runs

theorem paid_history : History .framed doc paid := by
  have hclaimed : History .framed doc claimed := .meanwhile .init (.claim _ manager rfl)
  have hconfigured : History .framed doc (configured claimed 1) :=
    .meanwhile hclaimed (.configure _ (config 1))
  have hjoined : History .framed doc (joined (configured claimed 1) 1) :=
    .iteration hconfigured (syncerPass_runs rfl rfl rfl)
  have hinvoiced : History .framed doc invoiced :=
    .invoice hjoined (receivePayment_runs rfl rfl (by simp [joined]))
  have hswitched : History .framed doc (configured invoiced 2) :=
    .meanwhile hinvoiced (.configure _ (config 2))
  refine .meanwhile hswitched (.fund _ (w := .empty) ?_ ?_)
  · simp [configured, invoiced, joined, Device.setClient]
  · exact List.mem_singleton.mpr rfl

/-- The contract is in the wallet. -/
theorem paid_holds : paid.Holds (fed 1) contract :=
  ⟨_, Device.setClient_self .., by simp [Client.record, Client.empty]⟩

/-- A complete iteration after the payment. -/
theorem paid_runs : Runs machine () Meanwhile (Machine.syncerPass .framed secret) paid (.returned ())
    (joined paid 2) := by
  refine syncerPass_runs rfl rfl ?_
  rw [paid, Device.setClient_other _ _ (by decide)]
  rfl

end Stranded

open Stranded in
/-- The contract is not under the configuration that the iteration reads. -/
theorem syncerPass_writes_iff_paid :
    ¬ ∀ f c, paid.Holds f c → (joined paid 2).Under f c ∨
      (doc, createClaimableContractMachineDocKey f c) ∈ paid.written := by
  intro h
  cases (syncerPass_writes_iff paid_runs).mpr h (fed 1) contract paid_holds

open Stranded in
/-- **A contract of an earlier configuration** that is funded after the change is not written by a
complete iteration. -/
theorem changed_config_strands :
    ¬ ∀ s s', History .framed doc s →
      Runs (succeeding .framed doc) () Meanwhile (Machine.syncerPass .framed secret) s
        (.returned ()) s' →
      ∀ f c, s.Holds f c → (doc, createClaimableContractMachineDocKey f c) ∈ s'.written := by
  intro h
  cases h paid (joined paid 2) paid_history paid_runs (fed 1) contract paid_holds

end Vendimint.Transfer
