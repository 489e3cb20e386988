import Vendimint.Transfer.World
import Mathlib.Data.List.Dedup

/-! # What the passes of the devices do

The specifications of the functions that the tasks of `Transfer.system` run, for any discipline `D`
and any world `W` within that of the system.

* `transfer_safe`: a pass of a machine removes from the wallet only contracts that it has written to
  the document.
* `sweep_safe`: a pass of the manager removes from a document only contracts that its wallet has
  accepted.
* `getClaimableContracts_safe`: a query returns only contracts that the manager's replica shows. -/

namespace Vendimint.Transfer

open Vendimint.Store Vendimint.Async Vendimint.ManagerProtocol Vendimint.SharedProtocol

variable {J : Serde} {docOf : EndpointId → NamespaceId} {clock : ℕ → ℕ → Prop}
  {W : World TaskId Op Op.Ret State} {D : Discipline TaskId State} {s : State} {m : EndpointId} {n : ℕ}

/-! ### Passes of a machine -/

/-- What the writes of the pass `n` of the machine `m` do: they keep the discipline, and one that
succeeds gives `R` of its contract. -/
structure Writes (W : World TaskId Op Op.Ret State) (D : Discipline TaskId State) (J : Serde)
    (docOf : EndpointId → NamespaceId) (m : EndpointId) (n : ℕ)
    (R : FederationId → ContractId → State → Prop) : Prop where
  exec : ∀ {f c s r s'}, D.inv s → W.exec (.machine m n) (.docSetBytes (docOf m) .machine
    (createClaimableContractMachineDocKey f c) (J.contract.enc c)) s r s' →
      D.inv s' ∧ D.guar (.machine m n) s s' ∧ (r = .ok () → R f c.contract.contractId s')
  cut : ∀ {f c s s'}, D.inv s → W.cut (.machine m n) (.docSetBytes (docOf m) .machine
    (createClaimableContractMachineDocKey f c) (J.contract.enc c)) s s' →
      D.inv s' ∧ D.guar (.machine m n) s s'
  stable : ∀ {f id s s'}, D.rely (.machine m n) s s' → R f id s → R f id s'
  kept : ∀ {f id s s'}, D.guar (.machine m n) s s' → R f id s → R f id s'
  forget : ∀ {f ids s}, D.inv s → (∀ id ∈ ids, R f id s) →
    D.inv (s.forget m f ids) ∧ D.guar (.machine m n) s (s.forget m f ids)

section Machine
variable (hW : W.Within (system J docOf clock).toWorld) (hguar : ∀ i t, D.guar i t t)
include hW hguar

theorem getOrCreateMachineDoc_safe :
    Safe W D (.machine m n) (MachineProtocol.getOrCreateMachineDoc J).run
      (Outcome.oks fun d _ => d = docOf m) s := by
  simp only [MachineProtocol.getOrCreateMachineDoc, Fallible.run_bind, run_attempt, await_eq,
    Fallible.run_of, call_eq, Prog.await_bind, Prog.pure_bind]
  refine .ask (hguar _) (fun _ _ _ h => hW.exec h) (fun _ _ h => hW.cut h) fun t r _ hi _ => ?_
  rcases r with err | _
  · exact .failed
  refine .ask (hguar _) (fun _ _ _ h => (hW.exec h).1) (fun _ _ h => hW.cut h) fun t r _ hi hr => ?_
  have hticket := (hW.exec hr).2
  simp only [Fallible.andThen_ok]
  rcases htk : MachineProtocol.ticketOf J r with _ | ticket
  · simp only [Fallible.run_bind, run_attempt, Prog.await_bind, Prog.pure_bind]
    refine .ask (hguar _) (fun _ _ _ h => (hW.exec h).1) (fun _ _ h => hW.cut h) fun t r _ hi hr => ?_
    rcases r with err | d
    · exact .failed
    have hd : d = docOf m := (hW.exec hr).2 d rfl
    refine .ask (hguar _) (fun _ _ _ h => hW.exec h) (fun _ _ h => hW.cut h) fun t r _ hi _ => ?_
    rcases r with err | newDocTicket
    · exact .failed
    refine .ask (hguar _) (fun _ _ _ h => hW.exec h) (fun _ _ h => hW.cut h) fun t r _ hi _ => ?_
    rcases r with err | _
    · exact .failed
    exact .returned fun _ _ _ a ha => by cases ha; exact hd
  · have hid := hticket ticket htk
    simp only [Fallible.run_bind, run_attempt, Prog.await_bind, Prog.pure_bind]
    refine .ask (hguar _) (fun _ _ _ h => (hW.exec h).1) (fun _ _ h => hW.cut h) fun t r _ hi hr => ?_
    rcases r with err | docOr
    · exact .failed
    have hd := (hW.exec hr).2
    rcases docOr with _ | d
    · exact .panicked
    exact .returned fun _ _ _ a ha => by cases ha; exact (hd d rfl).trans hid

variable {R : FederationId → ContractId → State → Prop} (hR : Writes W D J docOf m n R)
include hR

theorem writePaymentToMachineDoc_safe (f : FederationId) (c : ClaimableContract) (hi : D.inv s) :
    Safe W D (.machine m n) (MachineProtocol.writePaymentToMachineDoc J f c).run
      (Outcome.oks fun _ t => R f c.contract.contractId t) s := by
  simp only [MachineProtocol.writePaymentToMachineDoc, Fallible.run_bind, run_attempt, call_eq,
    Prog.await_bind, Prog.pure_bind]
  refine .andThen hi (getOrCreateMachineDoc_safe hW hguar) ?_
  rintro d t hit rfl
  refine .ask (hguar _) (fun _ _ _ h => (hW.exec h).1) (fun _ _ h => hW.cut h) fun t r _ hi hr => ?_
  rcases r with err | a
  · exact .failed
  obtain rfl : a = .machine := (hW.exec hr).2 a rfl
  refine .act fun t _ hit => ⟨fun r u hu => ?_, fun u hu => hR.cut hit hu⟩
  obtain ⟨hinv, hg, hRu⟩ := hR.exec hit hu
  refine ⟨hinv, hg, ?_⟩
  rcases r with err | _
  · exact .failed
  exact .returned fun v hv _ _ _ => hR.stable hv (hRu rfl)

/-- The contracts that a pass has written: `R` holds of each. -/
theorem writePayments_safe {f : FederationId} : ∀ (cs : List ClaimableContract) (ids : List ContractId)
    {s : State}, D.inv s → (∀ id ∈ ids, R f id s) →
      Safe W D (.machine m n) (Machine.writePayments J f cs ids)
        (Outcome.returns fun ids t => ∀ id ∈ ids, R f id t) s
  | [], ids, s, _, hids => .returned fun t ht _ id hid => hR.stable ht (hids id hid)
  | c :: cs, ids, s, hi, hids => by
    simp only [Machine.writePayments, Prog.bind_eq]
    have hwrite := (writePaymentToMachineDoc_safe hW hguar hR f c hi).remember
      (fun a b => ∀ id, R f id a → R f id b) (fun h h' id ha => h' id (h id ha))
      (fun h id => hR.stable h) (fun _ h id => hR.kept h) fun _ => id
    refine .bind_of hi hwrite (fun r t hit ⟨hkept, hok⟩ => ?_) (fun _ _ _ => trivial)
      fun _ _ _ => trivial
    have hids' : ∀ id ∈ ids, R f id t := fun id hid => hkept id (hids id hid)
    cases r with
    | error e => exact writePayments_safe cs ids hit hids'
    | ok _ =>
      refine writePayments_safe cs _ hit fun id hid => ?_
      rcases List.mem_append.mp hid with hid | hid
      · exact hids' id hid
      · exact List.mem_singleton.mp hid ▸ hok () rfl

omit hR in
theorem walletGetClaimableContracts_safe (f : FederationId) (pk : PublicKey) :
    Safe W D (.machine m n) (Wallet.getClaimableContracts f pk none)
      (Outcome.returns fun _ _ => True) s := by
  rw [Wallet.getClaimableContracts, Wallet.withClient_eq]
  refine .ask (hguar _) (fun _ _ _ h => hW.exec h) (fun _ _ h => hW.cut h) fun t _ _ _ _ => ?_
  refine .ask (hguar _) (fun _ _ _ h => hW.exec h) (fun _ _ h => hW.cut h) fun t connected _ _ _ => ?_
  cases connected with
  | false =>
    refine .ask (hguar _) (fun _ _ _ h => hW.exec h) (fun _ _ h => hW.cut h) fun t _ _ _ _ => ?_
    exact .returned fun _ _ _ => trivial
  | true =>
    refine .ask (hguar _) (fun _ _ _ h => (hW.exec h).1) (fun _ _ h => hW.cut h) fun t _ _ _ _ => ?_
    refine .ask (hguar _) (fun _ _ _ h => hW.exec h) (fun _ _ h => hW.cut h) fun t _ _ _ _ => ?_
    exact .returned fun _ _ _ => trivial

theorem removeClaimedContracts_safe {f : FederationId} {ids : List ContractId}
    (hids : ∀ id ∈ ids, R f id s) :
    Safe W D (.machine m n) (Wallet.removeClaimedContracts f ids)
      (Outcome.returns fun _ _ => True) s := by
  simp only [Wallet.removeClaimedContracts, Wallet.withClient_eq, call_eq, Prog.bind_eq,
    Prog.await_bind, Prog.pure_bind]
  refine .ask (hguar _) (fun _ _ _ h => hW.exec h) (fun _ _ h => hW.cut h) fun t _ ht _ _ => ?_
  refine .ask (hguar _) (fun _ _ _ h => hW.exec h) (fun _ _ h => hW.cut h)
    fun t' connected ht' _ _ => ?_
  cases connected with
  | false =>
    refine .ask (hguar _) (fun _ _ _ h => hW.exec h) (fun _ _ h => hW.cut h) fun _ _ _ _ _ => ?_
    exact .returned fun _ _ _ => trivial
  | true =>
    refine .act fun u hu hi => ?_
    have hR' : ∀ id ∈ ids, R f id u := fun id hid =>
      hR.stable hu (hR.stable ht' (hR.stable ht (hids id hid)))
    refine ⟨fun _ v hv => ?_, fun v hv => ?_⟩
    · obtain rfl := hW.exec hv
      refine ⟨(hR.forget hi hR').1, (hR.forget hi hR').2, ?_⟩
      refine .ask (hguar _) (fun _ _ _ h => hW.exec h) (fun _ _ h => hW.cut h) fun _ _ _ _ _ => ?_
      exact .returned fun _ _ _ => trivial
    · rcases hW.cut hv with rfl | rfl
      · exact ⟨hi, hguar _ _⟩
      · exact hR.forget hi hR'

/-- **A pass of a machine** forgets only contracts that it has written. -/
theorem transfer_safe (machineConfig : MachineConfig) (hi : D.inv s) :
    Safe W D (.machine m n) (transfer J machineConfig)
      (Outcome.returns fun r _ => r = .transferred) s := by
  simp only [transfer, Machine.makeCompletedPaymentsSyncable, Prog.bind_eq]
  refine .bind_returns hi (R := fun _ _ => True) ?_ fun _ _ _ _ => .returned fun _ _ _ => rfl
  refine .bind_returns hi (walletGetClaimableContracts_safe hW hguar _ _) fun or t hit _ => ?_
  rcases or with _ | claimableContracts
  · exact .returned fun _ _ _ => trivial
  refine .bind_returns hit (writePayments_safe hW hguar hR claimableContracts [] hit (by simp))
    fun ids t _ hids => ?_
  split_ifs
  · exact .returned fun _ _ _ => trivial
  · exact removeClaimedContracts_safe hW hguar hR hids

end Machine

/-! ### Queries of the manager -/

section Manager
variable (hW : W.Within (system J docOf clock).toWorld) (hguar : ∀ i t, D.guar i t t)
include hW hguar

theorem getMachine_safe (m : EndpointId) :
    Safe W D (.manager n) (getMachine J m).run
      (Outcome.oks fun ticket _ => ticket.capability.id = docOf m) s := by
  simp only [getMachine, Fallible.run_bind, run_attempt, call_eq, Prog.await_bind, Prog.pure_bind]
  refine .ask (hguar _) (fun _ _ _ h => (hW.exec h).1) (fun _ _ h => hW.cut h) fun t r _ _ hr => ?_
  rcases r with err | bytes
  · exact .failed
  have hticket := (hW.exec hr).2
  simp only [MachineProtocol.ticketOf] at hticket
  simp only [Fallible.andThen_ok]
  rcases hd : J.ticket.dec bytes with _ | ticket
  · exact .failed
  · exact .returned fun _ _ _ _ ha => by cases ha; exact hticket _ hd

theorem machinesOf_safe : ∀ (names : List FileName) (machines : List (EndpointId × DocTicket))
    {s : State}, (∀ mt ∈ machines, mt.2.capability.id = docOf mt.1) →
      Safe W D (.manager n) (machinesOf J names machines).run
        (Outcome.oks fun machines _ => ∀ mt ∈ machines, mt.2.capability.id = docOf mt.1) s
  | [], machines, s, hm => .returned fun _ _ _ _ ha => by cases ha; exact hm
  | name :: names, machines, s, hm => by
    simp only [machinesOf, Fallible.run_bind, Fallible.run_ite, run_attempt, call_eq,
      Prog.await_bind, Prog.pure_bind]
    refine .ask (hguar _) (fun _ _ _ h => hW.exec h) (fun _ _ h => hW.cut h) fun t r _ _ _ => ?_
    rcases r with err | isFile
    · exact .failed
    cases isFile with
    | false => exact machinesOf_safe names machines hm
    | true =>
      simp only [Fallible.andThen_ok, if_true]
      cases name with
      | federation _ => exact .panicked
      | other _ => exact .panicked
      | endpoint m =>
        simp only [endpointOfName, Fallible.run_unwrap_some, Prog.pure_bind, Fallible.andThen_ok]
        refine .ask (hguar _) (fun _ _ _ h => (hW.exec h).1) (fun _ _ h => hW.cut h)
          fun t r _ _ hr => ?_
        rcases r with err | bytes
        · exact .failed
        have hticket := (hW.exec hr).2
        simp only [MachineProtocol.ticketOf] at hticket
        simp only [Fallible.andThen_ok]
        rcases hd : J.ticket.dec bytes with _ | ticket
        · exact .panicked
        · refine machinesOf_safe names _ fun mt hmt => ?_
          rcases List.mem_append.mp hmt with hmt | hmt
          · exact hm mt hmt
          · rw [List.mem_singleton.mp hmt]; exact hticket _ hd

theorem listMachines_safe :
    Safe W D (.manager n) (listMachines J).run
      (Outcome.oks fun machines _ => ∀ mt ∈ machines, mt.2.capability.id = docOf mt.1) s := by
  simp only [listMachines, Fallible.run_bind, run_attempt, call_eq, Prog.await_bind, Prog.pure_bind]
  refine .ask (hguar _) (fun _ _ _ h => hW.exec h) (fun _ _ h => hW.cut h) fun t r _ _ _ => ?_
  rcases r with err | names
  · exact .failed
  · exact machinesOf_safe hW hguar names [] (by simp)

theorem paymentsOf_safe {P : Payment → Prop} (m : EndpointId) :
    ∀ (stream : List (Except Error (Entry AuthorId))) (payments : List Payment) {s : State},
      (∀ e, .ok e ∈ stream → ∀ f id c, parseIncomingContractMachineDocKey e.key = .ok (f, id) →
        J.contract.dec e.content = some c → P (m, f, c)) →
      (∀ p ∈ payments, P p) →
        Safe W D (.manager n) (paymentsOf J m stream payments).run
          (Outcome.oks fun payments _ => ∀ p ∈ payments, P p) s
  | [], payments, s, _, hp => .returned fun _ _ _ _ ha => by cases ha; exact hp
  | .error _ :: stream, payments, s, hs, hp =>
    paymentsOf_safe m stream payments (fun e he => hs e (by simp [he])) hp
  | .ok e :: stream, payments, s, hs, hp => by
    have ih : ∀ payments {s}, (∀ p ∈ payments, P p) → _ := fun payments {s} =>
      paymentsOf_safe (s := s) m stream payments fun e he => hs e (by simp [he])
    simp only [paymentsOf]
    rcases hk : parseIncomingContractMachineDocKey e.key with _ | ⟨f, id⟩
    · exact ih payments hp
    · simp only [Fallible.run_bind, Fallible.run_ite, run_attempt, call_eq, Prog.await_bind,
        Prog.pure_bind]
      refine .ask (hguar _) (fun _ _ _ h => (hW.exec h).1) (fun _ _ h => hW.cut h)
        fun t r _ _ hr => ?_
      rcases r with err | bytes
      · exact .failed
      obtain rfl := (hW.exec hr).2 bytes rfl
      simp only [Fallible.andThen_ok]
      split_ifs
      · exact ih payments hp
      · rcases hd : J.contract.dec e.content with _ | c
        · exact .failed
        · refine ih _ fun p hmem => ?_
          rcases List.mem_append.mp hmem with hmem | hmem
          · exact hp p hmem
          · rw [List.mem_singleton.mp hmem]; exact hs e (by simp) f id c hk hd

/-- What holds of every contract that the manager's replica shows. -/
def Shown (J : Serde) (docOf : EndpointId → NamespaceId) (D : Discipline TaskId State)
    (P : Payment → Prop) : Prop :=
  ∀ m s e f id c, D.inv s → e ∈ (s.atManager (docOf m)).visible → e.content ≠ [] →
    parseIncomingContractMachineDocKey e.key = .ok (f, id) → J.contract.dec e.content = some c →
      P (m, f, c)

theorem paymentsOfMachines_safe {P : Payment → Prop} (hP : Shown J docOf D P) :
    ∀ (machines : List (EndpointId × DocTicket)) (payments : List Payment) {s : State}, D.inv s →
      (∀ mt ∈ machines, mt.2.capability.id = docOf mt.1) → (∀ p ∈ payments, P p) →
        Safe W D (.manager n) (paymentsOfMachines J machines payments).run
          (Outcome.oks fun payments _ => ∀ p ∈ payments, P p) s
  | [], payments, s, _, _, hp => .returned fun _ _ _ _ ha => by cases ha; exact hp
  | (m, ticket) :: machines, payments, s, hi, hm, hp => by
    simp only [paymentsOfMachines, openMachineDoc, Fallible.run_bind, run_attempt, call_eq,
      Prog.await_bind, Prog.pure_bind]
    refine .ask (hguar _) (fun _ _ _ h => (hW.exec h).1) (fun _ _ h => hW.cut h)
      fun t r _ _ hr => ?_
    have hopen := (hW.exec hr).2
    rcases r with err | _ | d
    · exact .failed
    · exact .panicked
    obtain rfl : d = docOf m := (hopen d rfl).trans (hm (m, ticket) (by simp))
    simp only [Fallible.andThen_ok, Fallible.run_unwrap_some, Prog.pure_bind]
    refine .ask (hguar _) (fun _ _ _ h => (hW.exec h).1) (fun _ _ h => hW.cut h)
      fun t r _ hit hr => ?_
    rcases r with err | stream
    · exact .failed
    have hstream := (hW.exec hr).2 stream rfl
    refine .andThen hit (paymentsOf_safe hW hguar m stream payments (fun e he f id c hk hd => ?_) hp)
      fun payments t hit hp => paymentsOfMachines_safe hP machines payments hit
        (fun mt hmt => hm mt (by simp [hmt])) hp
    exact hP m t e f id c hit (hstream e he).1 (hstream e he).2.2 hk hd

/-- **A query of the manager** returns only contracts that its replica shows. -/
theorem getClaimableContracts_safe {P : Payment → Prop} (hP : Shown J docOf D P) (hi : D.inv s) :
    Safe W D (.manager n) (getClaimableContracts J).run
      (Outcome.oks fun payments _ => ∀ p ∈ payments, P p) s := by
  simp only [getClaimableContracts, Fallible.run_bind]
  exact .andThen hi (listMachines_safe hW hguar) fun machines t hit hm =>
    paymentsOfMachines_safe hW hguar hP machines [] hit hm (by simp)

/-! ### Passes of the manager -/

/-- What the claims and the removals of the task `n` of the manager do: they keep the discipline, a
claim that succeeds gives `A` of its contract, and a removal of a contract with `A` that succeeds
gives `R` of it. -/
structure Removes (W : World TaskId Op Op.Ret State) (D : Discipline TaskId State)
    (docOf : EndpointId → NamespaceId) (n : ℕ) (A : FederationId → ContractId → State → Prop)
    (R : EndpointId → FederationId → ContractId → State → Prop) : Prop where
  claim : ∀ {f c s r s'}, D.inv s → W.exec (.manager n) (.lnClaimContracts f [c]) s r s' →
    D.inv s' ∧ D.guar (.manager n) s s' ∧ (r = .ok () → A f c.contract.contractId s')
  claimCut : ∀ {f c s s'}, D.inv s → W.cut (.manager n) (.lnClaimContracts f [c]) s s' →
    D.inv s' ∧ D.guar (.manager n) s s'
  del : ∀ {m f c s r s'}, D.inv s → A f c.contract.contractId s → W.exec (.manager n)
    (.docDel (docOf m) .manager (createClaimableContractMachineDocKey f c)) s r s' →
      D.inv s' ∧ D.guar (.manager n) s s' ∧ (r = .ok () → R m f c.contract.contractId s')
  delCut : ∀ {m f c s s'}, D.inv s → A f c.contract.contractId s → W.cut (.manager n)
    (.docDel (docOf m) .manager (createClaimableContractMachineDocKey f c)) s s' →
      D.inv s' ∧ D.guar (.manager n) s s'
  claimed_stable : ∀ {f id s s'}, D.rely (.manager n) s s' → A f id s → A f id s'
  claimed_kept : ∀ {f id s s'}, D.guar (.manager n) s s' → A f id s → A f id s'
  removed_stable : ∀ {m f id s s'}, D.rely (.manager n) s s' → R m f id s → R m f id s'
  removed_kept : ∀ {m f id s s'}, D.guar (.manager n) s s' → R m f id s → R m f id s'

variable {A : FederationId → ContractId → State → Prop}
  {R : EndpointId → FederationId → ContractId → State → Prop} (hR : Removes W D docOf n A R)
include hR

omit hW hguar in
/-- `A` and `R` stay through a program. -/
theorem Removes.remember {α : Type} {p : Fut α} {Q : Outcome α → State → Prop}
    (h : Safe W D (.manager n) p Q s) :
    Safe W D (.manager n) p (fun o t => ((∀ f id, A f id s → A f id t) ∧
      ∀ m f id, R m f id s → R m f id t) ∧ Q o t) s :=
  h.remember (fun a b => (∀ f id, A f id a → A f id b) ∧ ∀ m f id, R m f id a → R m f id b)
    (fun h h' => ⟨fun f id ha => h'.1 f id (h.1 f id ha), fun m f id ha => h'.2 m f id (h.2 m f id ha)⟩)
    (fun h => ⟨fun _ _ => hR.claimed_stable h, fun _ _ _ => hR.removed_stable h⟩)
    (fun _ h => ⟨fun _ _ => hR.claimed_kept h, fun _ _ _ => hR.removed_kept h⟩)
    ⟨fun _ _ => id, fun _ _ _ => id⟩

omit hW hguar in
theorem Removes.andThen {α β : Type} {p : Fut (Except Error α)} {f : α → Fut (Except Error β)}
    {Q : α → State → Prop} {Q' : β → State → Prop} (hi : D.inv s)
    (hp : Safe W D (.manager n) p (Outcome.oks Q) s)
    (hf : ∀ a t, D.inv t → (∀ f id, A f id s → A f id t) → Q a t →
      Safe W D (.manager n) (f a) (Outcome.oks Q') t) :
    Safe W D (.manager n) (p.bind (Fallible.andThen f)) (Outcome.oks Q') s := by
  refine .bind_of hi (hR.remember hp) (fun r t hit ⟨hkept, hok⟩ => ?_) (fun _ _ _ => trivial)
    fun _ _ _ => trivial
  cases r with
  | error e => exact .failed
  | ok a => exact hf a t hit hkept.1 (hok a rfl)

omit hW hguar in
theorem Removes.oks_mono {α : Type} {p : Fut (Except Error α)} {Q Q' : α → State → Prop}
    (hp : Safe W D (.manager n) p (Outcome.oks Q) s)
    (hQ : ∀ a t, (∀ m f id, R m f id s → R m f id t) → Q a t → Q' a t) :
    Safe W D (.manager n) p (Outcome.oks Q') s := by
  refine (hR.remember hp).mono fun o t _ ht => ?_
  cases o with
  | returned r => exact fun a ha => hQ a t ht.1.2 (ht.2 a ha)
  | panicked => trivial
  | aborted => trivial

theorem claimContracts_safe (f : FederationId) (c : ClaimableContract) :
    Safe W D (.manager n) (Wallet.claimContracts f [c]).run
      (Outcome.oks fun _ t => A f c.contract.contractId t) s := by
  simp only [Wallet.claimContracts, Wallet.withClient_eq, call_eq, Fallible.run_bind,
    Fallible.run_lift, Prog.await_bind, Prog.pure_bind]
  refine .ask (hguar _) (fun _ _ _ h => hW.exec h) (fun _ _ h => hW.cut h) fun t _ _ _ _ => ?_
  refine .ask (hguar _) (fun _ _ _ h => hW.exec h) (fun _ _ h => hW.cut h) fun t connected _ _ _ => ?_
  cases connected with
  | false =>
    refine .ask (hguar _) (fun _ _ _ h => hW.exec h) (fun _ _ h => hW.cut h) fun t _ _ _ _ => ?_
    exact .failed
  | true =>
    refine .act fun t _ hi => ⟨fun r u hu => ?_, fun u hu => hR.claimCut hi hu⟩
    obtain ⟨hinv, hg, hA⟩ := hR.claim hi hu
    refine ⟨hinv, hg, ?_⟩
    refine .ask (hguar _) (fun _ _ _ h => hW.exec h) (fun _ _ h => hW.cut h) fun v _ hv _ _ => ?_
    rcases r with err | _
    · exact .failed
    · exact .returned fun w hw _ _ _ => hR.claimed_stable hw (hR.claimed_stable hv (hA rfl))

/-- The contracts that a pass has claimed: they are among those that it found, and `A` holds of
each. -/
theorem claimPayments_safe {P : Payment → Prop} : ∀ (l claimed : List Payment) {s : State},
    D.inv s → (∀ p ∈ l, P p) → (∀ p ∈ claimed, P p ∧ A p.2.1 p.2.2.contract.contractId s) →
      Safe W D (.manager n) (Manager.claimPayments l claimed)
        (Outcome.returns fun claimed t => ∀ p ∈ claimed, P p ∧ A p.2.1 p.2.2.contract.contractId t) s
  | [], claimed, s, _, _, hc =>
    .returned fun t ht _ p hp => ⟨(hc p hp).1, hR.claimed_stable ht (hc p hp).2⟩
  | (m, f, c) :: l, claimed, s, hi, hl, hc => by
    simp only [Manager.claimPayments, Prog.bind_eq]
    refine .bind_of hi (hR.remember (claimContracts_safe hW hguar hR f c))
      (fun r t hit ⟨hkept, hok⟩ => ?_) (fun _ _ _ => trivial) fun _ _ _ => trivial
    have hl' : ∀ p ∈ l, P p := fun p hp => hl p (by simp [hp])
    have hc' : ∀ p ∈ claimed, P p ∧ A p.2.1 p.2.2.contract.contractId t :=
      fun p hp => ⟨(hc p hp).1, hkept.1 _ _ (hc p hp).2⟩
    cases r with
    | error e => exact claimPayments_safe l claimed hit hl' hc'
    | ok _ =>
      refine claimPayments_safe l _ hit hl' fun p hp => ?_
      rcases List.mem_append.mp hp with hp | hp
      · exact hc' p hp
      · rw [List.mem_singleton.mp hp]; exact ⟨hl _ (by simp), hok () rfl⟩

omit hW hguar in
theorem deleteFrom_safe (m : EndpointId) : ∀ (contracts : List (FederationId × ClaimableContract))
    {s : State}, D.inv s → (∀ x ∈ contracts, A x.1 x.2.contract.contractId s) →
      Safe W D (.manager n) (deleteFrom (docOf m) .manager contracts).run
        (Outcome.oks fun _ t => ∀ x ∈ contracts, R m x.1 x.2.contract.contractId t) s
  | [], s, _, _ => .returned fun _ _ _ _ _ => by simp
  | (f, c) :: contracts, s, hi, hA => by
    simp only [deleteFrom, Fallible.run_bind, run_attempt, call_eq, Prog.await_bind, Prog.pure_bind]
    refine .act fun t ht hit => ?_
    have hAt : ∀ x ∈ (f, c) :: contracts, A x.1 x.2.contract.contractId t :=
      fun x hx => hR.claimed_stable ht (hA x hx)
    have hAc : A f c.contract.contractId t := hAt (f, c) (by simp)
    refine ⟨fun r u hu => ?_, fun u hu => hR.delCut hit hAc hu⟩
    obtain ⟨hinv, hg, hRu⟩ := hR.del hit hAc hu
    refine ⟨hinv, hg, ?_⟩
    rcases r with err | _
    · exact .failed
    have ih := deleteFrom_safe m contracts hinv fun x hx => hR.claimed_kept hg (hAt x (by simp [hx]))
    refine hR.oks_mono ih fun _ v hkept hv x hx => ?_
    rcases List.mem_cons.mp hx with rfl | hx
    · exact hkept _ _ _ (hRu rfl)
    · exact hv x hx

theorem deleteFromMachines_safe (claimed : List Payment) : ∀ (ms : List EndpointId) {s : State},
    D.inv s → (∀ p ∈ claimed, A p.2.1 p.2.2.contract.contractId s) →
      Safe W D (.manager n) (deleteFromMachines J .manager claimed ms).run
        (Outcome.oks fun _ t => ∀ p ∈ claimed, p.1 ∈ ms → R p.1 p.2.1 p.2.2.contract.contractId t) s
  | [], s, _, _ => .returned fun _ _ _ _ _ => by simp
  | m :: ms, s, hi, hA => by
    simp only [deleteFromMachines, openMachineDoc, Fallible.run_bind, run_attempt, call_eq,
      Prog.await_bind, Prog.pure_bind]
    refine hR.andThen hi (getMachine_safe hW hguar m) fun ticket t hit hA₁ hticket => ?_
    refine .ask (hguar _) (fun _ _ _ h => (hW.exec h).1) (fun _ _ h => hW.cut h)
      fun u r hu hiu hr => ?_
    have hopen := (hW.exec hr).2
    rcases r with err | _ | d
    · exact .failed
    · exact .panicked
    obtain rfl : d = docOf m := (hopen d rfl).trans hticket
    have hAu : ∀ p ∈ claimed, A p.2.1 p.2.2.contract.contractId u :=
      fun p hp => hR.claimed_stable hu (hA₁ _ _ (hA p hp))
    simp only [Fallible.andThen_ok, Fallible.run_unwrap_some, Prog.pure_bind]
    have hdel := deleteFrom_safe hR m (contractsOf m claimed) hiu
      fun x hx => hAu (m, x) (mem_contractsOf.mp hx)
    refine hR.andThen hiu hdel fun _ v hiv hA₂ hv => ?_
    refine hR.oks_mono (deleteFromMachines_safe claimed ms hiv fun p hp => hA₂ _ _ (hAu p hp))
      fun _ w hkept hw p hp hmem => ?_
    rcases List.mem_cons.mp hmem with hm | hmem
    · obtain ⟨m', f, c⟩ := p
      simp only at hm
      subst hm
      exact hkept _ _ _ (hv (f, c) (mem_contractsOf.mpr hp))
    · exact hw p hp hmem

theorem removeClaimableContracts_safe {claimed : List Payment}
    (hA : ∀ p ∈ claimed, A p.2.1 p.2.2.contract.contractId s) :
    Safe W D (.manager n) (removeClaimableContracts J claimed).run
      (Outcome.oks fun _ t => ∀ p ∈ claimed, R p.1 p.2.1 p.2.2.contract.contractId t) s := by
  simp only [removeClaimableContracts, Fallible.run_bind, run_attempt, await_eq, Fallible.run_of,
    call_eq, Prog.await_bind, Prog.pure_bind]
  refine .ask (hguar _) (fun _ _ _ h => (hW.exec h).1) (fun _ _ h => hW.cut h) fun t r ht _ hr => ?_
  have hauthor := (hW.exec hr).2
  rcases r with err | a
  · exact .failed
  obtain rfl : a = .manager := hauthor a rfl
  refine .ask (hguar _) (fun _ _ _ h => (hW.exec h).1) (fun _ _ h => hW.cut h)
    fun u ms hu hiu hr => ?_
  have hperm := (hW.exec hr).2
  simp only [Fallible.andThen_ok]
  refine hR.oks_mono (deleteFromMachines_safe hW hguar hR claimed ms hiu fun p hp =>
    hR.claimed_stable hu (hR.claimed_stable ht (hA p hp))) fun _ v _ hv p hp => hv p hp ?_
  exact hperm.mem_iff.mpr (List.mem_dedup.mpr (List.mem_map_of_mem hp))

/-- **A pass of the manager** removes only contracts that its wallet has accepted. It claims only
contracts that its replica shows; if the removal succeeds, `R` holds of all of these. -/
theorem sweep_safe {P : Payment → Prop} (hP : Shown J docOf D P) (hi : D.inv s) :
    Safe W D (.manager n) (sweep J) (Outcome.returns fun r t => ∀ p, (r.Reports p → P p) ∧
      (r.Removed p → R p.1 p.2.1 p.2.2.contract.contractId t)) s := by
  have hnone : ∀ p, ¬ (Result.swept none).Reports p ∧ ¬ (Result.swept none).Removed p :=
    fun p => ⟨id, id⟩
  refine .bind_returns hi (R := fun r t => ∀ p, ((Result.swept r).Reports p → P p) ∧
    ((Result.swept r).Removed p → R p.1 p.2.1 p.2.2.contract.contractId t)) ?_ fun r t _ hr =>
      .returned fun u hu _ p => ⟨(hr p).1, fun h => hR.removed_stable hu ((hr p).2 h)⟩
  simp only [Manager.sweepPayments, Prog.bind_eq]
  refine .bind_returns hi (getClaimableContracts_safe hW hguar hP hi) fun or t hit hfound => ?_
  rcases or with err | claimable
  · exact .returned fun _ _ _ p => ⟨fun h => absurd h (hnone p).1, fun h => absurd h (hnone p).2⟩
  refine .bind_returns hit (claimPayments_safe hW hguar hR claimable [] hit (hfound _ rfl) (by simp))
    fun claimed u hiu hA => ?_
  split_ifs
  · exact .returned fun _ _ _ p => ⟨fun h => absurd h (hnone p).1, fun h => absurd h (hnone p).2⟩
  refine .bind_returns hiu (removeClaimableContracts_safe hW hguar hR fun p hp => (hA p hp).2)
    fun r v _ hv => .returned fun w hw _ p => ⟨fun h => (hA p h).1, fun h => ?_⟩
  rcases r with err | _
  · exact h.elim
  · exact hR.removed_stable hw (hv () rfl p h)

omit hR in
/-- **A query of the manager** as a task. -/
theorem listing_safe {P : Payment → Prop} (hP : Shown J docOf D P) (hi : D.inv s) :
    Safe W D (.manager n) (listing J)
      (Outcome.returns fun r _ => ∀ p, (r.Reports p → P p) ∧ ¬ r.Removed p) s := by
  refine .bind_returns hi (getClaimableContracts_safe hW hguar hP hi) fun r t _ hr => ?_
  refine .returned fun _ _ _ p => ⟨fun h => ?_, id⟩
  rcases r with err | l
  · exact h.elim
  · exact hr l rfl p h

end Manager

end Vendimint.Transfer
