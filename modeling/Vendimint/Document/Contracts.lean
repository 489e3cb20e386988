import Vendimint.Document.World

/-! # What a manager reads from the documents of its machines

* `ensures_openDoc`: a device opens the document of its ticket, if it has a replica of it.
* `ensures_getClaimableContracts`: the contracts that a manager lists are those of the entries that
  its replicas show under the keys of contracts (`listing`), provided that all of these can be read
  (`AllRead`).
* `lists_iff`: hence whether a contract is listed. -/

namespace Vendimint.Document

open Vendimint.Store Vendimint.Async Vendimint.ManagerProtocol Vendimint.SharedProtocol

variable {Z : Setting} {self : AuthorId} {s : Device} {α : Type}

/-- A read, with all that it may answer. -/
theorem ensures_ask {op : Op} {k : op.Ret → Fut α} {Q : Outcome α → Device → Prop}
    (h : Reads (fun _ => True) op) (hex : ∃ r, exec Z self op s r s) (hab : Q .aborted s)
    (hk : ∀ r, exec Z self op s r s → Ensures (world Z self) () (k r) Q s) :
    Ensures (world Z self) () (.await op k) Q s := by
  obtain ⟨r, hr⟩ := hex
  refine ⟨⟨r, s, hr⟩, fun r' s' he => ?_, fun s' hc => ?_⟩
  · obtain rfl := eq_of_reads h he
    exact hk r' he
  · have hs : s' = s := by
      cases op
      case docSetBytes => exact h.elim
      case docDel => exact h.elim
      all_goals exact hc
    rw [hs]
    exact hab

/-- A read with one answer. -/
theorem ensures_reply {op : Op} {k : op.Ret → Fut α} {Q : Outcome α → Device → Prop} (r : op.Ret)
    (h : Reads (fun _ => True) op) (he : exec Z self op s r s)
    (hdet : ∀ r', exec Z self op s r' s → r' = r) (hab : Q .aborted s)
    (hk : Ensures (world Z self) () (k r) Q s) : Ensures (world Z self) () (.await op k) Q s :=
  ensures_ask h ⟨r, he⟩ hab fun r' hr' => hdet r' hr' ▸ hk

/-! ### Opening a document -/

theorem Access.Opens.unique {J : Serde} {x : Access} {d d' : NamespaceId}
    {R R' : Replica AuthorId} (h : x.Opens J s d R) (h' : x.Opens J s d' R') : d = d' ∧ R = R' := by
  obtain ⟨t, ht, rfl, hR⟩ := h
  obtain ⟨t', ht', rfl, hR'⟩ := h'
  rw [ht, Option.some.injEq] at ht'
  subst ht'
  rw [hR, Option.some.injEq] at hR'
  exact ⟨rfl, hR'⟩

/-- Opening the document of a ticket. -/
theorem ensures_docsOpen (t : DocTicket) :
    Ensures (world Z self) () (openMachineDoc t).run
      (Outcome.oksIff (∃ R, s.docs t.capability.id = some R)
        fun d s' => s' = s ∧ d = t.capability.id) s := by
  simp only [openMachineDoc, Fallible.run_bind, run_attempt, call_eq, Prog.await_bind, Prog.pure_bind]
  rcases h : s.docs t.capability.id with _ | R
  · have hno : ¬ ∃ R : Replica AuthorId, none = some R := by simp
    refine ensures_ask trivial ⟨.ok none, rfl, ?_⟩ trivial fun r hr => ?_
    · simp [h]
    obtain ⟨-, hr⟩ := hr
    rw [h] at hr
    rcases hr with rfl | ⟨e, rfl⟩
    · exact hno
    · exact hno
  · have hdocs : s.docs t.capability.id ≠ none := by simp [h]
    refine ensures_reply _ trivial ((exec_docsOpen hdocs).mpr ⟨rfl, rfl⟩)
      (fun r hr => ((exec_docsOpen hdocs).mp hr).2) trivial ?_
    exact ⟨⟨R, rfl⟩, rfl, rfl⟩

theorem ensures_getMachine (m : EndpointId) :
    Ensures (world Z self) () (getMachine Z.serde m).run
      (Outcome.oksIff (∃ t, (s.tickets.file m).bind Z.serde.ticket.dec = some t)
        fun t s' => s' = s ∧ (s.tickets.file m).bind Z.serde.ticket.dec = some t) s := by
  simp only [getMachine, Fallible.run_bind, run_attempt, call_eq, Prog.await_bind, Prog.pure_bind]
  refine ensures_reply (s.tickets.read m) trivial ⟨rfl, rfl⟩ (fun r hr => hr.2) trivial ?_
  unfold Tickets.read
  rcases s.tickets.file m with _ | b
  · rw [Fallible.andThen_error]
    rintro ⟨t, ht⟩
    cases ht
  · rw [Fallible.andThen_ok, Option.bind_some]
    rcases Z.serde.ticket.dec b with _ | t
    · rw [run_fromSlice_none]
      rintro ⟨t, ht⟩
      cases ht
    · rw [run_fromSlice_some]
      exact ⟨⟨t, rfl⟩, rfl, rfl⟩

/-- **Opening the document** succeeds if there is a replica of the document of the ticket. -/
theorem ensures_openDoc (x : Access) :
    Ensures (world Z self) () (x.openDoc Z.serde).run
      (Outcome.oksIff (∃ d R, x.Opens Z.serde s d R)
        fun d s' => s' = s ∧ ∃ R, x.Opens Z.serde s d R) s := by
  cases x with
  | machine =>
    have hopens : ∀ {d}, (∃ R, Access.machine.Opens Z.serde s d R) ↔
        d = s.docTicket.capability.id ∧ ∃ R, s.docs d = some R := by
      intro d
      constructor
      · rintro ⟨R, t, ht, rfl, hR⟩
        cases ht
        exact ⟨rfl, R, hR⟩
      · rintro ⟨rfl, R, hR⟩
        exact ⟨R, _, rfl, rfl, hR⟩
    have hdoc := @ensures_docsOpen Z self s s.docTicket
    simp only [openMachineDoc, Fallible.run_bind, run_attempt, call_eq, Prog.await_bind,
      Prog.pure_bind] at hdoc
    simp only [Access.openDoc, MachineProtocol.getOrCreateMachineDoc, Fallible.run_bind,
      run_attempt, await_eq, Fallible.run_of, call_eq, Prog.await_bind, Prog.pure_bind]
    refine ensures_reply (.ok ()) trivial ⟨rfl, rfl⟩ (fun r hr => hr.2) trivial ?_
    rw [Fallible.andThen_ok]
    refine ensures_reply (.ok (Z.serde.ticket.enc s.docTicket)) trivial ⟨rfl, rfl⟩
      (fun r hr => hr.2) trivial ?_
    simp only [Fallible.andThen_ok, MachineProtocol.ticketOf, Z.serde.ticket.dec_enc]
    refine hdoc.oks_mono ?_ ?_
    · rintro ⟨d, R, hR⟩
      obtain ⟨rfl, h⟩ := hopens.mp ⟨R, hR⟩
      exact h
    · rintro d s' hR ⟨rfl, rfl⟩
      have := hopens.mpr ⟨rfl, hR⟩
      exact ⟨⟨_, this⟩, rfl, this⟩
  | manager m =>
    rw [Access.openDoc, Fallible.run_bind]
    refine (ensures_getMachine m).andThen ?_ ?_
    · rintro ⟨d, R, t, ht, -⟩
      exact ⟨t, ht⟩
    · rintro t s' - ⟨rfl, ht⟩
      refine (ensures_docsOpen t).oks_mono ?_ ?_
      · rintro ⟨d, R, t', ht', rfl, hR⟩
        rw [Access.ticket, ht, Option.some.injEq] at ht'
        exact ⟨R, ht' ▸ hR⟩
      · rintro d s'' ⟨R, hR⟩ ⟨rfl, rfl⟩
        exact ⟨⟨_, R, t, ht, rfl, hR⟩, rfl, R, t, ht, rfl, hR⟩

/-! ### The contracts of a manager's documents -/

/-- The replica that a manager has of the document of `m`. -/
def replicaOf (J : Serde) (s : Device) (m : EndpointId) : Option (Replica AuthorId) :=
  ((Access.manager m).ticket J s).bind fun t => s.docs t.capability.id

@[simp] theorem replicaOf_single (J : Serde) (m : EndpointId) (d : NamespaceId)
    (R : Replica AuthorId) : replicaOf J (Device.single J m d R) m = some R := by
  simp [replicaOf, Access.ticket, Device.single, Tickets.single, Capability.id]

@[simp] theorem replicaOf_set_single (J : Serde) (m : EndpointId) (d : NamespaceId)
    (R R' : Replica AuthorId) (n : ℕ) :
    replicaOf J (Device.set { Device.single J m d R with writes := n } d R') m = some R' := by
  simp [replicaOf, Access.ticket, Device.single, Tickets.single, Capability.id]

/-- The contract that a manager reads from an entry: the federation of the key and the contract of the
value. -/
def entryPayment (J : Serde) (m : EndpointId) (e : Entry AuthorId) : Option Payment :=
  match parseIncomingContractMachineDocKey e.key with
  | .ok (f, _) => (J.contract.dec e.content).map fun c => (m, f, c)
  | .error _ => none

/-- The contracts of the entries that a replica shows. -/
def contractsShown (Z : Setting) (m : EndpointId) (R : Replica AuthorId) : List Payment :=
  (R.matching Z.ranking CLAIMABLE_CONTRACT_PREFIX).filterMap (entryPayment Z.serde m)

/-- **The contracts that a manager lists.** -/
def listing (Z : Setting) (s : Device) : List Payment :=
  s.tickets.names.flatMap fun m => ((replicaOf Z.serde s m).map (contractsShown Z m)).getD []

/-- The entry is not under the key of a contract, or its value can be read. -/
def Readable (J : Serde) (e : Entry AuthorId) : Prop :=
  ∀ f id, parseIncomingContractMachineDocKey e.key = .ok (f, id) →
    ∃ c, J.contract.dec e.content = some c

/-- The entries that a replica shows can be read. -/
def ReadsAll (Z : Setting) (R : Replica AuthorId) : Prop :=
  ∀ e ∈ R.matching Z.ranking CLAIMABLE_CONTRACT_PREFIX, Readable Z.serde e

/-- There is a replica of each document, and its entries can be read. -/
def AllRead (Z : Setting) (s : Device) : Prop :=
  ∀ m ∈ s.tickets.names, ∃ R, replicaOf Z.serde s m = some R ∧ ReadsAll Z R

theorem ensures_machinesOf : ∀ (l : List EndpointId) (acc : List (EndpointId × DocTicket)),
    Ensures (world Z self) () (machinesOf Z.serde (l.map .endpoint) acc).run
      (Outcome.oksIff (∀ m ∈ l, ∃ t, (Access.manager m).ticket Z.serde s = some t)
        fun r s' => s' = s ∧
          r = acc ++ l.filterMap fun m => ((Access.manager m).ticket Z.serde s).map fun t => (m, t)) s
  | [], acc => by simp [machinesOf, Ensures, Outcome.oksIff]
  | m :: l, acc => by
    simp only [List.map_cons, machinesOf, Fallible.run_bind, run_attempt, call_eq, Prog.await_bind,
      Prog.pure_bind]
    refine ensures_reply (.ok true) trivial ⟨rfl, rfl⟩ (fun r hr => hr.2) trivial ?_
    simp only [Fallible.andThen_ok, if_true, Fallible.run_bind, endpointOfName,
      Fallible.run_unwrap_some, Prog.pure_bind, run_attempt, Prog.await_bind]
    refine ensures_reply (s.tickets.read m) trivial ⟨rfl, rfl⟩ (fun r hr => hr.2) trivial ?_
    have hnone : (Access.manager m).ticket Z.serde s = none →
        ¬ ∀ m' ∈ m :: l, ∃ t, (Access.manager m').ticket Z.serde s = some t := by
      intro h hall
      obtain ⟨t, ht⟩ := hall m (List.mem_cons_self ..)
      rw [h] at ht
      cases ht
    unfold Tickets.read
    rcases hf : s.tickets.file m with _ | b
    · rw [Fallible.andThen_error]
      exact hnone (by rw [Access.ticket, hf]; rfl)
    · rw [Fallible.andThen_ok]
      rcases hd : Z.serde.ticket.dec b with _ | t
      · rw [Fallible.run_unwrap_none]
        exact hnone (by rw [Access.ticket, hf, Option.bind_some, hd])
      · have ht : (Access.manager m).ticket Z.serde s = some t := by
          rw [Access.ticket, hf, Option.bind_some, hd]
        rw [Fallible.run_unwrap_some, Prog.pure_bind, Fallible.andThen_ok]
        refine (ensures_machinesOf l (acc ++ [(m, t)])).oks_mono ?_ ?_
        · exact fun h m' hm' => h m' (List.mem_cons_of_mem _ hm')
        · rintro r s' h ⟨rfl, rfl⟩
          refine ⟨fun m' hm' => ?_, rfl, ?_⟩
          · rcases List.mem_cons.mp hm' with rfl | hm'
            · exact ⟨t, ht⟩
            · exact h m' hm'
          · rw [List.filterMap_cons_some (b := (m, t)) (by rw [ht]; rfl), List.append_assoc]
            rfl

theorem ensures_listMachines :
    Ensures (world Z self) () (listMachines Z.serde).run
      (Outcome.oksIff (∀ m ∈ s.tickets.names, ∃ t, (Access.manager m).ticket Z.serde s = some t)
        fun r s' => s' = s ∧ r.Perm (s.tickets.names.filterMap fun m =>
          ((Access.manager m).ticket Z.serde s).map fun t => (m, t))) s := by
  simp only [listMachines, Fallible.run_bind, run_attempt, call_eq, Prog.await_bind, Prog.pure_bind]
  refine ensures_ask trivial ⟨_, rfl, fun _ => ⟨_, List.Perm.refl _, rfl⟩⟩ trivial fun r hr => ?_
  obtain ⟨l, hl, rfl⟩ := hr.2 rfl
  rw [Fallible.andThen_ok]
  refine (ensures_machinesOf l []).oks_mono ?_ ?_
  · exact fun h m hm => h m (hl.mem_iff.mp hm)
  · rintro r s' h ⟨rfl, rfl⟩
    exact ⟨fun m hm => h m (hl.mem_iff.mpr hm), rfl, by simpa using hl.filterMap _⟩

theorem ensures_paymentsOf (m : EndpointId) : ∀ (l : List (Entry AuthorId)) (acc : List Payment),
    (∀ e ∈ l, e.content ≠ []) →
      Ensures (world Z self) () (paymentsOf Z.serde m (l.map .ok) acc).run
        (Outcome.oksIff (∀ e ∈ l, Readable Z.serde e)
          fun r s' => s' = s ∧ r = acc ++ l.filterMap (entryPayment Z.serde m)) s
  | [], acc, _ => by simp [paymentsOf, Ensures, Outcome.oksIff]
  | e :: l, acc, hne => by
    have hl : ∀ acc, _ := fun acc => ensures_paymentsOf m l acc
      fun e' he' => hne e' (List.mem_cons_of_mem _ he')
    rw [List.map_cons, paymentsOf]
    rcases hp : parseIncomingContractMachineDocKey e.key with err | ⟨f, id⟩
    · have hpay : entryPayment Z.serde m e = none := by rw [entryPayment, hp]
      have hread : Readable Z.serde e := fun f id h => by rw [hp] at h; cases h
      rw [List.filterMap_cons_none hpay]
      refine (hl acc).oks_mono (fun h e' he' => h e' (List.mem_cons_of_mem _ he')) ?_
      rintro r s' h hr
      exact ⟨List.forall_mem_cons.mpr ⟨hread, h⟩, hr⟩
    · simp only [Fallible.run_bind, run_attempt, call_eq, Prog.await_bind, Prog.pure_bind]
      refine ensures_reply (.ok e.content) trivial ⟨rfl, rfl⟩ (fun r hr => hr.2) trivial ?_
      have hemp : e.content.isEmpty = false := by simpa using hne e (List.mem_cons_self ..)
      simp only [Fallible.andThen_ok, hemp, Bool.false_eq_true, if_false, Fallible.run_bind]
      rcases hd : Z.serde.contract.dec e.content with _ | c
      · rw [run_fromSlice_none, Prog.pure_bind, Fallible.andThen_error]
        intro h
        obtain ⟨c, hc⟩ := h e (List.mem_cons_self ..) f id hp
        rw [hd] at hc
        cases hc
      · have hpay : entryPayment Z.serde m e = some (m, f, c) := by
          rw [entryPayment, hp]
          simp only [hd, Option.map_some]
        rw [run_fromSlice_some, Prog.pure_bind, Fallible.andThen_ok]
        refine (hl (acc ++ [(m, f, c)])).oks_mono
          (fun h e' he' => h e' (List.mem_cons_of_mem _ he')) ?_
        rintro r s' h ⟨rfl, rfl⟩
        refine ⟨List.forall_mem_cons.mpr ⟨fun _ _ _ => ⟨c, hd⟩, h⟩, rfl, ?_⟩
        rw [List.filterMap_cons_some hpay, List.append_assoc]
        rfl

theorem ensures_paymentsOfMachines : ∀ (l : List (EndpointId × DocTicket)) (acc : List Payment),
    Ensures (world Z self) () (paymentsOfMachines Z.serde l acc).run
      (Outcome.oksIff (∀ x ∈ l, ∃ R, s.docs x.2.capability.id = some R ∧ ReadsAll Z R)
        fun r s' => s' = s ∧ r.Perm (acc ++ l.flatMap fun x =>
          ((s.docs x.2.capability.id).map (contractsShown Z x.1)).getD [])) s
  | [], acc => by simp [paymentsOfMachines, Ensures, Outcome.oksIff]
  | (m, t) :: l, acc => by
    rw [paymentsOfMachines, Fallible.run_bind]
    refine (ensures_docsOpen t).andThen ?_ ?_
    · intro h
      obtain ⟨R, hR, -⟩ := h (m, t) (List.mem_cons_self ..)
      exact ⟨R, hR⟩
    rintro d s' ⟨R, hR⟩ ⟨hs, rfl⟩
    rw [hs]
    simp only [Fallible.run_bind, run_attempt, call_eq, Prog.await_bind, Prog.pure_bind]
    refine ensures_ask (fun _ _ => trivial)
      ⟨.ok ((R.matching Z.ranking CLAIMABLE_CONTRACT_PREFIX).map .ok), rfl, fun R' hR' => ?_⟩ trivial
      fun r hr => ?_
    · rw [hR, Option.some.injEq] at hR'
      exact ⟨_, hR' ▸ List.Perm.refl _, rfl⟩
    obtain ⟨es, hes, rfl⟩ := hr.2 R hR
    rw [Fallible.andThen_ok]
    have hne : ∀ e ∈ es, e.content ≠ [] := fun e he =>
      (Replica.value_eq_some.mp (Replica.mem_matching.mp (hes.mem_iff.mp he)).1).2
    have hmem : (∀ e ∈ es, Readable Z.serde e) ↔ ReadsAll Z R := by
      simp only [ReadsAll, hes.mem_iff]
    refine (ensures_paymentsOf m es acc hne).andThen ?_ ?_
    · intro h
      obtain ⟨R', hR', hread⟩ := h (m, t) (List.mem_cons_self ..)
      rw [hR, Option.some.injEq] at hR'
      exact hmem.mpr (hR' ▸ hread)
    rintro acc' s' hread ⟨hs, rfl⟩
    rw [hs]
    refine (ensures_paymentsOfMachines l _).oks_mono (fun h x hx => h x (List.mem_cons_of_mem _ hx)) ?_
    rintro r s₃ h ⟨rfl, hr⟩
    refine ⟨List.forall_mem_cons.mpr ⟨⟨R, hR, hmem.mp hread⟩, h⟩, rfl, hr.trans ?_⟩
    rw [List.flatMap_cons, hR, Option.map_some, Option.getD_some, List.append_assoc]
    exact (List.Perm.refl acc).append ((hes.filterMap _).append (List.Perm.refl _))

theorem flatMap_filterMap {β γ : Type} (f : α → Option β) (g : β → List γ) : ∀ l : List α,
    (l.filterMap f).flatMap g = l.flatMap fun a => ((f a).map g).getD []
  | [] => rfl
  | a :: l => by
    rw [List.flatMap_cons, ← flatMap_filterMap f g l]
    rcases h : f a with _ | b
    · rw [List.filterMap_cons_none h]
      rfl
    · rw [List.filterMap_cons_some h]
      rfl

/-- **What a manager lists.** -/
theorem ensures_getClaimableContracts :
    Ensures (world Z self) () (getClaimableContracts Z.serde).run
      (Outcome.oksIff (AllRead Z s) fun r s' => s' = s ∧ r.Perm (listing Z s)) s := by
  rw [getClaimableContracts, Fallible.run_bind]
  refine ensures_listMachines.andThen ?_ ?_
  · intro h m hm
    obtain ⟨R, hR, -⟩ := h m hm
    obtain ⟨t, ht, -⟩ := Option.bind_eq_some_iff.mp hR
    exact ⟨t, ht⟩
  rintro l s' htickets ⟨rfl, hl⟩
  have hmem : ∀ x, x ∈ l ↔ x.1 ∈ s'.tickets.names ∧
      (Access.manager x.1).ticket Z.serde s' = some x.2 := by
    rintro ⟨m, t⟩
    simp only [hl.mem_iff, List.mem_filterMap, Option.map_eq_some_iff, Prod.mk.injEq]
    constructor
    · rintro ⟨m', hm', t', ht', rfl, rfl⟩
      exact ⟨hm', ht'⟩
    · rintro ⟨hm, ht⟩
      exact ⟨m, hm, t, ht, rfl, rfl⟩
  refine (ensures_paymentsOfMachines l []).oks_mono ?_ ?_
  · rintro h ⟨m, t⟩ hx
    obtain ⟨hm, ht⟩ := (hmem _).mp hx
    obtain ⟨R, hR, hread⟩ := h m hm
    rw [replicaOf, ht, Option.bind_some] at hR
    exact ⟨R, hR, hread⟩
  · rintro r s₂ h ⟨rfl, hr⟩
    refine ⟨fun m hm => ?_, rfl, hr.trans ?_⟩
    · obtain ⟨t, ht⟩ := htickets m hm
      obtain ⟨R, hR, hread⟩ := h (m, t) ((hmem _).mpr ⟨hm, ht⟩)
      exact ⟨R, by rw [replicaOf, ht, Option.bind_some, hR], hread⟩
    · rw [List.nil_append]
      refine (hl.flatMap_right _).trans ?_
      rw [flatMap_filterMap, listing]
      refine List.Perm.of_eq (congrArg (List.flatMap · _) (funext fun m => ?_))
      rw [replicaOf]
      rcases (Access.manager m).ticket Z.serde s₂ with _ | t <;> rfl

/-! ### Listed contracts -/

/-- The manager may list the contract. -/
def Lists (Z : Setting) (s : Device) (p : Payment) : Prop :=
  ∃ l, Returns (world Z .manager) () (getClaimableContracts Z.serde).run s (.ok l) ∧ p ∈ l

theorem lists_iff {p : Payment} : Lists Z s p ↔ AllRead Z s ∧ p ∈ listing Z s := by
  constructor
  · rintro ⟨l, hl, hp⟩
    obtain ⟨hread, s', -, hperm⟩ := ensures_getClaimableContracts.of_returns_ok hl
    exact ⟨hread, hperm.mem_iff.mp hp⟩
  · rintro ⟨hread, hp⟩
    obtain ⟨l, hl⟩ := (@ensures_getClaimableContracts Z .manager s).exists_returns hread
    obtain ⟨-, s', -, hperm⟩ := ensures_getClaimableContracts.of_returns_ok hl
    exact ⟨l, hl, hperm.mem_iff.mpr hp⟩

theorem entryPayment_eq_some {J : Serde} {m m' : EndpointId} {e : Entry AuthorId} {f : FederationId}
    {c : ClaimableContract} : entryPayment J m e = some (m', f, c) ↔
      m' = m ∧ (∃ id, e.key = contractKey f id) ∧ J.contract.dec e.content = some c := by
  unfold entryPayment
  constructor
  · intro h
    split at h
    · next f' id hp =>
      simp only [Option.map_eq_some_iff, Prod.mk.injEq] at h
      obtain ⟨c', hc, rfl, rfl, rfl⟩ := h
      exact ⟨rfl, ⟨id, eq_contractKey_of_parse hp⟩, hc⟩
    · cases h
  · rintro ⟨rfl, ⟨id, hk⟩, hc⟩
    rw [hk, parse_contractKey]
    simp only [hc, Option.map_some]

/-- **A listed contract** is the value of an entry that the replica shows under the key of a contract
of its federation. -/
theorem mem_listing {m : EndpointId} {f : FederationId} {c : ClaimableContract} :
    (m, f, c) ∈ listing Z s ↔ m ∈ s.tickets.names ∧ ∃ R, replicaOf Z.serde s m = some R ∧
      ∃ id e, R.value Z.ranking (contractKey f id) = some e ∧ Z.serde.contract.dec e.content = some c := by
  simp only [listing, List.mem_flatMap]
  constructor
  · rintro ⟨m', hm', hp⟩
    rcases hR : replicaOf Z.serde s m' with _ | R
    · rw [hR] at hp
      cases hp
    · rw [hR, Option.map_some, Option.getD_some, contractsShown, List.mem_filterMap] at hp
      obtain ⟨e, he, hpay⟩ := hp
      obtain ⟨rfl, ⟨id, hk⟩, hc⟩ := entryPayment_eq_some.mp hpay
      exact ⟨hm', R, hR, id, e, hk ▸ (Replica.mem_matching.mp he).1, hc⟩
  · rintro ⟨hm, R, hR, id, e, he, hc⟩
    refine ⟨m, hm, ?_⟩
    have hk : e.key = contractKey f id := Replica.key_of_value he
    rw [hR, Option.map_some, Option.getD_some, contractsShown, List.mem_filterMap]
    refine ⟨e, Replica.mem_matching.mpr ⟨hk.symm ▸ he, hk ▸ prefix_contractKey f id⟩, ?_⟩
    exact entryPayment_eq_some.mpr ⟨rfl, ⟨id, hk⟩, hc⟩

/-- The entries shown can be read if those shown under the keys of contracts can. -/
theorem readsAll_iff {R : Replica AuthorId} : ReadsAll Z R ↔
    ∀ f id e, R.value Z.ranking (contractKey f id) = some e →
      ∃ c, Z.serde.contract.dec e.content = some c := by
  constructor
  · intro h f id e he
    have hk : e.key = contractKey f id := Replica.key_of_value he
    refine h e (Replica.mem_matching.mpr ⟨hk.symm ▸ he, hk ▸ prefix_contractKey f id⟩) f id ?_
    rw [hk, parse_contractKey]
  · intro h e he f id hp
    have hk := eq_contractKey_of_parse hp
    exact h f id e (hk ▸ (Replica.mem_matching.mp he).1)

end Vendimint.Document
