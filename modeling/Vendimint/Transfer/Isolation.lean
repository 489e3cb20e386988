import Vendimint.Async.Pool
import Vendimint.Iroh.Uses
import Vendimint.Manager

/-! # What one pass of the sweep offers to the wallet

A `Fleet` is what a manager finds when it sweeps: the files of its ticket directory, its replicas of
the documents, and the contents it has downloaded. `Fleet.Sweepable` are the contracts that a pass
should offer to the wallet: those under a well-formed key, with local content that decodes, in a
document that can be opened.

A pass offers all of them or none: one document that cannot be opened, or one entry under a
well-formed key whose content is missing or does not decode, ends the pass (`Fleet.Faulty`).

* `getClaimableContracts_ends`: the contracts that a pass finds.
* `claimPayments_calls`: all of these are offered.
* `sweepPayments_offers_iff`: **a pass offers all sweepable contracts** iff there is no fault in any
  document, or nothing to offer. -/

namespace Vendimint.Transfer

open Vendimint.Store Vendimint.Async Vendimint.ManagerProtocol

/-- What a manager finds when it sweeps. -/
structure Fleet where
  names : List FileName
  tickets : EndpointId → Option DocTicket
  docs : NamespaceId → Option (Replica AuthorId)
  available : Bytes → Bool

namespace Fleet
variable (J : Serde) (F : Fleet)

/-- The machine and the ticket of a file, if it is the file of a claimed machine. -/
def machineOf (name : FileName) : Option (EndpointId × DocTicket) :=
  (endpointOfName name).bind fun m => (F.tickets m).map fun t => (m, t)

/-- The claimed machines, in the order of the directory. -/
def machines : List (EndpointId × DocTicket) := F.names.filterMap F.machineOf

/-- What each operation answers. -/
def Answers : (op : Op) → op.Ret → Prop
  | .readDir _, r => r = .ok F.names
  | .isFile (.machineDocTicket name), r => r = .ok (F.machineOf name).isSome
  | .readFile (.machineDocTicket name), r =>
    ∀ m t, F.machineOf name = some (m, t) → r = .ok (J.ticket.enc t)
  | .docsOpen id, r =>
    if (F.docs id).isSome then r = .ok (some id) else r = .ok none ∨ ∃ e, r = .error e
  | .docGetMany id keyPrefix, r =>
    ∃ l, r = .ok l ∧ ∀ R, F.docs id = some R →
      ∀ e, .ok e ∈ l ↔ e ∈ R.visible ∧ keyPrefix <+: e.key ∧ e.content ≠ []
  | .blobsGetBytes hash, r => if F.available hash then r = .ok hash else ∃ e, r = .error e
  | _, _ => True

/-- The world of a pass: nothing changes while it runs, and it is not dropped. -/
def world : World Unit Op Op.Ret Unit where
  exec _ op _ r _ := F.Answers J op r
  cut _ _ _ _ := False

/-- The payment that an entry of the document of `m` holds. -/
def Yields (m : EndpointId) (e : Entry AuthorId) (p : Payment) : Prop :=
  ∃ f id c, SharedProtocol.parseIncomingContractMachineDocKey e.key = .ok (f, id) ∧
    F.available e.content ∧ e.content ≠ [] ∧ J.contract.dec e.content = some c ∧ p = (m, f, c)

/-- An entry under a well-formed key whose content is missing or does not decode. -/
def Spoilt (e : Entry AuthorId) : Prop :=
  ∃ f id, SharedProtocol.parseIncomingContractMachineDocKey e.key = .ok (f, id) ∧
    (F.available e.content = false ∨ J.contract.dec e.content = none)

/-- The contracts that a pass should offer to the wallet. -/
def Sweepable (p : Payment) : Prop :=
  ∃ mt ∈ F.machines, ∃ R, F.docs mt.2.capability.id = some R ∧ ∃ e ∈ R.visible, F.Yields J mt.1 e p

/-- The document of a ticket cannot be opened, or has a spoilt entry. -/
def FaultyDoc (t : DocTicket) : Prop :=
  ∀ R, F.docs t.capability.id = some R → ∃ e ∈ R.visible, e.content ≠ [] ∧ F.Spoilt J e

/-- The document of some claimed machine is faulty. -/
def Faulty : Prop := ∃ mt ∈ F.machines, F.FaultyDoc J mt.2

end Fleet

/-! ### Offers -/

/-- Operations done, with their results. -/
abbrev Trace := List (Σ op : Op, op.Ret)

/-- A payment was offered to the wallet: the pass with the operations `tr` has called
`claim_contracts` for its contract. -/
def Offered (J : Serde) (F : Fleet) (tr : Trace) (p : Payment) : Prop :=
  Calls (F.world J).traced () (Manager.sweepPayments J) ((), [])
    (Wallet.claimContracts p.2.1 [p.2.2]).run ((), tr)

section Passes
variable {J : Serde} {F : Fleet} {α β : Type}

/-- A program that ends as `R` says. -/
def Ends (J : Serde) (F : Fleet) (p : Fut α) (R : Outcome α → Prop) : Prop :=
  ∀ s, Wp (F.world J).traced p (fun o _ => R o) s

namespace Ends

theorem pure {a : α} {R : Outcome α → Prop} (h : R (.returned a)) : Ends J F (.pure a) R :=
  fun _ => wp_pure.mpr h

theorem panic {R : Outcome α → Prop} (h : R .panicked) : Ends J F .panic R :=
  fun _ => wp_panic.mpr h

theorem await {op : Op} {k : op.Ret → Fut α} {R : Outcome α → Prop}
    (h : ∀ r, F.Answers J op r → Ends J F (k r) R) : Ends J F (.await op k) R :=
  fun _ => wp_await.mpr ⟨fun r t ht => h r ht.1 t, fun _ ht => ht.1.elim⟩

theorem imp {p : Fut α} {R R' : Outcome α → Prop} (h : Ends J F p R) (hR : ∀ o, R o → R' o) :
    Ends J F p R' :=
  fun s => (h s).mono fun o _ _ ho => hR o ho

theorem bind {p : Fut α} {f : α → Fut β} {R : Outcome β → Prop} {Rp : Outcome α → Prop}
    (hp : Ends J F p Rp) (hf : ∀ a, Rp (.returned a) → Ends J F (f a) R)
    (hpanic : Rp .panicked → R .panicked) (habort : Rp .aborted → R .aborted) :
    Ends J F (p.bind f) R := by
  intro s
  refine wp_bind ((hp s).mono fun o t _ ho => ?_)
  cases o with
  | returned a => exact hf a ho t
  | panicked => exact hpanic ho
  | aborted => exact habort ho

end Ends

/-! ### The machines -/

theorem machinesOf_ends : ∀ (names : List FileName) (acc : List (EndpointId × DocTicket)),
    Ends J F (machinesOf J names acc).run
      (fun o => o = .returned (.ok (acc ++ names.filterMap F.machineOf)))
  | [], acc => .pure (by simp)
  | name :: names, acc => by
    simp only [machinesOf, Fallible.run_bind, Fallible.run_ite, run_attempt, call_eq,
      Prog.await_bind, Prog.pure_bind]
    refine .await fun r hr => ?_
    simp only [Fleet.Answers] at hr
    subst hr
    rcases hm : F.machineOf name with _ | ⟨m, t⟩
    · simpa [hm] using machinesOf_ends names acc
    · have hname : endpointOfName name = some m := by
        simp only [Fleet.machineOf, Option.bind_eq_some_iff, Option.map_eq_some_iff] at hm
        obtain ⟨m', hm', t', -, h⟩ := hm
        rw [hm', (Prod.mk.inj h).1]
      simp only [Option.isSome_some, Fallible.andThen_ok, if_true, hname, Fallible.run_unwrap_some,
        Prog.pure_bind]
      refine .await fun r hr => ?_
      rw [hr m t hm]
      simp only [Fallible.andThen_ok, Format.decode_encode, Fallible.run_unwrap_some,
        Prog.pure_bind]
      simpa [hm] using machinesOf_ends names (acc ++ [(m, t)])

theorem listMachines_ends :
    Ends J F (listMachines J).run (fun o => o = .returned (.ok F.machines)) := by
  simp only [listMachines, Fallible.run_bind, run_attempt, call_eq, Prog.await_bind,
    Prog.pure_bind]
  refine .await fun r hr => ?_
  simp only [Fleet.Answers] at hr
  subst hr
  simpa [Fleet.machines] using machinesOf_ends F.names []

/-! ### The payments -/

/-- The function ended without a value. -/
def Failed (o : Outcome (Except Error α)) : Prop := o = .panicked ∨ ∃ e, o = .returned (.error e)

/-- What a loop over `xs` has collected after `acc`: all that the items yield if none is bad, else it
has failed. -/
def Collects (xs : List β) (bad : β → Prop) (yields : β → Payment → Prop) (acc : List Payment)
    (o : Outcome (Except Error (List Payment))) : Prop :=
  (∃ l, o = .returned (.ok (acc ++ l)) ∧ (∀ p, p ∈ l ↔ ∃ x ∈ xs, yields x p) ∧ ∀ x ∈ xs, ¬ bad x) ∨
    Failed o ∧ ∃ x ∈ xs, bad x

section Collect
variable {isBad : β → Prop} {yields : β → Payment → Prop} {x : β} {xs : List β} {acc : List Payment}
  {o : Outcome (Except Error (List Payment))}

theorem Collects.nil : Collects [] isBad yields acc (.returned (.ok acc)) :=
  Or.inl ⟨[], by simp, by simp, by simp⟩

theorem Collects.spoilt (h : Failed o) (hx : isBad x) : Collects (x :: xs) isBad yields acc o :=
  Or.inr ⟨h, x, by simp, hx⟩

theorem Collects.cons {l : List Payment} (hx : ¬ isBad x) (hl : ∀ p, p ∈ l ↔ yields x p)
    (h : Collects xs isBad yields (acc ++ l) o) : Collects (x :: xs) isBad yields acc o := by
  rcases h with ⟨l', ho, hl', hgood⟩ | ⟨ho, y, hy, hbad⟩
  · refine Or.inl ⟨l ++ l', by rw [ho, List.append_assoc], fun p => ?_, ?_⟩
    · rw [List.mem_append, hl, hl']; simp
    · simpa [hx] using hgood
  · exact Or.inr ⟨ho, y, by simp [hy], hbad⟩

end Collect

/-- What an item of a stream of entries yields. -/
def StreamYields (J : Serde) (F : Fleet) (m : EndpointId) (x : Except Error (Entry AuthorId))
    (p : Payment) : Prop :=
  ∃ e, x = .ok e ∧ F.Yields J m e p

/-- The item of a stream that ends the pass. -/
def StreamSpoilt (J : Serde) (F : Fleet) (x : Except Error (Entry AuthorId)) : Prop :=
  ∃ e, x = .ok e ∧ F.Spoilt J e

theorem paymentsOf_ends (m : EndpointId) : ∀ (stream : List (Except Error (Entry AuthorId))),
    (∀ e, .ok e ∈ stream → e.content ≠ []) → ∀ acc : List Payment,
      Ends J F (paymentsOf J m stream acc).run
        (Collects stream (StreamSpoilt J F) (StreamYields J F m) acc)
  | [], _, acc => .pure .nil
  | .error err :: stream, hne, acc => by
    refine (paymentsOf_ends m stream (fun e he => hne e (by simp [he])) acc).imp fun o ho => ?_
    exact .cons (l := []) (by simp [StreamSpoilt]) (by simp [StreamYields]) (by simpa using ho)
  | .ok e :: stream, hne, acc => by
    have hstream : ∀ e, .ok e ∈ stream → e.content ≠ [] := fun e he => hne e (by simp [he])
    have he : e.content ≠ [] := hne e (by simp)
    simp only [paymentsOf]
    rcases hk : SharedProtocol.parseIncomingContractMachineDocKey e.key with err | ⟨f, id⟩
    · refine (paymentsOf_ends m stream hstream acc).imp fun o ho => ?_
      exact .cons (l := []) (by simp [StreamSpoilt, Fleet.Spoilt, hk])
        (by simp [StreamYields, Fleet.Yields, hk]) (by simpa using ho)
    · simp only [Fallible.run_bind, Fallible.run_ite, run_attempt, call_eq, Prog.await_bind,
        Prog.pure_bind]
      refine .await fun r hr => ?_
      simp only [Fleet.Answers] at hr
      split_ifs at hr with hav
      · subst hr
        have hemp : e.content.isEmpty = false := by simpa using he
        rcases hd : J.contract.dec e.content with _ | c
        · simp only [Fallible.andThen_ok, hemp, Bool.false_eq_true, if_false, hd,
            run_fromSlice_none, Prog.pure_bind, Fallible.andThen_error]
          exact .pure (.spoilt (Or.inr ⟨_, rfl⟩) ⟨e, rfl, f, id, hk, Or.inr hd⟩)
        · simp only [Fallible.andThen_ok, hemp, Bool.false_eq_true, if_false, hd,
            run_fromSlice_some, Prog.pure_bind]
          refine (paymentsOf_ends m stream hstream (acc ++ [(m, f, c)])).imp fun o ho => ?_
          refine .cons ?_ (fun p => ?_) ho
          · simp [StreamSpoilt, Fleet.Spoilt, hk, hav, hd]
          · simp [StreamYields, Fleet.Yields, hk, hav, hd, he]
      · obtain ⟨err, rfl⟩ := hr
        exact .pure (.spoilt (Or.inr ⟨_, rfl⟩) ⟨e, rfl, f, id, hk, Or.inl (by simpa using hav)⟩)

/-- What the document of a machine yields. -/
def DocYields (J : Serde) (F : Fleet) (mt : EndpointId × DocTicket) (p : Payment) : Prop :=
  ∃ R, F.docs mt.2.capability.id = some R ∧ ∃ e ∈ R.visible, F.Yields J mt.1 e p

/-- The entries that a query for contracts returns include all that are under the key of one. -/
theorem prefix_of_parse {k : Bytes} {x : FederationId × ContractId}
    (h : SharedProtocol.parseIncomingContractMachineDocKey k = .ok x) :
    CLAIMABLE_CONTRACT_PREFIX <+: k := by
  unfold SharedProtocol.parseIncomingContractMachineDocKey at h
  split_ifs at h with _ hp
  exact hp

/-- A spoilt item of the stream of a document is a fault of the document. -/
theorem faultyDoc_of_stream {t : DocTicket} {R : Replica AuthorId}
    (hR : F.docs t.capability.id = some R) {l : List (Except Error (Entry AuthorId))}
    (hl : ∀ e, .ok e ∈ l ↔ e ∈ R.visible ∧ CLAIMABLE_CONTRACT_PREFIX <+: e.key ∧ e.content ≠ []) :
    (∃ x ∈ l, StreamSpoilt J F x) ↔ F.FaultyDoc J t := by
  constructor
  · rintro ⟨x, hx, e, rfl, hspoilt⟩ R' hR'
    rw [hR, Option.some.injEq] at hR'
    subst hR'
    exact ⟨e, ((hl e).mp hx).1, ((hl e).mp hx).2.2, hspoilt⟩
  · intro h
    obtain ⟨e, he, hne, hspoilt⟩ := h R hR
    obtain ⟨f, i, hk, -⟩ := id hspoilt
    exact ⟨_, (hl e).mpr ⟨he, prefix_of_parse hk, hne⟩, e, rfl, hspoilt⟩

theorem docYields_of_stream {m : EndpointId} {t : DocTicket} {R : Replica AuthorId}
    (hR : F.docs t.capability.id = some R) {l : List (Except Error (Entry AuthorId))}
    (hl : ∀ e, .ok e ∈ l ↔ e ∈ R.visible ∧ CLAIMABLE_CONTRACT_PREFIX <+: e.key ∧ e.content ≠ [])
    (p : Payment) : (∃ x ∈ l, StreamYields J F m x p) ↔ DocYields J F (m, t) p := by
  constructor
  · rintro ⟨x, hx, e, rfl, hp⟩
    exact ⟨R, hR, e, ((hl e).mp hx).1, hp⟩
  · rintro ⟨R', hR', e, he, hp⟩
    simp only at hR'
    rw [hR, Option.some.injEq] at hR'
    subst hR'
    obtain ⟨f, i, c, hk, hav, hne, -⟩ := id hp
    exact ⟨_, (hl e).mpr ⟨he, prefix_of_parse hk, hne⟩, e, rfl, hp⟩

theorem paymentsOfMachines_ends : ∀ (machines : List (EndpointId × DocTicket)) (acc : List Payment),
    Ends J F (paymentsOfMachines J machines acc).run
      (Collects machines (fun mt => F.FaultyDoc J mt.2) (DocYields J F) acc)
  | [], acc => .pure .nil
  | (m, t) :: machines, acc => by
    simp only [paymentsOfMachines, openMachineDoc, Fallible.run_bind, run_attempt, call_eq,
      Prog.await_bind, Prog.pure_bind]
    refine .await fun r hr => ?_
    simp only [Fleet.Answers] at hr
    rcases hR : F.docs t.capability.id with _ | R
    · have hbad : F.FaultyDoc J t := fun R h => by rw [hR] at h; cases h
      simp only [hR, Option.isSome_none, Bool.false_eq_true, if_false] at hr
      rcases hr with rfl | ⟨err, rfl⟩
      · exact .panic (.spoilt (Or.inl rfl) hbad)
      · exact .pure (.spoilt (Or.inr ⟨_, rfl⟩) hbad)
    · simp only [hR, Option.isSome_some, if_true] at hr
      subst hr
      simp only [Fallible.andThen_ok, Fallible.run_unwrap_some, Prog.pure_bind]
      refine .await fun r hr => ?_
      obtain ⟨l, rfl, hl⟩ := hr
      have hmem := hl R hR
      simp only [Fallible.andThen_ok]
      refine .bind (paymentsOf_ends m l (fun e he => ((hmem e).mp he).2.2) acc) ?_ ?_ ?_
      · rintro a (⟨l', ha, hyields, hgood⟩ | ⟨h | ⟨err, h⟩, hbad⟩)
        · simp only [Outcome.returned.injEq] at ha
          subst ha
          refine (paymentsOfMachines_ends machines (acc ++ l')).imp fun o ho => ?_
          refine .cons (fun hbad => ?_) (fun p => ?_) ho
          · obtain ⟨x, hx, hspoilt⟩ := (faultyDoc_of_stream hR hmem).mpr hbad
            exact hgood x hx hspoilt
          · rw [hyields, docYields_of_stream hR hmem]
        · cases h
        · simp only [Outcome.returned.injEq] at h
          subst h
          exact .pure (.spoilt (Or.inr ⟨_, rfl⟩) ((faultyDoc_of_stream hR hmem).mp hbad))
      · rintro (⟨l', h, -⟩ | ⟨-, hbad⟩)
        · cases h
        · exact .spoilt (Or.inl rfl) ((faultyDoc_of_stream hR hmem).mp hbad)
      · rintro (⟨l', h, -⟩ | ⟨h | ⟨e, h⟩, -⟩) <;> cases h

/-- **The contracts that a pass finds**: all that are sweepable, unless there is a fault. -/
theorem getClaimableContracts_ends :
    Ends J F (getClaimableContracts J).run
      (Collects F.machines (fun mt => F.FaultyDoc J mt.2) (DocYields J F) []) := by
  unfold getClaimableContracts
  refine .bind listMachines_ends ?_ (fun h => by cases h) (fun h => by cases h)
  rintro a h
  simp only [Outcome.returned.injEq] at h
  subst h
  exact paymentsOfMachines_ends F.machines []

/-! ### The offers -/

theorem claimContracts_ends (f : FederationId) (c : ClaimableContract) :
    Ends J F (Wallet.claimContracts f [c]).run (fun o => ∃ r, o = .returned r) := by
  simp only [Wallet.claimContracts, Wallet.withClient, call_eq, Prog.bind_eq, Prog.await_bind,
    Prog.pure_bind, Fallible.run_bind, Fallible.run_lift]
  refine .await fun _ _ => .await fun connected _ => ?_
  cases connected with
  | false => exact .await fun _ _ => .pure ⟨_, rfl⟩
  | true =>
    simp only [if_true, Prog.await_bind]
    refine .await fun r _ => .await fun _ _ => ?_
    cases r with
    | ok _ => exact .pure ⟨_, rfl⟩
    | error _ => exact .pure ⟨_, rfl⟩

/-- **All payments that are found are offered**, whatever the program does after. -/
theorem claimPayments_calls {g : List Payment → Fut β} {o : Outcome β} {s' : Unit × Trace} :
    ∀ {l acc : List Payment} {s : Unit × Trace},
      Runs (F.world J).traced () Alone ((Manager.claimPayments l acc).bind g) s o s' →
      ∀ p ∈ l, Calls (F.world J).traced () ((Manager.claimPayments l acc).bind g) s
        (Wallet.claimContracts p.2.1 [p.2.2]).run s'
  | [], _, _, _ => by simp
  | (m, f, c) :: l, acc, s, h => by
    intro p hp
    simp only [Manager.claimPayments, Prog.bind_eq, Prog.bind_assoc] at h ⊢
    rcases List.mem_cons.mp hp with rfl | hp
    · exact .here h
    obtain ⟨or, t, hclaim, hrest⟩ := h.of_bind
    obtain ⟨r, rfl⟩ := hclaim.wp (claimContracts_ends f c s)
    refine .after hclaim ?_
    cases r with
    | error _ => exact claimPayments_calls (hrest _ rfl) p hp
    | ok _ => exact claimPayments_calls (hrest _ rfl) p hp

/-- A search for payments does not look at the clients. -/
theorem uses_getClaimableContracts :
    (getClaimableContracts J).run.Uses fun op => op ≠ .clientsRead := by
  have hmachines : ∀ (machines : List (EndpointId × DocTicket)) (payments : List Payment),
      (paymentsOfMachines J machines payments).run.Uses fun op => op ≠ .clientsRead := by
    intro machines
    induction machines with
    | nil => exact fun _ => trivial
    | cons mt machines ih =>
      intro payments
      simp only [paymentsOfMachines, Fallible.run_bind]
      refine (uses_openMachineDoc mt.2 (by simp)).andThen fun d => ?_
      refine Prog.Uses.andThen ⟨by simp, fun _ => trivial⟩ fun stream => ?_
      exact (uses_paymentsOf mt.1 (by simp) stream payments).andThen ih
  rw [getClaimableContracts, Fallible.run_bind]
  exact (uses_listMachines (by simp) (by simp) (by simp)).andThen fun machines => hmachines machines []

/-- **A pass without a fault offers all that is sweepable.** -/
theorem offered_of_sound {o : Outcome (Option (List Payment × Except Error Unit))} {tr : Trace}
    (h : Runs (F.world J).traced () Alone (Manager.sweepPayments J) ((), []) o ((), tr))
    (hsound : ¬ F.Faulty J) {p : Payment} (hp : F.Sweepable J p) : Offered J F tr p := by
  unfold Offered
  simp only [Manager.sweepPayments, Prog.bind_eq] at h ⊢
  obtain ⟨ob, t, hget, hrest⟩ := h.of_bind
  rcases hget.wp (getClaimableContracts_ends _) with ⟨l, rfl, hl, -⟩ | ⟨-, hbad⟩
  · exact .after hget (claimPayments_calls (hrest _ rfl) p ((hl p).mpr hp))
  · exact absurd hbad hsound

/-- **A pass with a fault offers nothing.** -/
theorem not_offered_of_faulty (hfault : F.Faulty J) (tr : Trace) (p : Payment) :
    ¬ Offered J F tr p := by
  intro h
  obtain ⟨kq, hkq⟩ : ∃ kq, (Wallet.claimContracts p.2.1 [p.2.2]).run = .await .clientsRead kq :=
    ⟨_, rfl⟩
  simp only [Offered, Manager.sweepPayments, Prog.bind_eq, hkq] at h
  obtain ⟨r, t, hget, hcalls⟩ := Calls.of_bind (by simp) uses_getClaimableContracts h
  rcases hget.wp (getClaimableContracts_ends _) with ⟨l, -, -, hgood⟩ | ⟨h | ⟨e, h⟩, -⟩
  · obtain ⟨mt, hmt, hbad⟩ := hfault
    exact hgood mt hmt hbad
  · cases h
  · simp only [Outcome.returned.injEq] at h
    subst h
    obtain ⟨k, u, o, hb, -⟩ := hcalls
    cases hb

/-- **A pass offers every sweepable contract** iff no document of a claimed machine is faulty, or no
contract is sweepable. -/
theorem sweepPayments_offers_iff {J : Serde} {F : Fleet}
    {o : Outcome (Option (List Payment × Except Error Unit))} {tr : Trace}
    (h : Runs (F.world J).traced () Alone (Manager.sweepPayments J) ((), []) o ((), tr)) :
    (∀ p, F.Sweepable J p → Offered J F tr p) ↔ ¬ F.Faulty J ∨ ∀ p, ¬ F.Sweepable J p := by
  by_cases hfault : F.Faulty J
  · constructor
    · exact fun hall => Or.inr fun p hp => not_offered_of_faulty hfault tr p (hall p hp)
    · rintro (h | h)
      · exact absurd hfault h
      · exact fun p hp => absurd hp (h p)
  · exact ⟨fun _ => Or.inl hfault, fun _ p hp => offered_of_sound h hfault hp⟩

end Passes

/-! ### One machine stops the income of another -/

/-- The contract that waits in the second document. -/
def waiting : ClaimableContract := ⟨⟨⟨.replicate 32 5⟩, ⟨.replicate 33 3⟩⟩, .replicate 40 4⟩

/-- The two claimed machines and the federation of the contract. -/
def firstMachine : EndpointId := ⟨.replicate 32 1⟩
def secondMachine : EndpointId := ⟨.replicate 32 2⟩
def itsFederation : FederationId := ⟨.replicate 32 7⟩

/-- The tickets of the two machines. -/
def firstTicket : DocTicket := ⟨.write ⟨.replicate 32 1⟩⟩
def secondTicket : DocTicket := ⟨.write ⟨.replicate 32 2⟩⟩

/-- The record of the contract. -/
def waitingEntry : Entry AuthorId :=
  ⟨.machine, SharedProtocol.createClaimableContractMachineDocKey itsFederation waiting, 1,
    Serde.framed.contract.enc waiting⟩

/-- Two claimed machines. The document of the first cannot be opened; that of the second holds a
contract. -/
def stuck : Fleet where
  names := [.endpoint firstMachine, .endpoint secondMachine]
  tickets m := if m = firstMachine then some firstTicket else some secondTicket
  docs d := if d = firstTicket.capability.id then none else some ⟨[waitingEntry], by simp⟩
  available _ := true

theorem machineOf_first : stuck.machineOf (.endpoint firstMachine) = some (firstMachine, firstTicket) :=
  by simp [Fleet.machineOf, stuck, endpointOfName]

theorem machineOf_second :
    stuck.machineOf (.endpoint secondMachine) = some (secondMachine, secondTicket) := by
  have h : secondMachine ≠ firstMachine := by decide
  simp [Fleet.machineOf, stuck, endpointOfName, h]

theorem stuck_sweepable :
    stuck.Sweepable Serde.framed (secondMachine, itsFederation, waiting) := by
  have hdoc : secondTicket.capability.id ≠ firstTicket.capability.id := by decide
  refine ⟨(secondMachine, secondTicket), ?_, ⟨[waitingEntry], by simp⟩, by simp [stuck, hdoc],
    waitingEntry, ?_, itsFederation, waiting.contract.contractId, waiting, ?_, rfl, ?_, ?_, rfl⟩
  · simp only [Fleet.machines, List.mem_filterMap]
    exact ⟨_, by simp [stuck], machineOf_second⟩
  · rw [Replica.mem_visible]
    exact Replica.latestAt_of_newest (by simp) (by simp)
  · exact SharedProtocol.parse_contractKey _ _
  · exact Codec.frame_ne_nil _
  · exact Format.decode_encode _ _

/-- The operations of a pass over the two machines. -/
def stuckTrace : Trace :=
  [⟨.readDir .machineDocTicketsDir, .ok stuck.names⟩,
    ⟨.isFile (.machineDocTicket (.endpoint firstMachine)), .ok true⟩,
    ⟨.readFile (.machineDocTicket (.endpoint firstMachine)),
      .ok (Serde.framed.ticket.enc firstTicket)⟩,
    ⟨.isFile (.machineDocTicket (.endpoint secondMachine)), .ok true⟩,
    ⟨.readFile (.machineDocTicket (.endpoint secondMachine)),
      .ok (Serde.framed.ticket.enc secondTicket)⟩,
    ⟨.docsOpen firstTicket.capability.id, .error "Replica not found"⟩]

theorem stuck_runs :
    Runs (stuck.world Serde.framed).traced () Alone (Manager.sweepPayments Serde.framed) ((), [])
      (.returned none) ((), stuckTrace) := by
  refine runs_next (.readDir .machineDocTicketsDir) (.ok stuck.names) ((), stuckTrace.take 1)
    ⟨rfl, rfl⟩ ?_
  refine runs_next (.isFile (.machineDocTicket (.endpoint firstMachine))) (.ok true)
    ((), stuckTrace.take 2) ⟨?_, rfl⟩ ?_
  · simp [Fleet.world, Fleet.Answers, machineOf_first]
  refine runs_next (.readFile (.machineDocTicket (.endpoint firstMachine)))
    (.ok (Serde.framed.ticket.enc firstTicket)) ((), stuckTrace.take 3) ⟨?_, rfl⟩ ?_
  · simp [Fleet.world, Fleet.Answers, machineOf_first]
  refine runs_next (.isFile (.machineDocTicket (.endpoint secondMachine))) (.ok true)
    ((), stuckTrace.take 4) ⟨?_, rfl⟩ ?_
  · simp [Fleet.world, Fleet.Answers, machineOf_second]
  refine runs_next (.readFile (.machineDocTicket (.endpoint secondMachine)))
    (.ok (Serde.framed.ticket.enc secondTicket)) ((), stuckTrace.take 5) ⟨?_, rfl⟩ ?_
  · simp [Fleet.world, Fleet.Answers, machineOf_second]
  refine runs_next (.docsOpen firstTicket.capability.id) (.error "Replica not found")
    ((), stuckTrace) ⟨?_, rfl⟩ ?_
  · simp [Fleet.world, Fleet.Answers, stuck]
  exact .returned _ _

/-- The condition holds or fails of a pass over the two machines as the offers do. -/
theorem sweepPayments_offers_iff_stuck :
    (∀ p, stuck.Sweepable Serde.framed p → Offered Serde.framed stuck stuckTrace p) ↔
      ¬ stuck.Faulty Serde.framed ∨ ∀ p, ¬ stuck.Sweepable Serde.framed p :=
  sweepPayments_offers_iff stuck_runs

theorem stuck_faulty : stuck.Faulty Serde.framed := by
  refine ⟨(firstMachine, firstTicket), ?_, fun R hR => ?_⟩
  · simp only [Fleet.machines, List.mem_filterMap]
    exact ⟨_, by simp [stuck], machineOf_first⟩
  · simp [stuck] at hR

/-- **One document that cannot be opened hides the contract of another machine.** -/
theorem sweepPayments_stuck :
    stuck.Sweepable Serde.framed (secondMachine, itsFederation, waiting) ∧
      Runs (stuck.world Serde.framed).traced () Alone (Manager.sweepPayments Serde.framed) ((), [])
        (.returned none) ((), stuckTrace) ∧
      ¬ Offered Serde.framed stuck stuckTrace (secondMachine, itsFederation, waiting) :=
  ⟨stuck_sweepable, stuck_runs, not_offered_of_faulty stuck_faulty _ _⟩

end Vendimint.Transfer
