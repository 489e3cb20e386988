import Vendimint.Transfer.NoLoss

/-! # Passes that are dropped and run again

All writes are stamped by one clock (`<`). A removal by the manager hides a contract from its queries
as long as no machine writes the contract again: the new record is newer than the removal, and once it
is replicated the contract is back (`rewritten_shows`). A pass of a machine that is dropped between a
write to the document and the removal from the wallet does write it again (`removed_payment_returns`).

Under the condition that no pass writes a contract whose removal the manager's replica has
(`Unswept`), what was removed stays removed.

* `Ordered`: the invariant. A removal is newer than every record of a machine under its key.
* `removed_never_reported`: **no later query or pass of the manager reports a removed contract**. -/

namespace Vendimint.Transfer

open Vendimint.Store Vendimint.Async Vendimint.ManagerProtocol Vendimint.SharedProtocol

/-- The manager's replica has the removal of the contract. -/
abbrev State.Gone (s : State) (d : NamespaceId) (f : FederationId) (id : ContractId) : Prop :=
  s.AtManager d .manager (contractKey f id)

/-- The condition on a step: a machine does not write under a key for which the manager's replica has
a removal. -/
def Unswept : TaskId → Op → State → Prop
  | .machine _ _, .docSetBytes d _ k _, s => ¬ s.AtManager d .manager k
  | _, _, _ => True

theorem unswept_of_ne {i : TaskId} {op : Op} {s : State} (h : ∀ d a k v, op ≠ .docSetBytes d a k v) :
    Unswept i op s := by
  unfold Unswept
  split
  · exact absurd rfl (h _ _ _ _)
  · trivial

/-! ### The invariant -/

/-- What holds of every record. -/
structure Sealed (J : Serde) (s : State) (d : NamespaceId) (e : Entry AuthorId) : Prop where
  whole : Whole e.key
  stamped : e.timestamp ≤ s.now
  written : ∀ f id, e.key = contractKey f id → e.author = .machine →
    ∃ c, e.content = J.contract.enc c ∧ c.contract.contractId = id
  removed : ∀ f id, e.key = contractKey f id → e.author = .manager → e.content = [] ∧ s.Gone d f id

/-- **The invariant**: a removal is newer than every record of a machine under its key. -/
structure Ordered (J : Serde) (s : State) : Prop where
  record : ∀ {d e}, s.Has d e → Sealed J s d e
  newer : ∀ {d f id e o}, s.Has d e → s.Has d o → e.author = .manager → o.author = .machine →
    e.key = contractKey f id → o.key = contractKey f id → o.timestamp < e.timestamp

/-- Removals stay. -/
def StaysGone (s s' : State) : Prop := ∀ d f id, s.Gone d f id → s'.Gone d f id

theorem Sealed.mono {J : Serde} {s s' : State} {d : NamespaceId} {e : Entry AuthorId}
    (h : Sealed J s d e) (hnow : s.now ≤ s'.now) (hgone : StaysGone s s') : Sealed J s' d e :=
  ⟨h.whole, h.stamped.trans hnow, h.written,
    fun f id hk ha => ⟨(h.removed f id hk ha).1, hgone d f id (h.removed f id hk ha).2⟩⟩

section Steps
variable {J : Serde} {s s' : State} {d : NamespaceId} {a : AuthorId} {k v : Bytes} {e : Entry AuthorId}

theorem ordered_init : Ordered J State.init :=
  ⟨fun h => absurd h not_has_init, fun h => absurd h not_has_init⟩

/-- A step without new records. -/
theorem Ordered.of_has (h : Ordered J s) (hhas : ∀ {d e}, s'.Has d e → s.Has d e)
    (hnow : s.now ≤ s'.now) (hgone : StaysGone s s') : Ordered J s' :=
  ⟨fun he => (h.record (hhas he)).mono hnow hgone, fun he ho => h.newer (hhas he) (hhas ho)⟩

/-- A step with one new record, that is newer than all others and, if it is of a machine, not under
the key of a removal. -/
theorem Ordered.of_new (h : Ordered J s) (hhas : ∀ {d' o}, s'.Has d' o → s.Has d' o ∨ d' = d ∧ o = e)
    (hgone : StaysGone s s') (hnow : s.now < s'.now) (he : Sealed J s' d e)
    (hstamp : e.timestamp = s'.now)
    (hfresh : ∀ f id, e.key = contractKey f id → e.author = .machine → ¬ s.Gone d f id) :
    Ordered J s' := by
  refine ⟨fun ho => ?_, fun {d' f id e' o'} he' ho' hae hao hke hko => ?_⟩
  · rcases hhas ho with ho | ⟨rfl, rfl⟩
    · exact (h.record ho).mono hnow.le hgone
    · exact he
  · rcases hhas he' with he' | ⟨rfl, rfl⟩
    · rcases hhas ho' with ho' | ⟨rfl, rfl⟩
      · exact h.newer he' ho' hae hao hke hko
      · exact absurd ((h.record he').removed f id hke hae).2 (hfresh f id hko hao)
    · rcases hhas ho' with ho' | ⟨-, rfl⟩
      · have := (h.record ho').stamped
        omega
      · rw [hae] at hao; cases hao

theorem staysGone_of_eq (h : s'.atManager = s.atManager) : StaysGone s s' :=
  fun d f id hs => by rwa [State.Gone, State.AtManager, h]

theorem staysGone_of_put (hput : ManagerPut (· < ·) d a k v s s') (hk : Whole k) : StaysGone s s' :=
  fun _ f id hs => hput.keeps (hk f id) hs

/-- A machine writes a contract that was not removed. -/
theorem Ordered.write (h : Ordered J s) {f : FederationId} {c : ClaimableContract}
    (hput : MachinePut (· < ·) d .machine (createClaimableContractMachineDocKey f c)
      (J.contract.enc c) s s')
    (hfresh : ¬ s.AtManager d .manager (createClaimableContractMachineDocKey f c)) :
    Ordered J s' ∧ StaysGone s s' := by
  have hgone : StaysGone s s' := staysGone_of_eq hput.same.2.2.2
  refine ⟨h.of_new (fun ho => hput.has ho) hgone hput.stamped
    ⟨whole_contractKey _ _, le_rfl, fun f' id hk _ => ?_, fun _ _ _ ha => by cases ha⟩ rfl
    (fun f' id hk _ => ?_), hgone⟩
  · exact ⟨c, rfl, (contractKey_inj hk).2⟩
  · rw [State.Gone, ← hk]
    exact hfresh

/-- The manager removes a contract. -/
theorem Ordered.del (h : Ordered J s) {f : FederationId} {id : ContractId}
    (hput : ManagerPut (· < ·) d .manager (contractKey f id) [] s s') :
    Ordered J s' ∧ StaysGone s s' := by
  have hgone : StaysGone s s' := staysGone_of_put hput (whole_contractKey f id)
  refine ⟨h.of_new (fun ho => hput.has ho) hgone hput.stamped
    ⟨whole_contractKey _ _, le_rfl, fun _ _ _ ha => (by cases ha), fun f' id' hk _ => ⟨rfl, ?_⟩⟩ rfl
    (fun _ _ _ ha => by cases ha), hgone⟩
  rw [State.Gone, ← hk]
  exact hput.gives

theorem sealed_other (hk : OtherKey k) {t : ℕ} (ht : t ≤ s'.now) : Sealed J s' d ⟨a, k, t, v⟩ :=
  ⟨hk.whole, ht, fun f id h => absurd h (hk.ne f id), fun f id h => absurd h (hk.ne f id)⟩

theorem Ordered.env (h : Ordered J s) (he : EnvStep (· < ·) s s') :
    Ordered J s' ∧ StaysGone s s' := by
  cases he with
  | fund m f c =>
    have hgone : StaysGone s (s.fund m f c) := staysGone_of_eq rfl
    exact ⟨h.of_has (fun ho => ho) le_rfl hgone, hgone⟩
  | @toManager d e he =>
    have hgone : StaysGone s (s.setManager d ((s.atManager d).receive e)) := fun _ f id hs =>
      hs.set (Replica.get_receive_isSome ((h.record (Or.inl he)).whole f id))
    exact ⟨h.of_has (fun ho => State.has_toManager he ho) le_rfl hgone, hgone⟩
  | toMachine he =>
    have hgone := staysGone_of_eq (s := s) rfl
    exact ⟨h.of_has (fun ho => State.has_toMachine he ho) le_rfl hgone, hgone⟩
  | atMachine hk hput =>
    have hgone : StaysGone s s' := staysGone_of_eq hput.same.2.2.2
    exact ⟨h.of_new (fun ho => hput.has ho) hgone hput.stamped (sealed_other hk le_rfl) rfl
      (fun f id hkey => absurd hkey (hk.ne f id)), hgone⟩
  | atManager hk hput =>
    have hgone : StaysGone s s' := staysGone_of_put hput hk.whole
    exact ⟨h.of_new (fun ho => hput.has ho) hgone hput.stamped (sealed_other hk le_rfl) rfl
      (fun f id hkey => absurd hkey (hk.ne f id)), hgone⟩

/-- **A removed contract is not shown** to the manager. -/
theorem Ordered.not_shown (h : Ordered J s) {f f' : FederationId} {id id' : ContractId}
    {c : ClaimableContract} (hgone : s.Gone d f id) (he : e ∈ (s.atManager d).visible)
    (hne : e.content ≠ []) (hk : parseIncomingContractMachineDocKey e.key = .ok (f', id'))
    (hd : J.contract.dec e.content = some c) : ¬ (f' = f ∧ c.contract.contractId = id) := by
  rintro ⟨rfl, rfl⟩
  have hkey := eq_contractKey_of_parse hk
  obtain ⟨hmem, -, hmax⟩ := Replica.latestAt_spec (Replica.mem_visible.mp he)
  have hrec := h.record (Or.inr hmem)
  cases ha : e.author with
  | manager => exact hne (hrec.removed _ _ hkey ha).1
  | machine =>
    obtain ⟨c', hc', hid⟩ := hrec.written _ _ hkey ha
    rw [hc', Format.decode_encode, Option.some.injEq] at hd
    subst hd
    obtain ⟨o, ho, hao, hko⟩ := Replica.get_isSome.mp hgone
    rw [hid] at hko
    have hlt := h.newer (Or.inr ho) (Or.inr hmem) hao ha hko hkey
    have hle := hmax o ho (hko.trans hkey.symm)
    omega

end Steps

/-! ### The discipline -/

variable {J : Serde} {docOf : EndpointId → NamespaceId} {T : State → Prop}

/-- The devices, with one clock, under the condition. -/
def calmSystem (J : Serde) (docOf : EndpointId → NamespaceId) : System TaskId Op Op.Ret Result State :=
  (system J docOf (· < ·)).guarded Unswept

/-- Every task relies on removals to stay, and keeps them. -/
def ordering (J : Serde) (T : State → Prop) : Discipline TaskId State where
  inv s := Ordered J s ∧ T s
  rely _ := StaysGone
  guar _ := StaysGone
  rely_refl _ _ _ _ _ := id
  rely_trans h h' d f id hs := h' d f id (h d f id hs)
  compat _ _ _ h := h

theorem ordering_writes (hT : ∀ {s s'}, StaysGone s s' → T s → T s') (m : EndpointId) (n : ℕ) :
    Writes (calmSystem J docOf).toWorld (ordering J T) J docOf m n (fun _ _ _ => True) where
  exec {f c s r s'} h he := by
    rcases he.1 with hput | ⟨rfl, -⟩
    · obtain ⟨hord, hgone⟩ := h.1.write hput he.2
      exact ⟨⟨hord, hT hgone h.2⟩, hgone, fun _ => trivial⟩
    · exact ⟨h, fun _ _ _ => id, fun _ => trivial⟩
  cut {f c s s'} h hc := by
    rcases hc.1 with rfl | hput
    · exact ⟨h, fun _ _ _ => id⟩
    · obtain ⟨hord, hgone⟩ := h.1.write hput hc.2
      exact ⟨⟨hord, hT hgone h.2⟩, hgone⟩
  stable _ _ := trivial
  kept _ _ := trivial
  forget {f ids s} h _ := by
    have hgone : StaysGone s (s.forget m f ids) := staysGone_of_eq rfl
    exact ⟨⟨h.1.of_has (fun ho => ho) le_rfl hgone, hT hgone h.2⟩, hgone⟩

theorem ordering_removes (hT : ∀ {s s'}, StaysGone s s' → T s → T s') (n : ℕ) :
    Removes (calmSystem J docOf).toWorld (ordering J T) docOf n (fun _ _ _ => True)
      (fun m f id s => s.Gone (docOf m) f id) where
  claim {f c s r s'} h he := by
    have haccept : (ordering J T).inv (s.accept f [c]) ∧ StaysGone s (s.accept f [c]) := by
      have hgone : StaysGone s (s.accept f [c]) := staysGone_of_eq rfl
      exact ⟨⟨h.1.of_has (fun ho => ho) le_rfl hgone, hT hgone h.2⟩, hgone⟩
    rcases he.1 with rfl | ⟨rfl, -⟩
    · exact ⟨haccept.1, haccept.2, fun _ => trivial⟩
    · exact ⟨h, fun _ _ _ => id, fun _ => trivial⟩
  claimCut {f c s s'} h hc := by
    rcases hc.1 with rfl | rfl
    · exact ⟨h, fun _ _ _ => id⟩
    · have hgone : StaysGone s (s.accept f [c]) := staysGone_of_eq rfl
      exact ⟨⟨h.1.of_has (fun ho => ho) le_rfl hgone, hT hgone h.2⟩, hgone⟩
  del {m f c s r s'} h _ he := by
    rcases he.1 with hput | ⟨rfl, e, rfl⟩
    · obtain ⟨hord, hgone⟩ := h.1.del hput
      exact ⟨⟨hord, hT hgone h.2⟩, hgone, fun _ => hput.gives⟩
    · exact ⟨h, fun _ _ _ => id, fun h => by cases h⟩
  delCut {m f c s s'} h _ hc := by
    rcases hc.1 with rfl | hput
    · exact ⟨h, fun _ _ _ => id⟩
    · obtain ⟨hord, hgone⟩ := h.1.del hput
      exact ⟨⟨hord, hT hgone h.2⟩, hgone⟩
  claimed_stable _ _ := trivial
  claimed_kept _ _ := trivial
  removed_stable h := h _ _ _
  removed_kept h := h _ _ _

/-- **A discipline of the devices under the condition**, given what the tasks of the manager promise of
the payments that they report (`P`) and of those that they remove. -/
def orderedDiscipline (J : Serde) (docOf : EndpointId → NamespaceId) (T : State → Prop)
    (hT : ∀ {s s'}, StaysGone s s' → T s → T s') (P : TaskId → Payment → Prop)
    (hP : ∀ n, Shown J docOf (ordering J T) (P (.manager n))) : RelyGuarantee (calmSystem J docOf) where
  toDiscipline := ordering J T
  post i := Outcome.returns fun r s => ∀ p, (r.Reports p → P i p) ∧
    (r.Removed p → s.Gone (docOf p.1) p.2.1 p.2.2.contract.contractId)
  env_ok h he := by
    rcases he with ⟨he, -⟩ | ⟨rfl, -⟩
    · obtain ⟨hord, hgone⟩ := h.1.env he
      exact ⟨⟨hord, hT hgone h.2⟩, fun _ _ => hgone⟩
    · exact ⟨h, fun _ _ _ _ _ => id⟩
  spawn_ok {i p s s'} h hs := by
    obtain ⟨hp, rfl⟩ := hs
    refine ⟨h, fun _ _ _ _ _ => id, ?_⟩
    have hW : (calmSystem J docOf).toWorld.Within (system J docOf (· < ·)).toWorld :=
      System.guarded_within _ _
    have hguar : ∀ i t, (ordering J T).guar i t t := fun _ _ _ _ _ => id
    cases i with
    | machine m n =>
      obtain ⟨machineConfig, rfl⟩ := hp
      refine (transfer_safe hW hguar (ordering_writes hT m n) machineConfig h).mono fun o t _ ho => ?_
      cases o with
      | returned r => exact fun p => ho ▸ ⟨fun h => h.elim, fun h => h.elim⟩
      | panicked => trivial
      | aborted => trivial
    | manager n =>
      rcases hp with rfl | rfl
      · exact sweep_safe hW hguar (ordering_removes hT n) (hP n) h
      · refine (listing_safe hW hguar (hP n) h).mono fun o t _ ho => ?_
        cases o with
        | returned r => exact fun p => ⟨(ho p).1, fun h => absurd h (ho p).2⟩
        | panicked => trivial
        | aborted => trivial

/-- The same contract of the same machine. -/
def SameContract (p q : Payment) : Prop :=
  q.1 = p.1 ∧ q.2.1 = p.2.1 ∧ q.2.2.contract.contractId = p.2.2.contract.contractId

/-- The manager's replica has the removal of a payment. -/
def PaymentGone (docOf : EndpointId → NamespaceId) (p : Payment) (s : State) : Prop :=
  s.Gone (docOf p.1) p.2.1 p.2.2.contract.contractId

theorem PaymentGone.stays {p : Payment} {s s' : State} (h : StaysGone s s')
    (hs : PaymentGone docOf p s) : PaymentGone docOf p s' := h _ _ _ hs

/-- What is gone is not shown. -/
theorem shown_of_gone (p : Payment) (new : Prop) :
    Shown J docOf (ordering J (PaymentGone docOf p)) fun q => new → ¬ SameContract p q := by
  rintro m s e f id c ⟨hord, hgone⟩ he hne hk hd - ⟨rfl, rfl, hid⟩
  exact hord.not_shown hgone he hne hk hd ⟨rfl, hid⟩

/-- The discipline before the removal. -/
abbrev anyReport (J : Serde) (docOf : EndpointId → NamespaceId) : RelyGuarantee (calmSystem J docOf) :=
  orderedDiscipline J docOf (fun _ => True) (fun _ h => h) (fun _ _ => True)
    fun _ _ _ _ _ _ _ _ _ _ _ _ => trivial

/-- The discipline after the removal of `p`: the tasks that are not under way in `P` do not report
it. -/
abbrev noReport (J : Serde) (docOf : EndpointId → NamespaceId) (p : Payment)
    (P : Pool TaskId Op Op.Ret Result State) : RelyGuarantee (calmSystem J docOf) :=
  orderedDiscipline J docOf (PaymentGone docOf p) PaymentGone.stays
    (fun i q => P.task i = none → ¬ SameContract p q) fun n => shown_of_gone p (P.task (.manager n) = none)

/-- After the removal of `p` the second discipline takes over. -/
theorem good_noReport {P : Pool TaskId Op Op.Ret Result State} (h : Good (anyReport J docOf) P)
    {p : Payment} (hp : PaymentGone docOf p P.st) : Good (noReport J docOf p P) P := by
  refine ⟨⟨h.1.1, hp⟩, fun i prog hi => ?_⟩
  have hsafe : Safe (calmSystem J docOf).toWorld (ordering J (PaymentGone docOf p)) i prog
      ((anyReport J docOf).post i) P.st :=
    Safe.assume (ordering J (PaymentGone docOf p)) (D := ordering J fun _ => True)
      (T := PaymentGone docOf p) (fun s => by simp [ordering]) rfl rfl
      (fun _ hT hg => PaymentGone.stays hg hT) (h.2 i prog hi)
  refine hsafe.mono fun o t _ ho => ?_
  cases o with
  | returned r => exact fun q =>
    ⟨fun _ hnone => (by rw [hi] at hnone; cases hnone), (ho q).2⟩
  | panicked => trivial
  | aborted => trivial

/-- **No later query or pass reports a removed contract**, in runs in which no machine writes a
contract again whose removal the manager has. -/
theorem removed_never_reported {P P' : Pool TaskId Op Op.Ret Result State}
    (h : Steps (calmSystem J docOf) (Pool.idle State.init) P) {i : TaskId} {r : Result}
    (hi : P.task i = some (.pure r)) {p : Payment} (hp : r.Removed p)
    (h' : Steps (calmSystem J docOf) P P') {j : TaskId} (hj : P.task j = none) {r' : Result}
    (hj' : P'.task j = some (.pure r')) {q : Payment} (hq : r'.Reports q) : ¬ SameContract p q := by
  have hgood : Good (anyReport J docOf) P := good_steps (good_idle ⟨ordered_init, trivial⟩) h
  have hgone : PaymentGone docOf p P.st := (hgood.returned hi p).2 hp
  have hgood' : Good (noReport J docOf p P) P' := good_steps (good_noReport hgood hgone) h'
  exact (hgood'.returned hj' q).1 hq hj

/-! ### The condition is exact -/

/-- **A contract that is written again comes back**: once the new record is replicated, the manager's
replica shows it, whatever removal it has. -/
theorem rewritten_shows {s s' : State} {d : NamespaceId} {f : FederationId} {c : ClaimableContract}
    (hstamped : ∀ {e}, s.Has d e → e.timestamp ≤ s.now)
    (hput : MachinePut (· < ·) d .machine (createClaimableContractMachineDocKey f c)
      (J.contract.enc c) s s') :
    ∃ e ∈ (s'.atMachine d).entries,
      ((s'.setManager d ((s'.atManager d).receive e)).atManager d).Shows
        (createClaimableContractMachineDocKey f c) := by
  obtain ⟨t, R, ht, hR, rfl⟩ := hput
  refine ⟨⟨.machine, createClaimableContractMachineDocKey f c, t, J.contract.enc c⟩, ?_, ?_⟩
  · rw [State.setMachine_atMachine, Function.update_self]
    exact (Replica.mem_put hR).mpr (Or.inl rfl)
  · rw [State.setManager_atManager, Function.update_self]
    refine ⟨_, Replica.mem_visible.mp (Replica.mem_visible_receive fun o ho => ?_),
      J.contract.enc_ne_nil c⟩
    exact lt_of_le_of_lt (hstamped (Or.inr ho)) ht

/-! ### A pass that is dropped and run again -/

namespace Sale

/-- A second contract is funded, written and replicated. -/
def funded₂ : State := swept.fund machine fed (contract 6)
def written₂ : State := writtenAt 6 3 funded₂
def synced₂ : State := syncedAt 6 3 written₂

/-- The devices, under the condition. -/
abbrev calmDevices : System TaskId Op Op.Ret Result State := calmSystem Serde.framed fun _ => doc

theorem calm_swept_steps : Steps calmDevices (Pool.idle State.init) ⟨swept, sweptTasks⟩ := by
  refine swept_steps rfl rfl (fun hop h => ⟨h, unswept_of_ne hop⟩) (fun h => ⟨h, ?_⟩) ⟨rfl, trivial⟩
    fun h => ⟨h, trivial⟩
  simp [Unswept, State.AtManager, funded, State.fund, State.init]

theorem calm_listed_steps : Steps calmDevices ⟨swept, sweptTasks⟩
    ⟨synced₂, Function.update sweptTasks (.manager 1) (some (.pure (.listed (.ok [payment 6]))))⟩ := by
  have hold : ∀ o ∈ (funded₂.atMachine doc).entries, o.timestamp < 3 := fun o ho => by
    rw [mem_written ho]; decide
  have hwallet : ∀ c, c ∈ (funded₂.wallet machine fed).contracts ∧
      c.contract.claimPk = (config 6).claimerPk ↔ c = contract 6 := by
    intro c
    have hne : (config 5).claimerPk ≠ (config 6).claimerPk := by decide
    have hw : (funded₂.wallet machine fed).contracts = [contract 6, contract 5] := by
      have hid : (contract 6).contract.contractId ∉
          (swept.wallet machine fed).contracts.map fun c => c.contract.contractId := by
        rw [swept_wallet]; decide
      simp only [funded₂, State.fund, Function.update_self]
      rw [Client.record, dif_neg hid]
      simp only [swept_wallet]
    rw [hw]
    constructor
    · rintro ⟨hc, hpk⟩
      rcases List.mem_cons.mp hc with rfl | hc
      · rfl
      · rw [List.mem_singleton.mp hc] at hpk
        exact absurd hpk hne
    · rintro rfl
      exact ⟨by simp, rfl⟩
  have hfresh : ¬ funded₂.AtManager doc .manager (key 6) := by
    intro h
    obtain ⟨o, ho, ha, hk⟩ := Replica.get_isSome.mp h
    rcases mem_swept ho with rfl | rfl
    · have := (contractKey_inj hk).2
      revert this
      decide
    · cases ha
  have h1 : Steps calmDevices ⟨swept, sweptTasks⟩ ⟨funded₂, sweptTasks⟩ :=
    steps_of_env (Or.inl ⟨.fund _ machine fed (contract 6), fun _ => rfl⟩)
  have h2 : Steps calmDevices ⟨funded₂, sweptTasks⟩ ⟨written₂, sweptTasks⟩ :=
    steps_of_abort (i := TaskId.machine machine 1) ⟨⟨config 6, rfl⟩, rfl⟩ rfl
      (transfer_runs (fun hop h => ⟨h, unswept_of_ne hop⟩) (fun h => ⟨h, hfresh⟩) ⟨rfl, trivial⟩
        (by decide) hwallet hold)
  have h3 : Steps calmDevices ⟨written₂, sweptTasks⟩ ⟨synced₂, sweptTasks⟩ :=
    steps_of_env (Or.inl ⟨synced_step hold, fun _ => rfl⟩)
  have hvisible : entry 6 3 ∈ (synced₂.atManager doc).visible := by
    rw [synced₂, syncedAt_atManager]
    refine Replica.mem_visible_receive fun o ho => ?_
    rcases mem_swept ho with rfl | rfl <;> decide
  exact ((h1.trans h2).trans h3).trans (steps_of_return (Y := calmDevices) (i := TaskId.manager 1)
    ⟨Or.inr rfl, rfl⟩ rfl (listing_runs (fun h => ⟨h, trivial⟩) hvisible))

/-- The pass of the machine runs again, and its record is replicated. -/
def rewritten : State := writtenAt 5 3 swept
def resynced : State := syncedAt 5 3 rewritten

end Sale

open Sale in
/-- After a removal another contract is reported. -/
theorem removed_never_reported_other : ¬ SameContract (payment 5) (payment 6) := by
  refine removed_never_reported calm_swept_steps (i := TaskId.manager 0)
    (r := Result.swept (some ([payment 5], .ok ()))) rfl (List.mem_singleton.mpr rfl) calm_listed_steps
    (j := TaskId.manager 1) rfl rfl ?_
  exact List.mem_singleton.mpr rfl

open Sale in
/-- **A removed payment comes back.** The pass of the machine is dropped between its write and the
removal from the wallet; the manager claims and removes the contract; the pass runs again; after
replication the manager lists the contract again. -/
theorem removed_payment_returns :
    ∃ P P' : Pool TaskId Op Op.Ret Result State,
      Steps devices (Pool.idle State.init) P ∧
      P.task (.manager 0) = some (.pure (.swept (some ([payment 5], .ok ())))) ∧
      P.task (.manager 1) = none ∧ Steps devices P P' ∧
      P'.task (.manager 1) = some (.pure (.listed (.ok [payment 5]))) := by
  have hold : ∀ o ∈ (swept.atMachine doc).entries, o.timestamp < 3 := fun o ho => by
    rw [mem_written ho]; decide
  have h1 : Steps devices ⟨swept, sweptTasks⟩ ⟨rewritten, sweptTasks⟩ :=
    steps_of_abort (i := TaskId.machine machine 1)
      ⟨⟨config 5, rfl⟩, rfl⟩ rfl
      (transfer_runs (fun _ => id) id rfl (by decide) (wallet_one swept_wallet) hold)
  have h2 : Steps devices ⟨rewritten, sweptTasks⟩ ⟨resynced, sweptTasks⟩ :=
    steps_of_env (Or.inl ⟨synced_step hold, fun _ => rfl⟩)
  have hvisible : entry 5 3 ∈ (resynced.atManager doc).visible := by
    rw [resynced, syncedAt_atManager]
    refine Replica.mem_visible_receive fun o ho => ?_
    rcases mem_swept ho with rfl | rfl <;> decide
  have h3 := steps_of_return (Y := devices) (i := TaskId.manager 1) (f := sweptTasks) ⟨Or.inr rfl, rfl⟩ rfl
    (listing_runs id hvisible)
  exact ⟨_, _, swept_steps rfl rfl (fun _ => id) id rfl id, rfl, rfl, (h1.trans h2).trans h3, rfl⟩

end Vendimint.Transfer
