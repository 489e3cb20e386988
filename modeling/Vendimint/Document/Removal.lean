import Vendimint.Document.Kinds
import Mathlib.Data.List.Dedup
import Mathlib.Data.List.Pairwise

/-! # Listing and removing contracts

The identity of a contract is stored twice, in the key of its entry and in its value. A manager lists
the contract of the value and removes the entry of the key that it computes from it; and what it
writes to remove an entry of the machine is a record of its own, which has to come before that of the
machine.

* `listing_removable_iff`: what a manager lists it can remove, exactly if every entry shown lies under
  the key of its value.
* `removal_exact_iff`: a removal removes what was asked for and nothing else, exactly if each record of
  a machine is beaten by the time at which the manager removes it. -/

namespace Vendimint.Document

open Vendimint.Store Vendimint.Async Vendimint.ManagerProtocol Vendimint.SharedProtocol

variable {Z : Setting} {self : AuthorId} {s s' : Device}

/-! ### Two identities -/

/-- The machine, the federation and the contract of a payment. -/
def tripleId (p : Payment) : EndpointId × FederationId × ContractId :=
  (p.1, p.2.1, p.2.2.contract.contractId)

/-- Every entry that a replica shows lies under the key of its value. -/
def Consistent (Z : Setting) (s : Device) : Prop :=
  ∀ m ∈ s.tickets.names, ∀ R, replicaOf Z.serde s m = some R →
    ∀ f id e, R.value Z.ranking (contractKey f id) = some e →
      ∀ c, Z.serde.contract.dec e.content = some c → c.contract.contractId = id

/-- Two elements that a list without repetitions shows as one are the same. -/
theorem eq_of_nodup_filterMap {α β : Type} {g : α → Option β} {l : List α} (h : (l.filterMap g).Nodup)
    {a a' : α} {b : β} (ha : a ∈ l) (ha' : a' ∈ l) (hb : g a = some b) (hb' : g a' = some b) :
    a = a' := by
  by_contra hne
  have hpair := List.pairwise_filterMap.mp h
  have : Std.Symm fun a a' => ∀ b, g a = some b → ∀ b', g a' = some b' → b ≠ b' :=
    ⟨fun _ _ hR b hb b' hb' hbb => hR b' hb' b hb hbb.symm⟩
  exact hpair.forall ha ha' hne b hb b hb' rfl

/-- The contracts of one machine have different identities if they lie under their keys. -/
theorem nodup_contractsShown {m : EndpointId} {R : Replica AuthorId}
    (h : ∀ f id e, R.value Z.ranking (contractKey f id) = some e →
      ∀ c, Z.serde.contract.dec e.content = some c → c.contract.contractId = id) :
    ((contractsShown Z m R).map tripleId).Nodup := by
  rw [contractsShown, List.map_filterMap, List.Nodup, List.pairwise_filterMap]
  refine List.Pairwise.imp_of_mem ?_ (Replica.nodup_matching Z.ranking R CLAIMABLE_CONTRACT_PREFIX)
  intro e o he ho hne p hp q hq hpq
  subst hpq
  obtain ⟨⟨m₁, f₁, c₁⟩, hpay₁, rfl⟩ := Option.map_eq_some_iff.mp hp
  obtain ⟨⟨m₂, f₂, c₂⟩, hpay₂, heq⟩ := Option.map_eq_some_iff.mp hq
  obtain ⟨rfl, ⟨id₁, hk₁⟩, hc₁⟩ := entryPayment_eq_some.mp hpay₁
  obtain ⟨rfl, ⟨id₂, hk₂⟩, hc₂⟩ := entryPayment_eq_some.mp hpay₂
  have h₁ := (Replica.mem_matching.mp he).1
  have h₂ := (Replica.mem_matching.mp ho).1
  rw [hk₁] at h₁
  rw [hk₂] at h₂
  have hid₁ := h _ _ _ h₁ _ hc₁
  have hid₂ := h _ _ _ h₂ _ hc₂
  simp only [tripleId, Prod.mk.injEq] at heq
  obtain ⟨-, rfl, hid⟩ := heq
  rw [hid₁, hid₂] at hid
  rw [← hid, h₂, Option.some.injEq] at h₁
  exact hne h₁.symm

/-- A listing has one contract per identity if the entries lie under their keys. -/
theorem nodup_listing (h : Consistent Z s) : ((listing Z s).map tripleId).Nodup := by
  rw [listing, List.map_flatMap, List.nodup_flatMap]
  constructor
  · intro m hm
    rcases hR : replicaOf Z.serde s m with _ | R
    · exact List.nodup_nil
    · exact nodup_contractsShown (h m hm R hR)
  · refine s.tickets.nodup.imp fun {m m'} hne => ?_
    have hfst : ∀ m, ∀ p ∈ ((replicaOf Z.serde s m).map (contractsShown Z m)).getD [], p.1 = m := by
      intro m p hp
      rcases hR : replicaOf Z.serde s m with _ | R
      · rw [hR] at hp
        cases hp
      · rw [hR, Option.map_some, Option.getD_some, contractsShown, List.mem_filterMap] at hp
        obtain ⟨e, -, hpay⟩ := hp
        obtain ⟨m₁, f, c⟩ := p
        exact (entryPayment_eq_some.mp hpay).1
    intro p hp hp'
    obtain ⟨q, hq, rfl⟩ := List.mem_map.mp hp
    obtain ⟨q', hq', heq⟩ := List.mem_map.mp hp'
    have h1 := hfst m q hq
    have h2 := hfst m' q' hq'
    have h3 : q'.1 = q.1 := (Prod.mk.inj heq).1
    exact hne (h1.symm.trans (h3.symm.trans h2))

/-! ### The removal of contracts -/

/-- Removals of entries by the manager, one after the other. -/
def Deletes (Z : Setting) : Device → List (NamespaceId × Bytes) → Device → Prop
  | s, [], s' => s' = s
  | s, (d, k) :: l, s' => ∃ s₁, s.Put Z d .manager k [] s₁ ∧ Deletes Z s₁ l s'

/-- The entry that the removal of a contract is about. -/
def Addresses (J : Serde) (s : Device) (p : Payment) (x : NamespaceId × Bytes) : Prop :=
  ∃ t, (Access.manager p.1).ticket J s = some t ∧ x.1 = t.capability.id ∧
    x.2 = createClaimableContractMachineDocKey p.2.1 p.2.2

/-- The order in which the contracts are removed: machine by machine. -/
def removalOrder (Z : Setting) (cs : List Payment) : List Payment :=
  (Z.order (cs.map Prod.fst).dedup).flatMap fun m => (contractsOf m cs).map (m, ·)

theorem Device.Put.tickets {d : NamespaceId} {a : AuthorId} {k v : Bytes} (h : s.Put Z d a k v s') :
    s'.tickets = s.tickets := by
  obtain ⟨R, R', -, -, rfl⟩ := h
  rfl

theorem Deletes.append : ∀ {l l' : List (NamespaceId × Bytes)} {s s' s'' : Device},
    Deletes Z s l s' → Deletes Z s' l' s'' → Deletes Z s (l ++ l') s''
  | [], l', s, s', s'', h, h' => by
    obtain rfl : s' = s := h
    exact h'
  | (d, k) :: l, l', s, s', s'', h, h' => by
    obtain ⟨s₁, hput, h⟩ := h
    exact ⟨s₁, hput, h.append h'⟩

theorem Deletes.tickets : ∀ {l : List (NamespaceId × Bytes)} {s s' : Device},
    Deletes Z s l s' → s'.tickets = s.tickets
  | [], s, s', h => by rw [show s' = s from h]
  | (d, k) :: l, s, s', h => by
    obtain ⟨s₁, hput, h⟩ := h
    rw [h.tickets, hput.tickets]

/-- What has been removed when the function returns without an error. -/
abbrev Removes (Z : Setting) (s : Device) (ps : List Payment) :
    Outcome (Except Error Unit) → Device → Prop :=
  fun o s' => o = .returned (.ok ()) →
    ∃ l, List.Forall₂ (Addresses Z.serde s) ps l ∧ Deletes Z s l s'

/-- A removal that succeeds, with what follows it. -/
theorem ensures_docDel {α : Type} {d : NamespaceId} {a : AuthorId} {k : Bytes}
    {f : Unit → Fut (Except Error α)} {Q : Outcome (Except Error α) → Device → Prop}
    (herr : ∀ e, Q (.returned (.error e)) s) (hab : ∀ s', Q .aborted s')
    (hk : ∀ s', s.Put Z d a k [] s' → Ensures (world Z self) () (f ()) Q s') :
    Ensures (world Z self) () (.await (.docDel d a k) fun r => Fallible.andThen f r) Q s := by
  refine ⟨⟨.error "", s, Or.inr ⟨rfl, "", rfl⟩⟩, fun r s' he => ?_, fun s' _ => hab s'⟩
  rcases he with ⟨hput, rfl⟩ | ⟨rfl, e, rfl⟩
  · exact hk s' hput
  · exact herr e

theorem ensures_deleteFrom {d : NamespaceId} {m : EndpointId} :
    ∀ (l : List (FederationId × ClaimableContract)) {s : Device},
      (∃ t, (Access.manager m).ticket Z.serde s = some t ∧ d = t.capability.id) →
        Ensures (world Z self) () (deleteFrom d .manager l).run (Removes Z s (l.map (m, ·))) s
  | [], s, _ => fun _ => ⟨[], .nil, rfl⟩
  | (f, c) :: l, s, ht => by
    rw [deleteFrom, Fallible.run_bind]
    refine ensures_docDel (fun e ho => by cases ho) (fun s' ho => by cases ho) fun s₁ hput => ?_
    have ht' : ∃ t, (Access.manager m).ticket Z.serde s₁ = some t ∧ d = t.capability.id := by
      rw [Access.ticket, hput.tickets]
      exact ht
    refine (ensures_deleteFrom l ht').mono fun o s' hQ ho => ?_
    obtain ⟨xs, hxs, hdel⟩ := hQ ho
    obtain ⟨t, htick, rfl⟩ := ht
    refine ⟨(t.capability.id, createClaimableContractMachineDocKey f c) :: xs,
      .cons ⟨t, htick, rfl, rfl⟩ ?_, s₁, hput, hdel⟩
    refine hxs.imp fun p x hp => ?_
    unfold Addresses Access.ticket at hp ⊢
    rwa [hput.tickets] at hp

theorem ensures_deleteFromMachines (cs : List Payment) : ∀ (ms : List EndpointId) {s : Device},
    Ensures (world Z self) () (deleteFromMachines Z.serde .manager cs ms).run
      (Removes Z s (ms.flatMap fun m => (contractsOf m cs).map (m, ·))) s
  | [], s => fun _ => ⟨[], .nil, rfl⟩
  | m :: ms, s => by
    rw [deleteFromMachines, Fallible.run_bind]
    refine Ensures.bind ((ensures_getMachine m).mono fun o s₁ ho => ?_)
    rcases o with (e | t) | _ | _
    · intro ho
      cases ho
    · obtain ⟨-, rfl, ht⟩ := ho
      simp only [Outcome.seq_returned, Fallible.andThen_ok, Fallible.run_bind]
      refine Ensures.bind ((ensures_docsOpen t).mono fun o s₂ ho => ?_)
      rcases o with (e | d) | _ | _
      · intro ho
        cases ho
      · obtain ⟨-, rfl, rfl⟩ := ho
        simp only [Outcome.seq_returned, Fallible.andThen_ok]
        refine Ensures.bind ((ensures_deleteFrom _ ⟨t, ht, rfl⟩).mono fun o s₃ ho => ?_)
        rcases o with (e | u) | _ | _
        · intro ho
          cases ho
        · obtain ⟨xs, hxs, hdel⟩ := ho rfl
          refine (ensures_deleteFromMachines cs ms).mono fun o s' hQ ho => ?_
          obtain ⟨ys, hys, hdel'⟩ := hQ ho
          refine ⟨xs ++ ys, ?_, hdel.append hdel'⟩
          rw [List.flatMap_cons]
          refine List.rel_append hxs (hys.imp fun p x hp => ?_)
          unfold Addresses Access.ticket at hp ⊢
          rwa [hdel.tickets] at hp
        all_goals
          intro ho
          cases ho
      all_goals
        intro ho
        cases ho
    all_goals
      intro ho
      cases ho

/-- **A removal** that succeeds removes the entries of the contracts one by one. -/
theorem ensures_removeClaimableContracts (cs : List Payment) :
    Ensures (world Z .manager) () (removeClaimableContracts Z.serde cs).run
      (Removes Z s (removalOrder Z cs)) s := by
  rw [removeClaimableContracts, Fallible.run_bind]
  refine ensures_reply (.ok .manager) trivial ⟨rfl, rfl⟩ (fun r hr => hr.2) (fun ho => by cases ho) ?_
  rw [Prog.pure_bind, Fallible.andThen_ok, Fallible.run_bind]
  refine ensures_reply (Z.order (cs.map Prod.fst).dedup) trivial ⟨rfl, rfl⟩ (fun r hr => hr.2)
    (fun ho => by cases ho) ?_
  exact ensures_deleteFromMachines cs _

theorem mem_removalOrder {cs : List Payment} {p : Payment} : p ∈ removalOrder Z cs ↔ p ∈ cs := by
  simp only [removalOrder, List.mem_flatMap, List.mem_map, (Z.order_perm _).mem_iff, List.mem_dedup]
  constructor
  · rintro ⟨m, -, x, hx, rfl⟩
    exact mem_contractsOf.mp hx
  · intro hp
    exact ⟨p.1, ⟨p, hp, rfl⟩, p.2, mem_contractsOf.mpr hp, rfl⟩

/-- The removal of one contract. -/
theorem put_of_removal {m : EndpointId} {f : FederationId} {c : ClaimableContract} {t : DocTicket}
    (ht : (Access.manager m).ticket Z.serde s = some t)
    (hr : Runs (world Z .manager) () Alone (removeClaimableContracts Z.serde [(m, f, c)]).run s
      (.returned (.ok ())) s') :
    s.Put Z t.capability.id .manager (createClaimableContractMachineDocKey f c) [] s' := by
  obtain ⟨l, hl, hdel⟩ := hr.ensures (ensures_removeClaimableContracts _) rfl
  have horder : removalOrder Z [(m, f, c)] = [(m, f, c)] := by
    have hperm : (Z.order [m]).Perm [m] := Z.order_perm _
    have hkeys : ([(m, f, c)].map Prod.fst).dedup = [m] := rfl
    rw [removalOrder, hkeys, List.perm_singleton.mp hperm, List.flatMap_singleton]
    simp [contractsOf]
  rw [horder] at hl
  obtain ⟨⟨d, k⟩, l', ⟨t', ht', hd, hk⟩, hl', rfl⟩ := List.forall₂_cons_left_iff.mp hl
  obtain rfl := List.forall₂_nil_left_iff.mp hl'
  rw [ht, Option.some.injEq] at ht'
  subst ht'
  obtain rfl : d = t.capability.id := hd
  obtain rfl : k = createClaimableContractMachineDocKey f c := hk
  obtain ⟨s₁, hput, hs⟩ := hdel
  obtain rfl : s' = s₁ := hs
  exact hput

/-! ### What is listed can be removed -/

/-- **What a manager lists it can remove**: each contract is that of an entry of the document of its
machine which is the one that its removal addresses, and no two contracts have the same identity. -/
structure Removable (Z : Setting) (s : Device) (l : List Payment) : Prop where
  addressed : ∀ m f c, (m, f, c) ∈ l → ∃ t R e, (Access.manager m).ticket Z.serde s = some t ∧
    s.docs t.capability.id = some R ∧ R.value Z.ranking e.key = some e ∧
    Z.serde.contract.dec e.content = some c ∧ e.key = createClaimableContractMachineDocKey f c ∧
    ∀ s', Runs (world Z .manager) () Alone (removeClaimableContracts Z.serde [(m, f, c)]).run s
      (.returned (.ok ())) s' → s.Put Z t.capability.id .manager e.key [] s'
  unique : (l.map tripleId).Nodup

theorem ticket_of_replicaOf {J : Serde} {m : EndpointId} {R : Replica AuthorId}
    (h : replicaOf J s m = some R) :
    ∃ t, (Access.manager m).ticket J s = some t ∧ s.docs t.capability.id = some R :=
  Option.bind_eq_some_iff.mp h

/-- **What is listed can be removed** exactly if each entry shown lies under the key of its value. -/
theorem listing_removable_iff {l : List Payment}
    (hl : Returns (world Z .manager) () (getClaimableContracts Z.serde).run s (.ok l)) :
    Removable Z s l ↔ Consistent Z s := by
  obtain ⟨-, -, -, hperm⟩ := ensures_getClaimableContracts.of_returns_ok hl
  constructor
  · intro h m hm R hR f id e he c hc
    have hmem : (m, f, c) ∈ l := hperm.mem_iff.mpr (mem_listing.mpr ⟨hm, R, hR, id, e, he, hc⟩)
    obtain ⟨t, R', e', ht, hR', he', hc', hk', -⟩ := h.addressed m f c hmem
    obtain ⟨t', ht', hRt⟩ := ticket_of_replicaOf hR
    rw [ht, Option.some.injEq] at ht'
    subst ht'
    obtain rfl := Option.some.inj (hR'.symm.trans hRt)
    -- Both entries show the contract, which is listed once.
    have hnodup : (contractsShown Z m R').Nodup := by
      have hlist : (listing Z s).Nodup := List.Nodup.of_map _ ((hperm.map tripleId).nodup_iff.mp h.unique)
      have := (List.nodup_flatMap.mp hlist).1 m hm
      rwa [hR, Option.map_some, Option.getD_some] at this
    have hk : e.key = contractKey f id := Replica.key_of_value he
    have hpay : ∀ {o}, (∃ id, o.key = contractKey f id) → Z.serde.contract.dec o.content = some c →
        entryPayment Z.serde m o = some (m, f, c) :=
      fun hko hco => entryPayment_eq_some.mpr ⟨rfl, hko, hco⟩
    have hin : ∀ {o : Entry AuthorId}, R'.value Z.ranking o.key = some o →
        (∃ id, o.key = contractKey f id) →
          o ∈ R'.matching Z.ranking CLAIMABLE_CONTRACT_PREFIX := by
      rintro o ho ⟨id, hko⟩
      exact Replica.mem_matching.mpr ⟨ho, hko ▸ prefix_contractKey f id⟩
    have hee : e = e' := eq_of_nodup_filterMap hnodup (hin (hk.symm ▸ he) ⟨id, hk⟩)
      (hin he' ⟨_, hk'⟩) (hpay ⟨id, hk⟩ hc) (hpay ⟨_, hk'⟩ hc')
    rw [← hee, hk, createKey_eq] at hk'
    exact (contractKey_inj hk').2.symm
  · intro h
    refine ⟨fun m f c hmem => ?_, (hperm.map tripleId).nodup_iff.mpr (nodup_listing h)⟩
    obtain ⟨hm, R, hR, id, e, he, hc⟩ := mem_listing.mp (hperm.mem_iff.mp hmem)
    obtain ⟨t, ht, hRt⟩ := ticket_of_replicaOf hR
    have hk : e.key = contractKey f id := Replica.key_of_value he
    have hkey : e.key = createClaimableContractMachineDocKey f c := by
      rw [hk, createKey_eq, h m hm R hR f id e he c hc]
    refine ⟨t, R, e, ht, hRt, hk.symm ▸ he, hc, hkey, fun s' hr => ?_⟩
    rw [hkey]
    exact put_of_removal ht hr

/-! ### What the removals leave -/

/-- The record of the removal that is stamped with the `j`-th reading of the clock. -/
def tombstone (Z : Setting) (s : Device) (j : ℕ) (k : Bytes) : Entry AuthorId :=
  ⟨.manager, k, Z.clock (s.writes + j), []⟩

/-- The records of a document before and after a removal. -/
theorem Device.Put.get {d d' : NamespaceId} {k κ : Bytes} (h : s.Put Z d .manager k [] s')
    (hk : d = d' → k <+: κ → k = κ) {R : Replica AuthorId} (hR : s.docs d' = some R) :
    s'.writes = s.writes + 1 ∧ ∃ R', s'.docs d' = some R' ∧
      (∀ k, R'.get .machine k = R.get .machine k) ∧
      ((d, k) ≠ (d', κ) → R'.get .manager κ = R.get .manager κ) ∧
      ((d, k) = (d', κ) → R'.get .manager κ = some (tombstone Z s 0 κ) ∧
        ∀ o, R.get .manager κ = some o → o.timestamp ≤ (tombstone Z s 0 κ).timestamp) := by
  obtain ⟨R₁, R', hR₁, hput, rfl⟩ := h
  refine ⟨rfl, ?_⟩
  by_cases hd : d = d'
  · subst hd
    obtain rfl := Option.some.inj (hR₁.symm.trans hR)
    refine ⟨R', by simp, fun k => Replica.get_put_other hput nofun, fun hne => ?_, fun heq => ?_⟩
    · refine Replica.get_put_other hput fun _ hpre => hne ?_
      rw [hk rfl hpre]
    · obtain rfl : k = κ := (Prod.mk.inj heq).2
      refine ⟨Replica.get_put_self hput, fun o ho => ?_⟩
      obtain ⟨hmem, ha, hok⟩ := Replica.get_eq_some.mp ho
      exact (Replica.lt_of_put hput hmem (by rw [Entry.slot, Entry.slot, ha, hok])).le
  · refine ⟨R, ?_, fun _ => rfl, fun _ => rfl, fun heq => absurd (Prod.mk.inj heq).1 hd⟩
    rw [Device.set_docs, Function.update_of_ne (Ne.symm hd)]
    exact hR

/-- **The records after some removals**: those of the machine stay, and of the removals of an entry the
newest one is left. -/
theorem Deletes.get {d : NamespaceId} {κ : Bytes} : ∀ {l : List (NamespaceId × Bytes)}
    {s s' : Device}, Deletes Z s l s' → (∀ x ∈ l, x.1 = d → x.2 <+: κ → x.2 = κ) →
      ∀ {R : Replica AuthorId}, s.docs d = some R → ∃ R', s'.docs d = some R' ∧
        (∀ k, R'.get .machine k = R.get .machine k) ∧
        ((d, κ) ∉ l → R'.get .manager κ = R.get .manager κ) ∧
        ((d, κ) ∈ l → ∃ j, l[j]? = some (d, κ) ∧ R'.get .manager κ = some (tombstone Z s j κ) ∧
          (∀ o, R.get .manager κ = some o → o.timestamp ≤ (tombstone Z s j κ).timestamp) ∧
          ∀ i, l[i]? = some (d, κ) → (tombstone Z s i κ).timestamp ≤ (tombstone Z s j κ).timestamp)
  | [], s, s', h, _, R, hR => by
    obtain rfl : s' = s := h
    exact ⟨R, hR, fun _ => rfl, fun _ => rfl, fun hm => (nomatch hm)⟩
  | (d₁, k₁) :: l, s, s', h, hl, R, hR => by
    obtain ⟨s₁, hput, h⟩ := h
    obtain ⟨hw, R₁, hR₁, hmach₁, hother, hsame⟩ := hput.get (hl _ (List.mem_cons_self ..)) hR
    obtain ⟨R', hR', hmach, hnot, hin⟩ := h.get (fun x hx => hl x (List.mem_cons_of_mem _ hx)) hR₁
    have hshift : ∀ j, tombstone Z s₁ j κ = tombstone Z s (j + 1) κ := by
      intro j
      rw [tombstone, tombstone, hw, show s.writes + 1 + j = s.writes + (j + 1) by omega]
    refine ⟨R', hR', fun k => (hmach k).trans (hmach₁ k), fun hm => ?_, fun hm => ?_⟩
    · rw [List.mem_cons, not_or] at hm
      exact (hnot hm.2).trans (hother (Ne.symm hm.1))
    · by_cases hml : (d, κ) ∈ l
      · obtain ⟨j, hj, hget, hold, hmax⟩ := hin hml
        rw [hshift] at hget hold
        have hzero : (d₁, k₁) = (d, κ) →
            (tombstone Z s 0 κ).timestamp ≤ (tombstone Z s (j + 1) κ).timestamp :=
          fun heq => hold _ (hsame heq).1
        refine ⟨j + 1, hj, hget, fun o ho => ?_, fun i hi => ?_⟩
        · by_cases heq : (d₁, k₁) = (d, κ)
          · exact ((hsame heq).2 o ho).trans (hzero heq)
          · exact hold o (hother heq ▸ ho)
        · cases i with
          | zero =>
            rw [List.getElem?_cons_zero, Option.some.injEq] at hi
            exact hzero hi
          | succ i =>
            rw [List.getElem?_cons_succ] at hi
            have := hmax i hi
            rwa [hshift, hshift] at this
      · have heq : (d₁, k₁) = (d, κ) := ((List.mem_cons.mp hm).resolve_right hml).symm
        obtain ⟨htomb, hold⟩ := hsame heq
        refine ⟨0, by rw [heq]; rfl, (hnot hml).trans htomb, hold, fun i hi => ?_⟩
        cases i with
        | zero => exact le_rfl
        | succ i =>
          rw [List.getElem?_cons_succ] at hi
          exact absurd (List.mem_of_getElem? hi) hml

/-! ### A removal removes what was asked for -/

/-- The entries of contracts were written by `write_payment_to_machine_doc`, or removed by the manager,
and different machines have different documents. -/
structure Written (Z : Setting) (s : Device) : Prop where
  entries : ∀ m ∈ s.tickets.names, ∀ R, replicaOf Z.serde s m = some R → ∀ e ∈ R.entries,
    (∃ f id, e.key = contractKey f id) →
      (e.author = .machine ∧ ∃ f c, e.key = createClaimableContractMachineDocKey f c ∧
        e.content = Z.serde.contract.enc c) ∨ e.author = .manager ∧ e.content = []
  distinct : ∀ m m' t t', (Access.manager m).ticket Z.serde s = some t →
    (Access.manager m').ticket Z.serde s = some t' → t.capability.id = t'.capability.id → m = m'

/-- The entry shown under the key of a contract is the machine's, and holds that contract. -/
theorem Written.shown (h : Written Z s) {m : EndpointId} (hm : m ∈ s.tickets.names)
    {R : Replica AuthorId} (hR : replicaOf Z.serde s m = some R) {f : FederationId} {id : ContractId}
    {e : Entry AuthorId} (he : R.value Z.ranking (contractKey f id) = some e) :
    e.author = .machine ∧ ∃ c, Z.serde.contract.dec e.content = some c ∧ c.contract.contractId = id := by
  obtain ⟨hshown, hne⟩ := Replica.value_eq_some.mp he
  obtain ⟨hmem, hk, -⟩ := Replica.shownAt_eq_some.mp hshown
  rcases h.entries m hm R hR e hmem ⟨f, id, hk⟩ with ⟨ha, f', c, hk', hc⟩ | ⟨-, hc⟩
  · rw [hk, createKey_eq] at hk'
    exact ⟨ha, c, by rw [hc, Z.serde.contract.decode_encode], (contractKey_inj hk').2.symm⟩
  · exact absurd hc hne

theorem Written.consistent (h : Written Z s) : Consistent Z s := by
  intro m hm R hR f id e he c hc
  obtain ⟨-, c', hc', hid⟩ := h.shown hm hR he
  rw [hc, Option.some.injEq] at hc'
  exact hc' ▸ hid

/-- The record of the machine of each contract is older than one of the removals that the manager
stamps for it. -/
def Beaten (Z : Setting) (s : Device) (cs : List Payment) : Prop :=
  ∀ p ∈ cs, ∃ (j : ℕ) (q : Payment), (removalOrder Z cs)[j]? = some q ∧ tripleId q = tripleId p ∧
    ∀ R e, replicaOf Z.serde s p.1 = some R →
      R.get .machine (createClaimableContractMachineDocKey p.2.1 p.2.2) = some e →
        e.age Z.ranking ≤ (tombstone Z s j e.key).age Z.ranking

theorem forall₂_getElem? {α β : Type} {r : α → β → Prop} {l : List α} {l' : List β}
    (h : List.Forall₂ r l l') :
    (∀ (j : ℕ) a, l[j]? = some a → ∃ b, l'[j]? = some b ∧ r a b) ∧
      ∀ (j : ℕ) b, l'[j]? = some b → ∃ a, l[j]? = some a ∧ r a b := by
  induction h with
  | nil => exact ⟨fun j a ha => (nomatch ha), fun j b hb => (nomatch hb)⟩
  | @cons a b l l' hab _ ih =>
    constructor
    · rintro (_ | j) x hx
      · rw [List.getElem?_cons_zero, Option.some.injEq] at hx
        exact ⟨b, rfl, hx ▸ hab⟩
      · exact ih.1 j x hx
    · rintro (_ | j) x hx
      · rw [List.getElem?_cons_zero, Option.some.injEq] at hx
        exact ⟨a, rfl, hx ▸ hab⟩
      · exact ih.2 j x hx

section Removal
variable {cs : List Payment} {xs : List (NamespaceId × Bytes)}

/-- The removals that an entry of `m` is about. -/
theorem Written.addresses (h : Written Z s)
    (hxs : List.Forall₂ (Addresses Z.serde s) (removalOrder Z cs) xs) {m : EndpointId}
    {t : DocTicket} (ht : (Access.manager m).ticket Z.serde s = some t) {f : FederationId}
    {id : ContractId} {j : ℕ} : xs[j]? = some (t.capability.id, contractKey f id) ↔
      ∃ q, (removalOrder Z cs)[j]? = some q ∧ tripleId q = (m, f, id) := by
  constructor
  · intro hx
    obtain ⟨q, hq, t', ht', hd, hk⟩ := (forall₂_getElem? hxs).2 j _ hx
    rw [createKey_eq] at hk
    obtain ⟨rfl, rfl⟩ := contractKey_inj hk
    have hm : m = q.1 := h.distinct m q.1 t t' ht ht' hd
    exact ⟨q, hq, by rw [tripleId, hm]⟩
  · rintro ⟨q, hq, hid⟩
    obtain ⟨⟨d, k⟩, hx, t', ht', hd, hk⟩ := (forall₂_getElem? hxs).1 j q hq
    simp only [tripleId, Prod.mk.injEq] at hid
    obtain ⟨rfl, rfl, rfl⟩ := hid
    rw [ht, Option.some.injEq] at ht'
    rw [hx, show d = t.capability.id from ht' ▸ hd, show k = _ from hk, createKey_eq]

theorem Written.mem_slots (h : Written Z s)
    (hxs : List.Forall₂ (Addresses Z.serde s) (removalOrder Z cs) xs) {m : EndpointId}
    {t : DocTicket} (ht : (Access.manager m).ticket Z.serde s = some t) {f : FederationId}
    {id : ContractId} :
    (t.capability.id, contractKey f id) ∈ xs ↔ (m, f, id) ∈ cs.map tripleId := by
  constructor
  · intro hx
    obtain ⟨j, hj⟩ := List.mem_iff_getElem?.mp hx
    obtain ⟨q, hq, hid⟩ := (h.addresses hxs ht).mp hj
    exact List.mem_map.mpr ⟨q, mem_removalOrder.mp (List.mem_of_getElem? hq), hid⟩
  · intro hm
    obtain ⟨q, hq, hid⟩ := List.mem_map.mp hm
    obtain ⟨j, hj⟩ := List.mem_iff_getElem?.mp (mem_removalOrder.mpr hq)
    exact List.mem_of_getElem? ((h.addresses hxs ht).mpr ⟨q, hj, hid⟩)

/-- All removals are of entries under the keys of contracts. -/
theorem slots_key {ps : List Payment} (hxs : List.Forall₂ (Addresses Z.serde s) ps xs)
    {x : NamespaceId × Bytes} (hx : x ∈ xs) {f : FederationId} {id : ContractId}
    (hpre : x.2 <+: contractKey f id) : x.2 = contractKey f id := by
  obtain ⟨j, hj⟩ := List.mem_iff_getElem?.mp hx
  obtain ⟨q, -, t, -, -, hk⟩ := (forall₂_getElem? hxs).2 j x hj
  rw [hk, createKey_eq] at hpre ⊢
  exact (eq_of_prefix_contractKey hpre (length_contractKey _ _)).symm

/-- What a replica shows under a key of which the manager's record is a removal. -/
theorem value_of_tombstone {R R' : Replica AuthorId} {k : Bytes} {e o : Entry AuthorId}
    (hmach : R'.get .machine k = R.get .machine k) (hman : R'.get .manager k = some o)
    (ho : o.content = []) (he : R.value Z.ranking k = some e) (ha : e.author = .machine) :
    (R'.value Z.ranking k = none ↔ e.age Z.ranking ≤ o.age Z.ranking) ∧
      ∀ y, R'.value Z.ranking k = some y → y = e := by
  obtain ⟨hshown, hne⟩ := Replica.value_eq_some.mp he
  obtain ⟨hmem, hk, -⟩ := Replica.shownAt_eq_some.mp hshown
  obtain ⟨homem, hoa, hok⟩ := Replica.get_eq_some.mp hman
  have hge : R'.get .machine k = some e := by
    rw [hmach]
    exact Replica.get_eq_some.mpr ⟨hmem, ha, hk⟩
  have hemem : e ∈ R'.entries := (Replica.get_eq_some.mp hge).1
  -- The two authors have one record each under the key.
  have hrec : ∀ y ∈ R'.entries, y.key = k → y = e ∨ y = o := by
    intro y hy hyk
    rcases hya : y.author with _ | _
    · have : R'.get .machine k = some y := Replica.get_eq_some.mpr ⟨hy, hya, hyk⟩
      exact Or.inl (Option.some.inj (this.symm.trans hge))
    · have : R'.get .manager k = some y := Replica.get_eq_some.mpr ⟨hy, hya, hyk⟩
      exact Or.inr (Option.some.inj (this.symm.trans hman))
  have hself : ∀ y, R'.value Z.ranking k = some y → y = e := by
    intro y hy
    obtain ⟨hys, hyne⟩ := Replica.value_eq_some.mp hy
    obtain ⟨hymem, hyk, -⟩ := Replica.shownAt_eq_some.mp hys
    rcases hrec y hymem hyk with rfl | rfl
    · rfl
    · exact absurd ho hyne
  refine ⟨?_, hself⟩
  constructor
  · intro hnone
    by_contra hlt
    have hval : R'.value Z.ranking k = some e := by
      refine Replica.value_eq_some.mpr ⟨Replica.shownAt_eq_some.mpr ⟨hemem, hk, ?_⟩, hne⟩
      intro y hy hyk
      rcases hrec y hy hyk with rfl | rfl
      · exact le_rfl
      · exact (not_le.mp hlt).le
    rw [hnone] at hval
    cases hval
  · intro hle
    rcases hv : R'.value Z.ranking k with _ | y
    · rfl
    · obtain rfl := hself y hv
      obtain ⟨-, -, hmax⟩ := Replica.shownAt_eq_some.mp (Replica.value_eq_some.mp hv).1
      have heq := Replica.eq_of_age hemem homem (hk.trans hok.symm)
        (le_antisymm hle (hmax o homem hok))
      exact absurd (heq ▸ ho) hne

/-- What the removals leave of the document of one machine. -/
theorem Written.after (h : Written Z s)
    (hxs : List.Forall₂ (Addresses Z.serde s) (removalOrder Z cs) xs) (hdel : Deletes Z s xs s')
    {m : EndpointId} {R : Replica AuthorId} (hR : replicaOf Z.serde s m = some R) :
    ∃ R', replicaOf Z.serde s' m = some R' ∧ (∀ k, R'.get .machine k = R.get .machine k) ∧
      ∀ f id, ((m, f, id) ∉ cs.map tripleId →
          R'.get .manager (contractKey f id) = R.get .manager (contractKey f id)) ∧
        ((m, f, id) ∈ cs.map tripleId → ∃ (j : ℕ) (q : Payment),
          (removalOrder Z cs)[j]? = some q ∧ tripleId q = (m, f, id) ∧
          R'.get .manager (contractKey f id) = some (tombstone Z s j (contractKey f id)) ∧
          ∀ (i : ℕ) (q' : Payment), (removalOrder Z cs)[i]? = some q' → tripleId q' = (m, f, id) →
            (tombstone Z s i (contractKey f id)).timestamp ≤
              (tombstone Z s j (contractKey f id)).timestamp) := by
  obtain ⟨t, ht, hRt⟩ := ticket_of_replicaOf hR
  have hkey : ∀ (f : FederationId) (id : ContractId), ∀ x ∈ xs, x.1 = t.capability.id →
      x.2 <+: contractKey f id → x.2 = contractKey f id :=
    fun _ _ x hx _ hpre => slots_key hxs hx hpre
  obtain ⟨R', hR', hmach, -, -⟩ := hdel.get (hkey ⟨.replicate 32 0⟩ ⟨.replicate 32 0⟩) hRt
  have hRm' : replicaOf Z.serde s' m = some R' := by
    rw [replicaOf, Access.ticket, hdel.tickets]
    exact Option.bind_eq_some_iff.mpr ⟨t, ht, hR'⟩
  refine ⟨R', hRm', hmach, fun f id => ?_⟩
  obtain ⟨R₁, hR₁, -, hnot, hin⟩ := hdel.get (hkey f id) hRt
  obtain rfl := Option.some.inj (hR₁.symm.trans hR')
  rw [← h.mem_slots hxs ht]
  refine ⟨hnot, fun hx => ?_⟩
  obtain ⟨j, hj, hget, -, hmax⟩ := hin hx
  obtain ⟨q, hq, hid⟩ := (h.addresses hxs ht).mp hj
  exact ⟨j, q, hq, hid, hget, fun i q' hq' hid' => hmax i ((h.addresses hxs ht).mpr ⟨q', hq', hid'⟩)⟩

/-- After some removals the entries of contracts are still written by machines, or removed. -/
theorem Written.deletes (h : Written Z s)
    (hxs : List.Forall₂ (Addresses Z.serde s) (removalOrder Z cs) xs) (hdel : Deletes Z s xs s')
    (hopen : ∀ m ∈ s.tickets.names, ∃ R, replicaOf Z.serde s m = some R) : Written Z s' := by
  refine ⟨fun m hm R' hR' e he hk => ?_, ?_⟩
  · rw [hdel.tickets] at hm
    obtain ⟨R, hR⟩ := hopen m hm
    obtain ⟨R₁, hR₁, hmach, hman⟩ := h.after hxs hdel hR
    obtain rfl := Option.some.inj (hR₁.symm.trans hR')
    obtain ⟨f, id, hk⟩ := hk
    rcases ha : e.author with _ | _
    · have hget : R.get .machine e.key = some e := by
        rw [← hmach]
        exact Replica.get_eq_some.mpr ⟨he, ha, rfl⟩
      have := h.entries m hm R hR e (Replica.get_eq_some.mp hget).1 ⟨f, id, hk⟩
      rwa [ha] at this
    · have hget : R₁.get .manager (contractKey f id) = some e :=
        Replica.get_eq_some.mpr ⟨he, ha, hk⟩
      refine Or.inr ⟨rfl, ?_⟩
      by_cases hmem : (m, f, id) ∈ cs.map tripleId
      · obtain ⟨j, q, -, -, hj, -⟩ := (hman f id).2 hmem
        obtain rfl := Option.some.inj (hj.symm.trans hget)
        rfl
      · have hold := ((hman f id).1 hmem).symm.trans hget
        have := h.entries m hm R hR e (Replica.get_eq_some.mp hold).1 ⟨f, id, hk⟩
        rw [ha] at this
        exact (this.resolve_left nofun).2
  · have htick : ∀ m, (Access.manager m).ticket Z.serde s' = (Access.manager m).ticket Z.serde s := by
      intro m
      rw [Access.ticket, Access.ticket, hdel.tickets]
    intro m m' t t' ht ht'
    rw [htick] at ht ht'
    exact h.distinct m m' t t' ht ht'

/-- Whether a contract is listed after the removals. -/
theorem Written.mem_listing_iff (h : Written Z s)
    (hxs : List.Forall₂ (Addresses Z.serde s) (removalOrder Z cs) xs) (hdel : Deletes Z s xs s')
    (hopen : ∀ m ∈ s.tickets.names, ∃ R, replicaOf Z.serde s m = some R) {p : Payment}
    (hp : p ∈ listing Z s) :
    (tripleId p ∉ cs.map tripleId → p ∈ listing Z s') ∧
      (tripleId p ∈ cs.map tripleId → (p ∉ listing Z s' ↔
        ∃ (j : ℕ) (q : Payment), (removalOrder Z cs)[j]? = some q ∧ tripleId q = tripleId p ∧
          ∀ R e, replicaOf Z.serde s p.1 = some R →
            R.get .machine (createClaimableContractMachineDocKey p.2.1 p.2.2) = some e →
              e.age Z.ranking ≤ (tombstone Z s j e.key).age Z.ranking)) := by
  obtain ⟨m, f, c⟩ := p
  obtain ⟨hm, R, hR, id, e, he, hc⟩ := mem_listing.mp hp
  obtain ⟨ha, c', hc', hid⟩ := h.shown hm hR he
  rw [hc, Option.some.injEq] at hc'
  subst hc' hid
  obtain ⟨R', hR', hmach, hman⟩ := h.after hxs hdel hR
  obtain ⟨hnot, hin⟩ := hman f c.contract.contractId
  have hnames : s'.tickets.names = s.tickets.names := by rw [hdel.tickets]
  constructor
  · intro hcs
    have hag : Replica.AgreeOn (· = contractKey f c.contract.contractId) R R' := by
      rintro (_ | _) k rfl
      · exact (hmach _).symm
      · exact (hnot hcs).symm
    exact mem_listing.mpr ⟨hnames ▸ hm, R', hR', _, e, (hag.value rfl) ▸ he, hc⟩
  · intro hcs
    obtain ⟨j, q, hq, hqid, hget, hmax⟩ := hin hcs
    obtain ⟨hiff, hself⟩ := value_of_tombstone (hmach _) hget rfl he ha
    have hk : e.key = contractKey f c.contract.contractId := Replica.key_of_value he
    have hge : R.get .machine (contractKey f c.contract.contractId) = some e :=
      Replica.get_eq_some.mpr
        ⟨(Replica.shownAt_eq_some.mp (Replica.value_eq_some.mp he).1).1, ha, hk⟩
    have hlisted : (m, f, c) ∉ listing Z s' ↔
        R'.value Z.ranking (contractKey f c.contract.contractId) = none := by
      constructor
      · intro hnl
        rcases hv : R'.value Z.ranking (contractKey f c.contract.contractId) with _ | y
        · rfl
        · obtain rfl := hself y hv
          exact absurd (mem_listing.mpr ⟨hnames ▸ hm, R', hR', _, y, hv, hc⟩) hnl
      · intro hnone hl
        obtain ⟨hm', R₁, hR₁, id, y, hy, hyc⟩ := mem_listing.mp hl
        obtain rfl := Option.some.inj (hR₁.symm.trans hR')
        obtain ⟨-, c', hc', hid⟩ := (h.deletes hxs hdel hopen).shown hm' hR' hy
        rw [hyc, Option.some.injEq] at hc'
        subst hc' hid
        rw [hnone] at hy
        cases hy
    rw [hlisted, hiff]
    constructor
    · intro hle
      refine ⟨j, q, hq, hqid, fun R₁ e₁ hR₁ he₁ => ?_⟩
      obtain rfl := Option.some.inj (hR₁.symm.trans hR)
      obtain rfl := Option.some.inj (he₁.symm.trans hge)
      rwa [hk]
    · rintro ⟨i, q', hq', hqid', hle⟩
      refine (hk ▸ hle R e hR hge).trans (Replica.age_le_iff.mpr ?_)
      rcases (hmax i q' hq' hqid').lt_or_eq with hlt | heq
      · exact Or.inl hlt
      · exact Or.inr ⟨heq, le_rfl⟩

/-- No contract is listed after the removals that was not before. -/
theorem Written.mem_listing_of (h : Written Z s)
    (hxs : List.Forall₂ (Addresses Z.serde s) (removalOrder Z cs) xs) (hdel : Deletes Z s xs s')
    (hopen : ∀ m ∈ s.tickets.names, ∃ R, replicaOf Z.serde s m = some R)
    (hcs : ∀ p ∈ cs, p ∈ listing Z s) {p : Payment} (hp : p ∈ listing Z s') : p ∈ listing Z s := by
  obtain ⟨m, f, c⟩ := p
  obtain ⟨hm, R', hR', id, y, hy, hc⟩ := mem_listing.mp hp
  have hnames : s'.tickets.names = s.tickets.names := by rw [hdel.tickets]
  obtain ⟨R, hR⟩ := hopen m (hnames ▸ hm)
  obtain ⟨R₁, hR₁, hmach, hman⟩ := h.after hxs hdel hR
  obtain rfl := Option.some.inj (hR₁.symm.trans hR')
  by_cases hmem : (m, f, id) ∈ cs.map tripleId
  · -- The contract was asked for, so the entry was shown before.
    obtain ⟨⟨m₀, f₀, c₀⟩, hq, hqid⟩ := List.mem_map.mp hmem
    simp only [tripleId, Prod.mk.injEq] at hqid
    obtain ⟨rfl, rfl, rfl⟩ := hqid
    obtain ⟨-, R₂, hR₂, id₂, e, he, hec⟩ := mem_listing.mp (hcs _ hq)
    obtain rfl := Option.some.inj (hR₂.symm.trans hR)
    obtain ⟨ha, c', hc', hid⟩ := h.shown (hnames ▸ hm) hR he
    rw [hec, Option.some.injEq] at hc'
    subst hc' hid
    obtain ⟨j, q, -, -, hget, -⟩ := (hman f₀ _).2 hmem
    obtain ⟨-, hself⟩ := value_of_tombstone (hmach _) hget rfl he ha
    exact mem_listing.mpr ⟨hnames ▸ hm, R₂, hR, _, e, he, (hself y hy) ▸ hc⟩
  · have hag : Replica.AgreeOn (· = contractKey f id) R R₁ := by
      rintro (_ | _) k rfl
      · exact (hmach _).symm
      · exact ((hman f id).1 hmem).symm
    exact mem_listing.mpr ⟨hnames ▸ hm, R, hR, id, y, (hag.value rfl).symm ▸ hy, hc⟩

end Removal

/-- **When a removal is exact**: it removes the contracts that were asked for and no others exactly if
the record of the machine of each of these is older than one of the manager's removals of it. -/
theorem removal_exact_iff (h : Written Z s) {l cs : List Payment}
    (hl : Returns (world Z .manager) () (getClaimableContracts Z.serde).run s (.ok l))
    (hcs : ∀ p ∈ cs, p ∈ l)
    (hrun : Runs (world Z .manager) () Alone (removeClaimableContracts Z.serde cs).run s
      (.returned (.ok ())) s') :
    ((∃ r, Returns (world Z .manager) () (getClaimableContracts Z.serde).run s' r) ∧
      ∀ r, Returns (world Z .manager) () (getClaimableContracts Z.serde).run s' r →
        ∃ l', r = .ok l' ∧ l'.Perm (l.filter fun p => tripleId p ∉ cs.map tripleId)) ↔
      Beaten Z s cs := by
  obtain ⟨hread, -, -, hperm⟩ := ensures_getClaimableContracts.of_returns_ok hl
  obtain ⟨xs, hxs, hdel⟩ := hrun.ensures (ensures_removeClaimableContracts cs) rfl
  have hopen : ∀ m ∈ s.tickets.names, ∃ R, replicaOf Z.serde s m = some R := fun m hm => by
    obtain ⟨R, hR, -⟩ := hread m hm
    exact ⟨R, hR⟩
  have hcs' : ∀ p ∈ cs, p ∈ listing Z s := fun p hp => hperm.mem_iff.mp (hcs p hp)
  have hw' : Written Z s' := h.deletes hxs hdel hopen
  have hread' : AllRead Z s' := by
    intro m hm
    obtain ⟨R, hR⟩ := hopen m (hdel.tickets ▸ hm)
    obtain ⟨R', hR', -⟩ := h.after hxs hdel hR
    refine ⟨R', hR', readsAll_iff.mpr fun f id e he => ?_⟩
    obtain ⟨-, c, hc, -⟩ := hw'.shown hm hR' he
    exact ⟨c, hc⟩
  have hget := @ensures_getClaimableContracts Z .manager s'
  obtain ⟨l₀, hl₀⟩ := hget.exists_returns hread'
  constructor
  · rintro ⟨-, hexact⟩ p hp
    obtain ⟨l', hl', hperm'⟩ := hexact _ hl₀
    obtain rfl := Except.ok.inj hl'
    obtain ⟨-, -, -, hlist⟩ := hget.of_returns_ok hl₀
    have hmem : tripleId p ∈ cs.map tripleId := List.mem_map_of_mem hp
    refine ((h.mem_listing_iff hxs hdel hopen (hcs' p hp)).2 hmem).mp fun hp' => ?_
    have := (List.mem_filter.mp (hperm'.mem_iff.mp (hlist.mem_iff.mpr hp'))).2
    simp only [decide_eq_true_eq] at this
    exact this hmem
  · intro hbeaten
    refine ⟨⟨_, hl₀⟩, fun r hr => ?_⟩
    obtain ⟨l', -, rfl, -, hlist⟩ := hget.ok_of_returns hr hread'
    have hn : (listing Z s).Nodup := List.Nodup.of_map _ (nodup_listing h.consistent)
    have hn' : (listing Z s').Nodup := List.Nodup.of_map _ (nodup_listing hw'.consistent)
    refine ⟨l', rfl, hlist.trans ?_⟩
    refine ((List.perm_ext_iff_of_nodup hn' (hn.filter _)).mpr fun p => ?_).trans (hperm.symm.filter _)
    rw [List.mem_filter, decide_eq_true_eq]
    constructor
    · intro hp'
      have hp := h.mem_listing_of hxs hdel hopen hcs' hp'
      refine ⟨hp, fun hmem => ?_⟩
      obtain ⟨q, hq, hid⟩ := List.mem_map.mp hmem
      obtain ⟨j, q', hj, hjid, hle⟩ := hbeaten q hq
      refine ((h.mem_listing_iff hxs hdel hopen hp).2 hmem).mpr ⟨j, q', hj, hjid.trans hid, ?_⟩ hp'
      obtain ⟨m, f, c⟩ := p
      obtain ⟨m', f', c'⟩ := q
      simp only [tripleId, Prod.mk.injEq] at hid
      obtain ⟨rfl, rfl, hid⟩ := hid
      intro R e hR he
      refine hle R e hR ?_
      rw [createKey_eq] at he ⊢
      rwa [hid]
    · rintro ⟨hp, hmem⟩
      exact (h.mem_listing_iff hxs hdel hopen hp).1 hmem

/-! ### Removals that miss -/

/-- The entry of a contract where it belongs was written by a machine. -/
theorem Misplaced.written (n : ℕ) (b : UInt8) (time : ℕ) :
    Written (.counting n) (device (entry b b time)) := by
  refine ⟨fun m hm R hR e he _ => ?_, fun m m' t t' ht ht' _ => ?_⟩
  · rw [List.mem_singleton.mp hm] at hR
    obtain rfl := Option.some.inj ((replicaOf_single ..).symm.trans hR)
    rw [mem_replica.mp he]
    exact Or.inl ⟨rfl, federation, contract b, rfl, rfl⟩
  · have hm : ∀ {m t}, (Access.manager m).ticket Serde.framed (device (entry b b time)) = some t →
        m = machineId := by
      intro m t h
      by_contra hne
      simp [Access.ticket, device, Device.single, Tickets.single, hne] at h
    rw [hm ht, hm ht']

/-- **What is listed cannot always be removed**: the removal of a contract under the key of another
addresses another entry. -/
theorem listing_not_removable : ¬ ∀ (Z : Setting) (s : Device) (l : List Payment),
    Returns (world Z .manager) () (getClaimableContracts Z.serde).run s (.ok l) → Removable Z s l := by
  intro h
  obtain ⟨l, hl, hmem⟩ := Misplaced.lists_device 1 4 5 0
  obtain ⟨t, R, e, -, hR, he, -, hk, -⟩ := (h _ _ l hl).addressed _ _ _ hmem
  obtain ⟨-, rfl⟩ := Device.eq_of_single_docs hR
  rw [Misplaced.eq_of_value he] at hk
  exact absurd hk (by decide)

/-- A contract where it belongs is listed and can be removed. -/
theorem listing_removable_one : ∃ l,
    Returns (world (.counting 1) .manager) () (getClaimableContracts Serde.framed).run
      (Misplaced.device (Misplaced.entry 5 5 0)) (.ok l) ∧
    Removable (.counting 1) (Misplaced.device (Misplaced.entry 5 5 0)) l := by
  obtain ⟨l, hl, -⟩ := Misplaced.lists_device 1 5 5 0
  exact ⟨l, hl, (listing_removable_iff hl).mpr (Misplaced.written 1 5 0).consistent⟩

namespace Misplaced

/-- The document in which the machine's record of time 3 meets a removal of time `n`. -/
def met (n : ℕ) : Replica AuthorId :=
  ⟨[⟨.manager, (entry 5 5 3).key, n, []⟩, entry 5 5 3], by
    simp [Entry.slot, entry]⟩

theorem put_met (n : ℕ) :
    (replica (entry 5 5 3)).put ⟨.manager, (entry 5 5 3).key, n, []⟩ = some (met n) := by
  have href : ¬ (replica (entry 5 5 3)).Refuses ⟨.manager, (entry 5 5 3).key, n, []⟩ := by
    rintro ⟨o, ho, ha, -⟩
    rw [mem_replica.mp ho] at ha
    cases ha
  rw [Replica.put, dif_neg href]
  rfl

/-- A removal that is stamped earlier than the record does not hide it. -/
theorem lists_met : Lists (.counting 1)
    (Device.set { device (entry 5 5 3) with writes := 1 } docId (met 1)) (payment 5) := by
  have hR : replicaOf Serde.framed (Device.set { device (entry 5 5 3) with writes := 1 } docId (met 1))
      machineId = some (met 1) := replicaOf_set_single ..
  have hmem : ∀ {e}, e ∈ (met 1).entries → e.content ≠ [] → e = entry 5 5 3 := by
    intro e he hne
    rcases List.mem_cons.mp he with rfl | he
    · exact absurd rfl hne
    · exact List.mem_singleton.mp he
  have hdec : Serde.framed.contract.dec (entry 5 5 3).content = some (contract 5) :=
    Serde.framed.contract.decode_encode _
  have hval : (met 1).value (Setting.counting 1).ranking (entry 5 5 3).key = some (entry 5 5 3) := by
    refine Replica.value_eq_some.mpr ⟨Replica.shownAt_eq_some.mpr
      ⟨List.mem_cons_of_mem _ (List.mem_singleton.mpr rfl), rfl, fun o ho _ => ?_⟩,
      Codec.frame_ne_nil _⟩
    rcases List.mem_cons.mp ho with rfl | ho
    · exact Replica.age_le_iff.mpr (by decide)
    · rw [List.mem_singleton.mp ho]
  refine lists_iff.mpr ⟨fun m hm => ?_,
    mem_listing.mpr ⟨List.mem_singleton.mpr rfl, _, hR, _, _, hval, hdec⟩⟩
  rw [List.mem_singleton.mp hm]
  refine ⟨_, hR, readsAll_iff.mpr fun f id e he => ⟨contract 5, ?_⟩⟩
  obtain ⟨hshown, hne⟩ := Replica.value_eq_some.mp he
  rw [hmem (Replica.shownAt_eq_some.mp hshown).1 hne]
  exact hdec

end Misplaced

/-- **A removal may miss**: with a clock behind that of the machine it changes nothing. -/
theorem removal_not_exact : ¬ ∀ (Z : Setting) (s s' : Device) (l cs : List Payment), Written Z s →
    Returns (world Z .manager) () (getClaimableContracts Z.serde).run s (.ok l) →
    (∀ p ∈ cs, p ∈ l) →
    Runs (world Z .manager) () Alone (removeClaimableContracts Z.serde cs).run s
      (.returned (.ok ())) s' →
    ∀ r, Returns (world Z .manager) () (getClaimableContracts Z.serde).run s' r →
      ∃ l', r = .ok l' ∧ l'.Perm (l.filter fun p => tripleId p ∉ cs.map tripleId) := by
  intro h
  obtain ⟨l, hl, hmem⟩ := Misplaced.lists_device 1 5 5 3
  obtain ⟨l', hl', hmem'⟩ := Misplaced.lists_met
  obtain ⟨l₁, hl₁, hperm⟩ := h (.counting 1) _ _ l [Misplaced.payment 5] (Misplaced.written 1 5 3) hl
    (fun p hp => List.mem_singleton.mp hp ▸ hmem) (runs_removal (Misplaced.put_met 1)) _ hl'
  obtain rfl := Except.ok.inj hl₁
  have := (List.mem_filter.mp (hperm.mem_iff.mp hmem')).2
  simp at this

/-- With a clock ahead of that of the machine the contract is removed, and nothing else. -/
theorem removal_exact_one : ∃ (l : List Payment) (s' : Device),
    Returns (world (.counting 4) .manager) () (getClaimableContracts Serde.framed).run
      (Misplaced.device (Misplaced.entry 5 5 3)) (.ok l) ∧
    Runs (world (.counting 4) .manager) () Alone
      (removeClaimableContracts Serde.framed [Misplaced.payment 5]).run
      (Misplaced.device (Misplaced.entry 5 5 3)) (.returned (.ok ())) s' ∧
    ∀ r, Returns (world (.counting 4) .manager) () (getClaimableContracts Serde.framed).run s' r →
      ∃ l', r = .ok l' ∧ l'.Perm
        (l.filter fun p => tripleId p ∉ [Misplaced.payment 5].map tripleId) := by
  obtain ⟨l, hl, hmem⟩ := Misplaced.lists_device 4 5 5 3
  have hrun := runs_removal (m := Misplaced.machineId) (d := Misplaced.docId) (Misplaced.put_met 4)
  refine ⟨l, _, hl, hrun, ((removal_exact_iff (Misplaced.written 4 5 3) hl
    (fun p hp => List.mem_singleton.mp hp ▸ hmem) hrun).mpr ?_).2⟩
  intro p hp
  rw [List.mem_singleton] at hp
  subst hp
  refine ⟨0, Misplaced.payment 5, rfl, rfl, fun R e hR he => ?_⟩
  obtain rfl := Option.some.inj ((replicaOf_single ..).symm.trans hR)
  have hmem := (Replica.get_eq_some.mp he).1
  rw [Misplaced.mem_replica.mp hmem]
  exact Replica.age_le_iff.mpr (by decide)

end Vendimint.Document
