import Vendimint.Document.Contracts

/-! # The three kinds of data in a machine's document

A document holds the entries of the key/value store, the configuration and the contracts. A `Step` of
a kind is a run of one of the functions that write entries of this kind, to whatever end, or the
arrival of such an entry from the other device.

* `kinds_apart`: any sequence of steps leaves what is read of the other kinds; and of the contracts
  other than those that it writes or removes, provided that the entries shown under the keys of these
  held these contracts.
* `contracts_not_apart`: a contract whose value lies under the key of another contract is lost with
  that one. -/

namespace Vendimint.Document

open Vendimint.Store Vendimint.Async Vendimint.ManagerProtocol Vendimint.SharedProtocol

/-! ### Kinds -/

/-- The kinds of data, with the contracts that a step is about. -/
inductive Kind
  | kv
  | config
  | contracts (ids : List (FederationId × ContractId))

/-- The entries of a kind. That of a contract holds the contract, or nothing if it was removed. -/
def Kind.Holds (J : Serde) : Kind → Entry AuthorId → Prop
  | kv, e => KV_PREFIX <+: e.key
  | config, e => e.key = MACHINE_CONFIG_KEY
  | contracts ids, e => ∃ x ∈ ids, e.key = contractKey x.1 x.2 ∧
      (e.content = [] ∨ ∃ c, e.content = J.contract.enc c ∧ c.contract.contractId = x.2)

/-- The federation and the identity of a contract. -/
def idOf (p : Payment) : FederationId × ContractId := (p.2.1, p.2.2.contract.contractId)

/-- The functions that write to a document, on the device where they run. -/
inductive Update (J : Serde) : AuthorId → Kind → Fut (Except Error Unit) → Prop
  | setKv (x : Access) (key value : Bytes) : Update J x.author .kv (x.setKvValue J key value).run
  | setConfig (m : EndpointId) (cfg : MachineConfig) :
      Update J .manager .config (setMachineConfig J m cfg).run
  | payment (f : FederationId) (c : ClaimableContract) :
      Update J .machine (.contracts [(f, c.contract.contractId)])
        (MachineProtocol.writePaymentToMachineDoc J f c).run
  | removal (cs : List Payment) :
      Update J .manager (.contracts (cs.map idOf)) (removeClaimableContracts J cs).run

/-- One step on the device of `self`. -/
inductive Step (Z : Setting) (self : AuthorId) : Kind → Device → Device → Prop
  | update {kind : Kind} {p : Fut (Except Error Unit)} {s s' : Device}
      {o : Outcome (Except Error Unit)} :
      Update Z.serde self kind p → Runs (world Z self) () Alone p s o s' → Step Z self kind s s'
  | arrive {kind : Kind} {s : Device} {d : NamespaceId} {R : Replica AuthorId} {e : Entry AuthorId} :
      kind.Holds Z.serde e → s.docs d = some R → Step Z self kind s (s.set d (R.receive e))

/-- Any number of steps of the kinds in `C`. -/
abbrev Steps (Z : Setting) (self : AuthorId) (C : Kind → Prop) :=
  Relation.ReflTransGen fun s s' => ∃ kind, C kind ∧ Step Z self kind s s'

/-! ### What the functions write -/

variable {Z : Setting} {self : AuthorId} {s s' : Device} {C : Kind → Prop}

theorem uses_setKvValue (J : Serde) (x : Access) (key value : Bytes) :
    (x.setKvValue J key value).run.Uses (Writes (Kind.kv.Holds J)) := by
  rw [Access.setKvValue_eq]
  refine Prog.Uses.andThen ((uses_openDoc J x).mono fun _ => Plain.writes) fun d => ?_
  rw [Fallible.run_bind]
  refine Prog.Uses.andThen ⟨trivial, fun _ => trivial⟩ fun a => ?_
  exact ⟨fun t => List.prefix_append _ _, fun _ => trivial⟩

theorem uses_setMachineConfig (J : Serde) (m : EndpointId) (cfg : MachineConfig) :
    (setMachineConfig J m cfg).run.Uses (Writes (Kind.config.Holds J)) := by
  rw [setMachineConfig, Fallible.run_bind]
  refine Prog.Uses.andThen (uses_getMachine m trivial) fun t => ?_
  rw [Fallible.run_bind]
  refine Prog.Uses.andThen (uses_openMachineDoc t trivial) fun d => ?_
  rw [Fallible.run_bind]
  refine Prog.Uses.andThen ⟨trivial, fun _ => trivial⟩ fun a => ?_
  exact ⟨fun t => rfl, fun _ => trivial⟩

theorem uses_writePayment (J : Serde) (f : FederationId) (c : ClaimableContract) :
    (MachineProtocol.writePaymentToMachineDoc J f c).run.Uses
      (Writes ((Kind.contracts [(f, c.contract.contractId)]).Holds J)) := by
  rw [MachineProtocol.writePaymentToMachineDoc, Fallible.run_bind]
  refine Prog.Uses.andThen ((uses_openDoc J .machine).mono fun _ => Plain.writes) fun d => ?_
  rw [Fallible.run_bind]
  refine Prog.Uses.andThen ⟨trivial, fun _ => trivial⟩ fun a => ?_
  exact ⟨fun t => ⟨_, List.mem_singleton.mpr rfl, createKey_eq f c, Or.inr ⟨c, rfl, rfl⟩⟩,
    fun _ => trivial⟩

theorem uses_deleteFrom (J : Serde) (ids : List (FederationId × ContractId)) (d : NamespaceId)
    (a : AuthorId) : ∀ l : List (FederationId × ClaimableContract),
      (∀ x ∈ l, (x.1, x.2.contract.contractId) ∈ ids) →
        (deleteFrom d a l).run.Uses (Writes ((Kind.contracts ids).Holds J))
  | [], _ => trivial
  | (f, c) :: l, h => by
    rw [deleteFrom, Fallible.run_bind]
    refine Prog.Uses.andThen ⟨fun t => ?_, fun _ => trivial⟩ fun _ =>
      uses_deleteFrom J ids d a l fun x hx => h x (List.mem_cons_of_mem _ hx)
    exact ⟨_, h _ (List.mem_cons_self ..), createKey_eq f c, Or.inl rfl⟩

theorem uses_deleteFromMachines (J : Serde) (a : AuthorId) (cs : List Payment) :
    ∀ ms : List EndpointId, (deleteFromMachines J a cs ms).run.Uses
      (Writes ((Kind.contracts (cs.map idOf)).Holds J))
  | [] => trivial
  | m :: ms => by
    rw [deleteFromMachines, Fallible.run_bind]
    refine Prog.Uses.andThen (uses_getMachine m trivial) fun t => ?_
    rw [Fallible.run_bind]
    refine Prog.Uses.andThen (uses_openMachineDoc t trivial) fun d => ?_
    rw [Fallible.run_bind]
    refine Prog.Uses.andThen (uses_deleteFrom J _ d a _ fun x hx => ?_) fun _ =>
      uses_deleteFromMachines J a cs ms
    exact List.mem_map.mpr ⟨_, mem_contractsOf.mp hx, rfl⟩

theorem uses_removeClaimableContracts (J : Serde) (cs : List Payment) :
    (removeClaimableContracts J cs).run.Uses (Writes ((Kind.contracts (cs.map idOf)).Holds J)) := by
  rw [removeClaimableContracts, Fallible.run_bind]
  refine Prog.Uses.andThen ⟨trivial, fun _ => trivial⟩ fun a => ?_
  rw [Fallible.run_bind]
  exact Prog.Uses.andThen ⟨trivial, fun _ => trivial⟩ fun ms => uses_deleteFromMachines J a cs ms

theorem Update.uses {J : Serde} {kind : Kind} {p : Fut (Except Error Unit)}
    (h : Update J self kind p) : p.Uses (Writes (kind.Holds J)) := by
  cases h with
  | setKv x key value => exact uses_setKvValue J x key value
  | setConfig m cfg => exact uses_setMachineConfig J m cfg
  | payment f c => exact uses_writePayment J f c
  | removal cs => exact uses_removeClaimableContracts J cs

/-- **A step brings entries of its kind only.** -/
theorem Step.moves {kind : Kind} (h : Step Z self kind s s') : s.Moves (kind.Holds Z.serde) s' := by
  cases h with
  | update hp hr => exact moves_of_writes hp.uses hr
  | arrive he hR => exact Device.moves_set hR (Replica.receives_receive he)

theorem Device.Moves.mono {H H' : Entry AuthorId → Prop} (h : s.Moves H s')
    (hH : ∀ e, H e → H' e) : s.Moves H' s' := by
  refine ⟨h.1, h.2.1, fun d => ?_⟩
  have hd := h.2.2 d
  generalize s.docs d = x, s'.docs d = y at hd
  cases hd with
  | none => exact .none
  | some h => exact .some (h.mono hH)

theorem Steps.moves (h : Steps Z self C s s') :
    s.Moves (fun e => ∃ kind, C kind ∧ kind.Holds Z.serde e) s' := by
  induction h with
  | refl => exact .refl _ s
  | tail _ hstep ih =>
    obtain ⟨kind, hC, hstep⟩ := hstep
    exact ih.trans (hstep.moves.mono fun e he => ⟨kind, hC, he⟩)

/-! ### What the functions read -/

theorem uses_getKvValue (J : Serde) (x : Access) (key : Bytes) :
    (x.getKvValue J key).run.Uses (Reads (KV_PREFIX <+: ·)) := by
  rw [Access.getKvValue_eq]
  refine Prog.Uses.andThen ((uses_openDoc J x).mono fun _ => Plain.reads) fun d => ?_
  rw [Fallible.run_bind]
  refine Prog.Uses.andThen ⟨List.prefix_append _ _, fun _ => trivial⟩ fun e => ?_
  cases e with
  | none => trivial
  | some e =>
    rw [Fallible.run_bind]
    exact (uses_fromIrohEntry e x.device trivial trivial).andThen fun _ => trivial

theorem uses_getKvEntries (J : Serde) (x : Access) :
    (x.getKvEntries J).run.Uses (Reads (KV_PREFIX <+: ·)) := by
  rw [Access.getKvEntries_eq]
  refine Prog.Uses.andThen ((uses_openDoc J x).mono fun _ => Plain.reads) fun d => ?_
  rw [Fallible.run_bind]
  refine Prog.Uses.andThen ⟨fun _ h => h, fun _ => trivial⟩ fun l => ?_
  exact uses_kvEntriesOf x.device (fun _ => trivial) trivial l []

theorem uses_getMachineConfig (J : Serde) (x : Access) :
    (x.getMachineConfig J).run.Uses (Reads (MACHINE_CONFIG_KEY <+: ·)) := by
  rw [Access.getMachineConfig_eq]
  refine Prog.Uses.andThen ((uses_openDoc J x).mono fun _ => Plain.reads) fun d => ?_
  rw [Fallible.run_bind]
  refine Prog.Uses.andThen ⟨List.prefix_rfl, fun _ => trivial⟩ fun e => ?_
  cases e with
  | none => trivial
  | some e =>
    simp only [Fallible.run_bind]
    refine Prog.Uses.andThen ⟨trivial, fun _ => trivial⟩ fun b => ?_
    exact (uses_fromSlice _).andThen fun _ => trivial

theorem uses_paymentsOfMachines (J : Serde) : ∀ (l : List (EndpointId × DocTicket))
    (acc : List Payment), (paymentsOfMachines J l acc).run.Uses (Reads (CLAIMABLE_CONTRACT_PREFIX <+: ·))
  | [], _ => trivial
  | (m, t) :: l, acc => by
    rw [paymentsOfMachines, Fallible.run_bind]
    refine Prog.Uses.andThen (uses_openMachineDoc t trivial) fun d => ?_
    rw [Fallible.run_bind]
    refine Prog.Uses.andThen ⟨fun _ h => h, fun _ => trivial⟩ fun es => ?_
    rw [Fallible.run_bind]
    refine Prog.Uses.andThen (uses_paymentsOf m (fun _ => trivial) es acc) fun acc => ?_
    exact uses_paymentsOfMachines J l acc

theorem uses_getClaimableContracts (J : Serde) :
    (getClaimableContracts J).run.Uses (Reads (CLAIMABLE_CONTRACT_PREFIX <+: ·)) := by
  rw [getClaimableContracts, Fallible.run_bind]
  refine Prog.Uses.andThen ?_ fun l => uses_paymentsOfMachines J l []
  rw [listMachines, Fallible.run_bind]
  exact Prog.Uses.andThen ⟨trivial, fun _ => trivial⟩ fun l =>
    uses_machinesOf (fun _ => trivial) (fun _ => trivial) l []

/-! ### Keys of different kinds -/

/-- What all keys of a kind start with. -/
def Kind.tag : Kind → Bytes
  | kv => KV_PREFIX
  | config => MACHINE_CONFIG_KEY
  | contracts _ => CLAIMABLE_CONTRACT_PREFIX

theorem Kind.tag_prefix {J : Serde} {kind : Kind} {e : Entry AuthorId} (h : kind.Holds J e) :
    kind.tag <+: e.key := by
  cases kind with
  | kv => exact h
  | config => rw [show e.key = MACHINE_CONFIG_KEY from h]; exact List.prefix_rfl
  | contracts ids =>
    obtain ⟨x, -, hk, -⟩ := h
    rw [hk]
    exact prefix_contractKey x.1 x.2

theorem Kind.length_tag (kind : Kind) : kind.tag.length = 2 := by cases kind <;> rfl

/-- No key of a kind starts with a key of a kind with another tag. -/
theorem Kind.not_prefix {J : Serde} {kind : Kind} {e : Entry AuthorId} {tag k : Bytes}
    (h : kind.Holds J e) (hlen : tag.length = 2) (hk : tag <+: k) (hne : kind.tag ≠ tag) :
    ¬ e.key <+: k := by
  intro hpre
  have h1 : kind.tag <+: k := (Kind.tag_prefix h).trans hpre
  have h2 : kind.tag <+: tag :=
    List.prefix_of_prefix_length_le h1 hk (by rw [Kind.length_tag, hlen])
  exact hne (h2.eq_of_length (by rw [Kind.length_tag, hlen]))

/-- The key of a contract starts with that of a step's entry only if the step is about it. -/
theorem Kind.eq_of_prefix_contractKey {J : Serde} {kind : Kind} {e : Entry AuthorId}
    {f : FederationId} {id : ContractId} (h : kind.Holds J e) (hk : e.key <+: contractKey f id) :
    ∃ ids, kind = .contracts ids ∧ (f, id) ∈ ids ∧ e.key = contractKey f id ∧
      (e.content = [] ∨ ∃ c, e.content = J.contract.enc c ∧ c.contract.contractId = id) := by
  cases kind with
  | kv => exact absurd hk (Kind.not_prefix h rfl (prefix_contractKey f id) (by decide))
  | config => exact absurd hk (Kind.not_prefix h rfl (prefix_contractKey f id) (by decide))
  | contracts ids =>
    obtain ⟨⟨f', id'⟩, hx, hkey, hc⟩ := h
    rw [hkey] at hk
    have heq := SharedProtocol.eq_of_prefix_contractKey hk (length_contractKey f id)
    obtain ⟨rfl, rfl⟩ := contractKey_inj heq
    exact ⟨ids, rfl, hx, hkey, hc⟩

/-! ### The kinds are apart -/

/-- Reading entries with another tag. -/
theorem Steps.returns_congr {β : Type} {p : Fut β} {tag : Bytes} (h : Steps Z self C s s')
    (hp : p.Uses (Reads (tag <+: ·))) (hlen : tag.length = 2)
    (hC : ∀ kind, C kind → kind.tag ≠ tag) (r : β) :
    Returns (world Z self) () p s' r ↔ Returns (world Z self) () p s r := by
  refine (returns_congr_of_agree hp (h.moves.agreeOn ?_) r).symm
  rintro e ⟨kind, hkind, he⟩ k hk
  exact Kind.not_prefix he hlen hk (hC kind hkind)

/-- The entries shown under the key of the contract hold it. -/
def Proper (Z : Setting) (s : Device) (f : FederationId) (id : ContractId) : Prop :=
  ∀ d R e, s.docs d = some R → R.value Z.ranking (contractKey f id) = some e →
    ∃ c, Z.serde.contract.dec e.content = some c ∧ c.contract.contractId = id

theorem Steps.proper {f : FederationId} {id : ContractId} (h : Steps Z self C s s')
    (hs : Proper Z s f id) : Proper Z s' f id := by
  intro d R' e hR' he
  have hd := h.moves.2.2 d
  rw [hR'] at hd
  generalize hx : s.docs d = x at hd
  cases hd with
  | @some R _ hrec =>
    obtain ⟨hshown, hne⟩ := Replica.value_eq_some.mp he
    have hG := hrec.shownAt (K := Z.ranking) (k := contractKey f id)
      (G := fun e => e.content ≠ [] → ∃ c, Z.serde.contract.dec e.content = some c ∧
        c.contract.contractId = id) ?_ ?_ ?_ e hshown
    · exact hG hne
    · rintro o ⟨kind, -, ho⟩ hpre
      obtain ⟨-, -, -, hk, -⟩ := Kind.eq_of_prefix_contractKey ho hpre
      exact hk
    · rintro o ⟨kind, -, ho⟩ hk hne'
      have hpre : o.key <+: contractKey f id := hk.symm ▸ List.prefix_rfl
      obtain ⟨-, -, -, -, hc⟩ := Kind.eq_of_prefix_contractKey ho hpre
      obtain ⟨c, hc, hid⟩ := hc.resolve_left hne'
      exact ⟨c, by rw [hc, Z.serde.contract.decode_encode], hid⟩
    · intro o ho hne'
      exact hs d R o hx (Replica.value_eq_some.mpr ⟨ho, hne'⟩)

/-- The value under the key of a contract that the steps are not about stays. -/
theorem Steps.value_eq {f : FederationId} {id : ContractId} (h : Steps Z self C s s')
    (hC : ∀ ids, C (.contracts ids) → (f, id) ∉ ids) {d : NamespaceId} {R R' : Replica AuthorId}
    (hR : s.docs d = some R) (hR' : s'.docs d = some R') :
    R'.value Z.ranking (contractKey f id) = R.value Z.ranking (contractKey f id) := by
  have hag : s.AgreeOn (· = contractKey f id) s' := by
    refine h.moves.agreeOn ?_
    rintro e ⟨kind, hkind, he⟩ k rfl hpre
    obtain ⟨ids, rfl, hx, -⟩ := Kind.eq_of_prefix_contractKey he hpre
    exact hC ids hkind hx
  have hd := hag.2.2 d
  rw [hR, hR'] at hd
  cases hd with
  | some hd => exact (hd.value rfl).symm

/-- The replicas of a manager before and after some steps. -/
theorem Steps.replicaOf (h : Steps Z self C s s') (m : EndpointId) :
    (∀ R, replicaOf Z.serde s m = some R → ∃ d R', s.docs d = some R ∧ s'.docs d = some R' ∧
      Document.replicaOf Z.serde s' m = some R') ∧
    ∀ R', Document.replicaOf Z.serde s' m = some R' → ∃ d R, s.docs d = some R ∧
      s'.docs d = some R' ∧ Document.replicaOf Z.serde s m = some R := by
  have ht : (Access.manager m).ticket Z.serde s' = (Access.manager m).ticket Z.serde s := by
    rw [Access.ticket, Access.ticket, h.moves.2.1]
  unfold Document.replicaOf
  rw [ht]
  rcases (Access.manager m).ticket Z.serde s with _ | t
  · constructor
    · intro R hR
      cases hR
    · intro R' hR'
      cases hR'
  · simp only [Option.bind_some]
    have hd := h.moves.2.2 t.capability.id
    constructor
    · intro R hR
      rw [hR] at hd
      rcases hy : s'.docs t.capability.id with _ | R'
      · rw [hy] at hd
        cases hd
      · exact ⟨_, R', hR, hy, rfl⟩
    · intro R' hR'
      rw [hR'] at hd
      rcases hx : s.docs t.capability.id with _ | R
      · rw [hx] at hd
        cases hd
      · exact ⟨_, R, hx, hR', rfl⟩

/-- Under each key of a contract there is after some steps what there was, or the contract. -/
theorem Steps.readsAll (h : Steps Z self C s s')
    (hproper : ∀ ids, C (.contracts ids) → ∀ x ∈ ids, Proper Z s x.1 x.2) {d : NamespaceId}
    {R R' : Replica AuthorId} (hR : s.docs d = some R) (hR' : s'.docs d = some R') :
    ReadsAll Z R' ↔ ReadsAll Z R := by
  have hkey : ∀ f id, Proper Z s f id ∧ Proper Z s' f id ∨
      R'.value Z.ranking (contractKey f id) = R.value Z.ranking (contractKey f id) := by
    intro f id
    by_cases hx : ∃ ids, C (.contracts ids) ∧ (f, id) ∈ ids
    · obtain ⟨ids, hC, hx⟩ := hx
      have hs := hproper ids hC _ hx
      exact Or.inl ⟨hs, h.proper hs⟩
    · exact Or.inr (h.value_eq (fun ids hC hm => hx ⟨ids, hC, hm⟩) hR hR')
  rw [readsAll_iff, readsAll_iff]
  constructor
  · intro hread f id e he
    rcases hkey f id with ⟨hs, -⟩ | heq
    · obtain ⟨c, hc, -⟩ := hs d R e hR he
      exact ⟨c, hc⟩
    · exact hread f id e (heq ▸ he)
  · intro hread f id e he
    rcases hkey f id with ⟨-, hs⟩ | heq
    · obtain ⟨c, hc, -⟩ := hs d R' e hR' he
      exact ⟨c, hc⟩
    · exact hread f id e (heq ▸ he)

theorem Steps.allRead (h : Steps Z self C s s')
    (hproper : ∀ ids, C (.contracts ids) → ∀ x ∈ ids, Proper Z s x.1 x.2) :
    AllRead Z s' ↔ AllRead Z s := by
  have hnames : s'.tickets.names = s.tickets.names := by rw [h.moves.2.1]
  unfold AllRead
  rw [hnames]
  constructor
  · intro hall m hm
    obtain ⟨R', hR', hread⟩ := hall m hm
    obtain ⟨d, R, hd, hd', hR⟩ := (h.replicaOf m).2 R' hR'
    exact ⟨R, hR, (h.readsAll hproper hd hd').mp hread⟩
  · intro hall m hm
    obtain ⟨R, hR, hread⟩ := hall m hm
    obtain ⟨d, R', hd, hd', hR'⟩ := (h.replicaOf m).1 R hR
    exact ⟨R', hR', (h.readsAll hproper hd hd').mpr hread⟩

/-- **Another contract stays listed, or unlisted.** -/
theorem Steps.lists_iff {m : EndpointId} {f : FederationId} {c : ClaimableContract}
    (h : Steps Z self C s s')
    (hC : ∀ ids, C (.contracts ids) → (f, c.contract.contractId) ∉ ids)
    (hproper : ∀ ids, C (.contracts ids) → ∀ x ∈ ids, Proper Z s x.1 x.2) :
    Lists Z s' (m, f, c) ↔ Lists Z s (m, f, c) := by
  have hnames : s'.tickets.names = s.tickets.names := by rw [h.moves.2.1]
  -- The entry that holds the contract is not under a key that the steps are about.
  have hnot : ∀ t d R id e, Proper Z t f id → t.docs d = some R →
      R.value Z.ranking (contractKey f id) = some e → Z.serde.contract.dec e.content = some c →
        id = c.contract.contractId := by
    intro t d R id e ht hR he hc
    obtain ⟨c', hc', hid⟩ := ht d R e hR he
    rw [hc, Option.some.injEq] at hc'
    exact hc' ▸ hid.symm
  have hkey : ∀ id, (Proper Z s f id ∧ Proper Z s' f id ∧ id ≠ c.contract.contractId) ∨
      ∀ ids, C (.contracts ids) → (f, id) ∉ ids := by
    intro id
    by_cases hx : ∃ ids, C (.contracts ids) ∧ (f, id) ∈ ids
    · obtain ⟨ids, hids, hx⟩ := hx
      have hs := hproper ids hids _ hx
      refine Or.inl ⟨hs, h.proper hs, ?_⟩
      rintro rfl
      exact hC ids hids hx
    · exact Or.inr fun ids hids hm => hx ⟨ids, hids, hm⟩
  rw [Document.lists_iff, Document.lists_iff, h.allRead hproper, mem_listing, mem_listing, hnames]
  refine and_congr_right fun _ => and_congr_right fun _ => ?_
  constructor
  · rintro ⟨R', hR', id, e, he, hc⟩
    obtain ⟨d, R, hd, hd', hR⟩ := (h.replicaOf m).2 R' hR'
    rcases hkey id with ⟨-, hs', hne⟩ | hids
    · exact absurd (hnot s' d R' id e hs' hd' he hc) hne
    · exact ⟨R, hR, id, e, (h.value_eq hids hd hd').symm ▸ he, hc⟩
  · rintro ⟨R, hR, id, e, he, hc⟩
    obtain ⟨d, R', hd, hd', hR'⟩ := (h.replicaOf m).1 R hR
    rcases hkey id with ⟨hs, -, hne⟩ | hids
    · exact absurd (hnot s d R id e hs hd he hc) hne
    · exact ⟨R', hR', id, e, (h.value_eq hids hd hd').symm ▸ he, hc⟩

/-- **The three kinds of data do not disturb each other**: whatever a document contains, steps of
other kinds leave what is read of a kind; and steps about some contracts leave the others, if the
entries that were shown under the keys of those held those. -/
theorem kinds_apart (h : Steps Z self C s s') :
    (¬ C .kv → ∀ x : Access,
      (∀ key r, Returns (world Z self) () (x.getKvValue Z.serde key).run s' r ↔
        Returns (world Z self) () (x.getKvValue Z.serde key).run s r) ∧
      ∀ r, Returns (world Z self) () (x.getKvEntries Z.serde).run s' r ↔
        Returns (world Z self) () (x.getKvEntries Z.serde).run s r) ∧
    (¬ C .config → ∀ (x : Access) r,
      Returns (world Z self) () (x.getMachineConfig Z.serde).run s' r ↔
        Returns (world Z self) () (x.getMachineConfig Z.serde).run s r) ∧
    ((∀ ids, ¬ C (.contracts ids)) → ∀ r,
      Returns (world Z self) () (getClaimableContracts Z.serde).run s' r ↔
        Returns (world Z self) () (getClaimableContracts Z.serde).run s r) ∧
    ((∀ ids, C (.contracts ids) → ∀ x ∈ ids, Proper Z s x.1 x.2) → ∀ m f c,
      (∀ ids, C (.contracts ids) → (f, c.contract.contractId) ∉ ids) →
        (Lists Z s' (m, f, c) ↔ Lists Z s (m, f, c))) := by
  have hother : ∀ kind, C kind → ∀ tag, (∀ kind', kind'.tag = tag → ¬ C kind') → kind.tag ≠ tag :=
    fun kind hkind tag htag hk => htag kind hk hkind
  refine ⟨fun hkv x => ?_, fun hcfg x r => ?_, fun hcon r => ?_, fun hproper m f c hC => ?_⟩
  · have htag : ∀ kind : Kind, kind.tag = KV_PREFIX → ¬ C kind := by
      rintro (_ | _ | ids) hk
      · exact hkv
      · exact absurd hk (by decide)
      · exact absurd hk (by simp [Kind.tag, CLAIMABLE_CONTRACT_PREFIX, KV_PREFIX])
    constructor
    · intro key r
      exact h.returns_congr (uses_getKvValue Z.serde x key) rfl (fun k hk => hother k hk _ htag) r
    · intro r
      exact h.returns_congr (uses_getKvEntries Z.serde x) rfl (fun k hk => hother k hk _ htag) r
  · have htag : ∀ kind : Kind, kind.tag = MACHINE_CONFIG_KEY → ¬ C kind := by
      rintro (_ | _ | ids) hk
      · exact absurd hk (by decide)
      · exact hcfg
      · exact absurd hk (by simp [Kind.tag, CLAIMABLE_CONTRACT_PREFIX, MACHINE_CONFIG_KEY])
    exact h.returns_congr (uses_getMachineConfig Z.serde x) rfl (fun k hk => hother k hk _ htag) r
  · have htag : ∀ kind : Kind, kind.tag = CLAIMABLE_CONTRACT_PREFIX → ¬ C kind := by
      rintro (_ | _ | ids) hk
      · exact absurd hk (by decide)
      · exact absurd hk (by decide)
      · exact hcon ids
    exact h.returns_congr (uses_getClaimableContracts Z.serde) rfl
      (fun k hk => hother k hk _ htag) r
  · exact h.lists_iff hC hproper

/-! ### A contract under the key of another -/

/-- The removal of one contract from the document of one machine. -/
theorem runs_removal {start : ℕ} {m : EndpointId} {d : NamespaceId} {R R' : Replica AuthorId}
    {f : FederationId} {c : ClaimableContract}
    (hput : R.put ⟨.manager, contractKey f c.contract.contractId, start, []⟩ = some R') :
    Runs (world (.counting start) .manager) () Alone
      (removeClaimableContracts Serde.framed [(m, f, c)]).run (.single .framed m d R)
      (.returned (.ok ())) (Device.set { Device.single .framed m d R with writes := 1 } d R') := by
  have hcontracts : contractsOf m [(m, f, c)] = [(f, c)] := by simp [contractsOf]
  simp only [removeClaimableContracts, Fallible.run_bind, run_attempt, call_eq, await_eq, Fallible.run_of,
    Prog.await_bind, Prog.pure_bind, Fallible.andThen_ok]
  refine runs_next .authorDefault (.ok .manager) _ ⟨rfl, rfl⟩ ?_
  refine runs_next (.hashOrder _) [m] _ ⟨rfl, rfl⟩ ?_
  simp only [deleteFromMachines, getMachine, Fallible.run_bind, run_attempt, call_eq,
    Prog.await_bind, Prog.pure_bind]
  refine runs_next (.readFile _) (.ok (Serde.framed.ticket.enc ⟨.write d⟩)) _
    ⟨rfl, (Device.single_read ..).symm⟩ ?_
  simp only [Fallible.andThen_ok, Format.decode_encode, run_fromSlice_some, Prog.pure_bind,
    openMachineDoc, Fallible.run_bind, run_attempt, call_eq, Prog.await_bind]
  refine runs_next (.docsOpen d) (.ok (some d)) _ ⟨rfl, by simp⟩ ?_
  rw [hcontracts]
  refine runs_next (.docDel d .manager (contractKey f c.contract.contractId)) (.ok ()) _
    (Or.inl ⟨⟨R, R', by simp, hput, rfl⟩, rfl⟩) ?_
  exact .returned _ _

namespace Misplaced

def machineId : EndpointId := ⟨.replicate 32 1⟩

def docId : NamespaceId := ⟨.replicate 32 2⟩

def federation : FederationId := ⟨.replicate 32 3⟩

/-- Contracts with different identities. -/
def contract (b : UInt8) : ClaimableContract :=
  ⟨⟨⟨.replicate 32 b⟩, ⟨.replicate 33 0⟩⟩, .replicate 40 0⟩

def payment (b : UInt8) : Payment := (machineId, federation, contract b)

/-- Contract `c` under the key of contract `b`, written at `time`. -/
def entry (b c : UInt8) (time : ℕ) : Entry AuthorId :=
  ⟨.machine, contractKey federation (contract b).contract.contractId, time,
    Serde.framed.contract.enc (contract c)⟩

/-- A document with one entry. -/
def replica (e : Entry AuthorId) : Replica AuthorId := ⟨[e], List.nodup_singleton _⟩

def device (e : Entry AuthorId) : Device := .single .framed machineId docId (replica e)

theorem mem_replica {e o : Entry AuthorId} : o ∈ (replica e).entries ↔ o = e := List.mem_singleton

theorem eq_of_value {K : Ranking AuthorId} {e o : Entry AuthorId} {k : Bytes}
    (h : (replica e).value K k = some o) : o = e :=
  mem_replica.mp (Replica.shownAt_eq_some.mp (Replica.value_eq_some.mp h).1).1

theorem value_replica (K : Ranking AuthorId) {e : Entry AuthorId} (h : e.content ≠ []) :
    (replica e).value K e.key = some e :=
  Replica.value_eq_some.mpr ⟨Replica.shownAt_eq_some.mpr ⟨mem_replica.mpr rfl, rfl, fun o ho _ => by
    rw [mem_replica.mp ho]⟩, h⟩

/-- The contract is listed, wherever it lies. -/
theorem lists_device (n : ℕ) (b c : UInt8) (time : ℕ) :
    Lists (.counting n) (device (entry b c time)) (payment c) := by
  have hR : replicaOf Serde.framed (device (entry b c time)) machineId =
      some (replica (entry b c time)) := replicaOf_single ..
  have hdec : Serde.framed.contract.dec (entry b c time).content = some (contract c) :=
    Serde.framed.contract.decode_encode _
  refine lists_iff.mpr ⟨fun m hm => ?_, mem_listing.mpr ⟨List.mem_singleton.mpr rfl, _, hR,
    (contract b).contract.contractId, entry b c time, value_replica _ (Codec.frame_ne_nil _), hdec⟩⟩
  rw [List.mem_singleton.mp hm]
  exact ⟨_, hR, readsAll_iff.mpr fun f id e he => ⟨_, eq_of_value he ▸ hdec⟩⟩

/-- The document after a removal under the key of contract 4 at time 1. -/
def removed : Replica AuthorId :=
  ⟨[⟨.manager, (entry 4 5 0).key, 1, []⟩, entry 4 5 0], by decide⟩

theorem put_removal :
    (replica (entry 4 5 0)).put ⟨.manager, (entry 4 5 0).key, 1, []⟩ = some removed := by
  rw [Replica.put, dif_neg (by decide)]
  rfl

theorem not_lists_removed : ¬ Lists (.counting 1)
    (Device.set { device (entry 4 5 0) with writes := 1 } docId removed) (payment 5) := by
  intro h
  obtain ⟨-, R, hR, id, e, he, -⟩ := mem_listing.mp (lists_iff.mp h).2
  obtain rfl := Option.some.inj ((replicaOf_set_single ..).symm.trans hR)
  obtain ⟨hshown, hne⟩ := Replica.value_eq_some.mp he
  obtain ⟨hmem, hk, hmax⟩ := Replica.shownAt_eq_some.mp hshown
  rcases List.mem_cons.mp hmem with rfl | hmem
  · exact hne rfl
  · rw [List.mem_singleton] at hmem
    subst hmem
    have hage := hmax _ (List.mem_cons_self ..) hk
    rw [Replica.age_le_iff] at hage
    exact absurd hage (by decide)

end Misplaced

/-- **A contract under the key of another** is no longer listed once that one is removed. -/
theorem contracts_not_apart : ¬ ∀ (Z : Setting) (s s' : Device)
    (ids : List (FederationId × ContractId)) (m : EndpointId) (f : FederationId)
    (c : ClaimableContract), Step Z .manager (.contracts ids) s s' →
      (f, c.contract.contractId) ∉ ids → (Lists Z s' (m, f, c) ↔ Lists Z s (m, f, c)) := by
  intro h
  have hstep : Step (.counting 1) .manager (.contracts ([Misplaced.payment 4].map idOf))
      (Misplaced.device (Misplaced.entry 4 5 0)) _ :=
    .update (.removal [Misplaced.payment 4]) (runs_removal Misplaced.put_removal)
  have hiff := h _ _ _ _ Misplaced.machineId Misplaced.federation (Misplaced.contract 5) hstep
    (by decide)
  exact Misplaced.not_lists_removed (hiff.mpr (Misplaced.lists_device 1 4 5 0))

/-- Contract 5 stays listed when contract 4 arrives. -/
theorem kinds_apart_arrival :
    Lists (.counting 1) ((Misplaced.device (Misplaced.entry 5 5 0)).set Misplaced.docId
        ((Misplaced.replica (Misplaced.entry 5 5 0)).receive (Misplaced.entry 4 4 0)))
      (Misplaced.payment 5) ↔
    Lists (.counting 1) (Misplaced.device (Misplaced.entry 5 5 0)) (Misplaced.payment 5) := by
  have hstep : Step (.counting 1) .manager (.contracts ([Misplaced.payment 4].map idOf))
      (Misplaced.device (Misplaced.entry 5 5 0))
      ((Misplaced.device (Misplaced.entry 5 5 0)).set Misplaced.docId
        ((Misplaced.replica (Misplaced.entry 5 5 0)).receive (Misplaced.entry 4 4 0))) :=
    .arrive ⟨_, List.mem_singleton.mpr rfl, rfl, Or.inr ⟨_, rfl, rfl⟩⟩ (Device.single_docs ..)
  refine (kinds_apart (.single ⟨_, rfl, hstep⟩)).2.2.2 ?_ _ _ _ ?_
  · rintro ids hids x hx d R e hR he
    cases hids
    rw [List.map_singleton, List.mem_singleton] at hx
    subst hx
    obtain ⟨-, rfl⟩ := Device.eq_of_single_docs hR
    have hk : e.key = _ := Replica.key_of_value he
    rw [Misplaced.eq_of_value he] at hk
    exact absurd hk (by decide)
  · rintro ids hids
    cases hids
    decide

end Vendimint.Document
