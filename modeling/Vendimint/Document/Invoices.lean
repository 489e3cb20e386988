import Vendimint.Document.Delivered
import Vendimint.Machine

/-! # For whom the machine takes payments

The two devices of `Document.Shared`, and on the machine the calls that ask for invoices and the passes
of the syncer, which join federations.

* `selling`: the system. It lists the invitations that the machine has joined with, and for whom it has
  asked for invoices.
* `getMachineConfig_configured`: a configuration that the machine reads was set by the manager.
* `invoices_configured`: **the machine takes payments for the manager only**: it joins federations and
  asks for invoices as one of the configurations says that the manager has set. -/

namespace Vendimint.Document

open Vendimint.Store Vendimint.Async Vendimint.ManagerProtocol Vendimint.SharedProtocol

/-! ### The system -/

/-- The two devices, the invitations that the machine has joined with, and the federations and the keys
for which it has asked for invoices. -/
structure Shop where
  devices : Devices
  joined : List InviteCode
  invoices : List (FederationId × PublicKey)

/-- What an operation of the wallet adds to the lists. -/
def Shop.log (s : Shop) : Op → Shop
  | .clientJoin inviteCode _ => { s with joined := inviteCode :: s.joined }
  | .lnRemoteReceive federationId claimerPk _ =>
    { s with invoices := (federationId, claimerPk) :: s.invoices }
  | _ => s

/-- What the machine does besides writing to its document. -/
inductive Sale (V : Sharing) : Fut Unit → Prop
  | invoice (request : InvoiceRequest) :
      Sale V ((Machine.receivePayment V.serde request).run.bind fun _ => .pure ())
  | pass (secret : Mnemonic) : Sale V (Machine.syncerPass V.serde secret)

/-- **The devices of a shop.** An operation that is dropped may have been done. -/
def selling (V : Sharing) : System CallId Op Op.Ret Unit Shop where
  exec i op s r s' := ∃ D, (shared V).exec i op s.devices r D ∧ s' = { s.log op with devices := D }
  cut i op s s' := ∃ D, (shared V).cut i op s.devices D ∧
    (s' = { s with devices := D } ∨ s' = { s.log op with devices := D })
  spawn i p s s' := s' = s ∧ (i.1 = .machine ∧ Sale V p ∨
    ∃ q, p = q.bind (fun _ => .pure ()) ∧ (shared V).spawn i q s.devices s.devices)
  env s s' _ := ∃ D, (shared V).env s.devices D (fun _ => false) ∧ s' = { s with devices := D }

/-- What the machine has joined and asked for is as the manager has set it. -/
structure Honoured (V : Sharing) (s : Shop) : Prop where
  settled : Settled V s.devices
  joined : ∀ inviteCode ∈ s.joined, ∃ c, V.sets c ∧ inviteCode = c.federationInviteCode
  invoices : ∀ x ∈ s.invoices,
    ∃ c, V.sets c ∧ x = (c.federationInviteCode.federationId, c.claimerPk)

/-- The operation joins, or asks for an invoice, as the manager has set it. -/
def Orders (V : Sharing) : Op → Prop
  | .clientJoin inviteCode _ => ∃ c, V.sets c ∧ inviteCode = c.federationInviteCode
  | .lnRemoteReceive federationId claimerPk _ =>
    ∃ c, V.sets c ∧ (federationId, claimerPk) = (c.federationInviteCode.federationId, c.claimerPk)
  | _ => True

/-- What a call may do. -/
def Allowed (V : Sharing) (x : AuthorId) (op : Op) : Prop := Permitted V x op ∧ Orders V op

section Steps
variable {V : Sharing} {s : Shop} {D : Devices} {op : Op}

@[simp] theorem Shop.log_devices (s : Shop) (op : Op) : (s.log op).devices = s.devices := by
  cases op <;> rfl

theorem Honoured.devices (h : Honoured V s) (hD : Settled V D) : Honoured V { s with devices := D } :=
  ⟨hD, h.joined, h.invoices⟩

theorem Honoured.log (h : Honoured V s) (hop : Orders V op) : Honoured V (s.log op) := by
  cases op
  case clientJoin inviteCode secret =>
    refine ⟨h.settled, fun x hx => ?_, h.invoices⟩
    rcases List.mem_cons.mp hx with rfl | hx
    · exact hop
    · exact h.joined x hx
  case lnRemoteReceive federationId claimerPk request =>
    refine ⟨h.settled, h.joined, fun x hx => ?_⟩
    rcases List.mem_cons.mp hx with rfl | hx
    · exact hop
    · exact h.invoices x hx
  all_goals exact h

/-- The calls rely on the tickets and on the replicas. -/
def honouring (V : Sharing) : Discipline CallId Shop where
  inv := Honoured V
  rely _ s s' := Stays s.devices s'.devices
  guar _ s s' := Stays s.devices s'.devices
  rely_refl _ s := .refl s.devices
  rely_trans := .trans
  compat _ _ _ hg := hg

variable {i : CallId}

/-- **A call that does what it may.** -/
theorem safe_orders {p : Fut Unit} (hp : p.Uses (Allowed V i.1)) :
    Safe (selling V).toWorld (honouring V) i p (fun _ _ => True) s := by
  refine Safe.of_uses ?_ ?_ hp
  · rintro op t r u hop hi ⟨D, ⟨t', he, hsigns, rfl⟩, rfl⟩
    obtain ⟨hD, hstays, -⟩ := hi.settled.operation hop.1 (exec_cases he) hsigns
    exact ⟨(hi.log hop.2).devices hD, hstays⟩
  · rintro op t u hop hi ⟨D, ⟨t', hc, hsigns, rfl⟩, rfl | rfl⟩
    · obtain ⟨hD, hstays, -⟩ := hi.settled.operation hop.1 (cut_cases hc) hsigns
      exact ⟨hi.devices hD, hstays⟩
    · obtain ⟨hD, hstays, -⟩ := hi.settled.operation hop.1 (cut_cases hc) hsigns
      exact ⟨(hi.log hop.2).devices hD, hstays⟩

end Steps

/-! ### What the programs await -/

section Programs
variable {V : Sharing} {x : AuthorId} {c : MachineConfig}

/-- The operation neither writes to a document nor orders anything. -/
def Idle : Op → Prop
  | .docSetBytes _ _ _ _ | .docDel _ _ _ | .clientJoin _ _ | .lnRemoteReceive _ _ _ => False
  | _ => True

theorem Idle.allowed {op : Op} (h : Idle op) : Allowed V x op := by
  cases op <;> first | exact ⟨trivial, trivial⟩ | exact h.elim

theorem allowed_withClient {α : Type} {federationId : FederationId} {p : Fut α}
    (hp : p.Uses (Allowed V x)) : (Wallet.withClient federationId p).Uses (Allowed V x) := by
  rw [Wallet.withClient_eq]
  refine ⟨⟨trivial, trivial⟩, fun _ => ⟨⟨trivial, trivial⟩, fun connected => ?_⟩⟩
  cases connected with
  | true => exact hp.bind fun _ => ⟨⟨trivial, trivial⟩, fun _ => trivial⟩
  | false => exact ⟨⟨trivial, trivial⟩, fun _ => trivial⟩

theorem allowed_receivePayment (hc : V.sets c) (request : InvoiceRequest) :
    (Wallet.receivePayment c.federationInviteCode.federationId c.claimerPk request).run.Uses
      (Allowed V x) := by
  simp only [Wallet.receivePayment, Fallible.run_bind, Fallible.run_lift, Prog.bind_assoc]
  have hcall : (call (.lnRemoteReceive c.federationInviteCode.federationId c.claimerPk request)).Uses
      (Allowed V x) := ⟨⟨trivial, c, hc, rfl⟩, fun _ => trivial⟩
  refine (allowed_withClient hcall).bind fun r => ?_
  rcases r with _ | ⟨e | operationId⟩ <;> trivial

theorem allowed_buildClient (hc : V.sets c) (secret : Mnemonic) :
    (Wallet.buildClientFromInviteCode secret c.federationInviteCode).run.Uses (Allowed V x) := by
  simp only [Wallet.buildClientFromInviteCode, Fallible.run_bind, Fallible.run_ite]
  refine Prog.Uses.andThen ⟨⟨trivial, trivial⟩, fun _ => trivial⟩ fun isInitialized => ?_
  refine Prog.Uses.andThen ⟨⟨trivial, trivial⟩, fun _ => trivial⟩ fun _ => ?_
  refine Prog.Uses.andThen ⟨⟨trivial, trivial⟩, fun _ => trivial⟩ fun _ => ?_
  split
  · exact ⟨⟨trivial, trivial⟩, fun _ => trivial⟩
  · refine Prog.Uses.andThen ⟨⟨trivial, trivial⟩, fun _ => trivial⟩ fun _ => ?_
    exact ⟨⟨trivial, c, hc, rfl⟩, fun _ => trivial⟩

theorem allowed_guarded {α : Type} {y : FutResult α} {op : Op} (hy : y.run.Uses (Allowed V x))
    (hop : Idle op) : (guarded y op).run.Uses (Allowed V x) :=
  hy.bind fun _ => ⟨hop.allowed, fun _ => trivial⟩

theorem allowed_forceUpdateView :
    (liftM Wallet.forceUpdateView : FutResult Unit).run.Uses (Allowed V x) :=
  ⟨⟨trivial, trivial⟩, fun _ => ⟨⟨trivial, trivial⟩, fun _ => ⟨⟨trivial, trivial⟩, fun _ => trivial⟩⟩⟩

theorem allowed_setDefaultFederation (hc : V.sets c) (secret : Mnemonic) :
    (Wallet.setDefaultFederation V.serde secret c.federationInviteCode).run.Uses (Allowed V x) := by
  refine ⟨⟨trivial, trivial⟩, fun _ => allowed_guarded ?_ trivial⟩
  simp only [Wallet.setDefaultLocked, Wallet.joinFederation, Wallet.insertClient, Fallible.run_bind,
    Fallible.run_ite]
  refine Prog.Uses.andThen ⟨⟨trivial, trivial⟩, fun _ => trivial⟩ fun isDir => ?_
  split
  · exact ⟨⟨trivial, trivial⟩, fun _ => trivial⟩
  · refine Prog.Uses.andThen ?_ fun _ => ⟨⟨trivial, trivial⟩, fun _ => trivial⟩
    refine Prog.Uses.andThen ⟨⟨trivial, trivial⟩, fun _ => trivial⟩ fun _ => ?_
    refine (allowed_buildClient hc secret).andThen fun _ => ?_
    refine Prog.Uses.andThen ⟨⟨trivial, trivial⟩, fun _ => trivial⟩ fun _ => ?_
    exact Prog.Uses.andThen ⟨⟨trivial, trivial⟩, fun _ => trivial⟩ fun _ => allowed_forceUpdateView

theorem Opening.idle {op : Op} (h : MachineProtocol.Opening op) : Idle op := by
  cases op <;> first | exact trivial | exact h.elim

/-! The functions that write to documents order nothing. -/

theorem orders_openDoc {J : Serde} (y : Access) : (y.openDoc J).run.Uses (Orders V) := by
  cases y with
  | machine =>
    exact MachineProtocol.uses_getOrCreateMachineDoc.mono fun _ ho =>
      (Idle.allowed (x := .machine) (Opening.idle ho)).2
  | manager m =>
    rw [Access.openDoc, Fallible.run_bind]
    exact (uses_getMachine m trivial).andThen fun t => uses_openMachineDoc t trivial

theorem Update.orders {J : Serde} {kind : Kind} {p : Fut (Except Error Unit)}
    (h : Update J x kind p) : p.Uses (Orders V) := by
  cases h with
  | setKv y key value =>
    rw [Access.setKvValue_eq]
    refine Prog.Uses.andThen (orders_openDoc y) fun d => ?_
    rw [Fallible.run_bind]
    exact Prog.Uses.andThen ⟨trivial, fun _ => trivial⟩ fun a => ⟨trivial, fun _ => trivial⟩
  | setConfig m cfg => exact uses_setConfig trivial (fun _ => trivial) trivial fun _ _ => trivial
  | payment f p =>
    exact MachineProtocol.uses_writePaymentToMachineDoc
      (fun _ ho => (Idle.allowed (x := .machine) (Opening.idle ho)).2) trivial f p fun _ _ => trivial
  | removal l =>
    exact ManagerProtocol.uses_removeClaimableContracts trivial (fun _ => trivial) (fun _ => trivial)
      (fun _ => trivial) (fun _ _ _ => trivial) l

/-- **A call that writes to a document does what it may.** -/
theorem Update.allowed {kind : Kind} {p : Fut (Except Error Unit)} (h : Update V.serde x kind p)
    (hsets : ∀ m c, p = (setMachineConfig V.serde m c).run → V.sets c) : p.Uses (Allowed V x) :=
  (h.permitted hsets).and h.orders

/-! ### What the machine awaits -/

theorem allowed_writePayment (f : FederationId) (p : ClaimableContract) :
    (MachineProtocol.writePaymentToMachineDoc V.serde f p).run.Uses (Allowed V .machine) :=
  (permitted_of_kind (uses_writePayment V.serde f p) (contracts_tag_ne _)).and
    (Update.payment f p).orders

theorem allowed_writePayments (f : FederationId) : ∀ (l : List ClaimableContract)
    (ids : List ContractId), (Machine.writePayments V.serde f l ids).Uses (Allowed V .machine)
  | [], _ => trivial
  | p :: l, ids => by
    refine (allowed_writePayment f p).bind fun r => ?_
    cases r with
    | ok a => exact allowed_writePayments f l _
    | error e => exact allowed_writePayments f l ids

theorem allowed_makeCompletedPaymentsSyncable :
    (Machine.makeCompletedPaymentsSyncable V.serde c).Uses (Allowed V .machine) := by
  have hget : (Wallet.getClaimableContracts c.federationInviteCode.federationId c.claimerPk none).Uses
      (Allowed V .machine) :=
    allowed_withClient ⟨⟨trivial, trivial⟩, fun _ => trivial⟩
  refine hget.bind fun r => ?_
  rcases r with _ | l
  · trivial
  · refine (allowed_writePayments _ l []).bind fun ids => ?_
    split
    · trivial
    · have hcall : (call (.lnRemoveClaimedContracts c.federationInviteCode.federationId ids)).Uses
          (Allowed V .machine) := ⟨⟨trivial, trivial⟩, fun _ => trivial⟩
      exact (allowed_withClient hcall).bind fun _ => trivial

end Programs

/-! ### What the machine reads -/

section Reading
variable {V : Sharing} {n : ℕ} {s : Shop}

/-- The discipline of a call on the machine. -/
abbrev Keeps (V : Sharing) (n : ℕ) {β : Type} (p : Fut β) (R : β → Shop → Prop) (s : Shop) : Prop :=
  Safe (selling V).toWorld (honouring V) (.machine, n) p (Outcome.returns R) s

/-- An operation that is idle, with what the device answers. -/
theorem keeps_ask {β : Type} {op : Op} {k : op.Ret → Fut β} {R : β → Shop → Prop} (hop : Idle op)
    (h : ∀ t r, Stays s.devices t.devices → Honoured V t →
      exec (V.setting .machine) .machine op (t.devices .machine) r (t.devices .machine) →
      Keeps V n (k r) R t) : Keeps V n (.await op k) R s := by
  have hreads : Reads (fun _ => True) op := by
    cases op <;> first | exact trivial | exact fun _ _ => trivial | exact hop.elim
  have hlog : ∀ t : Shop, t.log op = t := by
    intro t
    cases op <;> first | rfl | exact hop.elim
  have hsame : ∀ {t u r}, (selling V).exec (.machine, n) op t r u →
      u = t ∧ exec (V.setting .machine) .machine op (t.devices .machine) r (t.devices .machine) := by
    rintro t u r ⟨D, ⟨t', he, -, rfl⟩, rfl⟩
    obtain rfl := eq_of_reads hreads he
    rw [hlog, Function.update_eq_self]
    exact ⟨rfl, he⟩
  refine Safe.ask (fun t => .refl t.devices) (fun t r u hu => (hsame hu).1) (fun t u hu => ?_)
    fun t r ht hi hu => h t r ht hi (hsame hu).2
  obtain ⟨D, ⟨t', hc, -, rfl⟩, hu⟩ := hu
  have ht' : t' = t.devices .machine := by
    unfold cut at hc
    split at hc
    · exact hop.elim
    · exact hop.elim
    · exact hc
  subst ht'
  rcases hu with rfl | rfl
  · rw [Function.update_eq_self]
  · rw [hlog, Function.update_eq_self]

/-- The document that the machine opens is one it has a replica of. -/
theorem getOrCreateMachineDoc_stored :
    Keeps V n (MachineProtocol.getOrCreateMachineDoc V.serde).run
      (fun r t => ∀ d, r = .ok d → (t.devices .machine).docs d ≠ none) s := by
  simp only [MachineProtocol.getOrCreateMachineDoc, Fallible.run_bind, run_attempt, call_eq, await_eq,
    Fallible.run_of, Prog.await_bind, Prog.pure_bind]
  refine keeps_ask trivial fun s₁ r _ _ he => ?_
  obtain rfl : r = .ok () := he.2
  simp only [Fallible.andThen_ok]
  refine keeps_ask trivial fun s₂ r _ _ he => ?_
  obtain rfl : r = .ok (V.serde.ticket.enc (s₂.devices .machine).docTicket) := he.2
  simp only [MachineProtocol.ticketOf, Format.decode_encode, Fallible.run_bind, run_attempt,
    Prog.await_bind, Prog.pure_bind]
  refine keeps_ask trivial fun s₃ r _ _ he => ?_
  by_cases hd : (s₃.devices .machine).docs (s₂.devices .machine).docTicket.capability.id = none
  · rw [exec, hd] at he
    rcases he.2 with rfl | ⟨e, rfl⟩
    · exact Safe.panicked
    · exact Safe.returned fun _ _ _ d heq => by cases heq
  · obtain ⟨-, rfl⟩ := (exec_docsOpen hd).mp he
    refine Safe.returned fun t ht _ d heq => ?_
    obtain rfl := Except.ok.inj heq
    exact ht.docs hd

/-- **A configuration that the machine reads was set by the manager.** -/
theorem getMachineConfig_configured (hi : Honoured V s) :
    Keeps V n (MachineProtocol.getMachineConfig V.serde).run
      (fun r _ => ∀ c, r = .ok (some c) → V.sets c) s := by
  rw [MachineProtocol.getMachineConfig, Fallible.run_bind]
  refine Safe.bind_returns hi getOrCreateMachineDoc_stored fun r s₁ _ hr => ?_
  rcases r with e | d
  · exact Safe.returned fun _ _ _ c hc => by cases hc
  have hd := hr d rfl
  simp only [Fallible.andThen_ok, Fallible.run_bind, run_attempt, call_eq, Prog.await_bind,
    Prog.pure_bind]
  refine keeps_ask trivial fun s₂ r hstays hi₂ he => ?_
  obtain ⟨R, hR⟩ := Option.ne_none_iff_exists'.mp (hstays.docs hd)
  obtain rfl := he.2 R hR
  simp only [Fallible.andThen_ok]
  rcases hv : R.value (V.setting .machine).ranking MACHINE_CONFIG_KEY with _ | e
  · exact Safe.returned fun _ _ _ c hc => by cases hc
  have hmem : e ∈ R.entries := (Replica.shownAt_eq_some.mp (Replica.value_eq_some.mp hv).1).1
  obtain ⟨-, -, c, hc, hcontent⟩ :=
    hi₂.settled.kept ⟨R, hR, hmem⟩ (Replica.key_of_value hv ▸ List.prefix_rfl)
  simp only [Fallible.run_bind, run_attempt, Prog.await_bind, Prog.pure_bind]
  refine keeps_ask trivial fun s₃ r _ _ he => ?_
  obtain rfl := he.2
  simp only [Fallible.andThen_ok, hcontent, Format.decode_encode, run_fromSlice_some, Prog.pure_bind,
    Fallible.run_pure]
  refine Safe.returned fun _ _ _ c' hc' => ?_
  obtain rfl := Option.some.inj (Except.ok.inj hc')
  exact hc

theorem getMachineState_configured :
    Keeps V n (MachineProtocol.getMachineState V.serde).run
      (fun r _ => ∀ c, r = .ok (.claimed (some c)) → V.sets c) s := by
  simp only [MachineProtocol.getMachineState, Fallible.run_bind, await_eq, Fallible.run_of,
    Prog.await_bind, Prog.pure_bind]
  refine keeps_ask trivial fun s₁ owner _ hi₁ _ => ?_
  simp only [Fallible.andThen_ok, run_guarded, Fallible.run_ite]
  split
  · rw [Fallible.run_bind, Prog.bind_assoc]
    refine Safe.bind_returns hi₁ (getMachineConfig_configured hi₁) fun r s₂ _ hr => ?_
    rcases r with e | config
    · exact keeps_ask trivial fun _ _ _ _ _ => Safe.returned fun _ _ _ c hc => by cases hc
    · refine keeps_ask trivial fun _ _ _ _ _ => Safe.returned fun _ _ _ c hc => hr c ?_
      obtain rfl := MachineState.claimed.inj (Except.ok.inj hc)
      rfl
  · exact keeps_ask trivial fun _ _ _ _ _ => Safe.returned fun _ _ _ c hc => by cases hc

/-- What follows the state of the machine is told the configuration that was set. -/
theorem safe_after_state {f : Except Error MachineState → Fut Unit} (hi : Honoured V s)
    (hf : ∀ r, (∀ c, r = .ok (.claimed (some c)) → V.sets c) → (f r).Uses (Allowed V .machine)) :
    Safe (selling V).toWorld (honouring V) (.machine, n)
      ((MachineProtocol.getMachineState V.serde).run.bind f) (fun _ _ => True) s :=
  Safe.bind_of hi getMachineState_configured (fun r _ _ hr => safe_orders (hf r hr))
    (fun _ _ _ => trivial) fun _ _ _ => trivial

theorem Sale.safe {p : Fut Unit} (h : Sale V p) (hi : Honoured V s) :
    Safe (selling V).toWorld (honouring V) (.machine, n) p (fun _ _ => True) s := by
  cases h with
  | invoice request =>
    simp only [Machine.receivePayment, Fallible.run_bind, Prog.bind_assoc]
    refine safe_after_state hi fun r hr => ?_
    rcases r with e | ⟨config | config⟩ | _
    · trivial
    · trivial
    · exact (allowed_receivePayment (hr _ rfl) request).bind fun _ => trivial
    · trivial
  | pass secret =>
    refine safe_after_state hi fun r hr => ?_
    rcases r with e | ⟨config | config⟩ | _
    · trivial
    · trivial
    · refine (allowed_setDefaultFederation (hr _ rfl) secret).bind fun r => ?_
      cases r with
      | error e => trivial
      | ok a => exact allowed_makeCompletedPaymentsSyncable
    · trivial

end Reading

/-! ### Every run -/

section Runs
variable {V : Sharing} {s : Devices} {P : Pool CallId Op Op.Ret Unit Shop}

/-- **The discipline of a shop.** -/
def sales (V : Sharing) : RelyGuarantee (selling V) where
  toDiscipline := honouring V
  post _ _ _ := True
  env_ok hi he := by
    obtain ⟨D, rfl | hsync, rfl⟩ := he
    · exact ⟨hi, fun _ _ => .refl _⟩
    · obtain ⟨hD, hstays, -⟩ := hi.settled.syncs hsync
      exact ⟨hi.devices hD, fun _ _ => hstays⟩
  spawn_ok {i p s s'} hi hs := by
    obtain ⟨rfl, ⟨hmachine, hsale⟩ | ⟨q, rfl, ⟨kind, hq⟩, hsets, -⟩⟩ := hs
    · obtain ⟨x, n⟩ := i
      obtain rfl : x = .machine := hmachine
      exact ⟨hi, fun _ _ => .refl _, hsale.safe hi⟩
    · exact ⟨hi, fun _ _ => .refl _, safe_orders ((hq.allowed hsets).bind fun _ => trivial)⟩

/-- **The machine takes payments for the manager only**: in every state reached, it has joined
federations with, and asked for invoices for, what the manager has set. -/
theorem invoices_configured (hs : Empty s)
    (h : Async.Steps (selling V) (Pool.idle ⟨s, [], []⟩) P) :
    (∀ inviteCode ∈ P.st.joined, ∃ c, V.sets c ∧ inviteCode = c.federationInviteCode) ∧
    ∀ f pk, (f, pk) ∈ P.st.invoices →
      ∃ c, V.sets c ∧ f = c.federationInviteCode.federationId ∧ pk = c.claimerPk := by
  have hstart : Honoured V ⟨s, [], []⟩ :=
    ⟨settled_empty hs, fun _ hx => absurd hx List.not_mem_nil, fun _ hx => absurd hx List.not_mem_nil⟩
  have hgood : Good (sales V) P := good_steps (good_idle hstart) h
  refine ⟨hgood.1.joined, fun f pk hx => ?_⟩
  obtain ⟨c, hc, heq⟩ := hgood.1.invoices _ hx
  exact ⟨c, hc, congrArg Prod.fst heq, congrArg Prod.snd heq⟩

end Runs

/-! ### An invoice -/

/-- A run of the devices is one of the shop, if it orders nothing. -/
theorem runs_selling {V : Sharing} {i : CallId} {β : Type} {p : Fut β} {D D' : Devices} {o : Outcome β}
    {joined : List InviteCode} {invoices : List (FederationId × PublicKey)}
    (hp : p.Uses fun op => ∀ s : Shop, s.log op = s) (h : Runs (shared V).toWorld i Alone p D o D') :
    Runs (selling V).toWorld i Alone p ⟨D, joined, invoices⟩ o ⟨D', joined, invoices⟩ := by
  induction h with
  | returned a s => exact .returned a _
  | panicked s => exact .panicked _
  | aborted hc => exact .aborted ⟨_, hc, Or.inl rfl⟩
  | step he _ ih => exact .step ⟨_, he, by rw [hp.1]⟩ (ih (hp.2 _))
  | env he => exact he.elim

namespace Vending

def request : InvoiceRequest := ⟨1000, 60, "", none⟩

/-- The shop before an invoice, and after it. -/
def opened : Shop := ⟨arrived, [], []⟩
def sold : Shop := ⟨arrived, [], [(config.federationInviteCode.federationId, config.claimerPk)]⟩

/-- The calls that have returned: of the manager, and of the machine. -/
def configuring : CallId → Option (Fut Unit) :=
  Function.update (fun _ => none) (.manager, 0) (some (.pure ()))
def invoiced : CallId → Option (Fut Unit) :=
  Function.update configuring (.machine, 0) (some (.pure ()))

/-- The machine asks for an invoice. -/
theorem invoice_runs : Runs (selling sharing).toWorld (.machine, 0) Alone
    (Machine.receivePayment Serde.framed request).run opened (.returned (.ok ⟨.replicate 32 0⟩))
    sold := by
  have honly : ∀ o ∈ replica.entries, o = entry := fun o ho =>
    ((Replica.mem_put put_entry).mp ho).resolve_right fun h => List.not_mem_nil h.1
  have hvalue : replica.value (sharing.setting .machine).ranking MACHINE_CONFIG_KEY = some entry := by
    refine Replica.value_eq_some.mpr ⟨Replica.shownAt_eq_some.mpr ⟨mem_replica, rfl, fun o ho _ => ?_⟩,
      Serde.framed.config.enc_ne_nil config⟩
    rw [honly o ho]
  have hask : ∀ {op : Op} {r : op.Ret}, Idle op →
      exec (sharing.setting .machine) .machine op (arrived .machine) r (arrived .machine) →
        (selling sharing).exec (.machine, 0) op opened r opened := by
    intro op r hop he
    refine ⟨arrived, ⟨arrived .machine, he, Or.inr rfl, (Function.update_eq_self ..).symm⟩, ?_⟩
    cases op <;> first | rfl | exact hop.elim
  refine runs_next .ownerLock (some machineId) opened (hask trivial rfl) ?_
  refine runs_next (.createDirAll .appDir) (.ok ()) opened (hask trivial ⟨rfl, rfl⟩) ?_
  refine runs_next (.readFile .docTicket) (.ok (Serde.framed.ticket.enc ⟨.write docId⟩)) opened
    (hask trivial ⟨rfl, rfl⟩) ?_
  have hdocs : (arrived .machine).docs docId ≠ none := by simp [arrived_machine]
  refine runs_next (.docsOpen docId) (.ok (some docId)) opened
    (hask trivial ((exec_docsOpen hdocs).mpr ⟨rfl, rfl⟩)) ?_
  refine runs_next (.docGetOne docId MACHINE_CONFIG_KEY) (.ok (some entry)) opened
    (hask trivial ⟨rfl, fun R hR => ?_⟩) ?_
  · obtain rfl := Option.some.inj (arrived_machine.symm.trans hR)
    rw [hvalue]
  refine runs_next (.blobsGetBytes entry.content) (.ok entry.content) opened
    (hask trivial ⟨rfl, rfl⟩) ?_
  refine runs_next .ownerUnlock () opened (hask trivial rfl) ?_
  refine runs_next .clientsRead () opened (hask trivial rfl) ?_
  refine runs_next (.clientsContains config.federationInviteCode.federationId) true opened
    (hask trivial rfl) ?_
  refine runs_next (.lnRemoteReceive config.federationInviteCode.federationId config.claimerPk request)
    (.ok ⟨.replicate 32 0⟩) sold ⟨arrived, ⟨arrived .machine, rfl, Or.inr rfl,
      (Function.update_eq_self ..).symm⟩, rfl⟩ ?_
  refine runs_next .clientsRelease () sold ⟨arrived, ⟨arrived .machine, rfl, Or.inr rfl,
    (Function.update_eq_self ..).symm⟩, rfl⟩ ?_
  exact .returned _ _

end Vending

open Vending in
/-- The machine has asked for an invoice, for the federation and the key that the manager has set. -/
theorem invoices_configured_sold :
    Async.Steps (selling Vending.sharing) (Pool.idle ⟨start, [], []⟩) ⟨sold, invoiced⟩ ∧
    ∃ c, c = config ∧ config.federationInviteCode.federationId = c.federationInviteCode.federationId ∧
      config.claimerPk = c.claimerPk := by
  have hset : Runs (selling Vending.sharing).toWorld (.manager, 0) Alone
      ((setMachineConfig Serde.framed machineId config).run.bind fun _ => .pure ()) ⟨start, [], []⟩
      (.returned ()) ⟨configured, [], []⟩ :=
    (runs_selling (uses_setConfig (fun _ => rfl) (fun _ _ => rfl) (fun _ => rfl) fun _ _ _ => rfl)
      (set_runs fun h _ => h)).bind rfl (.returned _ _)
  have hconfigured : Async.Steps (selling Vending.sharing) (Pool.idle ⟨start, [], []⟩)
      ⟨⟨configured, [], []⟩, configuring⟩ :=
    steps_of_return (Y := selling Vending.sharing) ⟨rfl, Or.inr ⟨_, rfl,
      ⟨.config, .setConfig machineId config⟩,
      fun _ _ h => (config_of_setMachineConfig docId h).symm, rfl⟩⟩ rfl hset
  have harrived : Async.Steps (selling Vending.sharing) ⟨⟨configured, [], []⟩, configuring⟩
      ⟨opened, configuring⟩ :=
    steps_of_env ⟨arrived, Or.inr arrived_sync, rfl⟩
  have hinvoice : Runs (selling Vending.sharing).toWorld (.machine, 0) Alone
      ((Machine.receivePayment Serde.framed request).run.bind fun _ => .pure ()) opened (.returned ())
      sold :=
    invoice_runs.bind rfl (.returned _ _)
  have hidle : configuring (.machine, 0) = none := rfl
  have hsold : Async.Steps (selling Vending.sharing) ⟨opened, configuring⟩ ⟨sold, invoiced⟩ :=
    steps_of_return (Y := selling Vending.sharing) ⟨rfl, Or.inl ⟨rfl, .invoice request⟩⟩ hidle
      hinvoice
  have hsteps := hconfigured.trans (harrived.trans hsold)
  exact ⟨hsteps, (invoices_configured empty_start hsteps).2 _ _ (List.mem_singleton.mpr rfl)⟩

end Vendimint.Document
