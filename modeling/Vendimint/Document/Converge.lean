import Vendimint.Document.Kinds
import Vendimint.Manager

/-! # The configurations that a pass of the manager leaves

A pass of `update_machine_configs` on the device of a manager whose default federation and claim key
are those of `config`. The operations on the documents of `flaky` may fail, the others do not.

* `returns_getMachineConfig`: what a device reads as the configuration.
* `updateMachines_wp`: what a pass does to the documents.
* `configs_converge_iff`: the machines have the configuration after a pass, and the next one writes
  nothing, exactly if the entries before it were absent, for another federation or right already. -/

namespace Vendimint.Document

open Vendimint.Store Vendimint.Async Vendimint.ManagerProtocol

/-! ### The entry of the configuration -/

/-- The entry of the configuration that a replica shows. -/
def configEntry (Z : Setting) (R : Replica AuthorId) : Option (Entry AuthorId) :=
  R.value Z.ranking MACHINE_CONFIG_KEY

/-- What is read from the entry. -/
def readConfig (J : Serde) : Option (Entry AuthorId) → Except Error (Option MachineConfig)
  | none => .ok none
  | some e =>
    match J.config.dec e.content with
    | some c => .ok (some c)
    | none => .error "expected value"

section Reading
variable {Z : Setting} {x : Access} {s : Device} {d : NamespaceId} {R : Replica AuthorId}

theorem ensures_getMachineConfig (h : x.Opens Z.serde s d R) :
    Ensures (world Z x.author) () (x.getMachineConfig Z.serde).run
      (fun o s' => o = .aborted ∨ o = .returned (readConfig Z.serde (configEntry Z R)) ∧ s' = s) s := by
  rw [Access.getMachineConfig_eq]
  refine Ensures.bind ((ensures_openDoc x).mono fun o t ho => ?_)
  rcases o with (e | d') | _ | _
  · exact absurd ⟨d, R, h⟩ ho
  · obtain ⟨-, rfl, R', hR'⟩ := ho
    obtain ⟨rfl, rfl⟩ := h.unique hR'
    obtain ⟨t, -, -, hR⟩ := h
    simp only [Outcome.seq_returned, Fallible.andThen_ok, Fallible.run_bind, run_attempt, call_eq,
      Prog.await_bind, Prog.pure_bind]
    refine ensures_reply (.ok (configEntry Z R)) trivial ⟨rfl, fun R' hR' => ?_⟩
      (fun r hr => hr.2 R hR) (Or.inl rfl) ?_
    · rw [hR, Option.some.injEq] at hR'
      rw [hR', configEntry]
    rw [Fallible.andThen_ok]
    rcases configEntry Z R with _ | e
    · exact Or.inr ⟨rfl, rfl⟩
    · simp only [Fallible.run_bind, run_attempt, Prog.await_bind, Prog.pure_bind]
      refine ensures_reply (.ok e.content) trivial ⟨rfl, rfl⟩ (fun r hr => hr.2) (Or.inl rfl) ?_
      rw [Fallible.andThen_ok, readConfig]
      rcases Z.serde.config.dec e.content with _ | c
      · exact Or.inr ⟨rfl, rfl⟩
      · exact Or.inr ⟨rfl, rfl⟩
  · exact absurd ⟨d, R, h⟩ ho
  · exact Or.inl rfl

/-- **What a device reads as the configuration** is what its replica shows. -/
theorem returns_getMachineConfig (h : x.Opens Z.serde s d R)
    {r : Except Error (Option MachineConfig)} :
    Returns (world Z x.author) () (x.getMachineConfig Z.serde).run s r ↔
      r = readConfig Z.serde (configEntry Z R) := by
  have hget := ensures_getMachineConfig h
  have hread : ∀ {r'}, Returns (world Z x.author) () (x.getMachineConfig Z.serde).run s r' →
      r' = readConfig Z.serde (configEntry Z R) := by
    rintro r' ⟨s', hrun⟩
    rcases hrun.ensures hget with ho | ⟨ho, -⟩
    · cases ho
    · exact Outcome.returned.inj ho
  constructor
  · exact hread
  · rintro rfl
    obtain ⟨o, s', hrun, ho, hQ⟩ := hget.exists_run (E := Alone)
    obtain ⟨rfl, -⟩ := hQ.resolve_left ho
    exact ⟨s', hrun⟩

end Reading

/-! ### A pass -/

/-- The device of the manager, and the document that was opened last. -/
structure Pass where
  device : Device
  current : Option NamespaceId

/-- The document that an operation is for, if it is for one: a blob is read, and the author asked
for, on behalf of the document that was opened last. -/
def documentOf (current : Option NamespaceId) : Op → Option NamespaceId
  | .docsOpen d => some d
  | .docGetOne d _ => some d
  | .docSetBytes d _ _ _ => some d
  | .blobsGetBytes _ => current
  | .authorDefault => current
  | _ => none

/-- The operation on a document fails. -/
def Fails : (op : Op) → op.Ret → Prop
  | .docsOpen _, r => ∃ e, r = .error e
  | .docGetOne _ _, r => ∃ e, r = .error e
  | .docSetBytes _ _ _ _, r => ∃ e, r = .error e
  | .blobsGetBytes _, r => ∃ e, r = .error e
  | .authorDefault, r => ∃ e, r = .error e
  | _, _ => False

/-- What the wallet answers: the default federation and the claim key are those of `config`. -/
def Answers (J : Serde) (config : MachineConfig) : (op : Op) → op.Ret → Prop
  | .pathExists .defaultFederation, r => r = true
  | .readFile .defaultFederation, r =>
    ∃ b, r = .ok b ∧ J.invite.dec b = some config.federationInviteCode
  | .clientsContains f, r => f = config.federationInviteCode.federationId → r = true
  | .lnPublicKey f, r => f = config.federationInviteCode.federationId → r = config.claimerPk
  | _, _ => True

/-- The document that was opened last after an operation. -/
def currentAfter (current : Option NamespaceId) : Op → Option NamespaceId
  | .docsOpen d => some d
  | _ => current

/-- **The operations of a pass**: those on the documents of `flaky` may fail. -/
def passWorld (Z : Setting) (config : MachineConfig) (flaky : NamespaceId → Prop) :
    World Unit Op Op.Ret Pass where
  exec _ op s r s' := s'.current = currentAfter s.current op ∧
    (exec Z .manager op s.device r s'.device ∧ op.Succeeds r ∧ Answers Z.serde config op r ∨
      (∃ d, documentOf s.current op = some d ∧ flaky d) ∧ Fails op r ∧ s'.device = s.device)
  cut _ _ _ _ := False

section Operations
variable {Z : Setting} {config : MachineConfig} {flaky : NamespaceId → Prop} {α : Type} {s t : Pass}
  {op : Op} {k : op.Ret → Fut α} {Q : Outcome α → Pass → Prop} {r : op.Ret}

theorem wp_pass (h : ∀ r t, (passWorld Z config flaky).exec () op s r t →
    Wp (passWorld Z config flaky) (k r) Q t) : Wp (passWorld Z config flaky) (.await op k) Q s :=
  wp_await.mpr ⟨h, fun _ hc => hc.elim⟩

/-- An operation that is not on a document succeeds. -/
theorem exec_plain (hop : documentOf s.current op = none)
    (h : (passWorld Z config flaky).exec () op s r t) :
    exec Z .manager op s.device r t.device ∧ op.Succeeds r ∧ Answers Z.serde config op r ∧
      t.current = currentAfter s.current op := by
  obtain ⟨hcur, ⟨he, hs, ha⟩ | ⟨⟨d, hd, -⟩, -⟩⟩ := h
  · exact ⟨he, hs, ha, hcur⟩
  · rw [hop] at hd
    cases hd

/-- An operation on the document `d` succeeds, or it fails and `d` is flaky. -/
theorem exec_document {d : NamespaceId} (hop : documentOf s.current op = some d)
    (h : (passWorld Z config flaky).exec () op s r t) :
    t.current = currentAfter s.current op ∧ (exec Z .manager op s.device r t.device ∧ op.Succeeds r ∨
      flaky d ∧ Fails op r ∧ t.device = s.device) := by
  obtain ⟨hcur, ⟨he, hs, -⟩ | ⟨⟨d', hd, hflaky⟩, hf, ht⟩⟩ := h
  · exact ⟨hcur, Or.inl ⟨he, hs⟩⟩
  · rw [hop, Option.some.injEq] at hd
    exact ⟨hcur, Or.inr ⟨hd ▸ hflaky, hf, ht⟩⟩

/-- The operation neither opens nor uses a document. -/
def Undocumented (op : Op) : Prop := ∀ current, documentOf current op = none

/-- What a program without operations on documents ensures on a device, it does in a pass. -/
theorem wp_undocumented {p : Fut α} {Q : Outcome α → Device → Prop} (hp : p.Uses Undocumented)
    (h : Ensures (world Z .manager) () p Q s.device) :
    Wp (passWorld Z config flaky) p (fun o t => Q o t.device ∧ o ≠ .aborted) s :=
  (Wp.of_ensures Pass.device (fun _ _ _ _ hop hu => (exec_plain (hop _) hu).1)
    (fun _ _ _ _ hc => hc.elim) hp h).not_aborted fun _ _ _ hc => hc

/-- The same for a function that returns a value if `G`, which it does. -/
theorem wp_undocumented_oks {p : Fut (Except Error α)} {G : Prop} {R : α → Device → Prop}
    (hp : p.Uses Undocumented)
    (h : Ensures (world Z .manager) () p (Outcome.oksIff G R) s.device) (hG : G) :
    Wp (passWorld Z config flaky) p (fun o t => ∃ a, o = .returned (.ok a) ∧ R a t.device) s := by
  refine (wp_undocumented hp h).mono fun o t _ ho => ?_
  obtain ⟨hQ, hne⟩ := ho
  rcases o with (e | a) | _ | _
  · exact absurd hG hQ
  · exact ⟨a, rfl, hQ.2⟩
  · exact absurd hG hQ
  · exact absurd rfl hne

end Operations

/-! ### The document of one machine -/

section Machine
variable {Z : Setting} {config : MachineConfig} {flaky : NamespaceId → Prop} {s t : Pass}
  {m : EndpointId} {ticket : DocTicket}

/-- Opening the document of a machine, of which there is a replica then. -/
theorem wp_openDoc (hticket : (Access.manager m).ticket Z.serde s.device = some ticket) :
    Wp (passWorld Z config flaky) ((Access.manager m).openDoc Z.serde).run (fun o t =>
      t.device = s.device ∧ (o = .returned (.ok ticket.capability.id) ∧
          t.current = some ticket.capability.id ∧ (∃ R, s.device.docs ticket.capability.id = some R) ∨
        flaky ticket.capability.id ∧ ∃ e, o = .returned (.error e))) s := by
  rw [Access.openDoc, Fallible.run_bind]
  refine wp_bind ((wp_undocumented_oks (uses_getMachine m fun _ => rfl) (ensures_getMachine m)
    ⟨ticket, hticket⟩).mono fun o t _ ho => ?_)
  obtain ⟨ticket', rfl, ht, hticket'⟩ := ho
  have heq : ticket = ticket' := Option.some.inj (hticket.symm.trans hticket')
  subst heq
  simp only [Outcome.seq_returned, Fallible.andThen_ok, openMachineDoc, Fallible.run_bind,
    run_attempt, call_eq, Prog.await_bind, Prog.pure_bind]
  refine wp_pass fun r u hu => ?_
  obtain ⟨hcur, ⟨he, hs⟩ | ⟨hflaky, ⟨e, rfl⟩, hsame⟩⟩ := exec_document rfl hu
  · rw [ht] at he
    rcases hR : s.device.docs ticket.capability.id with _ | R
    · obtain ⟨a, rfl⟩ := hs
      rw [exec, hR] at he
      rcases he.2 with h | ⟨e, h⟩ <;> cases h
    have hdocs : s.device.docs ticket.capability.id ≠ none := by simp [hR]
    obtain ⟨hsame, rfl⟩ := (exec_docsOpen hdocs).mp he
    rw [Fallible.andThen_ok, Fallible.run_unwrap_some]
    exact wp_pure.mpr ⟨hsame, Or.inl ⟨rfl, hcur, R, rfl⟩⟩
  · rw [Fallible.andThen_error]
    exact wp_pure.mpr ⟨hsame.trans ht, Or.inr ⟨hflaky, e, rfl⟩⟩

/-- What is read as the configuration of a machine. -/
theorem wp_getMachineConfig (hticket : (Access.manager m).ticket Z.serde s.device = some ticket) :
    Wp (passWorld Z config flaky) (getMachineConfig Z.serde m).run (fun o t =>
      t.device = s.device ∧ ∃ r, o = .returned r ∧
        ((∃ R, s.device.docs ticket.capability.id = some R ∧
            r = readConfig Z.serde (configEntry Z R)) ∨
          flaky ticket.capability.id ∧ ∃ e, r = .error e)) s := by
  have heq := (Access.manager m).getMachineConfig_eq Z.serde
  rw [Access.getMachineConfig] at heq
  rw [heq]
  refine wp_bind ((wp_openDoc hticket).mono fun o t _ ho => ?_)
  obtain ⟨ht, ⟨rfl, hcur, R, hR⟩ | ⟨hflaky, e, rfl⟩⟩ := ho
  · simp only [Outcome.seq_returned, Fallible.andThen_ok, Fallible.run_bind, run_attempt, call_eq,
      Prog.await_bind, Prog.pure_bind]
    refine wp_pass fun r u hu => ?_
    obtain ⟨hcur', ⟨he, -⟩ | ⟨hflaky, ⟨e, rfl⟩, hsame⟩⟩ := exec_document rfl hu
    · obtain ⟨hsame, hval⟩ := he
      obtain rfl := hval R (ht ▸ hR)
      have hdevice := hsame.trans ht
      rw [Fallible.andThen_ok]
      rcases hentry : R.value Z.ranking MACHINE_CONFIG_KEY with _ | entry
      · exact wp_pure.mpr ⟨hdevice, _, rfl, Or.inl ⟨R, hR, by rw [configEntry, hentry, readConfig]⟩⟩
      simp only [Fallible.run_bind, run_attempt, Prog.await_bind, Prog.pure_bind]
      refine wp_pass fun r v hv => ?_
      have hdoc : documentOf u.current (.blobsGetBytes entry.content) =
          some ticket.capability.id := hcur'.trans hcur
      obtain ⟨-, ⟨he, -⟩ | ⟨hflaky, ⟨e, rfl⟩, hsame⟩⟩ := exec_document hdoc hv
      · obtain ⟨hsame, rfl⟩ := he
        have hread : readConfig Z.serde (configEntry Z R) = readConfig Z.serde (some entry) := by
          rw [configEntry, hentry]
        rw [Fallible.andThen_ok]
        rcases hdec : Z.serde.config.dec entry.content with _ | c
        · rw [readConfig, hdec] at hread
          exact wp_pure.mpr ⟨hsame.trans hdevice, _, rfl, Or.inl ⟨R, hR, hread.symm⟩⟩
        · rw [readConfig, hdec] at hread
          exact wp_pure.mpr ⟨hsame.trans hdevice, _, rfl, Or.inl ⟨R, hR, hread.symm⟩⟩
      · rw [Fallible.andThen_error]
        exact wp_pure.mpr ⟨hsame.trans hdevice, _, rfl, Or.inr ⟨hflaky, e, rfl⟩⟩
    · rw [Fallible.andThen_error]
      exact wp_pure.mpr ⟨hsame.trans ht, _, rfl, Or.inr ⟨hflaky, e, rfl⟩⟩
  · rw [Outcome.seq_returned, Fallible.andThen_error]
    exact wp_pure.mpr ⟨ht, _, rfl, Or.inr ⟨hflaky, e, rfl⟩⟩

theorem setMachineConfig_eq (J : Serde) (m : EndpointId) (c : MachineConfig) :
    (setMachineConfig J m c).run =
      ((Access.manager m).openDoc J).run.bind (Fallible.andThen fun doc =>
        (do
          let author ← attempt (call .authorDefault)
          attempt (call (.docSetBytes doc author MACHINE_CONFIG_KEY (J.config.enc c))) :
            FutResult Unit).run) := by
  rw [Access.openDoc, Fallible.run_bind, Fallible.andThen_assoc]
  rfl

/-- A write of a configuration. -/
theorem wp_setMachineConfig (hticket : (Access.manager m).ticket Z.serde s.device = some ticket)
    (c : MachineConfig) :
    Wp (passWorld Z config flaky) (setMachineConfig Z.serde m c).run (fun o t =>
      (∃ r, o = .returned r) ∧
        (Z.serde.config.enc c ≠ [] ∧ s.device.Put Z ticket.capability.id .manager
            MACHINE_CONFIG_KEY (Z.serde.config.enc c) t.device ∨
          flaky ticket.capability.id ∧ t.device = s.device)) s := by
  rw [setMachineConfig_eq]
  refine wp_bind ((wp_openDoc hticket).mono fun o t _ ho => ?_)
  obtain ⟨ht, ⟨rfl, hcur, -⟩ | ⟨hflaky, e, rfl⟩⟩ := ho
  · simp only [Outcome.seq_returned, Fallible.andThen_ok, Fallible.run_bind, run_attempt, call_eq,
      Prog.await_bind, Prog.pure_bind]
    refine wp_pass fun r u hu => ?_
    have hdoc : documentOf t.current .authorDefault = some ticket.capability.id := hcur
    obtain ⟨hcur', ⟨he, -⟩ | ⟨hflaky, ⟨e, rfl⟩, hsame⟩⟩ := exec_document hdoc hu
    · obtain ⟨hsame, rfl⟩ := he
      have hdevice := hsame.trans ht
      rw [Fallible.andThen_ok]
      refine wp_pass fun r v hv => ?_
      obtain ⟨-, ⟨he, hs⟩ | ⟨hflaky, -, hsame⟩⟩ := exec_document rfl hv
      · rcases he with ⟨hne, hput, -⟩ | ⟨-, e, rfl⟩
        · exact wp_pure.mpr ⟨⟨_, rfl⟩, Or.inl ⟨hne, hdevice ▸ hput⟩⟩
        · obtain ⟨a, ha⟩ := hs
          cases ha
      · exact wp_pure.mpr ⟨⟨_, rfl⟩, Or.inr ⟨hflaky, hsame.trans hdevice⟩⟩
    · rw [Fallible.andThen_error]
      exact wp_pure.mpr ⟨⟨_, rfl⟩, Or.inr ⟨hflaky, hsame.trans ht⟩⟩
  · rw [Outcome.seq_returned, Fallible.andThen_error]
    exact wp_pure.mpr ⟨⟨_, rfl⟩, Or.inr ⟨hflaky, ht⟩⟩

end Machine

/-! ### Who writes configurations -/

/-- Only the manager has written under the key of the configuration. -/
def ByManager (R : Replica AuthorId) : Prop :=
  ∀ e ∈ R.entries, e.key = MACHINE_CONFIG_KEY → e.author = .manager

/-- The same in all documents of a device. -/
def AllByManager (s : Device) : Prop := ∀ d R, s.docs d = some R → ByManager R

section Writers
variable {Z Z' : Setting} {self : AuthorId} {s s' t : Device} {d : NamespaceId}
  {R R' : Replica AuthorId} {e : Entry AuthorId}

theorem ByManager.receive (h : ByManager R) (he : e.key = MACHINE_CONFIG_KEY → e.author = .manager) :
    ByManager (R.receive e) := by
  intro o ho hk
  rcases Replica.mem_receive ho with rfl | ho
  · exact he hk
  · exact h o ho hk

theorem AllByManager.set (h : AllByManager s) (hR : ByManager R) : AllByManager (s.set d R) := by
  intro d' R' hR'
  rw [Device.set_docs] at hR'
  by_cases hd : d' = d
  · subst hd
    rw [Function.update_self, Option.some.injEq] at hR'
    exact hR' ▸ hR
  · rw [Function.update_of_ne hd] at hR'
    exact h d' R' hR'

theorem AllByManager.put {k v : Bytes} (h : AllByManager s) (hput : s.Put Z d .manager k v s') :
    AllByManager s' := by
  obtain ⟨R, R', hR, hput, rfl⟩ := hput
  refine AllByManager.set h fun e he hk => ?_
  rcases (Replica.mem_put hput).mp he with rfl | ⟨he, -⟩
  · rfl
  · exact h d R hR e he hk

/-- Data of another kind leaves the configuration. -/
theorem AllByManager.moves {kind : Kind} (h : AllByManager s) (hkind : kind.tag ≠ MACHINE_CONFIG_KEY)
    (hmoves : s.Moves (kind.Holds Z.serde) s') : AllByManager s' := by
  have hag : s.AgreeOn (· = MACHINE_CONFIG_KEY) s' := by
    refine hmoves.agreeOn ?_
    rintro e he k rfl
    exact Kind.not_prefix he rfl List.prefix_rfl hkind
  intro d R' hR' e he hk
  have hd := hag.2.2 d
  rw [hR'] at hd
  generalize hx : s.docs d = x at hd
  cases hd with
  | some hd => exact h d _ hx e ((hd.mem hk).mpr he) hk

/-- A program that reads leaves the device. -/
theorem wp_of_reads {α : Type} {P : Bytes → Prop} {p : Fut α} (h : p.Uses (Reads P)) :
    Wp (world Z self) p (fun _ t => t = s) s := by
  induction p with
  | pure a => exact wp_pure.mpr rfl
  | panic => exact wp_panic.mpr rfl
  | await op k ih =>
    refine wp_await.mpr ⟨fun r t ht => ?_, fun t ht => ?_⟩
    · obtain rfl := eq_of_reads h.1 ht
      exact ih r (h.2 r)
    · have hop := h.1
      cases op
      case docSetBytes => exact hop.elim
      case docDel => exact hop.elim
      all_goals exact ht

/-- The manager's `set_machine_config` writes as the manager. -/
theorem wp_setMachineConfig_byManager {m : EndpointId} {c : MachineConfig} (h : AllByManager s) :
    Wp (world Z .manager) (setMachineConfig Z.serde m c).run (fun _ t => AllByManager t) s := by
  rw [setMachineConfig_eq]
  refine wp_bind ((wp_of_reads ((uses_openDoc Z.serde _).mono
    fun _ => Plain.reads (P := fun _ => True))).mono fun o t _ ho => ?_)
  obtain rfl := ho
  rcases o with (e | d) | _ | _
  · rw [Outcome.seq_returned, Fallible.andThen_error]
    exact wp_pure.mpr h
  · simp only [Outcome.seq_returned, Fallible.andThen_ok, Fallible.run_bind, run_attempt, call_eq,
      Prog.await_bind, Prog.pure_bind]
    refine wp_await.mpr ⟨fun r u hu => ?_, fun u hu => hu ▸ h⟩
    obtain ⟨rfl, rfl⟩ := hu
    rw [Fallible.andThen_ok]
    refine wp_await.mpr ⟨fun r v hv => wp_pure.mpr ?_, fun v hv => ?_⟩
    · rcases hv with ⟨-, hput, -⟩ | ⟨rfl, -⟩
      · exact h.put hput
      · exact h
    · rcases hv with rfl | ⟨-, hput⟩
      · exact h
      · exact h.put hput
  · exact h
  · exact h

/-- What writes a configuration is the manager's `set_machine_config`. -/
theorem Update.configures {J : Serde} {kind : Kind} {p : Fut (Except Error Unit)}
    (h : Update J self kind p) : kind.tag ≠ MACHINE_CONFIG_KEY ∨
      self = .manager ∧ ∃ m c, p = (setMachineConfig J m c).run := by
  cases h with
  | setKv => exact Or.inl (by decide)
  | setConfig m c => exact Or.inr ⟨rfl, m, c, rfl⟩
  | payment => exact Or.inl (by simp [Kind.tag, CLAIMABLE_CONTRACT_PREFIX, MACHINE_CONFIG_KEY])
  | removal => exact Or.inl (by simp [Kind.tag, CLAIMABLE_CONTRACT_PREFIX, MACHINE_CONFIG_KEY])

theorem AllByManager.update {kind : Kind} {p : Fut (Except Error Unit)}
    {o : Outcome (Except Error Unit)} (h : AllByManager s) (hp : Update Z.serde self kind p)
    (hr : Runs (world Z self) () Alone p s o s') : AllByManager s' := by
  rcases hp.configures with hkind | ⟨rfl, m, c, rfl⟩
  · exact h.moves hkind (moves_of_writes hp.uses hr)
  · exact hr.wp (wp_setMachineConfig_byManager h)

/-- One step of a machine and the manager: one of them writes, or a record of one arrives at the
other. -/
inductive Exchange (Z Z' : Setting) : Device × Device → Device × Device → Prop
  | machine {kind : Kind} {p : Fut (Except Error Unit)} {o : Outcome (Except Error Unit)}
      {s s' t : Device} : Update Z.serde .machine kind p → Runs (world Z .machine) () Alone p s o s' →
      Exchange Z Z' (s, t) (s', t)
  | manager {kind : Kind} {p : Fut (Except Error Unit)} {o : Outcome (Except Error Unit)}
      {s t t' : Device} : Update Z'.serde .manager kind p →
      Runs (world Z' .manager) () Alone p t o t' → Exchange Z Z' (s, t) (s, t')
  | toMachine {s t : Device} {d : NamespaceId} {R R' : Replica AuthorId} {e : Entry AuthorId} :
      s.docs d = some R → t.docs d = some R' → e ∈ R'.entries →
      Exchange Z Z' (s, t) (s.set d (R.receive e), t)
  | toManager {s t : Device} {d : NamespaceId} {R R' : Replica AuthorId} {e : Entry AuthorId} :
      s.docs d = some R → t.docs d = some R' → e ∈ R.entries →
      Exchange Z Z' (s, t) (s, t.set d (R'.receive e))

theorem Exchange.byManager {x y : Device × Device} (h : Exchange Z Z' x y)
    (hx : AllByManager x.1 ∧ AllByManager x.2) : AllByManager y.1 ∧ AllByManager y.2 := by
  obtain ⟨h1, h2⟩ := hx
  cases h with
  | machine hp hr => exact ⟨h1.update hp hr, h2⟩
  | manager hp hr => exact ⟨h1, h2.update hp hr⟩
  | toMachine hR hR' he => exact ⟨h1.set ((h1 _ _ hR).receive (h2 _ _ hR' _ he)), h2⟩
  | toManager hR hR' he => exact ⟨h1, h2.set ((h2 _ _ hR').receive (h1 _ _ hR _ he))⟩

/-- **Only the manager writes configurations**, whatever the two do and exchange. -/
theorem byManager_of_exchanges {x y : Device × Device}
    (h : Relation.ReflTransGen (Exchange Z Z') x y) (hx : AllByManager x.1 ∧ AllByManager x.2) :
    AllByManager y.1 ∧ AllByManager y.2 := by
  induction h with
  | refl => exact hx
  | tail _ hstep ih => exact hstep.byManager ih

end Writers

/-! ### What a pass does to the documents -/

/-- A pass writes the configuration to a document with this entry. -/
def Needs (J : Serde) (config : MachineConfig) (v : Option (Entry AuthorId)) : Prop :=
  readConfig J v = .ok none ∨ ∃ c, readConfig J v = .ok (some c) ∧
    c.federationInviteCode.federationId ≠ config.federationInviteCode.federationId

/-- **The entries that a pass makes right**: none, one for another federation, or a right one. -/
def Renewable (J : Serde) (config : MachineConfig) (v : Option (Entry AuthorId)) : Prop :=
  Needs J config v ∨ readConfig J v = .ok (some config)

section Updates
variable {Z : Setting} {config : MachineConfig} {s s' t : Device} {R R' : Replica AuthorId}
  {d : NamespaceId}

theorem needs_iff {v : Option (Entry AuthorId)} {r : Except Error (Option MachineConfig)}
    (h : readConfig Z.serde v = r) : Needs Z.serde config v ↔ r = .ok none ∨
      ∃ c, r = .ok (some c) ∧
        c.federationInviteCode.federationId ≠ config.federationInviteCode.federationId := by
  rw [Needs, h]

theorem not_needs_of_right {v : Option (Entry AuthorId)}
    (h : readConfig Z.serde v = .ok (some config)) : ¬ Needs Z.serde config v := by
  rw [needs_iff h]
  rintro (hc | ⟨c, hc, hne⟩)
  · cases hc
  · cases hc
    exact hne rfl

/-- The replica before and after a pass. -/
def Renewed (Z : Setting) (config : MachineConfig) (R R' : Replica AuthorId) : Prop :=
  R' = R ∨ Needs Z.serde config (configEntry Z R) ∧
    readConfig Z.serde (configEntry Z R') = .ok (some config)

theorem Renewed.trans {R'' : Replica AuthorId} (h : Renewed Z config R R')
    (h' : Renewed Z config R' R'') : Renewed Z config R R'' := by
  rcases h with rfl | ⟨hneeds, hright⟩
  · exact h'
  · rcases h' with rfl | ⟨hneeds', -⟩
    · exact Or.inr ⟨hneeds, hright⟩
    · exact absurd hneeds' (not_needs_of_right hright)

/-- The device before and after a pass. -/
structure Updates (Z : Setting) (config : MachineConfig) (s s' : Device) : Prop where
  tickets : s'.tickets = s.tickets
  docs : ∀ d, Option.Rel (Renewed Z config) (s.docs d) (s'.docs d)
  byManager : AllByManager s → AllByManager s'

theorem Updates.refl (s : Device) : Updates Z config s s where
  tickets := rfl
  docs d := by
    rcases s.docs d with _ | R
    · exact .none
    · exact .some (Or.inl rfl)
  byManager h := h

theorem Updates.trans (h : Updates Z config s s') (h' : Updates Z config s' t) :
    Updates Z config s t where
  tickets := h'.tickets.trans h.tickets
  docs d := by
    have h1 := h.docs d
    have h2 := h'.docs d
    generalize s.docs d = x, s'.docs d = y, t.docs d = z at h1 h2
    cases h1 with
    | none => exact h2
    | some h1 =>
      cases h2 with
      | some h2 => exact .some (h1.trans h2)
  byManager hs := h'.byManager (h.byManager hs)

/-- The documents of which a replica shows this entry. -/
theorem Updates.replica (h : Updates Z config s s') (hR : s.docs d = some R) :
    ∃ R', s'.docs d = some R' ∧ Renewed Z config R R' := by
  have hd := h.docs d
  rw [hR] at hd
  generalize s'.docs d = y at hd
  cases hd with
  | some hd => exact ⟨_, rfl, hd⟩

/-- A document that needs no write is left as it is. -/
theorem Updates.unchanged (h : Updates Z config s s') (hR : s.docs d = some R)
    (hneeds : ¬ Needs Z.serde config (configEntry Z R)) : s'.docs d = s.docs d := by
  obtain ⟨R', hR', rfl | ⟨hn, -⟩⟩ := h.replica hR
  · rw [hR, hR']
  · exact absurd hn hneeds

/-- A write of the manager is shown, since it alone writes under the key. -/
theorem configEntry_put {e : Entry AuthorId} (h : R.put e = some R') (hby : ByManager R)
    (ha : e.author = .manager) (hk : e.key = MACHINE_CONFIG_KEY) (hne : e.content ≠ []) :
    configEntry Z R' = some e := by
  refine Replica.value_eq_some.mpr ⟨?_, hne⟩
  rw [← hk]
  refine (Replica.shownAt_put_self h).mpr fun o ho hok hoa => ?_
  exact absurd ((hby o ho (hok.trans hk)).trans ha.symm) hoa

/-- The manager's write of a configuration is read. -/
theorem readConfig_put (hR : s.docs d = some R) (hby : ByManager R)
    (hne : Z.serde.config.enc config ≠ [])
    (h : s.Put Z d .manager MACHINE_CONFIG_KEY (Z.serde.config.enc config) s') :
    ∃ R', s'.docs d = some R' ∧ readConfig Z.serde (configEntry Z R') = .ok (some config) := by
  obtain ⟨R₀, R', hR₀, hput, rfl⟩ := h
  obtain rfl := Option.some.inj (hR.symm.trans hR₀)
  refine ⟨R', by rw [Device.set_docs, Function.update_self], ?_⟩
  rw [configEntry_put hput hby rfl rfl hne, readConfig, Z.serde.config.decode_encode]

/-- The write of a configuration where it is needed. -/
theorem Updates.put (hby : AllByManager s) (hR : s.docs d = some R)
    (hneeds : Needs Z.serde config (configEntry Z R)) (hne : Z.serde.config.enc config ≠ [])
    (h : s.Put Z d .manager MACHINE_CONFIG_KEY (Z.serde.config.enc config) s') :
    Updates Z config s s' := by
  obtain ⟨R', hR', hright⟩ := readConfig_put hR (hby d R hR) hne h
  have hby' := hby.put h
  obtain ⟨R₀, R₁, -, -, rfl⟩ := h
  refine ⟨rfl, fun d' => ?_, fun _ => hby'⟩
  by_cases hd : d' = d
  · subst hd
    rw [hR', hR]
    exact .some (Or.inr ⟨hneeds, hright⟩)
  · rw [Device.set_docs, Function.update_of_ne hd]
    exact (Updates.refl s).docs d'

end Updates

/-! ### The pass -/

/-- The loop of a pass over the documents of the machines `l` has ended in `t`: it has returned, and no
document needs a write any more, those of `flaky` apart. -/
structure Passed (Z : Setting) (config : MachineConfig) (flaky : NamespaceId → Prop)
    (l : List (EndpointId × DocTicket)) (s : Device) (o : Outcome Unit) (t : Device) : Prop where
  returned : o = .returned ()
  updates : Updates Z config s t
  settled : ∀ x ∈ l, ¬ flaky x.2.capability.id → ∃ R, t.docs x.2.capability.id = some R ∧
    ¬ Needs Z.serde config (configEntry Z R)

section Passes
variable {Z : Setting} {config : MachineConfig} {flaky : NamespaceId → Prop} {s : Pass}

/-- One machine, then the others. -/
theorem Passed.cons {x : EndpointId × DocTicket} {l : List (EndpointId × DocTicket)}
    {s u t : Device} {o : Outcome Unit} (h : Passed Z config flaky l u o t)
    (hu : Updates Z config s u) (hx : ¬ flaky x.2.capability.id →
      ∃ R, u.docs x.2.capability.id = some R ∧ ¬ Needs Z.serde config (configEntry Z R)) :
    Passed Z config flaky (x :: l) s o t := by
  refine ⟨h.returned, hu.trans h.updates, fun y hy hflaky => ?_⟩
  rcases List.mem_cons.mp hy with rfl | hy
  · obtain ⟨R, hR, hneeds⟩ := hx hflaky
    exact ⟨R, (h.updates.unchanged hR hneeds).trans hR, hneeds⟩
  · exact h.settled y hy hflaky

/-- **The loop of a pass.** -/
theorem wp_updateMachines : ∀ (l : List (EndpointId × DocTicket)) {s : Pass},
    (∀ x ∈ l, (Access.manager x.1).ticket Z.serde s.device = some x.2) →
      AllByManager s.device →
        Wp (passWorld Z config flaky) (Manager.updateMachines Z.serde config l)
          (fun o t => Passed Z config flaky l s.device o t.device) s
  | [], s, _, _ => wp_pure.mpr ⟨rfl, .refl _, fun x hx => by cases hx⟩
  | (m, ticket) :: l, s, hl, hby => by
    have hticket := hl _ (List.mem_cons_self ..)
    -- The others, once the document of `m` needs no write.
    have hrest : ∀ u : Pass, Updates Z config s.device u.device →
        (¬ flaky ticket.capability.id → ∃ R, u.device.docs ticket.capability.id = some R ∧
          ¬ Needs Z.serde config (configEntry Z R)) →
        Wp (passWorld Z config flaky) (Manager.updateMachines Z.serde config l)
          (fun o t => Passed Z config flaky ((m, ticket) :: l) s.device o t.device) u := by
      intro u hu hdone
      refine (wp_updateMachines l (fun x hx => ?_) (hu.byManager hby)).mono fun o t _ ho =>
        ho.cons hu hdone
      rw [Access.ticket, hu.tickets]
      exact hl x (List.mem_cons_of_mem _ hx)
    rw [Manager.updateMachines]
    refine wp_bind ((wp_getMachineConfig hticket).mono fun o t _ ho => ?_)
    obtain ⟨ht, r, rfl, ⟨R, hR, rfl⟩ | ⟨hflaky, e, rfl⟩⟩ := ho
    · have hwrite : Needs Z.serde config (configEntry Z R) → Wp (passWorld Z config flaky)
          ((setMachineConfig Z.serde m config).run.bind fun _ =>
            Manager.updateMachines Z.serde config l)
          (fun o t => Passed Z config flaky ((m, ticket) :: l) s.device o t.device) t := by
        intro hneeds
        refine wp_bind ((wp_setMachineConfig (ht ▸ hticket) config).mono fun o u _ ho => ?_)
        obtain ⟨⟨r, rfl⟩, ⟨hne, hput⟩ | ⟨hflaky, hsame⟩⟩ := ho
        · rw [ht] at hput
          obtain ⟨R', hR', hright⟩ := readConfig_put hR (hby _ R hR) hne hput
          exact hrest u (.put hby hR hneeds hne hput) fun _ => ⟨R', hR', not_needs_of_right hright⟩
        · exact hrest u (hsame.trans ht ▸ .refl _) fun h => absurd hflaky h
      have hskip : ¬ Needs Z.serde config (configEntry Z R) → Wp (passWorld Z config flaky)
          (Manager.updateMachines Z.serde config l)
          (fun o t => Passed Z config flaky ((m, ticket) :: l) s.device o t.device) t :=
        fun hneeds => hrest t (ht ▸ .refl _) fun _ => ⟨R, ht ▸ hR, hneeds⟩
      rw [Outcome.seq_returned]
      rcases hread : readConfig Z.serde (configEntry Z R) with e | _ | c
      · refine hskip ?_
        rw [needs_iff hread]
        rintro (h | ⟨c, h, -⟩) <;> cases h
      · exact hwrite (Or.inl hread)
      · by_cases hfed : c.federationInviteCode.federationId =
          config.federationInviteCode.federationId
        · simp only [hfed, ne_eq, not_true_eq_false, decide_false, Bool.false_eq_true, if_false]
          refine hskip ?_
          rw [needs_iff hread]
          rintro (h | ⟨c', h, hne⟩)
          · cases h
          · cases h
            exact hne hfed
        · simp only [ne_eq, hfed, not_false_eq_true, decide_true, if_true]
          exact hwrite (Or.inr ⟨c, hread, hfed⟩)
    · exact hrest t (ht ▸ .refl _) fun h => absurd hflaky h

/-- The default federation of the wallet is that of the configuration. -/
theorem wp_getDefaultFederation : Wp (passWorld Z config flaky)
    (Wallet.getDefaultFederation Z.serde).run (fun o t => t.device = s.device ∧
      o = .returned (.ok (some config.federationInviteCode))) s := by
  simp only [Wallet.getDefaultFederation, Fallible.run_bind, await_eq, Fallible.run_of,
    Prog.await_bind, Prog.pure_bind, Fallible.andThen_ok, run_guarded, Fallible.run_ite,
    run_attempt, call_eq]
  refine wp_pass fun _ t₁ h₁ => ?_
  obtain ⟨ht₁, -, -, -⟩ := exec_plain rfl h₁
  refine wp_pass fun _ t₂ h₂ => ?_
  obtain ⟨ht₂, -, rfl, -⟩ := exec_plain rfl h₂
  rw [if_pos rfl]
  refine wp_pass fun _ t₃ h₃ => ?_
  obtain ⟨⟨ht₃, -⟩, -, ⟨b, rfl, hdec⟩, -⟩ := exec_plain rfl h₃
  simp only [Fallible.andThen_ok, hdec, run_fromSlice_some, Prog.pure_bind]
  refine wp_pass fun _ t₄ h₄ => ?_
  obtain ⟨ht₄, -, -, -⟩ := exec_plain rfl h₄
  exact wp_pure.mpr ⟨ht₄.trans (ht₃.trans (ht₂.trans ht₁)), rfl⟩

/-- The claim key of the wallet is that of the configuration. -/
theorem wp_getLnv2ClaimPubkey : Wp (passWorld Z config flaky)
    (Wallet.getLnv2ClaimPubkey config.federationInviteCode.federationId) (fun o t =>
      t.device = s.device ∧ o = .returned (some config.claimerPk)) s := by
  rw [Wallet.getLnv2ClaimPubkey, Wallet.withClient_eq, call_eq]
  refine wp_pass fun _ t₁ h₁ => ?_
  obtain ⟨ht₁, -, -, -⟩ := exec_plain rfl h₁
  refine wp_pass fun _ t₂ h₂ => ?_
  obtain ⟨ht₂, -, hconnected, -⟩ := exec_plain rfl h₂
  rw [hconnected rfl, if_pos rfl]
  refine wp_pass fun _ t₃ h₃ => ?_
  obtain ⟨ht₃, -, hkey, -⟩ := exec_plain rfl h₃
  rw [hkey rfl]
  refine wp_pass fun _ t₄ h₄ => ?_
  obtain ⟨ht₄, -, -, -⟩ := exec_plain rfl h₄
  exact wp_pure.mpr ⟨ht₄.trans (ht₃.trans (ht₂.trans ht₁)), rfl⟩

/-- The machines whose tickets are listed, with their tickets. -/
def listed (J : Serde) (s : Device) : List (EndpointId × DocTicket) :=
  s.tickets.names.filterMap fun m => ((Access.manager m).ticket J s).map fun t => (m, t)

theorem mem_listed {J : Serde} {s : Device} {x : EndpointId × DocTicket} :
    x ∈ listed J s ↔ x.1 ∈ s.tickets.names ∧ (Access.manager x.1).ticket J s = some x.2 := by
  simp only [listed, List.mem_filterMap, Option.map_eq_some_iff]
  constructor
  · rintro ⟨m, hm, t, ht, rfl⟩
    exact ⟨hm, ht⟩
  · rintro ⟨hm, ht⟩
    exact ⟨x.1, hm, x.2, ht, rfl⟩

/-- **A pass** over the machines that are listed. -/
theorem wp_updateMachineConfigs
    (hticket : ∀ m ∈ s.device.tickets.names,
      ∃ ticket, (Access.manager m).ticket Z.serde s.device = some ticket)
    (hby : AllByManager s.device) :
    Wp (passWorld Z config flaky) (Manager.updateMachineConfigs Z.serde)
      (fun o t => Passed Z config flaky (listed Z.serde s.device) s.device o t.device) s := by
  rw [Manager.updateMachineConfigs]
  refine wp_bind (wp_getDefaultFederation.mono fun o t _ ho => ?_)
  obtain ⟨ht, rfl⟩ := ho
  refine wp_bind (wp_getLnv2ClaimPubkey.mono fun o u _ ho => ?_)
  obtain ⟨hu, rfl⟩ := ho
  have hsame : u.device = s.device := hu.trans ht
  refine wp_bind ((wp_undocumented_oks (uses_listMachines (fun _ => rfl) (fun _ _ => rfl)
    fun _ _ => rfl) ensures_listMachines (hsame ▸ hticket)).mono fun o v _ ho => ?_)
  obtain ⟨l, rfl, hv, hperm⟩ := ho
  have hdevice : v.device = s.device := hv.trans hsame
  have hl : l.Perm (listed Z.serde s.device) := hsame ▸ hperm
  refine (wp_updateMachines l (fun x hx => ?_) (hdevice ▸ hby)).mono fun o w _ ho => ?_
  · rw [hdevice]
    exact (mem_listed.mp (hl.mem_iff.mp hx)).2
  · exact ⟨ho.returned, hdevice ▸ ho.updates, fun x hx => ho.settled x (hl.mem_iff.mpr hx)⟩

end Passes

/-! ### Convergence -/

/-- The configuration of the machine `m` with the document `d` is `config`: the manager reads it, and
so does a device that has the manager's records under the key. -/
structure Configured (Z : Setting) (s : Device) (m : EndpointId) (d : NamespaceId)
    (config : MachineConfig) : Prop where
  manager : ∀ r, Returns (world Z .manager) () (getMachineConfig Z.serde m).run s r ↔
    r = .ok (some config)
  machine : ∀ {Z' : Setting} {s' : Device} {R R' : Replica AuthorId}, Z'.serde = Z.serde →
    Z'.ranking = Z.ranking → s.docs d = some R → Access.machine.Opens Z'.serde s' d R' →
    Replica.AgreeOn (· = MACHINE_CONFIG_KEY) R R' → ∀ r,
      Returns (world Z' .machine) () (MachineProtocol.getMachineConfig Z'.serde).run s' r ↔
        r = .ok (some config)

section Converge
variable {Z : Setting} {config : MachineConfig} {flaky : NamespaceId → Prop} {s t : Pass}
  {m : EndpointId} {d : NamespaceId}

theorem configured_iff {s : Device} {R : Replica AuthorId}
    (h : (Access.manager m).Opens Z.serde s d R) :
    Configured Z s m d config ↔ readConfig Z.serde (configEntry Z R) = .ok (some config) := by
  constructor
  · intro hc
    exact ((hc.manager _).mp ((returns_getMachineConfig h).mpr rfl)).symm ▸ rfl
  · intro hread
    obtain ⟨ticket, hticket, hd, hR⟩ := h
    refine ⟨fun r => ?_, fun {Z' s' R₁ R'} hserde hrank hR₁ h' hag r => ?_⟩
    · rw [← hread]
      exact returns_getMachineConfig (x := .manager m) ⟨ticket, hticket, hd, hR⟩
    · obtain rfl := Option.some.inj (hR.symm.trans hR₁)
      have hentry : configEntry Z' R' = configEntry Z R := by
        rw [configEntry, configEntry, hrank, hag.value rfl]
      rw [← hread, ← hentry, ← hserde]
      exact returns_getMachineConfig (x := .machine) h'

/-- **The configurations converge in one pass exactly where the entry before it was absent, for
another federation or right already**; and where no operation failed, the next pass writes nothing. -/
theorem configs_converge_iff {o : Outcome Unit}
    (hticket : ∀ m ∈ s.device.tickets.names,
      ∃ ticket, (Access.manager m).ticket Z.serde s.device = some ticket)
    (hby : AllByManager s.device)
    (hrun : Runs (passWorld Z config flaky) () Alone (Manager.updateMachineConfigs Z.serde) s o t) :
    o = .returned () ∧ ∀ m d R, (Access.manager m).Opens Z.serde s.device d R → ¬ flaky d →
      (Configured Z t.device m d config ↔ Renewable Z.serde config (configEntry Z R)) ∧
      ∀ flaky' o' u, Runs (passWorld Z config flaky') () Alone
        (Manager.updateMachineConfigs Z.serde) t o' u → u.device.docs d = t.device.docs d := by
  have hpass := hrun.wp (wp_updateMachineConfigs hticket hby)
  refine ⟨hpass.returned, fun m d R hopens hflaky => ?_⟩
  obtain ⟨ticket, hm, rfl, hR⟩ := hopens
  have htickets := hpass.updates.tickets
  have hlisted : (m, ticket) ∈ listed Z.serde s.device := by
    refine mem_listed.mpr ⟨(s.device.tickets.mem_names m).mpr ?_, hm⟩
    rcases hf : s.device.tickets.file m with _ | b
    · rw [Access.ticket, hf] at hm
      cases hm
    · rfl
  obtain ⟨R', hR', hneeds'⟩ := hpass.settled _ hlisted hflaky
  have hm' : (Access.manager m).ticket Z.serde t.device = some ticket := by
    rw [Access.ticket, htickets]
    exact hm
  have hread : readConfig Z.serde (configEntry Z R') = .ok (some config) ↔
      Renewable Z.serde config (configEntry Z R) := by
    obtain ⟨R₁, hR₁, hrenewed⟩ := hpass.updates.replica hR
    obtain rfl := Option.some.inj (hR'.symm.trans hR₁)
    rcases hrenewed with rfl | ⟨hneeds, hright⟩
    · exact ⟨Or.inr, fun h => h.resolve_left hneeds'⟩
    · exact ⟨fun _ => Or.inl hneeds, fun _ => hright⟩
  refine ⟨(configured_iff ⟨ticket, hm', rfl, hR'⟩).trans hread, fun flaky' o' u hrun' => ?_⟩
  have hpass' := hrun'.wp (wp_updateMachineConfigs (fun m hm => ?_) (hpass.updates.byManager hby))
  · exact hpass'.updates.unchanged hR' hneeds'
  · rw [htickets] at hm
    rw [Access.ticket, htickets]
    exact hticket m hm

end Converge

namespace Recharge

def machineId : EndpointId := ⟨.replicate 32 1⟩

def docId : NamespaceId := ⟨.replicate 32 2⟩

def invite (b : UInt8) : InviteCode := ⟨⟨.replicate 32 b⟩, []⟩

/-- The configuration for federation `b` with the claim key `k`. -/
def configFor (b k : UInt8) : MachineConfig := ⟨invite b, ⟨.replicate 33 k⟩⟩

/-- The manager's record of a configuration. -/
def record (time : ℕ) (c : MachineConfig) : Entry AuthorId :=
  ⟨.manager, MACHINE_CONFIG_KEY, time, Serde.framed.config.enc c⟩

/-- A document with one configuration. -/
def replica (time : ℕ) (c : MachineConfig) : Replica AuthorId :=
  ⟨[record time c], List.nodup_singleton _⟩

def device (R : Replica AuthorId) : Device := .single .framed machineId docId R

theorem configEntry_replica (start time : ℕ) (c : MachineConfig) :
    configEntry (.counting start) (replica time c) = some (record time c) := by
  refine Replica.value_eq_some.mpr ⟨Replica.shownAt_eq_some.mpr ⟨List.mem_singleton.mpr rfl, rfl,
    fun o ho _ => ?_⟩, Codec.frame_ne_nil _⟩
  rw [List.mem_singleton.mp ho]

theorem readConfig_replica (start time : ℕ) (c : MachineConfig) :
    readConfig Serde.framed (configEntry (.counting start) (replica time c)) = .ok (some c) := by
  rw [configEntry_replica, readConfig, record, Serde.framed.config.decode_encode]

theorem put_record {start time : ℕ} (htime : time < start) (c config : MachineConfig) :
    (replica time c).put (record start config) = some (replica start config) := by
  have hdrops : Replica.Drops (record start config) (record time c) :=
    ⟨rfl, List.prefix_rfl, htime.le⟩
  rw [Replica.put, dif_neg]
  · simp [replica, hdrops]
  · rintro ⟨o, ho, -, -, hlt⟩
    rw [List.mem_singleton.mp ho] at hlt
    exact absurd hlt (not_le.mpr htime)

theorem opens_device (R : Replica AuthorId) :
    (Access.manager machineId).Opens Serde.framed (device R) docId R :=
  Access.single_opens _ _ (Or.inr rfl) docId R

theorem ticket_device (R : Replica AuthorId) : ∀ m ∈ (device R).tickets.names,
    ∃ ticket, (Access.manager m).ticket Serde.framed (device R) = some ticket := by
  intro m hm
  rw [List.mem_singleton.mp hm]
  obtain ⟨t, ht, -⟩ := opens_device R
  exact ⟨t, ht⟩

theorem allByManager_device (time : ℕ) (c : MachineConfig) :
    AllByManager (device (replica time c)) := by
  intro d R hR e he _
  obtain ⟨-, rfl⟩ := Device.eq_of_single_docs hR
  rw [List.mem_singleton.mp he]
  rfl

section Runs
variable {start : ℕ} {config : MachineConfig} {flaky : NamespaceId → Prop} {R : Replica AuthorId}
  {s t : Pass} {o : Outcome Unit}

theorem runs_getDefaultFederation : Runs (passWorld (.counting start) config flaky) () Alone
    (Wallet.getDefaultFederation .framed).run s
    (.returned (.ok (some config.federationInviteCode))) s := by
  simp only [Wallet.getDefaultFederation, Fallible.run_bind, await_eq, Fallible.run_of,
    Prog.await_bind, Prog.pure_bind, Fallible.andThen_ok, run_guarded, Fallible.run_ite,
    run_attempt, call_eq]
  have hinvite : Serde.framed.invite.dec (Serde.framed.invite.enc config.federationInviteCode) =
      some config.federationInviteCode := Serde.framed.invite.decode_encode _
  refine runs_next .dataDirLock () s ⟨rfl, Or.inl ⟨rfl, trivial, trivial⟩⟩ ?_
  refine runs_next (.pathExists .defaultFederation) true s ⟨rfl, Or.inl ⟨rfl, trivial, rfl⟩⟩ ?_
  refine runs_next (.readFile .defaultFederation)
    (.ok (Serde.framed.invite.enc config.federationInviteCode)) s
    ⟨rfl, Or.inl ⟨⟨rfl, trivial⟩, ⟨_, rfl⟩, _, rfl, hinvite⟩⟩ ?_
  simp only [Fallible.andThen_ok, hinvite, run_fromSlice_some, Prog.pure_bind, Fallible.run_pure]
  exact runs_next .dataDirRelease () s ⟨rfl, Or.inl ⟨rfl, trivial, trivial⟩⟩ (.returned _ _)

theorem runs_getLnv2ClaimPubkey : Runs (passWorld (.counting start) config flaky) () Alone
    (Wallet.getLnv2ClaimPubkey config.federationInviteCode.federationId) s
    (.returned (some config.claimerPk)) s := by
  rw [Wallet.getLnv2ClaimPubkey, Wallet.withClient_eq]
  refine runs_next .clientsRead () s ⟨rfl, Or.inl ⟨rfl, trivial, trivial⟩⟩ ?_
  refine runs_next (.clientsContains _) true s ⟨rfl, Or.inl ⟨rfl, trivial, fun _ => rfl⟩⟩ ?_
  refine runs_next (.lnPublicKey _) config.claimerPk s
    ⟨rfl, Or.inl ⟨rfl, trivial, fun _ => rfl⟩⟩ ?_
  exact runs_next .clientsRelease () s ⟨rfl, Or.inl ⟨rfl, trivial, trivial⟩⟩ (.returned _ _)

theorem runs_getMachine (hs : s.device = device R) :
    Runs (passWorld (.counting start) config flaky) () Alone (getMachine .framed machineId).run s
      (.returned (.ok ⟨.write docId⟩)) s := by
  simp only [getMachine, Fallible.run_bind, run_attempt, call_eq, Prog.await_bind, Prog.pure_bind]
  refine runs_next (.readFile _) (.ok (Serde.framed.ticket.enc ⟨.write docId⟩)) s
    ⟨rfl, Or.inl ⟨⟨rfl, ?_⟩, ⟨_, rfl⟩, trivial⟩⟩ ?_
  · rw [hs]
    exact (Device.single_read ..).symm
  · simp only [Fallible.andThen_ok, Format.decode_encode]
    exact .returned _ _

theorem runs_listMachines (hs : s.device = device R) :
    Runs (passWorld (.counting start) config flaky) () Alone (listMachines .framed).run s
      (.returned (.ok [(machineId, ⟨.write docId⟩)])) s := by
  simp only [listMachines, Fallible.run_bind, run_attempt, call_eq, Prog.await_bind, Prog.pure_bind]
  have hnames : [machineId].Perm s.device.tickets.names := by
    rw [hs]
    exact List.Perm.refl _
  refine runs_next (.readDir .machineDocTicketsDir) (.ok [.endpoint machineId]) s
    ⟨rfl, Or.inl ⟨⟨rfl, fun _ => ⟨[machineId], hnames, rfl⟩⟩, ⟨_, rfl⟩, trivial⟩⟩ ?_
  simp only [machinesOf, Fallible.run_bind, Fallible.run_ite, run_attempt, call_eq,
    Prog.await_bind, Prog.pure_bind, endpointOfName, Fallible.run_unwrap_some, Fallible.andThen_ok]
  refine runs_next (.isFile _) (.ok true) s ⟨rfl, Or.inl ⟨⟨rfl, rfl⟩, ⟨_, rfl⟩, trivial⟩⟩ ?_
  refine runs_next (.readFile _) (.ok (Serde.framed.ticket.enc ⟨.write docId⟩)) s
    ⟨rfl, Or.inl ⟨⟨rfl, ?_⟩, ⟨_, rfl⟩, trivial⟩⟩ ?_
  · rw [hs]
    exact (Device.single_read ..).symm
  · simp only [Fallible.andThen_ok, Format.decode_encode]
    exact .returned _ _

/-- Opening the document. -/
theorem runs_openMachineDoc (hs : s.device = device R) :
    Runs (passWorld (.counting start) config flaky) () Alone (openMachineDoc ⟨.write docId⟩).run s
      (.returned (.ok docId)) { s with current := some docId } := by
  have hdocs : s.device.docs docId ≠ none := by
    rw [hs, device, Device.single_docs]
    simp
  simp only [openMachineDoc, Fallible.run_bind, run_attempt, call_eq, Prog.await_bind,
    Prog.pure_bind]
  refine runs_next (.docsOpen docId) (.ok (some docId)) { s with current := some docId }
    ⟨rfl, Or.inl ⟨?_, ⟨_, rfl⟩, trivial⟩⟩ (.returned _ _)
  exact (exec_docsOpen hdocs).mpr ⟨rfl, rfl⟩

/-- Reading the configuration that the document shows. -/
theorem runs_getMachineConfig {c : MachineConfig} {e : Entry AuthorId} (hs : s.device = device R)
    (hentry : configEntry (.counting start) R = some e)
    (hdec : Serde.framed.config.dec e.content = some c) :
    Runs (passWorld (.counting start) config flaky) () Alone
      (getMachineConfig .framed machineId).run s (.returned (.ok (some c)))
      { s with current := some docId } := by
  simp only [getMachineConfig, Fallible.run_bind]
  refine Runs.bind (runs_getMachine hs) rfl (Runs.bind (runs_openMachineDoc hs) rfl ?_)
  refine runs_next (.docGetOne docId MACHINE_CONFIG_KEY) (.ok (some e)) _
    ⟨rfl, Or.inl ⟨⟨rfl, fun R' hR' => ?_⟩, ⟨_, rfl⟩, trivial⟩⟩ ?_
  · rw [hs, device, Device.single_docs, Option.some.injEq] at hR'
    rw [← hR', ← hentry, configEntry]
  simp only [Fallible.andThen_ok, Fallible.run_bind, run_attempt, call_eq, Prog.await_bind,
    Prog.pure_bind]
  refine runs_next (.blobsGetBytes e.content) (.ok e.content) _
    ⟨rfl, Or.inl ⟨⟨rfl, rfl⟩, ⟨_, rfl⟩, trivial⟩⟩ ?_
  simp only [Fallible.andThen_ok, hdec]
  exact .returned _ _

/-- A pass over the machine. -/
theorem runs_pass (hs : s.device = device R)
    (h : Runs (passWorld (.counting start) config flaky) () Alone
      (Manager.updateMachines .framed config [(machineId, ⟨.write docId⟩)]) s o t) :
    Runs (passWorld (.counting start) config flaky) () Alone
      (Manager.updateMachineConfigs .framed) s o t := by
  refine Runs.bind runs_getDefaultFederation rfl ?_
  refine Runs.bind runs_getLnv2ClaimPubkey rfl ?_
  exact Runs.bind (runs_listMachines hs) rfl h

/-- A pass that leaves a configuration for the same federation. -/
theorem runs_pass_kept {time : ℕ} {c : MachineConfig} (hs : s.device = device (replica time c))
    (hfed : c.federationInviteCode.federationId = config.federationInviteCode.federationId) :
    Runs (passWorld (.counting start) config flaky) () Alone
      (Manager.updateMachineConfigs .framed) s (.returned ()) { s with current := some docId } := by
  refine runs_pass hs (Runs.bind (runs_getMachineConfig hs (configEntry_replica start time c)
    (Serde.framed.config.decode_encode c)) rfl ?_)
  simp only [hfed, ne_eq, not_true_eq_false, decide_false, Bool.false_eq_true, if_false]
  exact .returned _ _

/-- A pass that writes the configuration in place of one for another federation. -/
theorem runs_pass_written {time : ℕ} {c : MachineConfig} (htime : time < start)
    (hfed : c.federationInviteCode.federationId ≠ config.federationInviteCode.federationId) :
    Runs (passWorld (.counting start) config flaky) () Alone (Manager.updateMachineConfigs .framed)
      ⟨device (replica time c), none⟩ (.returned ())
      ⟨Device.set { device (replica time c) with writes := 1 } docId (replica start config),
        some docId⟩ := by
  have hput := put_record htime c config
  refine runs_pass rfl (Runs.bind (runs_getMachineConfig rfl (configEntry_replica start time c)
    (Serde.framed.config.decode_encode c)) rfl ?_)
  simp only [ne_eq, hfed, not_false_eq_true, decide_true, if_true]
  refine Runs.bind (a := .ok ()) ?_ rfl (.returned _ _)
  simp only [setMachineConfig, Fallible.run_bind]
  refine Runs.bind (runs_getMachine rfl) rfl (Runs.bind (runs_openMachineDoc rfl) rfl ?_)
  refine runs_next .authorDefault (.ok .manager) _
    ⟨rfl, Or.inl ⟨⟨rfl, rfl⟩, ⟨_, rfl⟩, trivial⟩⟩ ?_
  refine runs_next (.docSetBytes docId .manager MACHINE_CONFIG_KEY _) (.ok ())
    ⟨Device.set { device (replica time c) with writes := 1 } docId (replica start config),
      some docId⟩ ⟨rfl, Or.inl ⟨Or.inl ⟨Codec.frame_ne_nil _, ?_, rfl⟩, ⟨_, rfl⟩, trivial⟩⟩
    (.returned _ _)
  exact ⟨_, _, Device.single_docs .., hput, rfl⟩

end Runs

end Recharge

open Recharge in
/-- A configuration for another federation is replaced. -/
theorem configs_converge_written :
    (Outcome.returned () : Outcome Unit) = .returned () ∧ ∀ m d R,
      (Access.manager m).Opens Serde.framed (device (replica 0 (configFor 3 5))) d R → ¬ False →
      (Configured (.counting 1) (Device.set { device (replica 0 (configFor 3 5)) with writes := 1 }
          docId (replica 1 (configFor 4 5))) m d (configFor 4 5) ↔
        Renewable Serde.framed (configFor 4 5) (configEntry (.counting 1) R)) ∧
      ∀ flaky' o' u, Runs (passWorld (.counting 1) (configFor 4 5) flaky') () Alone
        (Manager.updateMachineConfigs .framed)
        ⟨Device.set { device (replica 0 (configFor 3 5)) with writes := 1 } docId
          (replica 1 (configFor 4 5)), some docId⟩ o' u →
        u.device.docs d = (Device.set { device (replica 0 (configFor 3 5)) with writes := 1 } docId
          (replica 1 (configFor 4 5))).docs d :=
  @configs_converge_iff _ _ (fun _ => False) _ _ _ (ticket_device _) (allByManager_device 0 _)
    (runs_pass_written (by decide) (by decide))

open Recharge in
/-- **A configuration with another claim key is kept**, if it is for the same federation. -/
theorem claim_key_not_replaced : ¬ ∀ (Z : Setting) (config : MachineConfig) (s t : Pass)
    (o : Outcome Unit), (∀ m ∈ s.device.tickets.names,
      ∃ ticket, (Access.manager m).ticket Z.serde s.device = some ticket) →
    AllByManager s.device → Runs (passWorld Z config fun _ => False) () Alone
      (Manager.updateMachineConfigs Z.serde) s o t →
    ∀ m d R, (Access.manager m).Opens Z.serde s.device d R → Configured Z t.device m d config := by
  intro h
  have hc := h (.counting 1) (configFor 3 6) ⟨device (replica 0 (configFor 3 5)), none⟩ _ _
    (ticket_device _) (allByManager_device 0 _) (runs_pass_kept rfl rfl) machineId docId _
    (opens_device _)
  have hread := (configured_iff (Z := .counting 1) (opens_device _)).mp hc
  have hread' : readConfig Serde.framed _ = _ := hread
  rw [readConfig_replica 1 0 (configFor 3 5)] at hread'
  exact absurd hread' (by decide)

end Vendimint.Document
