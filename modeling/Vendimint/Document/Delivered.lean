import Vendimint.Document.Converge
import Vendimint.Document.Readers
import Vendimint.Document.Shared

/-! # What the two devices read

After any run of the calls of both devices and of the exchange between them:

* `devices_converge`: **devices that have caught up with each other have the same records and read the
  same**, and an exchange of what they have leads there.
* `config_arrives`: **the configuration that the manager has set is what the machine reads** as soon as
  it has caught up, until the manager sets another one. -/

namespace Vendimint.Document

open Vendimint.Store Vendimint.Async Vendimint.ManagerProtocol

/-! ### Exchanging all records -/

section Exchanges
variable {V : Sharing} {s s' : Devices} {x y : AuthorId} {d : NamespaceId} {R R' : Replica AuthorId}
  {P : Calls}

theorem Device.set_eq_self {s : Device} (h : s.docs d = some R) : s.set d R = s := by
  rw [Device.set, ← h, Function.update_eq_self]

theorem Device.set_set (s : Device) (d : NamespaceId) (R R' : Replica AuthorId) :
    (s.set d R).set d R' = s.set d R' := by
  simp only [Device.set, Function.update_idem]

/-- The records of a list arrive one after the other. -/
theorem exchanges (hne : x ≠ y) : ∀ {l : List (Entry AuthorId)} {s : Devices} {R' : Replica AuthorId},
    l ⊆ R.entries → (s x).docs d = some R → (s y).docs d = some R' →
      Relation.ReflTransGen Syncs s (Function.update s y ((s y).set d (R'.receiveAll l))) := by
  intro l
  induction l with
  | nil =>
    intro s R' _ _ hR'
    rw [Replica.receiveAll, List.foldl_nil, Device.set_eq_self hR', Function.update_eq_self]
  | cons e l ih =>
    intro s R' hl hR hR'
    have hstep : Syncs s (Function.update s y ((s y).set d (R'.receive e))) :=
      .sends hR hR' (hl (List.mem_cons_self ..))
    have hreceived : ((Function.update s y ((s y).set d (R'.receive e))) y).docs d =
        some (R'.receive e) := by
      rw [Function.update_self, Device.set_docs, Function.update_self]
    have hrest := ih (fun o ho => hl (List.mem_cons_of_mem e ho))
      (by rwa [Function.update_of_ne hne]) hreceived
    rw [Function.update_self, Function.update_idem, Device.set_set] at hrest
    exact .head hstep hrest

theorem steps_of_syncs (h : Relation.ReflTransGen Syncs P.st s') :
    Async.Steps (shared V) P ⟨s', P.task⟩ := by
  induction h with
  | refl => exact .refl
  | tail _ hstep ih => exact ih.trans (steps_of_env (Or.inr hstep))

theorem Access.Opens.congr {J : Serde} {x : Access} {t t' : Device}
    (h : x.Opens J t d R) (hticket : t'.docTicket = t.docTicket) (htickets : t'.tickets = t.tickets)
    (hR : t'.docs d = some R') : x.Opens J t' d R' := by
  obtain ⟨b, hb, hid, -⟩ := h
  refine ⟨b, ?_, hid, hR⟩
  cases x with
  | machine => rwa [Access.ticket, hticket]
  | manager m => rwa [Access.ticket, htickets]

end Exchanges

/-! ### The same records, the same answers -/

/-- Both devices read the same from the document of the machine `m`. -/
structure ReadAlike (V : Sharing) (m : EndpointId) (s : Devices) : Prop where
  entries : ∀ l l',
    Returns (world (V.setting .machine) .machine) () (MachineProtocol.getKvEntries V.serde).run
      (s .machine) (.ok l) →
    Returns (world (V.setting .manager) .manager) () (ManagerProtocol.getKvEntries V.serde m).run
      (s .manager) (.ok l') → l.Perm l'
  value : ∀ k r,
    Returns (world (V.setting .machine) .machine) () (MachineProtocol.getKvValue V.serde k).run
      (s .machine) r ↔
    Returns (world (V.setting .manager) .manager) () (ManagerProtocol.getKvValue V.serde m k).run
      (s .manager) r
  config : ∀ r,
    Returns (world (V.setting .machine) .machine) () (MachineProtocol.getMachineConfig V.serde).run
      (s .machine) r ↔
    Returns (world (V.setting .manager) .manager) () (ManagerProtocol.getMachineConfig V.serde m).run
      (s .manager) r

section Reading
variable {V : Sharing} {s : Devices} {d : NamespaceId} {R R' : Replica AuthorId} {P : Calls}
  {m : EndpointId}

theorem readAlike (hm : Access.machine.Opens V.serde (s .machine) d R)
    (hg : (Access.manager m).Opens V.serde (s .manager) d R')
    (hag : Replica.AgreeOn (fun _ => True) R R') : ReadAlike V m s := by
  have hm' : Access.machine.Opens (V.setting .machine).serde (s .machine) d R := hm
  have hg' : (Access.manager m).Opens (V.setting .manager).serde (s .manager) d R' := hg
  refine ⟨fun l l' hl hl' => ?_, fun k r => ?_, fun r => ?_⟩
  · have hpairs := pairs_agree (K := V.ranking) (hag.mono fun _ _ => trivial) .machine (.manager m)
    exact (returns_getKvEntries hm' hl).trans (hpairs.trans (returns_getKvEntries hg' hl').symm)
  · have hvalue : (R.value V.ranking (KV_PREFIX ++ k)).map Access.machine.kvEntry =
        (R'.value V.ranking (KV_PREFIX ++ k)).map (Access.manager m).kvEntry := by
      rw [← hag.value trivial]
      rcases h : R.value V.ranking (KV_PREFIX ++ k) with _ | e
      · rfl
      · have hk := Replica.key_of_value h
        rw [Option.map_some, Option.map_some, kvEntry_eq .machine hk, kvEntry_eq (.manager m) hk]
    refine (returns_getKvValue hm').trans (Iff.trans ?_ (returns_getKvValue hg').symm)
    exact Eq.congr_right (congrArg Except.ok hvalue)
  · have hconfig : configEntry (V.setting .machine) R = configEntry (V.setting .manager) R' :=
      hag.value trivial
    refine (returns_getMachineConfig hm').trans (Iff.trans ?_ (returns_getMachineConfig hg').symm)
    exact Eq.congr_right (congrArg (readConfig V.serde) hconfig)

/-- In a settled state, devices that have caught up with each other have the same records. -/
theorem Settled.agreeOn (h : Settled V s) (hR : (s .machine).docs d = some R)
    (hR' : (s .manager).docs d = some R') (hsync : R'.CaughtUp R) (hsync' : R.CaughtUp R') :
    Replica.AgreeOn (fun _ => True) R R' :=
  Replica.agreeOn_of_caughtUp (h.sparse hR) (h.sparse hR') hsync hsync'
    (fun _ he _ ho => h.untied ⟨R, hR, he⟩ ⟨R', hR', ho⟩) _

/-- The replicas that the devices have of a document have the same records. -/
def SameRecords (d : NamespaceId) (s : Devices) : Prop :=
  ∃ R R', (s .machine).docs d = some R ∧ (s .manager).docs d = some R' ∧
    ∀ e, e ∈ R.entries ↔ e ∈ R'.entries

/-- **The devices converge.** -/
theorem devices_converge (hs : Empty s) (h : Async.Steps (shared V) (Pool.idle s) P)
    (hm : Access.machine.Opens V.serde (P.st .machine) d R)
    (hg : (Access.manager m).Opens V.serde (P.st .manager) d R') :
    (R'.CaughtUp R → R.CaughtUp R' →
      (∀ e, e ∈ R.entries ↔ e ∈ R'.entries) ∧ ReadAlike V m P.st) ∧
    ∃ s', Relation.ReflTransGen Syncs P.st s' ∧ SameRecords d s' ∧ ReadAlike V m s' := by
  obtain ⟨b, hb, hid, hR⟩ := hm
  obtain ⟨b', hb', hid', hR'⟩ := hg
  have hm : Access.machine.Opens V.serde (P.st .machine) d R := ⟨b, hb, hid, hR⟩
  have hg : (Access.manager m).Opens V.serde (P.st .manager) d R' := ⟨b', hb', hid', hR'⟩
  constructor
  · intro hsync hsync'
    have hag := (lawful_steps hs h).settled.agreeOn hR hR' hsync hsync'
    exact ⟨fun e => hag.mem trivial, readAlike hm hg hag⟩
  · let R₁ := R'.receiveAll R.entries
    let R₂ := R.receiveAll R₁.entries
    let s₁ := Function.update P.st .manager ((P.st .manager).set d R₁)
    have hs₁ : s₁ .machine = P.st .machine := Function.update_of_ne (by decide) ..
    have hR₁ : (s₁ .manager).docs d = some R₁ := by simp [s₁]
    have h₁ : Relation.ReflTransGen Syncs P.st s₁ :=
      exchanges (by decide) (List.Subset.refl _) hR hR'
    have h₂ : Relation.ReflTransGen Syncs s₁
        (Function.update s₁ .machine ((s₁ .machine).set d R₂)) :=
      exchanges (by decide) (List.Subset.refl _) hR₁ (by rwa [hs₁])
    let s₂ := Function.update s₁ .machine ((s₁ .machine).set d R₂)
    have hsteps := h.trans (steps_of_syncs (h₁.trans h₂))
    have hm₂ : (s₂ .machine).docs d = some R₂ := by simp [s₂]
    have hg₂ : (s₂ .manager).docs d = some R₁ := by simpa [s₂] using hR₁
    have hag := (lawful_steps hs hsteps).settled.agreeOn hm₂ hg₂
      (Replica.caughtUp_receiveAll R' R).receiveAll (Replica.caughtUp_receiveAll R R₁)
    refine ⟨s₂, h₁.trans h₂, ⟨R₂, R₁, hm₂, hg₂, fun e => hag.mem trivial⟩,
      readAlike (hm.congr ?_ ?_ hm₂) (hg.congr ?_ ?_ hg₂) hag⟩
    · simp [s₂, hs₁]
    · simp [s₂, hs₁]
    · simp [s₂, s₁]
    · simp [s₂, s₁]

end Reading

/-! ### Setting the configuration -/

/-- The manager has the ticket of the machine `m`, and the document. -/
def Holds (J : Serde) (m : EndpointId) (t : DocTicket) (s : Devices) : Prop :=
  (∃ b, (s .manager).tickets.file m = some b ∧ J.ticket.dec b = some t) ∧
    (s .manager).docs t.capability.id ≠ none

theorem Holds.stays {J : Serde} {m : EndpointId} {t : DocTicket} {s s' : Devices}
    (h : Holds J m t s) (hs : Stays s s') : Holds J m t s' := by
  obtain ⟨⟨b, hb, hdec⟩, hdocs⟩ := h
  exact ⟨⟨b, by rw [hs.tickets]; exact hb, hdec⟩, hs.docs hdocs⟩

section Setting
variable {V : Sharing} {m : EndpointId} {n : ℕ} {t : DocTicket} {s : Devices} {cfg : MachineConfig}
  {may : NamespaceId → CallId → Prop}

/-- **A call that sets the configuration has set it when it returns**, if no other one does. -/
theorem setMachineConfig_secures (hmay : ∀ j, j ≠ (.manager, n) → ¬ may t.capability.id j)
    (h : Holds V.serde m t s) :
    Safe (attending (sharing V may) fun _ _ _ _ => True) (keeping V may) (.manager, n)
      (setMachineConfig V.serde m cfg).run
      (Outcome.returns fun r u => r = .ok () →
        HasConfig t.capability.id (V.serde.config.enc cfg) u) s := by
  rw [setMachineConfig, getMachine]
  simp only [Fallible.run_bind, run_attempt, call_eq, Prog.await_bind, Prog.pure_bind]
  refine .attend fun s₁ r u hrely hi hx _ _ _ => ?_
  obtain ⟨⟨D, he, -, rfl⟩, -⟩ := hx
  obtain ⟨⟨b, hb, hdec⟩, hdocs⟩ := h.stays hrely.1
  obtain ⟨rfl, rfl⟩ : D = s₁ .manager ∧ r = .ok b := by
    refine ⟨he.1, he.2.trans ?_⟩
    rw [Tickets.read, hb]
  have h₁ : Holds V.serde m t s₁ := ⟨⟨b, hb, hdec⟩, hdocs⟩
  simp only [Function.update_eq_self, Fallible.andThen_ok, hdec, run_fromSlice_some, Prog.pure_bind,
    Fallible.run_bind, openMachineDoc, run_attempt, call_eq, Prog.await_bind]
  refine .attend fun s₂ r u hrely _ hx _ _ _ => ?_
  obtain ⟨⟨D, he, -, rfl⟩, -⟩ := hx
  have h₂ := h₁.stays hrely.1
  obtain ⟨rfl, rfl⟩ := (exec_docsOpen h₂.2).mp he
  simp only [Function.update_eq_self, Fallible.andThen_ok, Fallible.run_unwrap_some, Prog.pure_bind]
  refine .attend fun s₃ r u _ _ hx _ _ _ => ?_
  obtain ⟨⟨D, he, -, rfl⟩, -⟩ := hx
  obtain ⟨rfl, rfl⟩ : D = s₃ .manager ∧ r = .ok .manager := he
  simp only [Function.update_eq_self, Fallible.andThen_ok]
  refine .attend fun s₄ r u _ _ hx _ _ _ => .returned fun v hrely _ hr => ?_
  subst hr
  obtain ⟨⟨D, he, -, rfl⟩, -⟩ := hx
  rcases he with ⟨-, hput, -⟩ | ⟨-, e, he⟩
  · obtain ⟨R, R', t', -, hp, hrw⟩ := put_rewrites hput
    refine hrely.2 _ _ hmay ⟨t', R', hrw.here, ?_⟩
    exact (Replica.mem_put hp).mpr (Or.inl rfl)
  · cases he

instance : Nontrivial MachineConfig :=
  ⟨⟨⟨⟨.replicate 32 0⟩, []⟩, ⟨.replicate 33 0⟩⟩, ⟨⟨⟨.replicate 32 1⟩, []⟩, ⟨.replicate 33 0⟩⟩, by decide⟩

/-- A record of the configuration is what a query for it answers. -/
theorem Settled.value_config {x : AuthorId} {d : NamespaceId} {R : Replica AuthorId} {k : ℕ}
    (h : Settled V s) (hR : (s x).docs d = some R)
    (he : ⟨.manager, MACHINE_CONFIG_KEY, k, V.serde.config.enc cfg⟩ ∈ R.entries) :
    R.value V.ranking MACHINE_CONFIG_KEY =
      some ⟨.manager, MACHINE_CONFIG_KEY, k, V.serde.config.enc cfg⟩ := by
  refine Replica.value_eq_some.mpr ⟨Replica.shownAt_eq_some.mpr ⟨he, rfl, fun o ho hk => ?_⟩,
    V.serde.config.enc_ne_nil cfg⟩
  have hauthor : o.author = .manager := (h.kept ⟨R, hR, ho⟩ (hk ▸ List.prefix_rfl)).2.1
  have hslot : o.slot = (AuthorId.manager, MACHINE_CONFIG_KEY) := by rw [Entry.slot, hauthor, hk]
  rw [Replica.eq_of_slot ho he hslot]

/-- The machine has the manager's record of the configuration once it has caught up. -/
theorem Settled.arrives {d : NamespaceId} {R R' : Replica AuthorId} {k : ℕ} {b : Bytes}
    (h : Settled V s) (hR : (s .machine).docs d = some R) (hR' : (s .manager).docs d = some R')
    (hsync : R.CaughtUp R') (he : ⟨.manager, MACHINE_CONFIG_KEY, k, b⟩ ∈ R'.entries) :
    ⟨.manager, MACHINE_CONFIG_KEY, k, b⟩ ∈ R.entries := by
  refine Replica.mem_of_refuses (h.sparse hR') he (hsync _ he) (fun o ho hauthor => ?_)
    fun o ho => h.untied ⟨R', hR', he⟩ ⟨R, hR, ho⟩
  obtain ⟨R₀, hR₀, hrefuses⟩ := h.own ⟨R, hR, ho⟩
  rw [hauthor, hR', Option.some.injEq] at hR₀
  rwa [hR₀]

end Setting

/-- **The configuration arrives.** A call of the manager sets it and returns, while no other call sets
one in this document; from then on nobody does. -/
theorem config_arrives {V : Sharing} {m : EndpointId} {n : ℕ} {d : NamespaceId} {cfg : MachineConfig}
    {s : Devices} {P P₁ P₂ : Calls} {R R' R₀ : Replica AuthorId} (hs : Empty s)
    (h : Async.Steps (shared V) (Pool.idle s) P)
    (hg : (Access.manager m).Opens V.serde (P.st .manager) d R₀)
    (hcall : P.task (.manager, n) = some (setMachineConfig V.serde m cfg).run)
    (h₁ : Attended (sharedBy V fun d' i => d' = d → i = (.manager, n)) (.manager, n)
      (fun _ _ _ _ => True) P P₁)
    (hend : P₁.task (.manager, n) = some (.pure (.ok ())))
    (h₂ : Async.Steps (sharedBy V fun d' _ => d' ≠ d) P₁ P₂)
    (hm : Access.machine.Opens V.serde (P₂.st .machine) d R)
    (hR' : (P₂.st .manager).docs d = some R') (hsync : R.CaughtUp R')
    (r : Except Error (Option MachineConfig)) :
    Returns (world (V.setting .machine) .machine) () (MachineProtocol.getMachineConfig V.serde).run
      (P₂.st .machine) r ↔ r = .ok (some cfg) := by
  obtain ⟨t, hticket, rfl, hR₀⟩ := hg
  have hlaw := lawful_steps hs h
  have hlaw₁ : Lawful V P₁ := hlaw.steps (steps_of_attended h₁)
  have hlaw₂ : Lawful V P₂ := hlaw₁.steps h₂
  have hholds : Holds V.serde m t P.st := by
    obtain ⟨b, hb, hdec⟩ := Option.bind_eq_some_iff.mp hticket
    exact ⟨⟨b, hb, hdec⟩, by rw [hR₀]; exact Option.some_ne_none R₀⟩
  have hset : HasConfig t.capability.id (V.serde.config.enc cfg) P₁.st :=
    hlaw.good.attended_returned hcall
      (setMachineConfig_secures (fun j hj hmay => hj (hmay rfl)) hholds) h₁ hend rfl
  have hkept : KeepsConfig (· = t.capability.id) P₁.st P₂.st := by
    have hgood₁ : Good (sharing V fun d' _ => d' ≠ t.capability.id) P₁ := hlaw₁.good
    refine hgood₁.along (KeepsConfig.refl _) .trans (fun {i u v} _ hg => ?_) (fun _ hs => ?_)
      (fun hi he => ?_) h₂
    · have hg' : KeepsConfig (fun d => ¬ d ≠ t.capability.id) u v := hg
      exact hg'.mono fun d hd => not_not.mpr hd
    · obtain ⟨-, -, rfl⟩ := hs
      exact .refl _ _
    · rcases he with rfl | he
      · exact .refl _ _
      · obtain ⟨-, hstays, hconfig⟩ := hi.syncs he
        exact ⟨hstays, fun d b _ => hconfig d b⟩
  obtain ⟨k, R₁, hR₁, he⟩ := hkept.2 _ _ rfl hset
  obtain rfl := Option.some.inj (hR'.symm.trans hR₁)
  obtain ⟨b, hb, hid, hR⟩ := hm
  have harrived := hlaw₂.settled.arrives hR hR' hsync he
  have hentry : configEntry (V.setting .machine) R =
      some ⟨.manager, MACHINE_CONFIG_KEY, k, V.serde.config.enc cfg⟩ :=
    hlaw₂.settled.value_config hR harrived
  refine (returns_getMachineConfig (x := .machine) (Z := V.setting .machine)
    ⟨b, hb, hid, hR⟩).trans ?_
  rw [hentry, readConfig]
  simp [Sharing.setting]

/-! ### A configuration that is set and arrives -/

/-- The call tells which configuration it sets. -/
theorem config_of_setMachineConfig {J : Serde} {m m' : EndpointId} {c c' : MachineConfig}
    (d : NamespaceId) (h : (setMachineConfig J m c).run = (setMachineConfig J m' c').run) :
    c = c' := by
  simp only [setMachineConfig, getMachine, openMachineDoc, Fallible.run_bind, run_attempt, call_eq,
    Prog.await_bind, Prog.pure_bind] at h
  obtain ⟨hm, hread⟩ := Prog.await.inj h
  obtain rfl : m = m' := by injection hm with h; injection h with h; injection h
  have hopen := congrFun (eq_of_heq hread) (.ok (J.ticket.enc ⟨.write d⟩))
  simp only [Fallible.andThen_ok, Format.decode_encode, run_fromSlice_some, Prog.pure_bind] at hopen
  have hauthor := congrFun (eq_of_heq (Prog.await.inj hopen).2) (.ok (some d))
  have hset := congrFun (eq_of_heq (Prog.await.inj hauthor).2) (.ok .manager)
  injection (Prog.await.inj hset).1 with _ _ _ hvalue
  exact J.config.enc_injective hvalue

namespace Vending

def machineId : EndpointId := ⟨.replicate 32 1⟩

def docId : NamespaceId := ⟨.replicate 32 2⟩

def config : MachineConfig := ⟨⟨⟨.replicate 32 3⟩, []⟩, ⟨.replicate 33 4⟩⟩

/-- Two devices with clocks that count, on which this configuration may be set. -/
def sharing : Sharing where
  sets c := c = config
  serde := .framed
  ranking := (Setting.counting 1).ranking
  clock _ n := 1 + n
  order _ := id
  order_perm _ := List.Perm.refl

/-- The devices without records. -/
def start : Devices := fun _ => .single .framed machineId docId .empty

/-- The record of the configuration. -/
def entry : Entry AuthorId := ⟨.manager, MACHINE_CONFIG_KEY, 1, Serde.framed.config.enc config⟩

/-- The replica with this record. -/
def replica : Replica AuthorId := Replica.empty.receive entry

/-- The manager's device after the write. -/
def written : Device := Device.set { start .manager with writes := 1 } docId replica

/-- The manager has set the configuration; it has arrived. -/
def configured : Devices := Function.update start .manager written
def arrived : Devices :=
  Function.update configured .machine ((configured .machine).set docId replica)

theorem put_entry : Replica.empty.put entry = some replica :=
  Replica.put_eq_receive fun _ ho => absurd ho List.not_mem_nil

theorem mem_replica : entry ∈ replica.entries :=
  (Replica.mem_put put_entry).mpr (Or.inl rfl)

theorem empty_start : Empty start := by
  intro x d R hR
  obtain ⟨-, rfl⟩ := Device.eq_of_single_docs hR
  rfl

theorem opens_start (x : Access) (hx : x = .machine ∨ x = .manager machineId) :
    x.Opens Serde.framed (start x.author) docId .empty :=
  Access.single_opens x .framed hx docId .empty

/-- The call of the manager, in any world where it may set this configuration. -/
theorem set_runs {W : World CallId Op Op.Ret Devices}
    (hW : ∀ {op r s s'}, (shared sharing).exec (.manager, 0) op s r s' →
      (∀ d, SetsConfig d op → d = docId) → W.exec (.manager, 0) op s r s') :
    Runs W (.manager, 0) Alone (setMachineConfig Serde.framed machineId config).run start
      (.returned (.ok ())) configured := by
  have hsame : start = Function.update start .manager (start .manager) :=
    (Function.update_eq_self ..).symm
  have hread : (start .manager).FileReads (sharing.setting .manager)
      (.machineDocTicket (.endpoint machineId)) (.ok (Serde.framed.ticket.enc ⟨.write docId⟩)) :=
    (Device.single_read .framed machineId docId .empty).symm
  have hdocs : (start .manager).docs docId ≠ none := by
    rw [start, Device.single_docs]
    simp
  refine runs_next (.readFile (.machineDocTicket (.endpoint machineId)))
    (.ok (Serde.framed.ticket.enc ⟨.write docId⟩)) start
    (hW ⟨_, ⟨rfl, hread⟩, Or.inl trivial, hsame⟩ ?_) ?_
  · rintro d ⟨a, v, hw | ⟨hw, -⟩⟩ <;> cases hw
  refine runs_next (.docsOpen docId) (.ok (some docId)) start
    (hW ⟨_, (exec_docsOpen hdocs).mpr ⟨rfl, rfl⟩, Or.inl trivial, hsame⟩ ?_) ?_
  · rintro d ⟨a, v, hw | ⟨hw, -⟩⟩ <;> cases hw
  refine runs_next .authorDefault (.ok .manager) start
    (hW ⟨_, ⟨rfl, rfl⟩, Or.inl trivial, hsame⟩ ?_) ?_
  · rintro d ⟨a, v, hw | ⟨hw, -⟩⟩ <;> cases hw
  refine runs_next (.docSetBytes docId .manager MACHINE_CONFIG_KEY _) (.ok ()) configured
    (hW ⟨written, Or.inl ⟨Serde.framed.config.enc_ne_nil config,
      ⟨.empty, replica, Device.single_docs .., put_entry, rfl⟩, rfl⟩, Or.inl rfl, rfl⟩ ?_) ?_
  · rintro d ⟨a, v, hw | ⟨hw, -⟩⟩
    · cases hw
      rfl
    · cases hw
  exact .returned _ _

/-- The call is under way; it has returned. -/
def calling : CallId → Option (Fut (Except Error Unit)) :=
  Function.update (fun _ => none) (.manager, 0)
    (some (setMachineConfig Serde.framed machineId config).run)
def called : CallId → Option (Fut (Except Error Unit)) :=
  Function.update calling (.manager, 0) (some (.pure (.ok ())))

theorem calling_steps : Async.Steps (shared sharing) (Pool.idle start) ⟨start, calling⟩ :=
  .single (.spawn rfl ⟨⟨.config, .setConfig machineId config⟩,
    fun _ _ h => (config_of_setMachineConfig docId h).symm, rfl⟩)

theorem called_attended :
    Attended (sharedBy sharing fun d i => d = docId → i = (.manager, 0)) (.manager, 0)
      (fun _ _ _ _ => True) ⟨start, calling⟩ ⟨configured, called⟩ := by
  have hruns : Runs (sharedBy sharing fun d i => d = docId → i = (.manager, 0)).toWorld (.manager, 0)
      Alone (setMachineConfig Serde.framed machineId config).run start (.returned (.ok ()))
      configured :=
    set_runs fun h _ => ⟨h, fun _ _ _ => rfl⟩
  exact attended_of_runs (fun h => ⟨h, trivial⟩) hruns rfl (Function.update_self ..)

theorem configured_manager : (configured .manager).docs docId = some replica := by
  rw [configured, Function.update_self, written, Device.set_docs, Function.update_self]

theorem configured_machine : (configured .machine).docs docId = some .empty :=
  Device.single_docs ..

theorem arrived_machine : (arrived .machine).docs docId = some replica := by
  rw [arrived, Function.update_self, Device.set_docs, Function.update_self]

theorem arrived_sync : Syncs configured arrived :=
  .sends configured_manager configured_machine mem_replica

theorem opens_machine : Access.machine.Opens Serde.framed (arrived .machine) docId replica :=
  (opens_start .machine (Or.inl rfl)).congr rfl rfl arrived_machine

theorem opens_manager :
    (Access.manager machineId).Opens Serde.framed (arrived .manager) docId replica :=
  (opens_start (.manager machineId) (Or.inr rfl)).congr rfl rfl configured_manager

theorem caughtUp_replica : replica.CaughtUp replica := fun _ he => Replica.refuses_of_mem he

end Vending

open Vending in
/-- The machine reads the configuration that was set. -/
theorem config_arrives_set :
    Returns (world (Vending.sharing.setting .machine) .machine) ()
      (MachineProtocol.getMachineConfig Serde.framed).run (arrived .machine) (.ok (some config)) := by
  have hcall : calling (.manager, 0) = some (setMachineConfig Serde.framed machineId config).run :=
    Function.update_self ..
  have hcalled : called (.manager, 0) = some (.pure (.ok ())) := Function.update_self ..
  have hsync : Async.Steps (sharedBy Vending.sharing fun d _ => d ≠ docId) ⟨configured, called⟩
      ⟨arrived, called⟩ :=
    steps_of_env (Or.inr arrived_sync)
  exact (config_arrives empty_start calling_steps (opens_start (.manager machineId) (Or.inr rfl))
    hcall called_attended hcalled hsync opens_machine configured_manager caughtUp_replica _).mpr rfl

open Vending in
/-- The devices read the same once the record has arrived, and before that an exchange leads there. -/
theorem devices_converge_set : ReadAlike Vending.sharing machineId arrived ∧
    ∃ s, Relation.ReflTransGen Syncs configured s ∧ SameRecords docId s ∧
      ReadAlike Vending.sharing machineId s := by
  have hset : Async.Steps (shared Vending.sharing) (Pool.idle start) ⟨configured, called⟩ :=
    calling_steps.trans (steps_of_guarded (steps_of_attended called_attended))
  have harrived : Async.Steps (shared Vending.sharing) (Pool.idle start) ⟨arrived, called⟩ :=
    hset.trans (steps_of_env (Or.inr arrived_sync))
  have hmachine : Access.machine.Opens Serde.framed (configured .machine) docId .empty :=
    opens_start .machine (Or.inl rfl)
  exact ⟨((devices_converge empty_start harrived opens_machine opens_manager).1 caughtUp_replica
    caughtUp_replica).2, (devices_converge empty_start hset hmachine
      ((opens_start (.manager machineId) (Or.inr rfl)).congr rfl rfl configured_manager)).2⟩

end Vendimint.Document
