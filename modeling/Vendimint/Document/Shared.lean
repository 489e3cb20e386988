import Vendimint.Async.Follow
import Vendimint.Document.Kinds
import Vendimint.Store.Sync

/-! # A document that two devices share

A machine and its manager, each with any number of calls under way that write to documents, and the
exchange of records between their replicas. Each device has a clock of its own, which may go back; calls
may fail or be dropped at any operation.

* `shared`: the system.
* `Settled`: the invariant. What a device has written anywhere it would not take back, so that no two
  records of a device at a key have the same time stamp.
* `sharing`: the discipline, under which the configuration stays while nobody sets it. -/

namespace Vendimint.Document

open Vendimint.Store Vendimint.Async Vendimint.ManagerProtocol

/-! ### The system -/

/-- What the devices depend on: each has its clock, and iterates over hash maps in its own order. The
configurations that calls set are those of `sets`. -/
structure Sharing where
  sets : MachineConfig → Prop
  serde : Serde
  ranking : Ranking AuthorId
  clock : AuthorId → ℕ → ℕ
  order : AuthorId → List EndpointId → List EndpointId
  order_perm : ∀ x l, (order x l).Perm l

def Sharing.setting (V : Sharing) (x : AuthorId) : Setting where
  serde := V.serde
  ranking := V.ranking
  clock := V.clock x
  order := V.order x
  order_perm := V.order_perm x

/-- The device of the machine and that of the manager. -/
abbrev Devices := AuthorId → Device

/-- A call on a device. -/
abbrev CallId := AuthorId × ℕ

abbrev Calls := Pool CallId Op Op.Ret (Except Error Unit) Devices

/-- A device has the key of its own author only. -/
def Signs (self : AuthorId) : Op → Prop
  | .docSetBytes _ a _ _ => a = self
  | .docDel _ a _ => a = self
  | _ => True

/-- What happens between the stores: a device gets a replica of a document, or a record arrives. -/
inductive Syncs : Devices → Devices → Prop
  | opens {s : Devices} {x : AuthorId} {d : NamespaceId} : (s x).docs d = none →
      Syncs s (Function.update s x ((s x).set d .empty))
  | sends {s : Devices} {x y : AuthorId} {d : NamespaceId} {R R' : Replica AuthorId}
      {e : Entry AuthorId} : (s x).docs d = some R → (s y).docs d = some R' → e ∈ R.entries →
      Syncs s (Function.update s y ((s y).set d (R'.receive e)))

/-- **The two devices**, with the calls that write to documents; a step of the environment may also end
calls, as a restart does. -/
def shared (V : Sharing) : System CallId Op Op.Ret (Except Error Unit) Devices where
  exec i op s r s' := ∃ t, exec (V.setting i.1) i.1 op (s i.1) r t ∧
    (Signs i.1 op ∨ t = s i.1) ∧ s' = Function.update s i.1 t
  cut i op s s' := ∃ t, cut (V.setting i.1) op (s i.1) t ∧
    (Signs i.1 op ∨ t = s i.1) ∧ s' = Function.update s i.1 t
  spawn i p s s' := (∃ kind, Update V.serde i.1 kind p) ∧
    (∀ m c, p = (setMachineConfig V.serde m c).run → V.sets c) ∧ s' = s
  env s s' _ := s' = s ∨ Syncs s s'

/-! ### Records of a device -/

/-- The device has a record of the document. -/
def Device.Has (s : Device) (d : NamespaceId) (e : Entry AuthorId) : Prop :=
  ∃ R, s.docs d = some R ∧ e ∈ R.entries

/-- The device would not take the record. -/
def Device.Refuses (s : Device) (d : NamespaceId) (e : Entry AuthorId) : Prop :=
  ∃ R, s.docs d = some R ∧ R.Refuses e

/-- A record at the key of the configuration, or a beginning of it, is a configuration that the manager
has set. -/
def Kept (V : Sharing) (e : Entry AuthorId) : Prop :=
  e.key <+: MACHINE_CONFIG_KEY → e.key = MACHINE_CONFIG_KEY ∧ e.author = .manager ∧
    ∃ c, V.sets c ∧ e.content = V.serde.config.enc c

/-- **The invariant.** -/
structure Settled (V : Sharing) (s : Devices) : Prop where
  own : ∀ {x d e}, (s x).Has d e → (s e.author).Refuses d e
  untied : ∀ {x y d e o}, (s x).Has d e → (s y).Has d o → o.slot = e.slot →
    o.timestamp = e.timestamp → o = e
  sparse : ∀ {x d R}, (s x).docs d = some R → R.Sparse
  kept : ∀ {x d e}, (s x).Has d e → Kept V e

/-- The device `y` now has the replica `R` of the document `d`. -/
structure Rewrites (s : Devices) (y : AuthorId) (d : NamespaceId) (R : Replica AuthorId)
    (s' : Devices) : Prop where
  docTicket : ∀ x, (s' x).docTicket = (s x).docTicket
  tickets : ∀ x, (s' x).tickets = (s x).tickets
  here : (s' y).docs d = some R
  there : ∀ x d', x ≠ y ∨ d' ≠ d → (s' x).docs d' = (s x).docs d'

section Records
variable {V : Sharing} {s s' : Devices} {x y : AuthorId} {d d' : NamespaceId} {R R' : Replica AuthorId}
  {e o : Entry AuthorId} {D : Device} {b : Bytes}

theorem rewrites_update (hticket : D.docTicket = (s y).docTicket) (htickets : D.tickets = (s y).tickets)
    (hdocs : D.docs = Function.update (s y).docs d (some R)) :
    Rewrites s y d R (Function.update s y D) := by
  refine ⟨fun x => ?_, fun x => ?_, ?_, fun x d' hne => ?_⟩
  · by_cases hx : x = y
    · subst hx
      rw [Function.update_self, hticket]
    · rw [Function.update_of_ne hx]
  · by_cases hx : x = y
    · subst hx
      rw [Function.update_self, htickets]
    · rw [Function.update_of_ne hx]
  · rw [Function.update_self, hdocs, Function.update_self]
  · by_cases hx : x = y
    · subst hx
      have hd : d' ≠ d := hne.resolve_left (not_not.mpr rfl)
      rw [Function.update_self, hdocs, Function.update_of_ne hd]
    · rw [Function.update_of_ne hx]

theorem Rewrites.has (h : Rewrites s y d R s') (he : (s' x).Has d' e) :
    (s x).Has d' e ∨ x = y ∧ d' = d ∧ e ∈ R.entries := by
  by_cases hxd : x = y ∧ d' = d
  · obtain ⟨rfl, rfl⟩ := hxd
    obtain ⟨R₁, hR₁, he⟩ := he
    obtain rfl := Option.some.inj (h.here.symm.trans hR₁)
    exact Or.inr ⟨rfl, rfl, he⟩
  · rw [not_and_or] at hxd
    rw [Device.Has, h.there x d' hxd] at he
    exact Or.inl he

/-- What is refused stays refused if the replica is no worse. -/
theorem Rewrites.refuses (h : Rewrites s y d R s')
    (hmono : ∀ R₀, (s y).docs d = some R₀ → ∀ e, R₀.Refuses e → R.Refuses e)
    (he : (s x).Refuses d' e) : (s' x).Refuses d' e := by
  by_cases hxd : x = y ∧ d' = d
  · obtain ⟨rfl, rfl⟩ := hxd
    obtain ⟨R₀, hR₀, he⟩ := he
    exact ⟨R, h.here, hmono R₀ hR₀ e he⟩
  · rw [not_and_or] at hxd
    rwa [Device.Refuses, h.there x d' hxd]

/-- The record is new, and is one that its device may write. -/
def Fresh (V : Sharing) (s : Devices) (y : AuthorId) (d : NamespaceId) (e : Entry AuthorId) : Prop :=
  e.author = y ∧ ¬ (s y).Refuses d e ∧ Kept V e

/-- **One replica changes**: all its records are old, or new ones of its device. -/
theorem Settled.rewrites (h : Settled V s) (hr : Rewrites s y d R s')
    (hmono : ∀ R₀, (s y).docs d = some R₀ → ∀ e, R₀.Refuses e → R.Refuses e) (hsparse : R.Sparse)
    (hnew : ∀ e ∈ R.entries, (∃ x, (s x).Has d e) ∨ Fresh V s y d e) : Settled V s' := by
  have hcases : ∀ {x d' e}, (s' x).Has d' e →
      (∃ z, (s z).Has d' e) ∨ d' = d ∧ e ∈ R.entries ∧ Fresh V s y d e := by
    intro x d' e he
    rcases hr.has he with he | ⟨-, rfl, he⟩
    · exact Or.inl ⟨x, he⟩
    · exact (hnew e he).imp_right fun hf => ⟨rfl, he, hf⟩
  -- A new record is not in the slot of an old one at the same time: its device would refuse it.
  have hapart : ∀ {z e o}, (s z).Has d o → Fresh V s y d e → o.slot = e.slot →
      o.timestamp ≠ e.timestamp := by
    intro z e o ho hf hslot htime
    have hown := h.own ho
    have hauthor : o.author = y := (congrArg Prod.fst hslot).trans hf.1
    rw [hauthor] at hown
    obtain ⟨R₀, hR₀, hrefuses⟩ := hown
    have hdrops : Replica.Drops o e := Replica.drops_of_same hslot.symm htime.symm.le
    exact hf.2.1 ⟨R₀, hR₀, hrefuses.of_drops hdrops⟩
  refine ⟨fun he => ?_, fun he ho hslot htime => ?_, fun {x d' R'} hR' => ?_, fun he => ?_⟩
  · rcases hcases he with ⟨z, he⟩ | ⟨rfl, he, hf⟩
    · exact hr.refuses hmono (h.own he)
    · rw [hf.1]
      exact ⟨R, hr.here, Replica.refuses_of_mem he⟩
  · rcases hcases he with ⟨z, he⟩ | ⟨rfl, he, hf⟩
    · rcases hcases ho with ⟨z', ho⟩ | ⟨rfl, ho, hf⟩
      · exact h.untied he ho hslot htime
      · exact absurd htime.symm (hapart he hf hslot.symm)
    · rcases hcases ho with ⟨z', ho⟩ | ⟨-, ho, hf'⟩
      · exact absurd htime (hapart ho hf hslot)
      · exact Replica.eq_of_slot ho he hslot
  · by_cases hxd : x = y ∧ d' = d
    · obtain ⟨rfl, rfl⟩ := hxd
      obtain rfl := Option.some.inj (hr.here.symm.trans hR')
      exact hsparse
    · rw [not_and_or] at hxd
      rw [hr.there x d' hxd] at hR'
      exact h.sparse hR'
  · rcases hcases he with ⟨z, he⟩ | ⟨-, -, hf⟩
    · exact h.kept he
    · exact hf.2.2

/-! ### What a step does -/

/-- The configuration with the contents `b` is in the manager's replica. -/
def HasConfig (d : NamespaceId) (b : Bytes) (s : Devices) : Prop :=
  ∃ t, (s .manager).Has d ⟨.manager, MACHINE_CONFIG_KEY, t, b⟩

/-- The tickets stay, and so do the replicas. -/
structure Stays (s s' : Devices) : Prop where
  docTicket : ∀ x, (s' x).docTicket = (s x).docTicket
  tickets : ∀ x, (s' x).tickets = (s x).tickets
  docs : ∀ {x d}, (s x).docs d ≠ none → (s' x).docs d ≠ none

theorem Stays.refl (s : Devices) : Stays s s := ⟨fun _ => rfl, fun _ => rfl, id⟩

theorem Stays.trans {s'' : Devices} (h : Stays s s') (h' : Stays s' s'') : Stays s s'' :=
  ⟨fun x => (h'.docTicket x).trans (h.docTicket x), fun x => (h'.tickets x).trans (h.tickets x),
    fun hd => h'.docs (h.docs hd)⟩

theorem Rewrites.stays (h : Rewrites s y d R s') : Stays s s' := by
  refine ⟨h.docTicket, h.tickets, fun {x d'} hd => ?_⟩
  by_cases hxd : x = y ∧ d' = d
  · obtain ⟨rfl, rfl⟩ := hxd
    rw [h.here]
    exact Option.some_ne_none R
  · rw [not_and_or] at hxd
    rwa [h.there x d' hxd]

/-- A replica of the manager keeps the configuration if it keeps this record. -/
theorem Rewrites.hasConfig (h : Rewrites s y d R s')
    (hkeep : ∀ R₀ t, y = .manager → (s y).docs d = some R₀ →
      ⟨.manager, MACHINE_CONFIG_KEY, t, b⟩ ∈ R₀.entries →
        ⟨.manager, MACHINE_CONFIG_KEY, t, b⟩ ∈ R.entries) (hc : HasConfig d' b s) :
    HasConfig d' b s' := by
  obtain ⟨t, R₀, hR₀, he⟩ := hc
  by_cases hxd : AuthorId.manager = y ∧ d' = d
  · obtain ⟨rfl, rfl⟩ := hxd
    exact ⟨t, R, h.here, hkeep R₀ t rfl hR₀ he⟩
  · rw [not_and_or] at hxd
    exact ⟨t, R₀, (h.there .manager d' hxd).trans hR₀, he⟩

/-- A write of the device `y`. -/
theorem put_rewrites {Z : Setting} {k v : Bytes} {D : Device} (hput : (s y).Put Z d y k v D) :
    ∃ R R' t, (s y).docs d = some R ∧ R.put ⟨y, k, t, v⟩ = some R' ∧
      Rewrites s y d R' (Function.update s y D) := by
  obtain ⟨R, R', hR, hp, rfl⟩ := hput
  exact ⟨R, R', _, hR, hp, rewrites_update rfl rfl rfl⟩

theorem Settled.put {t : ℕ} {k v : Bytes} (h : Settled V s) (hR : (s y).docs d = some R)
    (hput : R.put ⟨y, k, t, v⟩ = some R') (hr : Rewrites s y d R' s') (hk : Kept V ⟨y, k, t, v⟩) :
    Settled V s' := by
  refine h.rewrites hr (fun R₀ hR₀ e he => ?_) ((h.sparse hR).put hput) fun e he => ?_
  · obtain rfl := Option.some.inj (hR.symm.trans hR₀)
    exact he.put hput
  · rcases (Replica.mem_put hput).mp he with rfl | ⟨he, -⟩
    · refine Or.inr ⟨rfl, fun hrefuses => ?_, hk⟩
      obtain ⟨R₀, hR₀, hrefuses⟩ := hrefuses
      obtain rfl := Option.some.inj (hR.symm.trans hR₀)
      exact Replica.not_refuses_of_put hput hrefuses
    · exact Or.inl ⟨y, R, hR, he⟩

theorem Settled.syncs (h : Settled V s) (he : Syncs s s') : Settled V s' ∧ Stays s s' ∧
    ∀ d b, HasConfig d b s → HasConfig d b s' := by
  cases he with
  | @opens x d hd =>
    have hr : Rewrites s x d .empty (Function.update s x ((s x).set d .empty)) :=
      rewrites_update rfl rfl rfl
    have hnone : ∀ {R₀}, (s x).docs d ≠ some R₀ := fun hR₀ => by
      rw [hd] at hR₀
      cases hR₀
    refine ⟨h.rewrites hr (fun R₀ hR₀ => absurd hR₀ hnone) Replica.sparse_empty
      fun e he => absurd he List.not_mem_nil, hr.stays, fun d' b => hr.hasConfig ?_⟩
    exact fun R₀ t _ hR₀ => absurd hR₀ hnone
  | @sends x y d R R' e hR hR' hmem =>
    have hr : Rewrites s y d (R'.receive e) (Function.update s y ((s y).set d (R'.receive e))) :=
      rewrites_update rfl rfl rfl
    refine ⟨h.rewrites hr (fun R₀ hR₀ o ho => ?_) ((h.sparse hR').receive e) fun o ho => Or.inl ?_,
      hr.stays, fun d' b => hr.hasConfig fun R₀ t hy hR₀ hc => ?_⟩
    · obtain rfl := Option.some.inj (hR'.symm.trans hR₀)
      exact ho.receive e
    · rcases Replica.mem_receive ho with rfl | ho
      · exact ⟨x, R, hR, hmem⟩
      · exact ⟨y, R', hR', ho⟩
    · subst hy
      obtain rfl := Option.some.inj (hR'.symm.trans hR₀)
      by_cases ha : e.author = .manager
      · -- The manager has refused its own record, so nothing arrives.
        obtain ⟨R₁, hR₁, hrefuses⟩ := h.own ⟨R, hR, hmem⟩
        rw [ha, hR', Option.some.injEq] at hR₁
        rwa [Replica.receive_of_refuses (hR₁ ▸ hrefuses)]
      · rcases hput : R'.put e with _ | R''
        · rwa [Replica.receive, hput]
        · rw [Replica.receive, hput, Option.getD_some]
          exact (Replica.mem_put hput).mpr (Or.inr ⟨hc, fun hd => ha hd.1.symm⟩)

end Records

/-! ### The operations -/

/-- The operation writes `v` at `k` in the document, for the author `a`. -/
def WritesAt (op : Op) (d : NamespaceId) (a : AuthorId) (k v : Bytes) : Prop :=
  op = .docSetBytes d a k v ∨ op = .docDel d a k ∧ v = []

/-- The operation sets the configuration in the document. -/
def SetsConfig (d : NamespaceId) (op : Op) : Prop :=
  ∃ a v, WritesAt op d a MACHINE_CONFIG_KEY v

/-- What a device writes for its own author may be kept. -/
abbrev Permitted (V : Sharing) (x : AuthorId) : Op → Prop := Writes fun e => e.author = x → Kept V e

section Operations
variable {V : Sharing} {i : CallId} {op : Op} {s s' : Devices}

theorem exec_cases {Z : Setting} {x : AuthorId} {t t' : Device} {r : op.Ret}
    (h : exec Z x op t r t') : t' = t ∨ ∃ d a k v, WritesAt op d a k v ∧ t.Put Z d a k v t' := by
  by_cases hop : Reads (fun _ => True) op
  · exact Or.inl (eq_of_reads hop h)
  · cases op
    case docSetBytes d a k v =>
      rcases h with ⟨-, hput, -⟩ | ⟨rfl, -⟩
      · exact Or.inr ⟨d, a, k, v, Or.inl rfl, hput⟩
      · exact Or.inl rfl
    case docDel d a k =>
      rcases h with ⟨hput, -⟩ | ⟨rfl, -⟩
      · exact Or.inr ⟨d, a, k, [], Or.inr ⟨rfl, rfl⟩, hput⟩
      · exact Or.inl rfl
    all_goals exact absurd (by simp [Reads]) hop

theorem cut_cases {Z : Setting} {t t' : Device} (h : cut Z op t t') :
    t' = t ∨ ∃ d a k v, WritesAt op d a k v ∧ t.Put Z d a k v t' := by
  unfold cut at h
  split at h
  · rcases h with rfl | ⟨-, hput⟩
    · exact Or.inl rfl
    · exact Or.inr ⟨_, _, _, _, Or.inl rfl, hput⟩
  · rcases h with rfl | hput
    · exact Or.inl rfl
    · exact Or.inr ⟨_, _, _, _, Or.inr ⟨rfl, rfl⟩, hput⟩
  · exact Or.inl h

/-- A device writes for its own author. -/
theorem WritesAt.signed {x a : AuthorId} {d : NamespaceId} {k v : Bytes} (h : WritesAt op d a k v)
    (hs : Signs x op) : a = x := by
  rcases h with rfl | ⟨rfl, -⟩ <;> exact hs

theorem WritesAt.writes {H : Entry AuthorId → Prop} {a : AuthorId} {d : NamespaceId} {k v : Bytes}
    (h : WritesAt op d a k v) (hop : Writes H op) (t : ℕ) : H ⟨a, k, t, v⟩ := by
  rcases h with rfl | ⟨rfl, rfl⟩ <;> exact hop t

/-- A write takes one reading of the clock. -/
theorem Device.Put.ne {Z : Setting} {s s' : Device} {d : NamespaceId} {a : AuthorId} {k v : Bytes}
    (h : s.Put Z d a k v s') : s' ≠ s := by
  obtain ⟨R, R', -, -, rfl⟩ := h
  intro heq
  have hwrites : s.writes + 1 = s.writes := congrArg Device.writes heq
  omega

/-- **What an operation of a device does.** -/
theorem Settled.operation {t : Device} (h : Settled V s) (hop : Permitted V i.1 op)
    (ht : t = s i.1 ∨ ∃ d a k v, WritesAt op d a k v ∧ (s i.1).Put (V.setting i.1) d a k v t)
    (hs : Signs i.1 op ∨ t = s i.1) : Settled V (Function.update s i.1 t) ∧
      Stays s (Function.update s i.1 t) ∧
      ∀ d b, ¬ SetsConfig d op → HasConfig d b s → HasConfig d b (Function.update s i.1 t) := by
  rcases ht with rfl | ⟨d, a, k, v, hw, hput⟩
  · rw [Function.update_eq_self]
    exact ⟨h, .refl s, fun _ _ _ hc => hc⟩
  · obtain rfl := hw.signed (hs.resolve_right hput.ne)
    obtain ⟨R, R', n, hR, hp, hr⟩ := put_rewrites hput
    have hk : Kept V ⟨i.1, k, n, v⟩ := hw.writes hop n rfl
    refine ⟨h.put hR hp hr hk, hr.stays, fun d' b hnot hc => ?_⟩
    by_cases hd : d' = d
    · subst hd
      refine hr.hasConfig (fun R₀ t _ hR₀ hmem => ?_) hc
      obtain rfl := Option.some.inj (hR.symm.trans hR₀)
      refine (Replica.mem_put hp).mpr (Or.inr ⟨hmem, fun hdrops => hnot ?_⟩)
      obtain rfl : k = MACHINE_CONFIG_KEY := (hk hdrops.2.1).1
      exact ⟨_, v, hw⟩
    · obtain ⟨t, R₀, hR₀, hmem⟩ := hc
      exact ⟨t, R₀, (hr.there .manager d' (Or.inr hd)).trans hR₀, hmem⟩

theorem uses_setConfig {C : Op → Prop} {J : Serde} {m : EndpointId} {cfg : MachineConfig}
    (hread : C (.readFile (.machineDocTicket (.endpoint m)))) (hopen : ∀ d, C (.docsOpen d))
    (hauthor : C .authorDefault)
    (hset : ∀ d a, C (.docSetBytes d a MACHINE_CONFIG_KEY (J.config.enc cfg))) :
    (setMachineConfig J m cfg).run.Uses C := by
  rw [setMachineConfig, Fallible.run_bind]
  refine Prog.Uses.andThen (uses_getMachine m hread) fun t => ?_
  rw [Fallible.run_bind]
  refine Prog.Uses.andThen (uses_openMachineDoc t (hopen _)) fun d => ?_
  rw [Fallible.run_bind]
  refine Prog.Uses.andThen ⟨hauthor, fun _ => trivial⟩ fun a => ?_
  exact ⟨hset d a, fun _ => trivial⟩

/-- What writes records of a kind other than the configuration may do so. -/
theorem permitted_of_kind {x : AuthorId} {kind : Kind} {p : Fut (Except Error Unit)}
    (hp : p.Uses (Writes (kind.Holds V.serde))) (hne : kind.tag ≠ MACHINE_CONFIG_KEY) :
    p.Uses (Permitted V x) :=
  hp.mono fun op hop => by
    have hkept : ∀ e, kind.Holds V.serde e → e.author = x → Kept V e := fun e hh _ hpre =>
      absurd hpre (Kind.not_prefix hh rfl List.prefix_rfl hne)
    cases op
    case docSetBytes => exact fun t => hkept _ (hop t)
    case docDel => exact fun t => hkept _ (hop t)
    all_goals trivial

theorem contracts_tag_ne (ids : List (FederationId × ContractId)) :
    (Kind.contracts ids).tag ≠ MACHINE_CONFIG_KEY :=
  show CLAIMABLE_CONTRACT_PREFIX ≠ MACHINE_CONFIG_KEY by decide

/-- **What a call may write**: only the manager writes configurations, and only those of `sets`. -/
theorem Update.permitted {x : AuthorId} {kind : Kind} {p : Fut (Except Error Unit)}
    (h : Update V.serde x kind p) (hsets : ∀ m c, p = (setMachineConfig V.serde m c).run → V.sets c) :
    p.Uses (Permitted V x) := by
  cases h with
  | setKv x key value => exact permitted_of_kind (uses_setKvValue V.serde x key value) (by decide)
  | setConfig m cfg =>
    exact uses_setConfig trivial (fun _ => trivial) trivial fun d a t ha _ =>
      ⟨rfl, ha, cfg, hsets m cfg rfl, rfl⟩
  | payment f c => exact permitted_of_kind (uses_writePayment V.serde f c) (contracts_tag_ne _)
  | removal cs => exact permitted_of_kind (uses_removeClaimableContracts V.serde cs) (contracts_tag_ne _)

end Operations

/-! ### The discipline -/

/-- Only the calls of `may` set the configuration of a document. -/
def Only (may : NamespaceId → CallId → Prop) (i : CallId) (op : Op) (_ : Devices) : Prop :=
  ∀ d, SetsConfig d op → may d i

/-- The devices, on which only the calls of `may` set the configuration of a document. -/
abbrev sharedBy (V : Sharing) (may : NamespaceId → CallId → Prop) :
    System CallId Op Op.Ret (Except Error Unit) Devices :=
  (shared V).guarded (Only may)

/-- The configurations in the documents of `D` stay. -/
def KeepsConfig (D : NamespaceId → Prop) (s s' : Devices) : Prop :=
  Stays s s' ∧ ∀ d b, D d → HasConfig d b s → HasConfig d b s'

theorem KeepsConfig.refl (D : NamespaceId → Prop) (s : Devices) : KeepsConfig D s s :=
  ⟨.refl s, fun _ _ _ h => h⟩

theorem KeepsConfig.trans {D : NamespaceId → Prop} {s s' s'' : Devices} (h : KeepsConfig D s s')
    (h' : KeepsConfig D s' s'') : KeepsConfig D s s'' :=
  ⟨h.1.trans h'.1, fun d b hd hc => h'.2 d b hd (h.2 d b hd hc)⟩

theorem KeepsConfig.mono {D D' : NamespaceId → Prop} {s s' : Devices} (h : KeepsConfig D s s')
    (hD : ∀ d, D' d → D d) : KeepsConfig D' s s' := ⟨h.1, fun d b hd => h.2 d b (hD d hd)⟩

/-- A call keeps the configurations that it may not set, and relies on those that only it may set. -/
def keeping (V : Sharing) (may : NamespaceId → CallId → Prop) : Discipline CallId Devices where
  inv := Settled V
  rely i := KeepsConfig fun d => ∀ j, j ≠ i → ¬ may d j
  guar i := KeepsConfig fun d => ¬ may d i
  rely_refl _ := .refl _
  rely_trans := .trans
  compat hij _ _ hg := hg.mono fun _ hd => hd _ (Ne.symm hij)

/-- A call that writes what its device may write keeps the discipline. -/
theorem safe_permitted {V : Sharing} {may : NamespaceId → CallId → Prop} {i : CallId}
    {p : Fut (Except Error Unit)} {s : Devices} (hp : p.Uses (Permitted V i.1)) :
    Safe (sharedBy V may).toWorld (keeping V may) i p (fun _ _ => True) s := by
  refine Safe.of_uses ?_ ?_ hp
  · rintro op t r u hop hi ⟨⟨t', he, hsigns, rfl⟩, honly⟩
    obtain ⟨hi', hstays, hconfig⟩ := hi.operation hop (exec_cases he) hsigns
    exact ⟨hi', hstays, fun d b hd => hconfig d b fun hset => hd (honly d hset)⟩
  · rintro op t u hop hi ⟨⟨t', hc, hsigns, rfl⟩, honly⟩
    obtain ⟨hi', hstays, hconfig⟩ := hi.operation hop (cut_cases hc) hsigns
    exact ⟨hi', hstays, fun d b hd => hconfig d b fun hset => hd (honly d hset)⟩

/-- **The discipline of the devices.** -/
def sharing (V : Sharing) (may : NamespaceId → CallId → Prop) : RelyGuarantee (sharedBy V may) where
  toDiscipline := keeping V may
  post _ _ _ := True
  env_ok hi he := by
    rcases he with rfl | he
    · exact ⟨hi, fun _ _ => .refl _ _⟩
    · obtain ⟨hi', hstays, hconfig⟩ := hi.syncs he
      exact ⟨hi', fun _ _ => ⟨hstays, fun d b _ => hconfig d b⟩⟩
  spawn_ok hi hs := by
    obtain ⟨⟨kind, hp⟩, hsets, rfl⟩ := hs
    exact ⟨hi, fun _ _ => .refl _ _, safe_permitted (hp.permitted hsets)⟩

/-- Devices that have no records. -/
def Empty (s : Devices) : Prop := ∀ x d R, (s x).docs d = some R → R.entries = []

theorem settled_empty {V : Sharing} {s : Devices} (h : Empty s) : Settled V s := by
  have hnot : ∀ {x d e}, ¬ (s x).Has d e := by
    rintro x d e ⟨R, hR, he⟩
    rw [h x d R hR] at he
    exact absurd he List.not_mem_nil
  refine ⟨fun he => absurd he hnot, fun he => absurd he hnot, fun {x d R} hR e he => ?_,
    fun he => absurd he hnot⟩
  rw [h x d R hR] at he
  exact absurd he List.not_mem_nil

/-- The state is settled, and every call writes what its device may write. -/
structure Lawful (V : Sharing) (P : Calls) : Prop where
  settled : Settled V P.st
  tasks : TasksUse (fun i => Permitted V i.1) P

section Lawful
variable {V : Sharing} {may : NamespaceId → CallId → Prop} {s : Devices} {P P' : Calls}

theorem lawful_idle (h : Empty s) : Lawful V (Pool.idle s) :=
  ⟨settled_empty h, fun _ _ hp => by cases hp⟩

theorem Lawful.good (h : Lawful V P) : Good (sharing V may) P :=
  ⟨h.settled, fun i p hp => safe_permitted (h.tasks i p hp)⟩

theorem Lawful.steps (h : Lawful V P) (hs : Async.Steps (sharedBy V may) P P') : Lawful V P' := by
  refine ⟨(good_steps h.good hs).1, h.tasks.steps (fun hsp => ?_) hs⟩
  obtain ⟨⟨kind, hp⟩, hsets, -⟩ := hsp
  exact hp.permitted hsets

theorem steps_anyone (h : Async.Steps (shared V) P P') :
    Async.Steps (sharedBy V fun _ _ => True) P P' := by
  have hwithin : (shared V).toWorld.Within (sharedBy V fun _ _ => True).toWorld :=
    ⟨fun h => ⟨h, fun _ _ => trivial⟩, fun h => ⟨h, fun _ _ => trivial⟩⟩
  exact Relation.ReflTransGen.mono (fun _ _ => Step.mono hwithin id id) _ _ h

/-- **Every pool that is reached is lawful.** -/
theorem lawful_steps (hs : Empty s) (h : Async.Steps (shared V) (Pool.idle s) P) : Lawful V P :=
  (lawful_idle hs).steps (steps_anyone h)

end Lawful

end Vendimint.Document
