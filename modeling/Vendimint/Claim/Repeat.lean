import Vendimint.Claim.Reads
import Mathlib.Data.Fintype.Vector

/-! # Repeated claims

A machine records an owner, and a new connection `c` of the owner, on which no step fails. Starts may
have missed the owner file before, but do not from now on.

* `claim_again`, `claim_again_running`: a claim over `c` can complete, after a restart of the machine, or
  at once if its lock is free.
* `runs_listMachines`, `listMachines_once`: a listing returns, with each machine once.
* `repeat_completes`: a claim over `c` that has completed leaves the owner and the document of the
  machine as they were, the manager lists the machine once, with a ticket for the document, and what
  the manager held before is as it was. -/

namespace Vendimint.Claim

open Vendimint.Store Vendimint.Async

/-! ### Completion -/

section Again
variable {Z : Setting} {c : ConnId} {P P' : Pool TaskId Op Op.Ret Result State}

/-- No step on the connection `c` fails. -/
def Only (c c' : ConnId) : Prop := c' = c

/-- Both sides of the connection have returned. -/
def Completed (P : Pool TaskId Op Op.Ret Result State) (c : ConnId) : Prop :=
  P.task (.claim c) = some (.pure .claimed) ∧
    P.task (.accept c) = some (.pure (.accepted (.ok ())))

/-- The system in which no step on `c` fails is a part of the system. -/
theorem network_within (Z : Setting) (c : ConnId) :
    (network Z (Only c)).Within (network Z fun _ => False) :=
  ⟨fun h => ⟨h.1, fun hs => by cases ‹TaskId› <;> exact hs.elim⟩, id⟩

/-- What is reached before the connection begins is good for what comes after. -/
theorem good_only (h : Steps (claims Z fun _ => False) (Pool.idle State.fresh) P)
    (hc : .claim c ∉ P.st.begun) : Good (keeps Z (Only c)) P := by
  have hg := good h
  refine ⟨hg.1, fun i p hp => ((hg.2 i p hp).within (network_within Z c)).mono fun o t _ ho => ?_⟩
  cases i with
  | claim c' =>
    rcases o with _ | _ | _
    · rintro rfl
      exact absurd (begun_of_task h hp) hc
    · trivial
    · trivial
  | _ => exact ho

/-- **A claim of the owner can complete** on a running machine whose lock is free, and the other tasks
stay. -/
theorem claim_again_running (hagain : Z.again)
    (h : Steps (claims Z.forgetful fun _ => False) (Pool.idle State.fresh) P)
    (hM : Records Z P.st c.machine c.manager) (hclaim : .claim c ∉ P.st.begun)
    (haccept : .accept c ∉ P.st.begun) (hrun : (P.st.host c.machine).running = true)
    (hlock : (P.st.host c.machine).lock = none) :
    ∃ P', Steps (claims Z (Only c)) P P' ∧ Completed P' c ∧
      ∀ i, i ≠ .claim c → i ≠ .accept c → P'.task i = P.task i := by
  have hi : Inv Z.forgetful P.st := (good h).1
  have hM' : Records Z.forgetful P.st c.machine c.manager := hM
  have howner : (P.st.host c.machine).owner = none ∨
      (P.st.host c.machine).owner = some c.manager := by
    rcases ho : (P.st.host c.machine).owner with _ | M
    · exact Or.inl rfl
    · exact Or.inr (congrArg some (hi.owner_eq ho (hM'.ownerFile hi)))
  obtain ⟨s', hcompletes, -⟩ := claim_completes Z (Only c) (c := c) (s := P.st) (f := P.task)
    (fun hn => absurd hagain hn) hrun hlock howner (Or.inl (hM'.ticketFile hi)) hclaim haccept
    ((hi.unbegun c).2 hclaim) ((hi.unbegun c).1 haccept) (task_of_unbegun h hclaim)
    (task_of_unbegun h haccept)
  have hne : TaskId.accept c ≠ .claim c := nofun
  refine ⟨_, hcompletes, ⟨Function.update_self .., ?_⟩, fun i hic hia => ?_⟩
  · simp only [Function.update_of_ne hne, Function.update_self]
  · simp only [Function.update_of_ne hic, Function.update_of_ne hia]

/-- **A claim of the owner can complete**, after a restart of the machine. -/
theorem claim_again (hagain : Z.again)
    (h : Steps (claims Z.forgetful fun _ => False) (Pool.idle State.fresh) P)
    (hM : Records Z P.st c.machine c.manager) (hclaim : .claim c ∉ P.st.begun)
    (haccept : .accept c ∉ P.st.begun) :
    ∃ P', Steps (claims Z (Only c)) P P' ∧ Completed P' c := by
  have hi : Inv Z.forgetful P.st := (good h).1
  have hM' : Records Z.forgetful P.st c.machine c.manager := hM
  have hfile := hM'.ownerFile hi
  -- The machine restarts, with the owner of its file.
  obtain ⟨Q, P₁, hcrash, -, hstart, hrestarted⟩ := exists_restarted Z (Only c) (P := P)
    (m := c.machine) (r := .ok (Z.serde.endpointId.enc c.manager))
    (fun b hb => by cases hb; exact hfile) fun _ _ => ⟨_, rfl⟩
  have hhost := hrestarted.host
  rw [ownerOf_ok] at hhost
  -- The claim completes.
  obtain ⟨s', hcompletes, -⟩ := claim_completes Z (Only c) (c := c) (s := P₁.st) (f := P₁.task)
    (fun hn => absurd hagain hn) (by rw [hhost]) (by rw [hhost]) (Or.inr (by rw [hhost]))
    (Or.inl (by rw [hhost]; exact hM'.ticketFile hi)) (hrestarted.begun _ hclaim nofun)
    (hrestarted.begun _ haccept nofun) (by rw [hrestarted.toMachine]; exact (hi.unbegun c).2 hclaim)
    (by rw [hrestarted.toManager]; exact (hi.unbegun c).1 haccept)
    (hrestarted.task _ (task_of_unbegun h hclaim) nofun)
    (hrestarted.task _ (task_of_unbegun h haccept) nofun)
  have hne : TaskId.accept c ≠ .claim c := nofun
  refine ⟨_, (Relation.ReflTransGen.single hcrash).trans (hstart.trans hcompletes),
    Function.update_self .., ?_⟩
  simp only [Function.update_of_ne hne, Function.update_self]

end Again

/-! ### Listings -/

section Listing
variable {Z : Setting} {sure : ConnId → Prop} {s : State} {m M : EndpointId} {n : ℕ}

instance finiteByte : Finite UInt8 := Finite.of_injective UInt8.toFin fun _ _ h => UInt8.toFin_inj.mp h

instance : Finite EndpointId := by
  refine @Finite.of_injective EndpointId (List.Vector UInt8 32) _
    (fun m => ⟨m.key.bytes, m.key.length_eq⟩) ?_
  rintro ⟨⟨b, hb⟩⟩ ⟨⟨b', hb'⟩⟩ h
  obtain rfl : b = b' := congrArg Subtype.val h
  rfl

/-- The names in the directory of the manager `M`. -/
theorem exists_readDir (s : State) (M : EndpointId) : ∃ names : List FileName, names.Nodup ∧
    ∀ n, n ∈ names ↔ ∃ m, n = .endpoint m ∧ s.tickets M m ≠ none := by
  obtain ⟨S, hS⟩ := (Set.toFinite {m | s.tickets M m ≠ none}).exists_finset
  refine ⟨S.toList.map .endpoint, S.nodup_toList.map (fun _ _ h => FileName.endpoint.inj h), ?_⟩
  intro n
  simp only [List.mem_map, Finset.mem_toList, hS, Set.mem_ofPred_eq]
  exact ⟨fun ⟨m, hm, hn⟩ => ⟨m, hn.symm, hm⟩, fun ⟨m, hn, hm⟩ => ⟨m, hm, hn.symm⟩⟩

/-- The tickets of a list of machines can be read. -/
theorem runs_machinesOf (hread : ∀ m b, s.tickets M m = some b → ∃ t, b = Z.serde.ticket.enc t) :
    ∀ (names : List FileName) (machines : List (EndpointId × DocTicket)),
    (∀ n ∈ names, ∃ m, n = .endpoint m ∧ s.tickets M m ≠ none) →
    ∃ l, Runs (network Z sure) (.list M n) Alone
      (ManagerProtocol.machinesOf Z.serde names machines).run s (.returned (.ok l)) s
  | [], machines, _ => ⟨machines, .returned _ _⟩
  | name :: names, machines, hn => by
    have hs : ∀ {X : Prop}, Sure sure (.list M n) → X := fun h => h.elim
    obtain ⟨m, rfl, hm⟩ := hn name List.mem_cons_self
    obtain ⟨b, hb⟩ := Option.ne_none_iff_exists'.mp hm
    obtain ⟨t, rfl⟩ := hread m b hb
    obtain ⟨l, hl⟩ := runs_machinesOf hread names (machines ++ [(m, t)])
      fun n h => hn n (List.mem_cons_of_mem _ h)
    refine ⟨l, ?_⟩
    simp only [ManagerProtocol.machinesOf, Fallible.run_bind, Fallible.run_ite, run_attempt, call_eq,
      Prog.await_bind, Prog.pure_bind, ManagerProtocol.endpointOfName, Fallible.run_unwrap_some,
      Fallible.andThen_ok]
    refine runs_next (.isFile (.machineDocTicket (.endpoint m))) (.ok true) s
      ⟨⟨rfl, fun b hb' => ?_⟩, hs⟩ ?_
    · cases hb'
      show true = (s.tickets M m).isSome
      rw [hb]
      rfl
    simp only [Fallible.andThen_ok, if_true]
    refine runs_next (.readFile (.machineDocTicket (.endpoint m))) (.ok (Z.serde.ticket.enc t)) s
      ⟨⟨rfl, fun b hb' => ?_⟩, hs⟩ ?_
    · cases hb'
      exact hb
    simpa only [Fallible.andThen_ok, Format.decode_encode, Fallible.run_unwrap_some, Prog.pure_bind]
      using hl

/-- **A listing can return.** -/
theorem runs_listMachines
    (hread : ∀ m b, s.tickets M m = some b → ∃ t, b = Z.serde.ticket.enc t) :
    ∃ l, Returns (network Z sure) (.list M n) (program Z.serde (.list M n)) s (.listed (.ok l)) := by
  have hs : ∀ {X : Prop}, Sure sure (.list M n) → X := fun h => h.elim
  obtain ⟨names, hnodup, hnames⟩ := exists_readDir s M
  obtain ⟨l, hl⟩ := @runs_machinesOf Z sure s M n hread names []
    fun n hn => (hnames n).mp hn
  refine ⟨l, s, Runs.bind ?_ rfl (.returned _ _)⟩
  simp only [ManagerProtocol.listMachines, Fallible.run_bind, run_attempt, call_eq, Prog.await_bind,
    Prog.pure_bind]
  refine runs_next (.readDir .machineDocTicketsDir) (.ok names) s ⟨⟨rfl, fun l hl => ?_⟩, hs⟩ hl
  cases hl
  exact ⟨hnodup, hnames⟩

/-- The discipline of a task that changes nothing while nobody else does. -/
def frozen (s : State) : Discipline TaskId State where
  inv t := t = s
  rely _ t u := t = u
  guar _ _ _ := True
  rely_refl _ _ := rfl
  rely_trans h h' := h.trans h'
  compat _ h h' _ := h.trans h'.symm

/-- An operation of a listing alone. -/
theorem safe_frozen {α : Type} {op : Op} {k : op.Ret → Fut α} {R : α → State → Prop}
    (hsame : ∀ r u, effect Z (.list M n) op s r u → u = s)
    (h : ∀ r, effect Z (.list M n) op s r s →
      Safe (network Z sure) (frozen s) (.list M n) (k r) (Outcome.returns R) s) :
    Safe (network Z sure) (frozen s) (.list M n) (.await op k) (Outcome.returns R) s := by
  refine .act fun t ht hi => ?_
  obtain rfl : t = s := hi
  refine ⟨fun r u hu => ?_, fun u hu => ?_⟩
  · obtain rfl := hsame r u hu.1
    exact ⟨rfl, trivial, h r hu.1⟩
  · obtain ⟨⟨m, n, hq⟩, -⟩ := hu
    cases hq

/-- Among the names of a list without repetitions, the machine `m` is listed once. -/
theorem machinesOf_once {t : DocTicket} (hm : s.tickets M m = some (Z.serde.ticket.enc t)) :
    ∀ (names : List FileName) (machines : List (EndpointId × DocTicket)),
    (∀ n ∈ names, ∃ m, n = .endpoint m ∧ s.tickets M m ≠ none) → names.Nodup →
    Safe (network Z sure) (frozen s) (.list M n)
      (ManagerProtocol.machinesOf Z.serde names machines).run
      (Outcome.oks fun l _ => l.filter (fun x => x.1 = m) =
        machines.filter (fun x => x.1 = m) ++ if .endpoint m ∈ names then [(m, t)] else []) s
  | [], machines, _, _ => by
    refine .returned fun _ _ _ l hl => ?_
    cases hl
    simp
  | name :: names, machines, hn, hnodup => by
    obtain ⟨m', rfl, hm'⟩ := hn name List.mem_cons_self
    obtain ⟨hnot, hnodup'⟩ := List.nodup_cons.mp hnodup
    simp only [ManagerProtocol.machinesOf, Fallible.run_bind, Fallible.run_ite, run_attempt, call_eq,
      Prog.await_bind, Prog.pure_bind, ManagerProtocol.endpointOfName, Fallible.run_unwrap_some,
      Fallible.andThen_ok]
    refine safe_frozen (fun _ _ h => h.1) fun r he => ?_
    rcases r with e | isFile
    · exact .failed
    have hisFile : isFile = true := by
      rw [he.2 isFile rfl]
      exact Option.isSome_iff_ne_none.mpr hm'
    subst hisFile
    simp only [Fallible.andThen_ok, if_true]
    refine safe_frozen (fun _ _ h => h.1) fun r he => ?_
    rcases r with e | b
    · exact .failed
    have hb : s.tickets M m' = some b := he.2 b rfl
    simp only [Fallible.andThen_ok]
    rcases hdec : Z.serde.ticket.dec b with _ | ticket
    · exact .panicked
    · refine (machinesOf_once hm names (machines ++ [(m', ticket)])
        (fun n h => hn n (List.mem_cons_of_mem _ h)) hnodup').mono fun o u _ ho => ?_
      rcases o with r | _ | _
      · intro l hl
        rw [ho l hl, List.filter_append]
        by_cases hmm : m' = m
        · subst hmm
          rw [hm, Option.some.injEq] at hb
          subst hb
          rw [Format.decode_encode, Option.some.injEq] at hdec
          subst hdec
          simp [hnot]
        · have hne : FileName.endpoint m ≠ .endpoint m' :=
            fun h => hmm (FileName.endpoint.inj h).symm
          simp [hmm, hne]
      · trivial
      · trivial

/-- **A listing has each machine once.** -/
theorem listMachines_once {t : DocTicket} (hm : s.tickets M m = some (Z.serde.ticket.enc t))
    {l : List (EndpointId × DocTicket)}
    (hl : Returns (network Z sure) (.list M n) (program Z.serde (.list M n)) s (.listed (.ok l))) :
    l.filter (fun x => x.1 = m) = [(m, t)] := by
  have hsafe : Safe (network Z sure) (frozen s) (.list M n) (program Z.serde (.list M n))
      (Outcome.returns fun r _ => ∀ l, r = .listed (.ok l) →
        l.filter (fun x => x.1 = m) = [(m, t)]) s := by
    refine .bind_returns rfl (R := fun r _ => ∀ l, r = .ok l →
      l.filter (fun x => x.1 = m) = [(m, t)]) ?_ fun r u _ hr => ?_
    · simp only [ManagerProtocol.listMachines, Fallible.run_bind, run_attempt, call_eq,
        Prog.await_bind, Prog.pure_bind]
      refine safe_frozen (fun _ _ h => h.1) fun r he => ?_
      rcases r with e | names
      · exact .failed
      obtain ⟨hnodup, hnames⟩ := he.2 names rfl
      refine (machinesOf_once hm names [] (fun n hn => (hnames n).mp hn) hnodup).mono
        fun o u _ ho => ?_
      rcases o with r | _ | _
      · intro l hl
        rw [ho l hl, if_pos ((hnames _).mpr ⟨m, rfl, fun h => by cases hm.symm.trans h⟩)]
        rfl
      · trivial
      · trivial
    · refine .returned fun _ _ _ l hl => ?_
      cases hl
      exact hr l rfl
  obtain ⟨s', hrun⟩ := hl
  exact (hrun.sound (fun _ he => he.elim) rfl hsafe).2 l rfl

end Listing

/-! ### What a repeated claim leaves -/

section Kept
variable {Z : Setting} {sure : ConnId → Prop} {c : ConnId} {s s' : State} {m M : EndpointId}
  {P P' : Pool TaskId Op Op.Ret Result State}

/-- The machines of the manager `M`, with their documents. -/
def Pairs (Z : Setting) (s : State) (M : EndpointId) : Set (EndpointId × NamespaceId) :=
  {x | ∃ t, s.tickets M x.1 = some (Z.serde.ticket.enc t) ∧ t.capability.id = x.2}

/-- The only claim task of its manager that moves is that of `c`. -/
def OnlyClaim (c : ConnId) (i : TaskId) (_ : Op) (_ : State) : Prop :=
  ∀ c', i = .claim c' → c'.manager = c.manager → c' = c

/-- A machine that is listed is listed once, with a ticket to write the document `d`. -/
def ListedOnce (Z : Setting) (sure : ConnId → Prop) (s : State) (M m : EndpointId)
    (d : NamespaceId) : Prop :=
  ∃ t, t.capability = .write d ∧ ∀ n,
    (∃ l, Returns (network Z sure) (.list M n) (program Z.serde (.list M n)) s (.listed (.ok l))) ∧
    ∀ l, Returns (network Z sure) (.list M n) (program Z.serde (.list M n)) s (.listed (.ok l)) →
      l.filter (fun x => x.1 = m) = [(m, t)]

/-- What was granted is listed once. -/
theorem listedOnce (hh : Z.honest) (hr : Z.readable) (hi : Inv Z.forgetful s)
    (hm : s.tickets M m ≠ none) {t₀ : DocTicket}
    (ht₀ : (s.host m).ticketFile = some (Z.serde.ticket.enc t₀)) :
    ListedOnce Z sure s M m t₀.capability.id := by
  obtain ⟨b, hb⟩ := Option.ne_none_iff_exists'.mp hm
  have hread : ∀ m b, s.tickets M m = some b →
      ∃ t, b = Z.serde.ticket.enc t ∧ Granted Z.forgetful s m M t := hi.tickets hh M
  obtain ⟨t, rfl, hg⟩ := hread m b hb
  obtain ⟨t₁, ht₁, hid⟩ : ∃ t', (s.host m).ticketFile = some (Z.serde.ticket.enc t') ∧
      t.capability.id = t'.capability.id := hg.doc hr
  obtain ⟨d, hd⟩ := hg.write
  rw [ht₀, Option.some.injEq] at ht₁
  obtain rfl := Z.serde.ticket.enc_injective ht₁
  rw [hd] at hid
  refine ⟨t, hid ▸ hd, fun n => ⟨runs_listMachines fun m' b' hb' => ?_, fun l hl =>
    listMachines_once hb hl⟩⟩
  obtain ⟨t', hb'', -⟩ := hread m' b' hb'
  exact ⟨t', hb''⟩

/-- The document of a machine that a manager holds stays. -/
theorem pairs_mono (hh : Z.honest) (hr : Z.readable) (hi : Inv Z s) (hi' : Inv Z s')
    (hm : Mono Z s s') : Pairs Z s M ⊆ Pairs Z s' M := by
  rintro ⟨m, d⟩ ⟨t, ht, rfl⟩
  obtain ⟨t₁, ht₁, hg⟩ := hi.tickets hh M m _ ht
  obtain rfl := Z.serde.ticket.enc_injective ht₁
  obtain ⟨b', hb'⟩ := Option.ne_none_iff_exists'.mp
    (hm.tickets M m (by rw [ht]; exact Option.some_ne_none _))
  obtain ⟨t', rfl, hg'⟩ := hi'.tickets hh M m b' hb'
  refine ⟨t', hb', ?_⟩
  obtain ⟨u, hu, hid⟩ := hg.doc hr
  obtain ⟨u', hu', hid'⟩ := hg'.doc hr
  rw [(hm.hosts m).ticketFile hr _ hu, Option.some.injEq] at hu'
  obtain rfl := Z.serde.ticket.enc_injective hu'
  exact hid'.trans hid.symm

/-- While no other claim of the manager moves, its tickets for other machines stay. -/
theorem tickets_of_guarded (hg : Good (keeps Z sure) P)
    (h : Steps ((claims Z sure).guarded (OnlyClaim c)) P P') (hne : m ≠ c.machine) :
    P'.st.tickets c.manager m = P.st.tickets c.manager m := by
  have hstep : ∀ {i : TaskId} {op : Op} {s s' : State}, Guards Z i s s' → OnlyClaim c i op s →
      s'.tickets c.manager m = s.tickets c.manager m := by
    intro i op s s' hguar honly
    by_contra h
    obtain ⟨c', hc', hm, hM⟩ := hguar.tickets c.manager m h
    rw [honly c' hc' hM] at hm
    exact hne hm.symm
  induction h with
  | refl => rfl
  | @tail P₁ P₂ hsteps hlast ih =>
    have hg₁ := good_steps hg (steps_of_guarded hsteps)
    refine Eq.trans ?_ ih
    cases hlast with
    | run hi he => exact hstep (hg₁.guar hi he.1) he.2
    | @abort i op k s' hi hc =>
      exact hstep (hg₁.guar_cut hi hc.1) hc.2
    | spawn _ hs =>
      obtain ⟨-, -, rfl⟩ := hs
      rfl
    | env he =>
      obtain ⟨d, rfl, -⟩ := he
      rfl

/-- What a claim over `c` that has completed leaves. -/
structure Unchanged (Z : Setting) (c : ConnId) (s s' : State) : Prop where
  owner : (s'.host c.machine).ownerFile = some (Z.serde.endpointId.enc c.manager)
  inMemory : (s'.host c.machine).running = true → (s'.host c.machine).lock = none →
    (s'.host c.machine).owner = some c.manager
  doc : ∃ t, (s.host c.machine).ticketFile = some (Z.serde.ticket.enc t) ∧
    (s'.host c.machine).ticketFile = some (Z.serde.ticket.enc t) ∧
    ListedOnce Z (Only c) s' c.manager c.machine t.capability.id
  pairs : Pairs Z s c.manager ⊆ Pairs Z s' c.manager

/-- **A repeated claim** by the owner can complete, and changes nothing. -/
theorem repeat_completes (hh : Z.honest) (hr : Z.readable) (hk : Z.known) (hagain : Z.again)
    (h : Steps (claims Z.forgetful fun _ => False) (Pool.idle State.fresh) P)
    (hM : Records Z P.st c.machine c.manager) (hclaim : .claim c ∉ P.st.begun)
    (haccept : .accept c ∉ P.st.begun) :
    (∃ P', Steps (claims Z (Only c)) P P' ∧ Completed P' c) ∧
    ((P.st.host c.machine).running = true → (P.st.host c.machine).lock = none →
      ∃ P', Steps (claims Z (Only c)) P P' ∧ Completed P' c ∧
        ∀ i, i ≠ .claim c → i ≠ .accept c → P'.task i = P.task i) ∧
    ∀ P', Steps (claims Z (Only c)) P P' → P'.task (.claim c) = some (.pure .claimed) →
      Unchanged Z c P.st P'.st ∧
      (P.st.tickets c.manager c.machine ≠ none →
        Steps ((claims Z (Only c)).guarded (OnlyClaim c)) P P' →
        Pairs Z P'.st c.manager = Pairs Z P.st c.manager) := by
  refine ⟨claim_again hagain h hM hclaim haccept,
    claim_again_running hagain h hM hclaim haccept, fun P' h' hreturned => ?_⟩
  have hg : Good (keeps Z.forgetful (Only c)) P := good_only h hclaim
  have hi : Inv Z.forgetful P.st := hg.1
  have hg' := good_steps hg (steps_forgetful h')
  have hi' : Inv Z.forgetful P'.st := hg'.1
  have hmono := mono_steps hg (steps_forgetful h')
  have hM' : Records Z.forgetful P.st c.machine c.manager := hM
  obtain ⟨hstored, hsent⟩ := hg'.returned hreturned rfl
  have howned := owned_of_sent hk h haccept hg h' hsent
  obtain ⟨t, ht⟩ := hM'.ticketFile hi
  have ht' := (hmono.hosts c.machine).ticketFile hr _ ht
  have hpairs : Pairs Z P.st c.manager ⊆ Pairs Z P'.st c.manager :=
    pairs_mono (Z := Z.forgetful) hh hr hi hi' hmono
  refine ⟨⟨howned.1, fun hrun _ => howned.2 hrun, ⟨t, ht, ht', listedOnce hh hr hi' hstored ht'⟩,
    hpairs⟩,
    fun hheld hguarded => Set.Subset.antisymm ?_ hpairs⟩
  rintro ⟨m, d⟩ ⟨u, hu, rfl⟩
  by_cases hne : m = c.machine
  · subst hne
    -- The pair that was held is still there, and there is only one.
    obtain ⟨b, hb⟩ := Option.ne_none_iff_exists'.mp hheld
    obtain ⟨u₀, rfl⟩ : ∃ u₀, b = Z.serde.ticket.enc u₀ := (hi.tickets hh _ _ b hb).imp fun _ h => h.1
    obtain ⟨u', hu', hid⟩ := hpairs (a := (c.machine, u₀.capability.id)) ⟨u₀, hb, rfl⟩
    rw [hu, Option.some.injEq] at hu'
    obtain rfl := Z.serde.ticket.enc_injective hu'
    exact ⟨u₀, hb, hid.symm⟩
  · have hwithin : ((claims Z (Only c)).guarded (OnlyClaim c)).toWorld.Within
        ((claims Z.forgetful (Only c)).guarded (OnlyClaim c)).toWorld :=
      ⟨fun h => ⟨claims_forgetful.exec h.1, h.2⟩, fun h => ⟨claims_forgetful.cut h.1, h.2⟩⟩
    have hsame := tickets_of_guarded hg (steps_within hwithin id id hguarded) hne
    exact ⟨u, hsame.symm.trans hu, rfl⟩

end Kept

open FirstClaim in
/-- A machine that was claimed, and has missed its owner file when it restarted, is claimed again. -/
theorem repeat_completes_claimed :
    ∃ (P P' : Pool TaskId Op Op.Ret Result State) (c : ConnId),
      (P.st.host machine).running = true ∧ (P.st.host machine).owner = none ∧
      (P.st.host machine).ownerFile = some (Serde.framed.endpointId.enc manager) ∧
      c.machine = machine ∧ c.manager = manager ∧
      Steps (claims (.framed True True) (Only c)) P P' ∧ Completed P' c ∧
      Unchanged (.framed True True) c P.st P'.st := by
  obtain ⟨P, hsteps, -, -, howner⟩ :=
    claimed (Setting.forgetful (.framed True True))
  obtain ⟨Q, P₁, hcrash, -, hstart, hrestarted⟩ := exists_restarted
    (Setting.forgetful (.framed True True)) (fun _ => False) (P := P) (m := machine)
    (r := .error notFound) nofun fun h => h.elim
  have hall := hsteps.trans ((Relation.ReflTransGen.single hcrash).trans hstart)
  have hhost := hrestarted.host
  have hfile : (P₁.st.host machine).ownerFile = some (Serde.framed.endpointId.enc manager) := by
    rw [hhost]
    exact ((good hsteps).1.hosts machine).owner manager howner
  obtain ⟨n, haccept, hclaim, -⟩ := exists_unbegun P₁.st.begun machine manager
  obtain ⟨-, hrunning, hdone⟩ := repeat_completes (Z := .framed True True)
    (c := ⟨machine, manager, n⟩) trivial trivial trivial trivial hall (Or.inr hfile) hclaim haccept
  obtain ⟨P', hsteps', hcompleted, -⟩ :=
    hrunning (congrArg Host.running hhost) (congrArg Host.lock hhost)
  exact ⟨P₁, P', _, congrArg Host.running hhost, congrArg Host.owner hhost, hfile, rfl, rfl, hsteps',
    hcompleted, (hdone P' hsteps' hcompleted.1).1⟩

end Vendimint.Claim
