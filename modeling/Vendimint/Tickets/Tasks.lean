import Vendimint.Tickets.World

/-! # The tasks of a manager

`manager` is the system of all tasks on the ticket directory: claims, calls of `list_machines` and
calls of the functions that open the document of a claimed machine. A write that is under way may
fill its file at any time, and the process may end at any time.

* `claim_safe`, `listMachines_safe`, `use_safe`: each task keeps the invariant; a listing does not
  panic if `calm`, and every document that is opened is in the store if `sound`.
* `keeps`: these as one discipline of the system. -/

namespace Vendimint.Tickets

open Vendimint.Store Vendimint.Async Vendimint.ManagerProtocol

/-! ### The system -/

/-- The functions that open the documents of claimed machines. -/
inductive Use
  | getMachineConfig (machineId : EndpointId)
  | setMachineConfig (machineId : EndpointId) (machineConfig : MachineConfig)
  | getClaimableContracts
  | removeClaimableContracts (claimableContracts : List Payment)
  | getKvValue (machineId : EndpointId) (key : Bytes)
  | setKvValue (machineId : EndpointId) (key value : Bytes)
  | getKvEntries (machineId : EndpointId)

/-- What the tasks return. -/
inductive Result
  | claimed
  | listed (r : Except Error (List (EndpointId × DocTicket)))
  | used

section Semantics
variable (J : Serde)

/-- The program of a call whose result is dropped. -/
def dropResult {α : Type} (x : FutResult α) : Fut Result := x.run.bind fun _ => .pure .used

/-- The program of a call. -/
def Use.task : Use → Fut Result
  | getMachineConfig machineId => dropResult (ManagerProtocol.getMachineConfig J machineId)
  | setMachineConfig machineId machineConfig =>
    dropResult (ManagerProtocol.setMachineConfig J machineId machineConfig)
  | getClaimableContracts => dropResult (ManagerProtocol.getClaimableContracts J)
  | removeClaimableContracts claimableContracts =>
    dropResult (ManagerProtocol.removeClaimableContracts J claimableContracts)
  | getKvValue machineId key => dropResult (ManagerProtocol.getKvValue J machineId key)
  | setKvValue machineId key value => dropResult (ManagerProtocol.setKvValue J machineId key value)
  | getKvEntries machineId => dropResult (ManagerProtocol.getKvEntries J machineId)

/-- The program of a claim of a machine. -/
def claim (machineId : EndpointId) : Fut Result :=
  (claimTask J machineId).bind fun _ => .pure .claimed

/-- The program of a listing. -/
def listing : Fut Result := (listMachines J).run.bind fun r => .pure (.listed r)

/-- **The manager.** -/
def manager (sound calm : Prop) : System TaskId Op Op.Ret Result State where
  toWorld := directory J sound calm
  spawn i p s s' := s' = s ∧
    match i with
    | .claim machineId _ => p = claim J machineId
    | .list _ => p = listing J
    | .use _ => ∃ u, p = Use.task J u
  env s s' dead := (Fills s s' ∧ ∀ i, dead i = false) ∨ (Restarts s s' ∧ ∀ i, dead i = true)

end Semantics

/-! ### Steps of a task -/

/-- Operations that are always allowed. -/
def Plain : Op → Prop
  | .writeFile _ _ | .docsOpen _ => False
  | _ => True

section Tasks
variable {J : Serde} {sound calm : Prop} {i : TaskId} {s : State} {α β : Type}

theorem allowed_of_plain {op : Op} (h : Plain op) : Allowed J sound op s := by
  unfold Plain at h
  unfold Allowed
  split
  · exact h.elim
  · exact h.elim
  · trivial

/-- An operation that is allowed. -/
theorem safe_op {op : Op} {k : op.Ret → Fut α} {Q : Outcome α → State → Prop}
    (hQ : ∀ t, Q .aborted t) (ha : ∀ t, Grows s t → Kept J sound t → Allowed J sound op t)
    (h : ∀ r t u, Grows s t → Kept J sound t → Kept J sound u → Grows t u →
      effect J sound calm i op t r u →
      Safe (directory J sound calm) (discipline J sound) i (k r) Q u) :
    Safe (directory J sound calm) (discipline J sound) i (.await op k) Q s := by
  intro t ht hi
  refine ⟨fun r u hu => ?_, fun u hu => ?_⟩
  · obtain ⟨hk, hg⟩ := exec_kept hi (ha t ht hi) hu
    exact ⟨hk, hg, h r t u ht hi hk hg hu⟩
  · obtain ⟨hk, hg⟩ := cut_kept hi (ha t ht hi) hu
    exact ⟨hk, hg, hQ u⟩

/-- An operation that is always allowed and whose result does not matter. -/
theorem safe_plain {op : Op} {k : op.Ret → Fut α} {Q : Outcome α → State → Prop}
    (hQ : ∀ t, Q .aborted t) (hop : Plain op)
    (h : ∀ r u, Grows s u → Kept J sound u →
      Safe (directory J sound calm) (discipline J sound) i (k r) Q u) :
    Safe (directory J sound calm) (discipline J sound) i (.await op k) Q s :=
  safe_op hQ (fun _ _ _ => allowed_of_plain hop) fun r _ u ht _ hk hg _ =>
    h r u (List.Subset.trans ht hg) hk

/-- A program of operations that are always allowed. -/
theorem safe_uses {p : Fut α} (h : p.Uses Plain) :
    Safe (directory J sound calm) (discipline J sound) i p (fun _ _ => True) s :=
  Safe.of_uses (fun _ _ _ _ hop hi he => exec_kept hi (allowed_of_plain hop) he)
    (fun _ _ _ hop hi hc => cut_kept hi (allowed_of_plain hop) hc) h

/-- The same, of a program that may fail. -/
theorem safe_uses_oks {p : Fut (Except Error α)} (h : p.Uses Plain) :
    Safe (directory J sound calm) (discipline J sound) i p (Outcome.oks fun _ _ => True) s :=
  (safe_uses h).mono fun o _ _ _ => by
    cases o with
    | returned a => exact fun _ _ => trivial
    | panicked => trivial
    | aborted => trivial

/-! ### Claims -/

/-- A ticket to write is stored after its document was imported. -/
theorem storeTicket_safe (m : EndpointId) (k : ℕ) (bytes : Bytes) :
    Safe (directory J sound calm) (discipline J sound) (.claim m k) (storeTicket J m bytes).run
      (fun o _ => o ≠ .panicked) s := by
  have hstop : ∀ {r : Except Error Unit} {t : State}, Safe (directory J sound calm)
      (discipline J sound) (.claim m k) (.pure r) (fun o _ => o ≠ .panicked) t := by
    intro r t _ _ _
    exact nofun
  unfold storeTicket
  split
  · next t _ =>
    split
    · simp only [Fallible.run_bind, await_eq, Fallible.run_of, Prog.await_bind, Prog.pure_bind,
        Fallible.andThen_ok]
      refine safe_op (fun _ => nofun) (fun _ _ _ => trivial) fun r u v _ _ _ _ he => ?_
      have hd : sound → t.capability.id ∈ v.docs := by
        intro hs
        rcases he with ⟨-, rfl⟩ | ⟨-, ht, rfl⟩
        · rw [State.importing_docs]
          exact List.mem_cons_self
        · rw [State.importing_docs]
          exact ht hs
      refine safe_op (fun _ => nofun) (fun w hw _ => ?_) fun _ _ _ _ _ _ _ _ => hstop
      exact ⟨⟨m, rfl⟩, t, rfl, fun hs => hw (hd hs)⟩
    · exact hstop
  · exact hstop

theorem claimOnConnection_safe (m : EndpointId) (k : ℕ) :
    Safe (directory J sound calm) (discipline J sound) (.claim m k) (claimOnConnection J m).run
      (fun o _ => o ≠ .panicked) s := by
  have hend : ∀ {r : Except Error Unit} {t : State}, Safe (directory J sound calm)
      (discipline J sound) (.claim m k) (.pure r) (fun o _ => o ≠ .panicked) t := by
    intro r t _ _ _
    exact nofun
  have hshutdown : ∀ {t : State}, Safe (directory J sound calm) (discipline J sound) (.claim m k)
      (.await .sendShutdown .pure) (fun o _ => o ≠ .panicked) t :=
    fun {t} => safe_plain (fun _ => nofun) trivial fun _ _ _ _ => hend
  simp only [claimOnConnection, Fallible.run_bind, Fallible.run_ite, await_eq, Fallible.run_of,
    call_eq, Prog.await_bind, Prog.pure_bind, Fallible.andThen_ok, Fallible.run_pure]
  refine safe_plain (fun _ => nofun) trivial fun answer _ _ _ => ?_
  split
  · refine safe_plain (fun _ => nofun) trivial fun opened _ _ _ => ?_
    cases opened with
    | error e => exact hend
    | ok _ =>
      simp only [Fallible.run_bind, run_attempt, Fallible.run_of, Prog.await_bind, Prog.pure_bind,
        Fallible.andThen_ok]
      refine safe_plain (fun _ => nofun) trivial fun r _ _ _ => ?_
      cases r with
      | error e => exact hend
      | ok _ =>
      refine safe_plain (fun _ => nofun) trivial fun r _ _ _ => ?_
      cases r with
      | error e => exact hend
      | ok _ =>
      refine safe_plain (fun _ => nofun) trivial fun r _ _ _ => ?_
      cases r with
      | error e => exact hend
      | ok _ =>
      refine safe_plain (fun _ => nofun) trivial fun r u _ hu => ?_
      cases r with
      | error e => exact hshutdown
      | ok bytes =>
        simp only [Fallible.run_bind]
        refine Safe.bind_of hu (storeTicket_safe m k bytes) (fun r t _ _ => ?_)
          (fun _ _ h => absurd rfl h) fun _ _ _ => nofun
        cases r with
        | error e => exact hend
        | ok _ => exact hshutdown
  · exact hend

/-- **A claim** keeps the invariant and does not panic. -/
theorem claim_safe (m : EndpointId) (k : ℕ) (hi : Kept J sound s) :
    Safe (directory J sound calm) (discipline J sound) (.claim m k) (claim J m)
      (fun o _ => o ≠ .panicked) s := by
  have hclaimed : ∀ {t : State}, Safe (directory J sound calm) (discipline J sound) (.claim m k)
      (.pure Result.claimed) (fun o _ => o ≠ .panicked) t := by
    intro t _ _ _
    exact nofun
  unfold claim claimTask
  simp only [Prog.bind_eq, Prog.bind_assoc]
  refine Safe.bind_of hi (claimOnConnection_safe m k) (fun r t _ _ => ?_)
    (fun _ _ h => absurd rfl h) fun _ _ _ => nofun
  cases r with
  | error e => exact hclaimed
  | ok _ => exact safe_plain (fun _ => nofun) trivial fun _ _ _ _ => hclaimed

/-! ### Listings -/

/-- What holds at the end of a listing: the documents of the machines are in the store, and it has not
panicked if it is a call by itself. -/
def Lists (sound calm : Prop) (i : TaskId) :
    Outcome (Except Error (List (EndpointId × DocTicket))) → State → Prop
  | .returned (.ok machines), s => sound → ∀ x ∈ machines, x.2.capability.id ∈ s.docs
  | .panicked, _ => ¬ (calm ∧ ∃ n, i = .list n)
  | _, _ => True

/-- The entries of the directory, after those that were read. -/
theorem machinesOf_safe : ∀ (names : List FileName) (machines : List (EndpointId × DocTicket))
    (s : State), (∀ n ∈ names, ∃ m, n = .endpoint m) →
    (sound → ∀ x ∈ machines, x.2.capability.id ∈ s.docs) →
    Safe (directory J sound calm) (discipline J sound) i (machinesOf J names machines).run
      (Lists sound calm i) s
  | [], machines, s, _, hm => by
    intro t ht _ hs x hx
    exact ht (hm hs x hx)
  | name :: names, machines, s, hn, hm => by
    obtain ⟨m, rfl⟩ := hn name List.mem_cons_self
    have hn' : ∀ n ∈ names, ∃ m, n = .endpoint m := fun n h => hn n (List.mem_cons_of_mem _ h)
    simp only [machinesOf, Fallible.run_bind, Fallible.run_ite, run_attempt, call_eq,
      Prog.await_bind, Prog.pure_bind, endpointOfName, Fallible.run_unwrap_some, Fallible.andThen_ok]
    refine safe_plain (fun _ => trivial) trivial fun isFile t ht hkt => ?_
    have hmt : sound → ∀ x ∈ machines, x.2.capability.id ∈ t.docs := fun hs x hx => ht (hm hs x hx)
    rcases isFile with e | isFile
    · exact fun _ _ _ => trivial
    simp only [Fallible.andThen_ok]
    split
    · refine safe_op (fun _ => trivial) (fun _ _ _ => trivial) fun r u v hu hku hkv _ he => ?_
      obtain ⟨rfl, hread, hcalm⟩ := he
      rcases r with e | b
      · exact fun _ _ _ => trivial
      simp only [Fallible.andThen_ok]
      have hb := hread b rfl
      rcases hdec : J.ticket.dec b with _ | ticket
      · intro _ _ _ hc
        obtain ⟨k, rfl⟩ := hc.2
        obtain ⟨t', ht'⟩ := hku.dec_of_filled hb (hcalm hc.1 k rfl)
        rw [hdec] at ht'
        cases ht'
      · simp only [Fallible.run_unwrap_some, Prog.pure_bind, Fallible.andThen_ok]
        refine machinesOf_safe names _ v hn' fun hs x hx => ?_
        rcases List.mem_append.mp hx with hx | hx
        · exact hu (hmt hs x hx)
        · rw [List.mem_singleton] at hx
          rw [hx]
          exact hku.stored hb hdec hs
    · exact machinesOf_safe names machines t hn' hmt

/-- **A listing.** -/
theorem listMachines_safe :
    Safe (directory J sound calm) (discipline J sound) i (listMachines J).run (Lists sound calm i)
      s := by
  simp only [listMachines, Fallible.run_bind, run_attempt, call_eq, Prog.await_bind, Prog.pure_bind]
  refine safe_op (fun _ => trivial) (fun _ _ _ => trivial) fun r t u _ hk _ _ he => ?_
  obtain ⟨rfl, hl⟩ := he
  rcases r with e | names
  · exact fun _ _ _ => trivial
  refine machinesOf_safe names [] u (fun n hn => ?_) fun _ x hx => by cases hx
  obtain ⟨b, hb⟩ := Option.ne_none_iff_exists'.mp (hl names rfl n hn)
  obtain ⟨⟨hm, -⟩, -⟩ := hk.files n b hb
  exact hm

/-! ### The documents of claimed machines -/

/-- Sequencing, where the store has grown. -/
theorem safe_andThen {p : Fut (Except Error α)} {f : α → Fut (Except Error β)}
    {R : α → State → Prop} {R' : β → State → Prop} (hi : Kept J sound s)
    (hp : Safe (directory J sound calm) (discipline J sound) i p (Outcome.oks R) s)
    (hf : ∀ a t, Kept J sound t → Grows s t → R a t →
      Safe (directory J sound calm) (discipline J sound) i (f a) (Outcome.oks R') t) :
    Safe (directory J sound calm) (discipline J sound) i (p.bind (Fallible.andThen f))
      (Outcome.oks R') s := by
  have hgrows := hp.remember Grows List.Subset.trans id (fun _ h => h) (Grows.refl s)
  refine Safe.andThen (R := fun a t => Grows s t ∧ R a t) hi (hgrows.mono fun o t _ ho => ?_)
    fun a t ht ha => hf a t ht ha.1 ha.2
  cases o with
  | returned r => exact fun a ha => ⟨ho.1, ho.2 a ha⟩
  | panicked => trivial
  | aborted => trivial

theorem getMachine_safe (m : EndpointId) :
    Safe (directory J sound calm) (discipline J sound) i (getMachine J m).run
      (Outcome.oks fun t u => sound → t.capability.id ∈ u.docs) s := by
  simp only [getMachine, Fallible.run_bind, run_attempt, call_eq, Prog.await_bind, Prog.pure_bind]
  refine safe_op (fun _ => trivial) (fun _ _ _ => trivial) fun r t u _ _ hk _ he => ?_
  obtain ⟨rfl, hread, -⟩ := he
  rcases r with e | b
  · exact .failed
  simp only [Fallible.andThen_ok]
  rcases hdec : J.ticket.dec b with _ | ticket
  · exact .failed
  · refine .returned fun v hv _ a ha hs => ?_
    cases ha
    exact hv (hk.stored (hread b rfl) hdec hs)

/-- A document that is in the store is opened. -/
theorem openMachineDoc_safe {t : DocTicket} (ht : sound → t.capability.id ∈ s.docs) :
    Safe (directory J sound calm) (discipline J sound) i (openMachineDoc t).run
      (Outcome.oks fun _ _ => True) s := by
  simp only [openMachineDoc, Fallible.run_bind, run_attempt, call_eq, Prog.await_bind,
    Prog.pure_bind]
  refine safe_op (fun _ => trivial) (fun u hu _ hs => hu (ht hs)) fun r _ _ _ _ _ _ _ => ?_
  rcases r with e | docOr
  · exact .failed
  rcases docOr with _ | d
  · exact .panicked
  · exact fun _ _ _ _ _ => trivial

/-- What is done on the document of one machine. -/
theorem safe_onMachine {f : NamespaceId → Fut (Except Error α)} (m : EndpointId)
    (hi : Kept J sound s) (hf : ∀ d, (f d).Uses Plain) :
    Safe (directory J sound calm) (discipline J sound) i
      ((getMachine J m).run.bind (Fallible.andThen fun t =>
        (openMachineDoc t).run.bind (Fallible.andThen f))) (Outcome.oks fun _ _ => True) s := by
  refine Safe.andThen hi (getMachine_safe m) fun t u hu ht => ?_
  exact Safe.andThen hu (openMachineDoc_safe ht) fun d v _ _ => safe_uses_oks (hf d)

theorem uses_deleteFrom (d : NamespaceId) (a : AuthorId) :
    ∀ contracts : List (FederationId × ClaimableContract), (deleteFrom d a contracts).run.Uses Plain
  | [] => trivial
  | _ :: contracts =>
    Prog.Uses.andThen ⟨trivial, fun _ => trivial⟩ fun _ => uses_deleteFrom d a contracts

theorem paymentsOfMachines_safe : ∀ (machines : List (EndpointId × DocTicket))
    (payments : List Payment) (s : State), Kept J sound s →
    (sound → ∀ x ∈ machines, x.2.capability.id ∈ s.docs) →
    Safe (directory J sound calm) (discipline J sound) i (paymentsOfMachines J machines payments).run
      (Outcome.oks fun _ _ => True) s
  | [], _, _, _, _ => fun _ _ _ _ _ => trivial
  | (m, ticket) :: machines, payments, s, hi, hm => by
    have hhead : sound → ticket.capability.id ∈ s.docs := fun hs =>
      hm hs (m, ticket) List.mem_cons_self
    have htail : sound → ∀ x ∈ machines, x.2.capability.id ∈ s.docs := fun hs x hx =>
      hm hs x (List.mem_cons_of_mem _ hx)
    simp only [paymentsOfMachines, Fallible.run_bind, run_attempt, call_eq, Prog.await_bind,
      Prog.pure_bind]
    refine safe_andThen hi (openMachineDoc_safe hhead) fun d t ht hst _ => ?_
    refine safe_plain (fun _ => trivial) trivial fun r u htu hu => ?_
    rcases r with e | contractStream
    · exact .failed
    refine safe_andThen hu (safe_uses_oks (uses_paymentsOf m (fun _ => trivial) contractStream payments))
      fun payments v hv huv _ => ?_
    exact paymentsOfMachines_safe machines payments v hv fun hs x hx =>
      huv (htu (hst (htail hs x hx)))

theorem deleteFromMachines_safe (a : AuthorId) (contracts : List Payment) :
    ∀ (machineIds : List EndpointId) (s : State), Kept J sound s →
      Safe (directory J sound calm) (discipline J sound) i
        (deleteFromMachines J a contracts machineIds).run (Outcome.oks fun _ _ => True) s
  | [], _, _ => fun _ _ _ _ _ => trivial
  | m :: machineIds, s, hi => by
    simp only [deleteFromMachines, Fallible.run_bind]
    refine Safe.andThen hi (getMachine_safe m) fun t u hu ht => ?_
    refine Safe.andThen hu (openMachineDoc_safe ht) fun d v hv _ => ?_
    refine Safe.andThen hv (safe_uses_oks (uses_deleteFrom d a _)) fun _ w hw _ => ?_
    exact deleteFromMachines_safe a contracts machineIds w hw

/-- The result of a call is dropped. -/
theorem dropResult_safe {x : FutResult α} (hi : Kept J sound s)
    (h : Safe (directory J sound calm) (discipline J sound) i x.run (Outcome.oks fun _ _ => True) s) :
    Safe (directory J sound calm) (discipline J sound) i (dropResult x) (fun _ _ => True) s :=
  Safe.bind_of hi h (fun _ _ _ _ _ _ _ => trivial) (fun _ _ _ => trivial) fun _ _ _ => trivial

/-- **The functions that open the documents of claimed machines.** -/
theorem use_safe (hi : Kept J sound s) (u : Use) :
    Safe (directory J sound calm) (discipline J sound) i (u.task J) (fun _ _ => True) s := by
  cases u with
  | getMachineConfig m =>
    refine dropResult_safe hi (safe_onMachine m hi fun d => ?_)
    refine ⟨trivial, fun r => ?_⟩
    rcases r with e | _ | entry
    · trivial
    · trivial
    refine ⟨trivial, fun r => ?_⟩
    rcases r with e | bytes
    · trivial
    · exact (uses_fromSlice _).andThen fun _ => trivial
  | setMachineConfig m c =>
    refine dropResult_safe hi (safe_onMachine m hi fun d => ?_)
    refine ⟨trivial, fun r => ?_⟩
    rcases r with e | author
    · trivial
    · exact ⟨trivial, fun _ => trivial⟩
  | getClaimableContracts =>
    refine dropResult_safe hi ?_
    simp only [ManagerProtocol.getClaimableContracts, Fallible.run_bind]
    refine Safe.bind_of hi listMachines_safe (fun r t ht hr => ?_) (fun _ _ _ => trivial)
      fun _ _ _ => trivial
    rcases r with e | machines
    · exact .failed
    · exact paymentsOfMachines_safe machines [] t ht hr
  | removeClaimableContracts contracts =>
    refine dropResult_safe hi ?_
    simp only [ManagerProtocol.removeClaimableContracts, Fallible.run_bind, run_attempt, await_eq,
      Fallible.run_of, call_eq, Prog.await_bind, Prog.pure_bind, Fallible.andThen_ok]
    refine safe_plain (fun _ => trivial) trivial fun r t _ _ => ?_
    rcases r with e | author
    · exact .failed
    refine safe_plain (fun _ => trivial) trivial fun machineIds u _ hu => ?_
    exact deleteFromMachines_safe author contracts machineIds u hu
  | getKvValue m k =>
    refine dropResult_safe hi (safe_onMachine m hi fun d => ?_)
    refine ⟨trivial, fun r => ?_⟩
    rcases r with e | _ | entry
    · trivial
    · trivial
    · exact (uses_fromIrohEntry entry .manager trivial trivial).andThen fun _ => trivial
  | setKvValue m k v =>
    refine dropResult_safe hi (safe_onMachine m hi fun d => ?_)
    refine ⟨trivial, fun r => ?_⟩
    rcases r with e | author
    · trivial
    · exact ⟨trivial, fun _ => trivial⟩
  | getKvEntries m =>
    refine dropResult_safe hi (safe_onMachine m hi fun d => ?_)
    refine ⟨trivial, fun r => ?_⟩
    rcases r with e | stream
    · trivial
    · exact uses_kvEntriesOf .manager (fun _ => trivial) trivial stream []

end Tasks

/-! ### The discipline of the system -/

/-- What holds when a task has ended. -/
def Ends (calm : Prop) : TaskId → Outcome Result → State → Prop
  | .claim _ _, o, _ => o ≠ .panicked
  | .list _, o, _ => calm → o ≠ .panicked
  | .use _, _, _ => True

theorem listing_safe {J : Serde} {sound calm : Prop} {s : State} (n : ℕ) (hi : Kept J sound s) :
    Safe (directory J sound calm) (discipline J sound) (.list n) (listing J)
      (fun o _ => calm → o ≠ .panicked) s :=
  Safe.bind_of hi listMachines_safe (fun _ _ _ _ _ _ _ _ => nofun)
    (fun _ _ h hc => (h ⟨hc, n, rfl⟩).elim) fun _ _ _ _ => nofun

/-- **The tasks of the manager keep the invariant.** -/
def keeps (J : Serde) (sound calm : Prop) : RelyGuarantee (manager J sound calm) where
  toDiscipline := discipline J sound
  post := Ends calm
  env_ok {s s' dead} hi he := by
    have h : Fills s s' ∨ Restarts s s' := he.imp And.left And.left
    obtain ⟨hk, hg⟩ := env_kept hi h
    exact ⟨hk, fun _ _ => hg⟩
  spawn_ok {i p s s'} hi hs := by
    obtain ⟨rfl, hp⟩ := hs
    refine ⟨hi, fun _ _ => Grows.refl _, ?_⟩
    cases i with
    | claim m n =>
      rw [show p = claim J m from hp]
      exact claim_safe m n hi
    | list n =>
      rw [show p = listing J from hp]
      exact listing_safe n hi
    | use n =>
      obtain ⟨u, rfl⟩ := hp
      exact use_safe hi u

/-- Every pool that the manager reaches is good. -/
theorem good {J : Serde} {sound calm : Prop} {P : Pool TaskId Op Op.Ret Result State}
    (h : Steps (manager J sound calm) (Pool.idle State.fresh) P) : Good (keeps J sound calm) P :=
  good_steps (good_idle kept_fresh) h

end Vendimint.Tickets
