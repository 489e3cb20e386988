import Vendimint.Claim.System
import Mathlib.Data.Fintype.EquivFin

/-! # Claims that complete

* `claim_completes`: on a running machine whose lock is free and that has no owner, or that of the
  connection, a claim can run to its end on both sides. -/

namespace Vendimint.Claim

open Vendimint.Store Vendimint.Async

section Runs
variable {Z : Setting} {sure : ConnId → Prop} {c : ConnId} {s : State}

/-- What the manager sends on `c`. -/
def State.ping (s : State) (c : ConnId) : State :=
  ((s.answer (.claim c)).send (.claim c) PING_MAGIC_BYTES).finish (.claim c)

/-- The manager's side pings, and stores the ticket when it was sent. -/
theorem begins_claim : ∃ q, Begins (network Z sure) (.claim c) (program Z.serde (.claim c)) s q
    (s.ping c) ∧ ∀ s' t, s'.toManager c = ⟨Z.serde.ticket.enc t, true⟩ →
      (∃ d, t.capability = .write d) →
      Runs (network Z sure) (.claim c) Alone q s' (.returned .claimed)
        (s'.putTicket c.manager c.machine (Z.serde.ticket.enc t)) := by
  constructor
  refine ⟨?_, ?_⟩
  · have h : ∀ (op : Op) (r : op.Ret) {k : op.Ret → Fut Result} {q : Fut Result} {t t' t'' : State},
        effect Z (.claim c) op t r t' → (Sure sure (.claim c) → Smooth (.claim c) t op r) →
        Begins (network Z sure) (.claim c) (k r) t' q t'' →
        Begins (network Z sure) (.claim c) (.await op k) t q t'' :=
      fun _ _ _ _ _ _ _ he hs h => .step ⟨he, hs⟩ h
    apply h .answer (some true) (Or.inl ⟨rfl, rfl⟩) fun _ => rfl
    apply h .openBi (.ok ()) rfl fun _ => ⟨(), rfl⟩
    apply h (.writeAll PING_MAGIC_BYTES) (.ok ()) (Or.inl ⟨rfl, rfl⟩) fun _ => ⟨(), rfl⟩
    apply h .finish (.ok ()) (Or.inl ⟨rfl, rfl⟩) fun _ => ⟨(), rfl⟩
    apply h .stopped (.ok ()) rfl fun _ => ⟨(), rfl⟩
    exact .refl _ _
  · intro s' t hsent hcap
    have hincoming : s'.incoming (.claim c) = ⟨Z.serde.ticket.enc t, true⟩ := hsent
    refine runs_next (.readToEnd (1024 * 1024)) (.ok (Z.serde.ticket.enc t)) s'
      ⟨⟨rfl, fun l hl _ => ?_⟩, fun _ => ⟨?_, ?_⟩⟩ ?_
    · cases hl
      rw [hincoming]
    · rw [hincoming]
    · rw [hincoming]
    obtain ⟨d, hd⟩ := hcap
    have hstore : Runs (network Z sure) (.claim c) Alone
        (ManagerProtocol.storeTicket Z.serde c.machine (Z.serde.ticket.enc t)).run s'
        (.returned (.ok ())) (s'.putTicket c.manager c.machine (Z.serde.ticket.enc t)) := by
      unfold ManagerProtocol.storeTicket
      rw [Format.decode_encode]
      simp only [hd]
      refine runs_next (.docsImport t) (.ok ()) s' ⟨rfl, fun _ => ⟨(), rfl⟩⟩ ?_
      refine runs_next (.writeFile (.machineDocTicket (.endpoint c.machine)) (Z.serde.ticket.enc t))
        (.ok ()) _ ⟨Or.inl ⟨rfl, rfl⟩, fun _ => ⟨(), rfl⟩⟩ ?_
      exact .returned _ _
    have hconnection := Runs.bind hstore rfl (f := Fallible.andThen fun _ : Unit =>
      (attempt (call .sendShutdown)).run) (runs_next .sendShutdown (.ok ()) _
        ⟨rfl, fun _ => ⟨(), rfl⟩⟩ (.returned (Except.ok ()) _))
    have hclose := runs_next (E := Alone) (.close "done") () (k := .pure)
      (s'.putTicket c.manager c.machine (Z.serde.ticket.enc t)) (W := network Z sure) (i := .claim c)
      ⟨rfl, fun _ => trivial⟩ (.returned () _)
    exact Runs.bind (Runs.bind hconnection rfl hclose) rfl (f := fun _ => .pure Result.claimed)
      (.returned Result.claimed _)

variable (sure) in
/-- The document is the one of the ticket, or a new one. -/
theorem runs_getOrCreateMachineDoc
    (hticket : (∃ t, (s.host c.machine).ticketFile = some (Z.serde.ticket.enc t)) ∨
      ((s.host c.machine).ticketFile = none ∧ ¬ sure c)) :
    ∃ d s', Runs (network Z sure) (.accept c) Alone
        (MachineProtocol.getOrCreateMachineDoc Z.serde).run s (.returned (.ok d)) s' ∧
      (s' = s ∨ ∃ t, s' = s.writeTicket c.machine (Z.serde.ticket.enc t)) := by
  unfold MachineProtocol.getOrCreateMachineDoc
  simp only [Fallible.run_bind, run_attempt, await_eq, Fallible.run_of, call_eq, Prog.await_bind,
    Prog.pure_bind, Fallible.andThen_ok]
  rcases hticket with ⟨t, ht⟩ | ⟨hnone, hsure⟩
  · refine ⟨t.capability.id, s, ?_, Or.inl rfl⟩
    refine runs_next (.createDirAll .appDir) (.ok ()) s ⟨rfl, fun _ => ⟨(), rfl⟩⟩ ?_
    refine runs_next (.readFile .docTicket) (.ok (Z.serde.ticket.enc t)) s
      ⟨⟨rfl, fun b hb => ?_, fun _ _ => ⟨_, rfl⟩⟩, fun _ => ⟨_, rfl⟩⟩ ?_
    · cases hb
      exact ht
    rw [ticketOf_ok rfl]
    refine runs_next (.docsOpen t.capability.id) (.ok (some t.capability.id)) s
      ⟨⟨fun o ho => ?_, Or.inl ⟨nofun, rfl⟩⟩, fun _ => ⟨_, rfl⟩⟩ (.returned _ _)
    cases ho
    rfl
  · have hs : ∀ {X : Prop}, Sure sure (.accept c) → X := fun h => absurd h hsure
    refine ⟨⟨.replicate 32 0⟩, s.writeTicket c.machine
      (Z.serde.ticket.enc ⟨.write ⟨.replicate 32 0⟩⟩), ?_, Or.inr ⟨_, rfl⟩⟩
    refine runs_next (.createDirAll .appDir) (.ok ()) s ⟨rfl, hs⟩ ?_
    refine runs_next (.readFile .docTicket) (.error notFound) s
      ⟨⟨rfl, nofun, fun _ h => absurd hnone h⟩, hs⟩ ?_
    refine runs_next .docsCreate (.ok ⟨.replicate 32 0⟩) s ⟨rfl, hs⟩ ?_
    refine runs_next (.docShare ⟨.replicate 32 0⟩) (.ok ⟨.write ⟨.replicate 32 0⟩⟩) s
      ⟨⟨rfl, fun t ht => ?_⟩, hs⟩ ?_
    · cases ht
      rfl
    refine runs_next (.writeFile .docTicket (Z.serde.ticket.enc ⟨.write ⟨.replicate 32 0⟩⟩)) (.ok ())
      _ ⟨Or.inl ⟨rfl, rfl⟩, hs⟩ (.returned _ _)

/-- What a claim leaves: the machine is as before but for its owner and its files, and the lock is
free. -/
structure Served (c : ConnId) (s s' : State) : Prop where
  running : (s'.host c.machine).running = (s.host c.machine).running
  lock : (s'.host c.machine).lock = none
  owner : (s'.host c.machine).owner = some c.manager

/-- **The claim handler can run to its end**, after the manager has pinged. -/
theorem runs_accept (hagain : ¬ Z.again → (s.host c.machine).owner ≠ some c.manager)
    (hrun : (s.host c.machine).running = true)
    (hlock : (s.host c.machine).lock = none)
    (howner : (s.host c.machine).owner = none ∨ (s.host c.machine).owner = some c.manager)
    (hticket : (∃ t, (s.host c.machine).ticketFile = some (Z.serde.ticket.enc t)) ∨
      ((s.host c.machine).ticketFile = none ∧ ¬ sure c))
    (hping : s.toMachine c = ⟨PING_MAGIC_BYTES, true⟩) (hsent : s.toManager c = .empty) :
    ∃ s' t, Runs (network Z sure) (.accept c) Alone (program Z.serde (.accept c)) s
        (.returned (.accepted (.ok ()))) s' ∧
      s'.toManager c = ⟨Z.serde.ticket.enc t, true⟩ ∧ (∃ d, t.capability = .write d) ∧
      Served c s s' := by
  have hincoming : s.incoming (.accept c) = ⟨PING_MAGIC_BYTES, true⟩ := hping
  -- The lock, the request and the answer.
  obtain ⟨d, s₃, hdoc, hs₃⟩ := runs_getOrCreateMachineDoc (Z := Z) (c := c) sure
    (s := ((s.setLock c.machine (some (.accept c))).request (.accept c)).answer (.accept c)) (by
      simpa [State.setLock] using hticket)
  have hclaim : Runs (network Z sure) (.accept c) Alone
      (MachineProtocol.acceptClaim Z.serde c.manager).run (s.setLock c.machine (some (.accept c)))
      (.returned (.ok (some ⟨.write d⟩)))
      ((s₃.writeOwner c.machine (Z.serde.endpointId.enc c.manager)).setOwner c.machine c.manager) := by
    simp only [MachineProtocol.acceptClaim, Fallible.run_bind, Fallible.run_ite, run_attempt,
      await_eq, Fallible.run_of, call_eq, Prog.await_bind, Prog.pure_bind, Fallible.andThen_ok]
    refine runs_next .exportKeyingMaterial (.replicate 32 0) _ ⟨rfl, fun _ => trivial⟩ ?_
    refine runs_next (.claimRequestSend _) (.ok ()) _ ⟨Or.inl ⟨rfl, rfl⟩, fun _ => ⟨(), rfl⟩⟩ ?_
    refine runs_next .answer (some true) _ ⟨Or.inl ⟨rfl, rfl⟩, fun _ => rfl⟩ ?_
    simp only [Option.getD_some, if_true]
    refine runs_next .acceptBi (.ok ()) _ ⟨rfl, fun _ => ⟨(), rfl⟩⟩ ?_
    refine runs_next (.readToEnd (PING_MAGIC_BYTES.length + 1)) (.ok PING_MAGIC_BYTES) _
      ⟨⟨rfl, fun l hl _ => ?_⟩, fun _ => ⟨?_, ?_⟩⟩ ?_
    · cases hl
      exact (congrArg Stream.sent hincoming) ▸ List.prefix_rfl
    · exact congrArg Stream.finished hincoming
    · exact congrArg Except.ok (congrArg Stream.sent hincoming).symm
    simp only [Fallible.andThen_ok, ne_eq, not_true, if_false]
    refine Runs.bind hdoc rfl ?_
    refine runs_next (.docShare d) (.ok ⟨.write d⟩) _ ⟨⟨rfl, fun t ht => ?_⟩, fun _ => ⟨_, rfl⟩⟩ ?_
    · cases ht
      rfl
    refine runs_next (.writeFile .managerPublicKey (Z.serde.endpointId.enc c.manager)) (.ok ()) _
      ⟨Or.inl ⟨rfl, rfl⟩, fun _ => ⟨(), rfl⟩⟩ ?_
    refine runs_next (.ownerSet c.manager) () _ ⟨rfl, fun _ => trivial⟩ ?_
    exact .returned _ _
  -- The lock is dropped, and the ticket is sent.
  generalize hs₆ : (s₃.writeOwner c.machine (Z.serde.endpointId.enc c.manager)).setOwner c.machine
    c.manager = s₆ at hclaim
  have hsend : Runs (network Z sure) (.accept c) Alone
      (MachineProtocol.sendTicket Z.serde ⟨.write d⟩).run (s₆.setLock c.machine none)
      (.returned (.ok ()))
      (((s₆.setLock c.machine none).send (.accept c) (Z.serde.ticket.enc ⟨.write d⟩)).finish
        (.accept c)) := by
    simp only [MachineProtocol.sendTicket, Fallible.run_bind, run_attempt, await_eq, Fallible.run_of,
      call_eq, Prog.await_bind, Prog.pure_bind]
    refine runs_next (.writeAll _) (.ok ()) _ ⟨Or.inl ⟨rfl, rfl⟩, fun _ => ⟨(), rfl⟩⟩ ?_
    refine runs_next .finish (.ok ()) _ ⟨Or.inl ⟨rfl, rfl⟩, fun _ => ⟨(), rfl⟩⟩ ?_
    refine runs_next .stopped (.ok ()) _ ⟨rfl, fun _ => ⟨(), rfl⟩⟩ ?_
    refine runs_next .sendShutdown (.ok ()) _ ⟨rfl, fun _ => ⟨(), rfl⟩⟩ ?_
    refine runs_next (.close "finished") () _ ⟨rfl, fun _ => trivial⟩ ?_
    exact .returned _ _
  have hother : MachineProtocol.claimedByOther (s.host c.machine).owner c.manager = false := by
    rcases howner with h | h <;> simp [h, MachineProtocol.claimedByOther]
  have haccept : Runs (network Z sure) (.accept c) Alone
      (MachineProtocol.accept Z.serde c.manager).run s (.returned (.ok ()))
      (((s₆.setLock c.machine none).send (.accept c) (Z.serde.ticket.enc ⟨.write d⟩)).finish
        (.accept c)) := by
    simp only [MachineProtocol.accept, Fallible.run_bind, Fallible.run_ite, await_eq, Fallible.run_of,
      Prog.await_bind, Prog.pure_bind, Fallible.andThen_ok]
    refine runs_next .ownerLock (s.host c.machine).owner (s.setLock c.machine (some (.accept c)))
      ⟨⟨⟨hrun, hlock, fun _ hc h => (by cases hc; exact hagain h)⟩, rfl, rfl⟩, fun _ => trivial⟩ ?_
    simp only [hother, Bool.false_eq_true, if_false, run_guarded]
    refine Runs.bind (Runs.bind hclaim rfl (runs_next .ownerUnlock () (s₆.setLock c.machine none)
      ⟨rfl, fun _ => trivial⟩ (.returned _ _))) rfl ?_
    exact hsend
  refine ⟨_, ⟨.write d⟩, Runs.bind haccept rfl (.returned _ _), ?_, ⟨d, rfl⟩, ?_⟩
  · have hs₃sent : s₃.toManager c = .empty := by
      rcases hs₃ with rfl | ⟨t, rfl⟩ <;> exact hsent
    have hs₆sent : (s₆.setLock c.machine none).toManager c = .empty := by
      rw [← hs₆]
      exact hs₃sent
    rw [State.finish, State.outgoing_toManager, State.send, State.outgoing_toManager, hs₆sent]
    rfl
  · have hs₃run : (s₃.host c.machine).running = (s.host c.machine).running := by
      rcases hs₃ with rfl | ⟨t, rfl⟩ <;> simp [State.setLock, State.writeTicket]
    refine ⟨?_, ?_, ?_⟩ <;>
      simp [State.finish, State.send, State.setLock, ← hs₆, State.setOwner, State.writeOwner, hs₃run]

variable (Z sure) in
/-- **A machine can start**, with the owner that it reads. -/
theorem runs_start {m : EndpointId} (r : Except Error Bytes)
    (hread : ∀ b, r = .ok b → (s.host m).ownerFile = some b)
    (hknown : Z.known → (s.host m).ownerFile ≠ none → ∃ b, r = .ok b) :
    ∃ key, Runs (network Z sure) (.start m) Alone (program Z.serde (.start m)) s
      (.returned (.started (.ok (key, MachineProtocol.ownerOf Z.serde r))))
      (s.run m (MachineProtocol.ownerOf Z.serde r)) := by
  have hs : ∀ {X : Prop}, Sure sure (.start m) → X := fun h => h.elim
  have hshared : Runs (network Z sure) (.start m) Alone SharedProtocol.new.run s
      (.returned (.ok ⟨.replicate 32 0⟩)) s := by
    refine runs_next (.readFile .secretKey) (.ok (.replicate 32 0)) _ ⟨rfl, hs⟩ ?_
    refine runs_next (.endpointBind ⟨.replicate 32 0⟩) (.ok ()) _ ⟨rfl, hs⟩ ?_
    refine runs_next (.createDirAll .irohDir) (.ok ()) _ ⟨rfl, hs⟩ ?_
    refine runs_next (.createDirAll .appDir) (.ok ()) _ ⟨rfl, hs⟩ ?_
    refine runs_next .blobsLoad (.ok ()) _ ⟨rfl, hs⟩ ?_
    refine runs_next .docsSpawn (.ok ()) _ ⟨rfl, hs⟩ ?_
    exact .returned _ _
  refine ⟨⟨.replicate 32 0⟩, ?_⟩
  simp only [program, MachineProtocol.new, Fallible.run_bind, await_eq, Fallible.run_of,
    Prog.await_bind, Prog.pure_bind]
  refine Runs.bind (Runs.bind hshared rfl ?_) rfl (.returned _ _)
  simp only [Fallible.andThen_ok]
  refine runs_next (.readFile .managerPublicKey) r _ ⟨⟨rfl, hread, hknown⟩, hs⟩ ?_
  refine runs_next (.routerSpawn ⟨.replicate 32 0⟩ _) ()
    (s.run m (MachineProtocol.ownerOf Z.serde r)) ⟨rfl, hs⟩ ?_
  exact .returned _ _

variable (Z sure) in
/-- The same, with the owner of its file. -/
theorem runs_new {m : EndpointId} (owner : Option EndpointId)
    (hfile : (s.host m).ownerFile = owner.map Z.serde.endpointId.enc) :
    ∃ key, Runs (network Z sure) (.start m) Alone (program Z.serde (.start m)) s
      (.returned (.started (.ok (key, owner)))) (s.run m owner) := by
  rcases owner with _ | M
  · exact runs_start Z sure (.error notFound) nofun fun _ hne => absurd hfile hne
  · have hstart := runs_start Z sure (s := s) (m := m) (.ok (Z.serde.endpointId.enc M))
      (fun b hb => (by cases hb; exact hfile)) fun _ _ => ⟨_, rfl⟩
    rwa [ownerOf_ok] at hstart

variable (Z sure) in
/-- **A claim can complete**, on a machine that is running and whose lock is free. -/
theorem claim_completes (hagain : ¬ Z.again → (s.host c.machine).owner ≠ some c.manager)
    (hrun : (s.host c.machine).running = true)
    (hlock : (s.host c.machine).lock = none)
    (howner : (s.host c.machine).owner = none ∨ (s.host c.machine).owner = some c.manager)
    (hticket : (∃ t, (s.host c.machine).ticketFile = some (Z.serde.ticket.enc t)) ∨
      ((s.host c.machine).ticketFile = none ∧ ¬ sure c))
    (hclaim : .claim c ∉ s.begun) (haccept : .accept c ∉ s.begun)
    (hping : s.toMachine c = .empty) (hsent : s.toManager c = .empty)
    {f : TaskId → Option (Fut Result)} (hfc : f (.claim c) = none) (hfa : f (.accept c) = none) :
    ∃ s', Steps (claims Z sure) ⟨s, f⟩ ⟨s', Function.update (Function.update f (.accept c)
        (some (.pure (.accepted (.ok ()))))) (.claim c) (some (.pure .claimed))⟩ ∧
      Served c s s' := by
  obtain ⟨q, hbegins, hends⟩ := begins_claim (Z := Z) (c := c) (s := s.begin (.claim c))
  have hne : TaskId.claim c ≠ .accept c := nofun
  have hstart := steps_of_start (Y := claims Z sure) (i := .claim c) (s := s)
    ⟨hclaim, rfl, rfl⟩ hfc hbegins
  have hpinged : (((s.begin (.claim c)).ping c).begin (.accept c)).toMachine c =
      ⟨PING_MAGIC_BYTES, true⟩ := by
    show (((s.begin (.claim c)).ping c)).toMachine c = _
    rw [State.ping, State.finish, State.outgoing_toMachine, State.send, State.outgoing_toMachine,
      show ((s.begin (.claim c)).answer (.claim c)).toMachine c = .empty from hping]
    rfl
  obtain ⟨s', t, hruns, hsent', hcap, hserved⟩ := runs_accept (Z := Z) (c := c)
    (s := ((s.begin (.claim c)).ping c).begin (.accept c)) hagain hrun hlock howner hticket hpinged
    hsent
  have haccept' : MayBegin (.accept c) ((s.begin (.claim c)).ping c) := by
    refine ⟨hrun, fun h => ?_⟩
    rcases List.mem_cons.mp h with h | h
    · exact hne h.symm
    · exact haccept h
  have hserve := steps_of_return (Y := claims Z sure) (f := Function.update f (.claim c) (some q))
    ⟨haccept', rfl, rfl⟩ (by rw [Function.update_of_ne hne.symm, hfa]) hruns
  have hend := steps_of_runs (Y := claims Z sure) (hends s' t hsent' hcap)
    (f := Function.update (Function.update f (.claim c) (some q)) (.accept c)
      (some (.pure (.accepted (.ok ())))))
    (by rw [Function.update_of_ne hne, Function.update_self])
  refine ⟨s'.putTicket c.manager c.machine (Z.serde.ticket.enc t), ?_, hserved.running,
    hserved.lock, hserved.owner⟩
  have hsteps := (hstart.trans hserve).trans hend
  rw [Function.update_comm hne, Function.update_idem] at hsteps
  exact hsteps

end Runs

/-- There are always connections and calls that have not begun. -/
theorem exists_unbegun (begun : List TaskId) (m M : EndpointId) :
    ∃ n, .accept ⟨m, M, n⟩ ∉ begun ∧ .claim ⟨m, M, n⟩ ∉ begun ∧ .query m n ∉ begun ∧
      .list M n ∉ begun := by
  obtain ⟨n, hn⟩ := Infinite.exists_notMem_finset (begun.filterMap fun i =>
    match i with
    | .accept c => some c.n
    | .claim c => some c.n
    | .query _ n => some n
    | .list _ n => some n
    | .start _ => none).toFinset
  rw [List.mem_toFinset, List.mem_filterMap] at hn
  exact ⟨n, fun h => hn ⟨_, h, rfl⟩, fun h => hn ⟨_, h, rfl⟩, fun h => hn ⟨_, h, rfl⟩,
    fun h => hn ⟨_, h, rfl⟩⟩

/-! ### A first claim -/

namespace FirstClaim

def machine : EndpointId := ⟨.replicate 32 1⟩

def manager : EndpointId := ⟨.replicate 32 2⟩

def stranger : EndpointId := ⟨.replicate 32 3⟩

def conn : ConnId := ⟨machine, manager, 0⟩

/-- The machine has started, and has no owner. -/
def started : State := (State.fresh.begin (.start machine)).run machine none

/-- **A first claim**: the machine has started and was claimed. -/
theorem claimed (Z : Setting) :
    ∃ P : Pool TaskId Op Op.Ret Result State,
      Steps (claims Z fun _ => False) (Pool.idle State.fresh) P ∧
      (P.st.host machine).running = true ∧ (P.st.host machine).lock = none ∧
      (P.st.host machine).owner = some manager := by
  obtain ⟨key, hnew⟩ := runs_new Z (fun _ => False) (s := State.fresh.begin (.start machine))
    (m := machine) none rfl
  have hstart := steps_of_return (Y := claims Z fun _ => False) (i := .start machine)
    (s := State.fresh) (f := fun _ => none) ⟨rfl, rfl, rfl⟩ rfl hnew
  have hhost : started.host machine = { Host.fresh with owner := none, running := true } :=
    State.setHost_self ..
  have hbegun : ∀ i, i ≠ TaskId.start machine → i ∉ started.begun :=
    fun i hi h => hi (List.mem_singleton.mp h)
  obtain ⟨s', hsteps, hserved⟩ := claim_completes Z (fun _ => False) (c := conn) (s := started)
    (f := Function.update (fun _ => none) (.start machine)
      (some (.pure (.started (.ok (key, none))))))
    (fun _ h => nomatch (congrArg Host.owner hhost).symm.trans h) (congrArg Host.running hhost)
    (congrArg Host.lock hhost)
    (Or.inl (congrArg Host.owner hhost)) (Or.inr ⟨congrArg Host.ticketFile hhost, id⟩)
    (hbegun _ nofun) (hbegun _ nofun) rfl rfl rfl rfl
  refine ⟨_, hstart.trans hsteps, ?_, hserved.lock, hserved.owner⟩
  exact hserved.running.trans (congrArg Host.running hhost)

end FirstClaim

end Vendimint.Claim
