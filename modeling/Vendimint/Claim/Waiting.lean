import Vendimint.Claim.Owner

/-! # Claims that wait for the application

* `owned_never_blocked`: if no connection of the owner takes the lock, and the machine knows its owner,
  a claim that holds the lock of the machine does not wait for the application.
* `owner_blocks`: a connection of the owner takes the lock and waits. -/

namespace Vendimint.Claim

open Vendimint.Store Vendimint.Async

section Waiting
variable {Z : Setting} {sure : ConnId → Prop} {m M : EndpointId} {c : ConnId}
  {P : Pool TaskId Op Op.Ret Result State}

/-- The connection `c` waits for the application: to receive its request, or to answer it. -/
def WaitsForAnswer (P : Pool TaskId Op Op.Ret Result State) (c : ConnId) : Prop :=
  ∃ (op : Op) (k : op.Ret → Fut Result), P.task (.accept c) = some (.await op k) ∧
    (op = .answer ∨ ∃ pin, op = .claimRequestSend pin)

/-- The lock on the owner of `m` is held by a claim that waits for the application. -/
def Blocked (P : Pool TaskId Op Op.Ret Result State) (m : EndpointId) : Prop :=
  ∃ c : ConnId, (P.st.host m).lock = some (.accept c) ∧ WaitsForAnswer P c

/-- A call of `get_machine_state` on `m` waits for the lock on the owner. -/
def QueryWaits (P : Pool TaskId Op Op.Ret Result State) (m : EndpointId) : Prop :=
  ∃ n k, P.task (.query m n) = some (.await .ownerLock k)

/-- A connection that waits for the application may ask it. -/
theorem WaitsForAnswer.asks (h : WaitsForAnswer P c) (hg : Good (keeps Z sure) P)
    (hagain : ¬ Z.again) : Unowned Z c.machine P.st := by
  by_contra howned
  obtain ⟨op, k, hk, rfl | ⟨pin, rfl⟩⟩ := h
  · have he : (network Z sure).exec (.accept c) .answer P.st (some true) (P.st.answer (.accept c)) :=
      ⟨Or.inl ⟨rfl, rfl⟩, fun _ => rfl⟩
    have hguar : Guards Z (.accept c) P.st (P.st.answer (.accept c)) := hg.guar hk he
    exact absurd (hguar.asks c rfl hagain howned).2 (List.cons_ne_self c P.st.answers)
  · have he : (network Z sure).exec (.accept c) (.claimRequestSend pin) P.st (.ok ())
        (P.st.request (.accept c)) := ⟨Or.inl ⟨rfl, rfl⟩, fun _ => ⟨(), rfl⟩⟩
    have hguar : Guards Z (.accept c) P.st (P.st.request (.accept c)) := hg.guar hk he
    exact absurd (hguar.asks c rfl hagain howned).1 (List.cons_ne_self c P.st.requests)

/-- **A machine with an owner is not blocked**, if no connection of the owner takes the lock, and the
owner is in memory or every start reads it. -/
theorem owned_never_blocked (hagain : ¬ Z.again)
    (h : Steps (claims Z sure) (Pool.idle State.fresh) P) (hM : Records Z P.st m M)
    (hknows : Z.known ∨ (P.st.host m).owner = some M) : ¬ Blocked P m := by
  rintro ⟨c, hlock, hwaits⟩
  have hg := good h
  obtain rfl : c.machine = m := ((hg.1.hosts m).locked _ hlock).1
  obtain ⟨hnone, hfile⟩ := hwaits.asks hg hagain
  rcases hknows with hk | howner
  · cases (hfile hk).symm.trans (hM.ownerFile hg.1)
  · cases hnone.symm.trans howner

/-- A call of `get_machine_state` can begin on a running machine, and waits for the lock. -/
theorem exists_query (h : Steps (claims Z sure) (Pool.idle State.fresh) P)
    (hrun : (P.st.host m).running = true) (M : EndpointId) :
    ∃ n k, .accept ⟨m, M, n⟩ ∉ (P.st.begin (.query m n)).begun ∧
      Step (claims Z sure) P ⟨P.st.begin (.query m n),
        Function.update P.task (.query m n) (some (.await .ownerLock k))⟩ := by
  obtain ⟨n, haccept, -, hquery, -⟩ := exists_unbegun P.st.begun m M
  have hmay : MayBegin (.query m n) P.st := hrun
  refine ⟨n, _, fun hmem => ?_, .spawn (task_of_unbegun h hquery) ⟨hmay, rfl, rfl⟩⟩
  rcases List.mem_cons.mp hmem with hmem | hmem
  · cases hmem
  · exact haccept hmem

/-- A connection begins while the call waits. -/
theorem steps_accept {f : TaskId → Option (Fut Result)} {s t : State} {q : Fut Result}
    (hrun : (s.host c.machine).running = true) (hbegun : .accept c ∉ s.begun)
    (htask : f (.accept c) = none)
    (h : Begins (network Z sure) (.accept c) (program Z.serde (.accept c)) (s.begin (.accept c)) q t) :
    Steps (claims Z sure) ⟨s, f⟩ ⟨t, Function.update f (.accept c) (some q)⟩ := by
  have hmay : MayBegin (.accept c) s := ⟨hrun, hbegun⟩
  exact steps_of_start (Y := claims Z sure) ⟨hmay, rfl, rfl⟩ htask h

/-- The handler of a connection, up to the answer of the operator. -/
theorem begins_accept {s : State} (hagain : Z.again) (hrun : (s.host c.machine).running = true)
    (hlock : (s.host c.machine).lock = none) (howner : (s.host c.machine).owner = some c.manager) :
    ∃ k, Begins (network Z sure) (.accept c) (program Z.serde (.accept c)) s (.await .answer k)
      ((s.setLock c.machine (some (.accept c))).request (.accept c)) := by
  have hother : MachineProtocol.claimedByOther (some c.manager) c.manager = false := by
    simp [MachineProtocol.claimedByOther]
  unfold program
  simp only [MachineProtocol.accept, Fallible.run_bind, Fallible.run_ite, await_eq, Fallible.run_of,
    Prog.await_bind, Prog.pure_bind, Fallible.andThen_ok]
  have h : ∀ (op : Op) (r : op.Ret) {k : op.Ret → Fut Result} {q : Fut Result} {t t' t'' : State},
      effect Z (.accept c) op t r t' → (Sure sure (.accept c) → Smooth (.accept c) t op r) →
      Begins (network Z sure) (.accept c) (k r) t' q t'' →
      Begins (network Z sure) (.accept c) (.await op k) t q t'' :=
    fun _ _ _ _ _ _ _ he hs h => .step ⟨he, hs⟩ h
  constructor
  apply h .ownerLock (some c.manager)
    ⟨⟨hrun, hlock, fun _ _ h => absurd hagain h⟩, howner.symm, rfl⟩ fun _ => trivial
  simp only [hother, Bool.false_eq_true, if_false, run_guarded, MachineProtocol.acceptClaim,
    Fallible.run_bind, Fallible.run_ite, run_attempt, await_eq, Fallible.run_of, call_eq,
    Prog.await_bind, Prog.pure_bind, Fallible.andThen_ok]
  apply h .exportKeyingMaterial (.replicate 32 0) rfl fun _ => trivial
  apply h (.claimRequestSend _) (.ok ()) (Or.inl ⟨rfl, rfl⟩) fun _ => ⟨(), rfl⟩
  exact .refl _ _

end Waiting

open FirstClaim in
/-- **A machine with an owner may be blocked**: its owner claims it again. -/
theorem owner_blocks : ¬ ∀ (P : Pool TaskId Op Op.Ret Result State) (m M : EndpointId),
    Steps (claims (.framed True True) fun _ => False) (Pool.idle State.fresh) P →
    Records (.framed True True) P.st m M → ¬ (QueryWaits P m ∧ Blocked P m) := by
  intro h
  obtain ⟨P, hsteps, hrun, hlock, howner⟩ := claimed (.framed True True)
  -- The call begins, and then the connection.
  obtain ⟨n, k', hn, hquery⟩ := exists_query hsteps hrun manager
  obtain ⟨k, hbegins⟩ := @begins_accept (.framed True True)
    (fun _ => False) ⟨machine, manager, n⟩
    ((P.st.begin (.query machine n)).begin (.accept ⟨machine, manager, n⟩)) trivial hrun hlock
    howner
  have hne : TaskId.query machine n ≠ .accept ⟨machine, manager, n⟩ := nofun
  have haccept := steps_accept (Z := .framed True True) (c := ⟨machine, manager, n⟩)
    (s := P.st.begin (.query machine n)) (f := Function.update P.task (.query machine n)
      (some (.await .ownerLock k'))) hrun hn (task_of_unbegun (hsteps.tail hquery) hn) hbegins
  have hall := (hsteps.tail hquery).trans haccept
  refine h _ machine manager hall (Or.inl ?_) ⟨⟨n, k', ?_⟩, ⟨machine, manager, n⟩, ?_, .answer, k, ?_,
    Or.inl rfl⟩
  · simpa [State.setLock] using howner
  · simp only [Function.update_of_ne hne, Function.update_self]
  · simp [State.setLock]
  · exact Function.update_self ..

open FirstClaim in
/-- A machine that was claimed: a stranger's connection has the lock, and a call waits for it. -/
theorem owned_never_blocked_claimed :
    ∃ (P : Pool TaskId Op Op.Ret Result State) (c : ConnId),
      Steps (claims (.framed False False) fun _ => False) (Pool.idle State.fresh) P ∧
      (P.st.host machine).owner = some manager ∧ QueryWaits P machine ∧ c.manager = stranger ∧
      (P.st.host machine).lock = some (.accept c) ∧ P.task (.accept c) ≠ none ∧
      ¬ Blocked P machine := by
  obtain ⟨P, hsteps, hrun, hlock, howner⟩ := claimed (.framed False False)
  obtain ⟨n, k', hn, hquery⟩ := exists_query hsteps hrun stranger
  have hne : TaskId.query machine n ≠ .accept ⟨machine, stranger, n⟩ := nofun
  -- The stranger's connection takes the lock.
  have hbegins : ∃ q, Begins (network (.framed False False) fun _ => False)
      (.accept ⟨machine, stranger, n⟩) (program Serde.framed (.accept ⟨machine, stranger, n⟩))
      ((P.st.begin (.query machine n)).begin (.accept ⟨machine, stranger, n⟩)) q
      (((P.st.begin (.query machine n)).begin (.accept ⟨machine, stranger, n⟩)).setLock machine
        (some (.accept ⟨machine, stranger, n⟩))) := by
    obtain ⟨k, hk⟩ : ∃ k, program Serde.framed (.accept ⟨machine, stranger, n⟩) =
        .await .ownerLock k := ⟨_, rfl⟩
    rw [hk]
    have he : (network (.framed False False) fun _ => False).exec
        (.accept ⟨machine, stranger, n⟩) .ownerLock
        ((P.st.begin (.query machine n)).begin (.accept ⟨machine, stranger, n⟩)) (some manager)
        (((P.st.begin (.query machine n)).begin (.accept ⟨machine, stranger, n⟩)).setLock machine
          (some (.accept ⟨machine, stranger, n⟩))) := by
      refine ⟨⟨⟨hrun, hlock, ?_⟩, howner.symm, rfl⟩, fun h => h.elim⟩
      rintro c hc - hm
      cases hc
      exact absurd (Option.some.inj (howner.symm.trans hm)) (show manager ≠ stranger by decide)
    exact ⟨_, .step he (.refl _ _)⟩
  obtain ⟨q, hq⟩ := hbegins
  have haccept := steps_accept (Z := (.framed False False))
    (c := ⟨machine, stranger, n⟩) (s := P.st.begin (.query machine n))
    (f := Function.update P.task (.query machine n) (some (.await .ownerLock k'))) hrun hn
    (task_of_unbegun (hsteps.tail hquery) hn) hq
  have hall := (hsteps.tail hquery).trans haccept
  have howner' : ((((P.st.begin (.query machine n)).begin (.accept ⟨machine, stranger, n⟩)).setLock machine
      (some (.accept ⟨machine, stranger, n⟩))).host machine).owner = some manager := by
    simpa [State.setLock] using howner
  refine ⟨_, ⟨machine, stranger, n⟩, hall, howner', ⟨n, k', ?_⟩, rfl, ?_, ?_,
    owned_never_blocked id hall (Or.inl howner') (Or.inr howner')⟩
  · simp only [Function.update_of_ne hne, Function.update_self]
  · simp [State.setLock]
  · simp only [Function.update_self]
    exact Option.some_ne_none _

end Vendimint.Claim
