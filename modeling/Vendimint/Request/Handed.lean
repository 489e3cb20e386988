import Vendimint.Request.Handlers

/-! # Which claim requests the application is handed

* `requests_handed_out`: a call returns a request only while the machine has no owner or if the request
  is the owner's own; after a shutdown at which no request was in the channel, every call returns
  `None`.
* `requests_outlive`: a request is handed out although the machine has an owner, and one that was in
  the channel at a shutdown is handed out after it. -/

namespace Vendimint.Request

open Vendimint.Store Vendimint.Async

section Calls
variable {J : Serde} {i : TaskId} {op : Op} {r : op.Ret} {s s' : State}
  {P P' : Pool TaskId Op Op.Ret Result State}

/-! ### The calls under way -/

/-- Operations do not shut the machine down, and those of a handler leave the receiver. -/
theorem frame_of_exec (he : exec i op s r s') :
    s'.stopping = s.stopping ∧ s'.down = s.down ∧
      ∀ c, i = .accept c → s'.receiver = s.receiver := by
  by_cases hop : Special op
  · cases op
    case ownerLock =>
      obtain ⟨-, -, c, -, rfl⟩ := he
      exact ⟨rfl, rfl, fun _ _ => rfl⟩
    case ownerUnlock => obtain rfl := he; exact ⟨rfl, rfl, fun _ _ => rfl⟩
    case ownerSet => obtain rfl := he; exact ⟨rfl, rfl, fun _ _ => rfl⟩
    case claimRequestSend =>
      rcases he with ⟨-, -, c, -, rfl⟩ | ⟨-, rfl⟩
      · exact ⟨rfl, rfl, fun _ _ => rfl⟩
      · exact ⟨rfl, rfl, fun _ _ => rfl⟩
    case answer => rw [he.1]; exact ⟨rfl, rfl, fun _ _ => rfl⟩
    case docsOpen =>
      rcases he with ⟨-, rfl⟩ | ⟨-, rfl⟩
      · cases i with
        | accept c => exact ⟨rfl, rfl, fun _ _ => rfl⟩
        | next n => exact ⟨rfl, rfl, fun c hc => by cases hc⟩
      · exact ⟨rfl, rfl, fun _ _ => rfl⟩
    case receiverLock =>
      obtain ⟨-, n, rfl, rfl⟩ := he
      exact ⟨rfl, rfl, fun c hc => by cases hc⟩
    case claimRequestRecv =>
      obtain ⟨⟨n, rfl⟩, ⟨q, rest, -, -, rfl⟩ | ⟨-, -, -, rfl⟩⟩ := he
      · exact ⟨rfl, rfl, fun c hc => by cases hc⟩
      · exact ⟨rfl, rfl, fun c hc => by cases hc⟩
    all_goals exact hop.elim
  · rw [eq_of_exec hop he]
    exact ⟨rfl, rfl, fun _ _ => rfl⟩

/-- The tasks on a machine: a call that has the lock on the receiver receives, and no handler is left
once the machine is down. -/
structure Tasks (J : Serde) (s : State) (f : TaskId → Option (Fut Result)) : Prop where
  call : ∀ n p, f (.next n) = some p → p = program J (.next n) ∨
    p = receiving ∧ s.receiver = some n ∨ ∃ r, p = .pure r
  holder : ∀ n, s.receiver = some n → f (.next n) = some receiving
  halted : s.down = true → s.stopping = true ∧ ∀ c, f (.accept c) = none

variable {f : TaskId → Option (Fut Result)} {q : Option (Fut Result)}

/-- A handler takes a step, starts or is dropped. -/
theorem Tasks.accept {c : Conn} (h : Tasks J s f)
    (hframe : s'.stopping = s.stopping ∧ s'.down = s.down ∧ s'.receiver = s.receiver)
    (hq : q = none ∨ f (.accept c) ≠ none ∨ s.stopping = false) :
    Tasks J s' (Function.update f (.accept c) q) := by
  obtain ⟨h1, h2, h3⟩ := hframe
  have hnext : ∀ n, Function.update f (.accept c) q (.next n) = f (.next n) :=
    fun n => Function.update_of_ne (fun h => by cases h) ..
  refine ⟨fun n p hp => ?_, fun n hn => ?_, fun hdown => ?_⟩
  · rw [hnext] at hp
    rw [h3]
    exact h.call n p hp
  · rw [hnext]
    exact h.holder n (h3 ▸ hn)
  · obtain ⟨hstop, hgone⟩ := h.halted (h2 ▸ hdown)
    refine ⟨h1.trans hstop, fun c' => ?_⟩
    by_cases hc : c' = c
    · subst hc
      rw [Function.update_self]
      rcases hq with rfl | hq | hq
      · rfl
      · exact absurd (hgone c') hq
      · rw [hstop] at hq
        cases hq
    · rw [Function.update_of_ne fun h => hc (TaskId.accept.inj h)]
      exact hgone c'

/-- A call takes a step, starts or is dropped. -/
theorem Tasks.next {n : ℕ} (h : Tasks J s f)
    (hframe : s'.stopping = s.stopping ∧ s'.down = s.down)
    (hothers : ∀ m, m ≠ n → (s'.receiver = some m ↔ s.receiver = some m))
    (hq : s'.receiver = some n ∧ q = some receiving ∨ s'.receiver ≠ some n ∧
      (q = none ∨ q = some (program J (.next n)) ∨ ∃ r, q = some (.pure r))) :
    Tasks J s' (Function.update f (.next n) q) := by
  refine ⟨fun m p hp => ?_, fun m hm => ?_, fun hdown => ?_⟩
  · by_cases hmn : m = n
    · subst hmn
      rw [Function.update_self] at hp
      rcases hq with ⟨hm, rfl⟩ | ⟨-, rfl | rfl | ⟨r, rfl⟩⟩
      · exact Or.inr (Or.inl ⟨(Option.some.inj hp).symm, hm⟩)
      · cases hp
      · exact Or.inl (Option.some.inj hp).symm
      · exact Or.inr (Or.inr ⟨r, (Option.some.inj hp).symm⟩)
    · rw [Function.update_of_ne fun h => hmn (TaskId.next.inj h)] at hp
      rw [hothers m hmn]
      exact h.call m p hp
  · by_cases hmn : m = n
    · subst hmn
      rw [Function.update_self]
      rcases hq with ⟨-, rfl⟩ | ⟨hne, -⟩
      · rfl
      · exact absurd hm hne
    · rw [Function.update_of_ne fun h => hmn (TaskId.next.inj h)]
      exact h.holder m ((hothers m hmn).mp hm)
  · obtain ⟨hstop, hgone⟩ := h.halted (hframe.2 ▸ hdown)
    refine ⟨hframe.1.trans hstop, fun c => ?_⟩
    rw [Function.update_of_ne fun h => by cases h]
    exact hgone c

/-- What a call does when it is its turn. -/
theorem Tasks.call_step {n : ℕ} {k : op.Ret → Fut Result} (h : Tasks J s f)
    (hn : f (.next n) = some (.await op k)) (he : exec (.next n) op s r s') :
    Tasks J s' (Function.update f (.next n) (some (k r))) := by
  have hframe := frame_of_exec he
  rcases h.call n _ hn with hp | ⟨hp, hrec⟩ | ⟨r', hp⟩
  · cases hp
    obtain ⟨hnone, m, hm, rfl⟩ := he
    cases hm
    refine h.next ⟨hframe.1, hframe.2.1⟩ (fun m hm => ?_) (Or.inl ⟨rfl, rfl⟩)
    rw [hnone]
    simp [Ne.symm hm]
  · cases hp
    have hs' : s'.receiver = none := by
      obtain ⟨-, ⟨q, rest, -, -, rfl⟩ | ⟨-, -, -, rfl⟩⟩ := he
      · rfl
      · rfl
    refine h.next ⟨hframe.1, hframe.2.1⟩ (fun m hm => ?_) (Or.inr ⟨?_, Or.inr (Or.inr ⟨_, rfl⟩)⟩)
    · rw [hs', hrec]
      simp [Ne.symm hm]
    · rw [hs']
      simp
  · cases hp

/-- **One step of the machine.** -/
theorem tasks_step (h : Tasks J P.st P.task) (hstep : Step (machine J) P P') :
    Tasks J P'.st P'.task := by
  cases hstep with
  | @run i op k r s' hi he =>
    cases i with
    | accept c =>
      obtain ⟨h1, h2, h3⟩ := frame_of_exec he
      refine h.accept ⟨h1, h2, h3 c rfl⟩ (Or.inr (Or.inl ?_))
      rw [hi]
      exact Option.some_ne_none _
    | next n => exact h.call_step hi he
  | @abort i op k s' hi hc =>
    obtain ⟨-, rfl⟩ := hc
    cases i with
    | accept c => exact h.accept ⟨rfl, rfl, rfl⟩ (Or.inl rfl)
    | next n =>
      have hrec : (P.st.release (.next n)).receiver =
          if P.st.receiver = some n then none else P.st.receiver := rfl
      refine h.next ⟨rfl, rfl⟩ (fun m hm => ?_) (Or.inr ⟨?_, Or.inl rfl⟩)
      · rw [hrec]
        split_ifs with hn
        · rw [hn]
          simp [Ne.symm hm]
        · rfl
      · rw [hrec]
        split_ifs with hn
        · simp
        · exact hn
  | @spawn i p s' hi hs =>
    obtain ⟨hmay, rfl, rfl⟩ := hs
    cases i with
    | accept c => exact h.accept ⟨rfl, rfl, rfl⟩ (Or.inr (Or.inr (hmay c rfl)))
    | next n =>
      refine h.next ⟨rfl, rfl⟩ (fun m _ => Iff.rfl) (Or.inr ⟨fun hn => ?_, Or.inr (Or.inl rfl)⟩)
      have hholder := h.holder n hn
      rw [hi] at hholder
      cases hholder
  | @env s' dead he =>
    rcases he with ⟨rfl, hdead⟩ | ⟨hstop, rfl, hdead⟩
    · simp only [hdead, Bool.false_eq_true, if_false]
      exact ⟨h.call, h.holder, fun hdown => ⟨rfl, (h.halted hdown).2⟩⟩
    · simp only [hdead]
      exact ⟨h.call, h.holder, fun _ => ⟨hstop, fun c => rfl⟩⟩

theorem tasks_steps (h : Tasks J P.st P.task) (hsteps : Steps (machine J) P P') :
    Tasks J P'.st P'.task := by
  induction hsteps with
  | refl => exact h
  | tail _ hstep ih => exact tasks_step ih hstep

theorem tasks_started {owner : Option EndpointId}
    (h : Steps (machine J) (Pool.idle (.started owner)) P) : Tasks J P.st P.task :=
  tasks_steps (P := Pool.idle (.started owner))
    ⟨fun _ _ hp => (by cases hp), fun _ hn => (by cases hn), fun hd => (by cases hd)⟩ h

/-! ### The step that returns a request -/

/-- The call `n` returns a request with the PIN `pin` in the step from `P` to `P'`. -/
def Hands (P P' : Pool TaskId Op Op.Ret Result State) (n : ℕ) (pin : ClaimPin) : Prop :=
  P.task (.next n) ≠ some (.pure (.request (some pin))) ∧
    P'.task (.next n) = some (.pure (.request (some pin)))

/-- A request that is returned was the first in the channel. -/
theorem unread_of_hands {n : ℕ} {pin : ClaimPin} (h : Tasks J P.st P.task)
    (hstep : Step (machine J) P P') (hh : Hands P P' n pin) :
    ∃ c rest, P.st.unread = (c, pin) :: rest := by
  obtain ⟨hbefore, hafter⟩ := hh
  cases hstep with
  | @run i op k r s' hi he =>
    by_cases hin : i = .next n
    · subst hin
      simp only [Function.update_self, Option.some.injEq] at hafter
      rcases h.call n _ hi with hp | ⟨hp, -⟩ | ⟨r', hp⟩
      · cases hp
        cases hafter
      · cases hp
        cases hafter
        obtain ⟨-, ⟨q, rest, hunread, hr, -⟩ | ⟨-, -, hr, -⟩⟩ := he
        · exact ⟨q.1, rest, by rw [hunread, Option.some.inj hr]⟩
        · cases hr
      · cases hp
    · simp only [Function.update_of_ne (Ne.symm hin)] at hafter
      exact absurd hafter hbefore
  | @abort i op k s' hi hc =>
    by_cases hin : i = .next n
    · subst hin
      simp only [Function.update_self, reduceCtorEq] at hafter
    · simp only [Function.update_of_ne (Ne.symm hin)] at hafter
      exact absurd hafter hbefore
  | @spawn i p s' hi hs =>
    by_cases hin : i = .next n
    · subst hin
      simp only [Function.update_self, Option.some.injEq] at hafter
      rw [hs.2.1] at hafter
      cases hafter
    · simp only [Function.update_of_ne (Ne.symm hin)] at hafter
      exact absurd hafter hbefore
  | @env s' dead he =>
    simp only at hafter
    split_ifs at hafter
    exact absurd hafter hbefore

/-- Nothing is sent once the machine is down. -/
theorem down_step (h : Tasks J P.st P.task) (hstep : Step (machine J) P P')
    (hdown : P.st.down = true) : P'.st.down = true ∧ P'.st.unread ⊆ P.st.unread := by
  obtain ⟨-, hgone⟩ := h.halted hdown
  cases hstep with
  | @run i op k r s' hi he =>
    refine ⟨(frame_of_exec he).2.1.trans hdown, ?_⟩
    cases i with
    | accept c =>
      rw [hgone c] at hi
      cases hi
    | next n =>
      rcases h.call n _ hi with hp | ⟨hp, -⟩ | ⟨r', hp⟩
      · cases hp
        obtain ⟨-, -, -, rfl⟩ := he
        exact List.Subset.refl _
      · cases hp
        obtain ⟨-, ⟨q, rest, hunread, -, rfl⟩ | ⟨-, -, -, rfl⟩⟩ := he
        · rw [hunread]
          exact List.subset_cons_self q rest
        · exact List.Subset.refl _
      · cases hp
  | @abort i op k s' hi hc =>
    rw [hc.2]
    cases i with
    | accept c => exact ⟨hdown, List.Subset.refl _⟩
    | next n => exact ⟨hdown, List.Subset.refl _⟩
  | spawn _ hs =>
    rw [hs.2.2]
    exact ⟨hdown, List.Subset.refl _⟩
  | env he =>
    rcases he with ⟨rfl, -⟩ | ⟨-, rfl, -⟩
    · exact ⟨hdown, List.Subset.refl _⟩
    · exact ⟨rfl, List.Subset.refl _⟩

theorem down_steps (h : Tasks J P.st P.task) (hsteps : Steps (machine J) P P')
    (hdown : P.st.down = true) (hunread : P.st.unread = []) :
    P'.st.down = true ∧ P'.st.unread = [] := by
  induction hsteps with
  | refl => exact ⟨hdown, hunread⟩
  | tail hsteps hstep ih =>
    obtain ⟨hdown', hsub⟩ := down_step (tasks_steps h hsteps) hstep ih.1
    exact ⟨hdown', List.eq_nil_of_subset_nil (ih.2 ▸ hsub)⟩

/-- The call that has the lock on the receiver gets `None` from the closed channel. -/
theorem runs_receiving {n : ℕ} (hdown : s.down = true) (hunread : s.unread = []) :
    Runs requests (.next n) Alone receiving s (.returned (.request none))
      { s with receiver := none } :=
  runs_next .claimRequestRecv none _ ⟨⟨n, rfl⟩, Or.inr ⟨hunread, hdown, rfl, rfl⟩⟩ (.returned _ _)

/-- **A call on a machine that is down returns `None`**, if no request is left. -/
theorem returns_none {n : ℕ} {p : Fut Result} (h : Tasks J P.st P.task) (hdown : P.st.down = true)
    (hunread : P.st.unread = []) (hn : P.task (.next n) = some p) (hp : ∀ r, p ≠ .pure r) :
    ∃ P', Steps (machine J) P P' ∧ P'.task (.next n) = some (.pure (.request none)) := by
  have hcall : ∀ {s : State} {g : TaskId → Option (Fut Result)}, s.receiver = none →
      s.down = true → s.unread = [] → g (.next n) = some (program J (.next n)) →
      ∃ P', Steps (machine J) ⟨s, g⟩ P' ∧ P'.task (.next n) = some (.pure (.request none)) := by
    intro s g hrec hdown hunread hg
    have hrun : Runs requests (.next n) Alone (program J (.next n)) s
        (.returned (.request none)) _ :=
      runs_next .receiverLock () { s with receiver := some n } ⟨hrec, n, rfl, rfl⟩
        (runs_receiving hdown hunread)
    exact ⟨_, steps_of_runs (Y := machine J) hrun hg, Function.update_self ..⟩
  rcases h.call n p hn with rfl | ⟨rfl, -⟩ | ⟨r, rfl⟩
  · rcases hrec : P.st.receiver with _ | m
    · exact hcall hrec hdown hunread hn
    · -- Another call has the lock: it returns first.
      have hm := h.holder m hrec
      have hne : TaskId.next n ≠ .next m := by
        intro heq
        rw [← heq, hn] at hm
        cases hm
      have hfirst := steps_of_runs (Y := machine J) (runs_receiving (n := m) hdown hunread) hm
      obtain ⟨P', hsteps, hP'⟩ := hcall (s := { P.st with receiver := none }) rfl hdown hunread
        ((Function.update_of_ne hne ..).trans hn)
      exact ⟨P', hfirst.trans hsteps, hP'⟩
  · exact ⟨_, steps_of_runs (Y := machine J) (runs_receiving hdown hunread) hn,
      Function.update_self ..⟩
  · exact absurd rfl (hp r)

/-- **The requests that the application is handed**: while the machine has no owner, or the owner's own
request; and none after a shutdown at which no request was in the channel. -/
theorem requests_handed_out {owner : Option EndpointId}
    (h : Steps (machine J) (Pool.idle (.started owner)) P) :
    (∀ P' n pin, Step (machine J) P P' → Hands P P' n pin →
      P.st.owner = none ∨
        ∃ c rest, P.st.unread = (c, pin) :: rest ∧ P.st.owner = some c.manager) ∧
    (P.st.down = true → P.st.unread = [] → ∀ P', Steps (machine J) P P' →
      (∀ P'' n pin, Step (machine J) P' P'' → ¬ Hands P' P'' n pin) ∧
      ∀ n p, P'.task (.next n) = some p → (∃ r, p = .pure r) ∨
        ∃ P'', Steps (machine J) P' P'' ∧ P''.task (.next n) = some (.pure (.request none))) := by
  have htasks := tasks_started h
  constructor
  · intro P' n pin hstep hh
    obtain ⟨c, rest, hunread⟩ := unread_of_hands htasks hstep hh
    have hfresh := (good h).1 (c, pin) (hunread ▸ List.mem_cons_self)
    exact hfresh.imp_right fun howner => ⟨c, rest, hunread, howner⟩
  · intro hdown hunread P' hsteps
    obtain ⟨hdown', hunread'⟩ := down_steps htasks hsteps hdown hunread
    have htasks' := tasks_steps htasks hsteps
    refine ⟨fun P'' n pin hstep hh => ?_, fun n p hn => ?_⟩
    · obtain ⟨c, rest, hcons⟩ := unread_of_hands htasks' hstep hh
      rw [hunread'] at hcons
      cases hcons
    · by_cases hp : ∃ r, p = .pure r
      · exact Or.inl hp
      · exact Or.inr (returns_none htasks' hdown' hunread' hn fun r hr => hp ⟨r, hr⟩)

end Calls

/-! ### Runs in which a request comes too late -/

section Late
variable {J : Serde} {s : State}

/-- The handler of a connection, up to the answer of the operator. -/
theorem begins_accept {c : Conn} (hlock : s.lock = none) (hunread : s.unread = [])
    (howner : s.owner = none ∨ s.owner = some c.manager) (km : BytesN 32) :
    ∃ k, Begins requests (.accept c) (program J (.accept c)) s (.await .answer k)
      { s with lock := some c, unread := [(c, claimPinFromKeyingMaterial km)] } := by
  have hother : MachineProtocol.claimedByOther s.owner c.manager = false := by
    rcases howner with h | h <;> simp [h, MachineProtocol.claimedByOther]
  simp only [program, MachineProtocol.accept, Fallible.run_bind, Fallible.run_ite, await_eq,
    Fallible.run_of, Prog.await_bind, Prog.pure_bind, Fallible.andThen_ok]
  constructor
  refine begins_next .ownerLock s.owner { s with lock := some c } ⟨hlock, rfl, c, rfl, rfl⟩ ?_
  simp only [hother, Bool.false_eq_true, if_false, run_guarded, MachineProtocol.acceptClaim,
    Fallible.run_bind, Fallible.run_ite, run_attempt, await_eq, Fallible.run_of, call_eq,
    Prog.await_bind, Prog.pure_bind, Fallible.andThen_ok]
  refine begins_next .exportKeyingMaterial km _ rfl ?_
  refine begins_next (.claimRequestSend _) (.ok ()) _ (Or.inl ⟨rfl, hunread, c, rfl, rfl⟩) ?_
  exact .refl _ _

/-- The next call, up to the request. -/
theorem begins_next_call {n : ℕ} (hrec : s.receiver = none) :
    Begins requests (.next n) (program J (.next n)) s receiving { s with receiver := some n } :=
  begins_next .receiverLock () _ ⟨hrec, n, rfl, rfl⟩ (.refl _ _)

/-- The step that hands out the first request in the channel. -/
theorem hands_first {P : Pool TaskId Op Op.Ret Result State} {n : ℕ} {c : Conn} {pin : ClaimPin}
    {rest : List (Conn × ClaimPin)} (hn : P.task (.next n) = some receiving)
    (hunread : P.st.unread = (c, pin) :: rest) :
    ∃ P', Step (machine J) P P' ∧ Hands P P' n pin := by
  have he : exec (.next n) .claimRequestRecv P.st (some pin)
      { P.st with unread := rest, receiver := none } :=
    ⟨⟨n, rfl⟩, Or.inl ⟨(c, pin), rest, hunread, rfl, rfl⟩⟩
  refine ⟨_, .run (Y := machine J) hn he, fun h => ?_, Function.update_self ..⟩
  rw [hn] at h
  cases h

end Late

namespace Repeated

def manager : EndpointId := ⟨.replicate 32 1⟩

def connection : Conn := ⟨manager, 0⟩

def pin : ClaimPin := claimPinFromKeyingMaterial (.replicate 32 0)

/-- A request of the manager is in the channel, and a call is about to receive it. -/
theorem asked {owner : Option EndpointId} (h : owner = none ∨ owner = some manager) :
    ∃ P, Steps (machine .framed) (Pool.idle (.started owner)) P ∧
      P.task (.next 0) = some receiving ∧ P.st.unread = [(connection, pin)] ∧
      P.st.owner = owner ∧ P.st.down = false := by
  obtain ⟨k, hbegins⟩ := @begins_accept .framed (.started owner) connection rfl rfl h
    (.replicate 32 0)
  have hasked := steps_of_start (Y := machine .framed) (i := .accept connection)
    (s := .started owner) (f := fun _ => none) ⟨fun _ _ => rfl, rfl, rfl⟩ rfl hbegins
  exact ⟨_, hasked.trans (steps_of_start (Y := machine .framed) (i := .next 0)
    ⟨fun _ _ => rfl, rfl, rfl⟩ rfl (begins_next_call rfl)), by simp, rfl, rfl, rfl⟩

/-- The machine is shut down while the request is in the channel, and a call follows. -/
theorem asked_down : ∃ P, Steps (machine .framed) (Pool.idle (.started none)) P ∧
    P.task (.next 0) = some receiving ∧ P.st.unread = [(connection, pin)] ∧
    P.st.owner = none ∧ P.st.down = true := by
  obtain ⟨k, hbegins⟩ := @begins_accept .framed (.started none) connection rfl rfl (Or.inl rfl)
    (.replicate 32 0)
  have hasked := steps_of_start (Y := machine .framed) (i := .accept connection)
    (s := .started none) (f := fun _ => none) ⟨fun _ _ => rfl, rfl, rfl⟩ rfl hbegins
  have hstop := hasked.tail (.env (Y := machine .framed) (Or.inl ⟨rfl, fun _ => rfl⟩))
  have hdown := hstop.tail (.env (Y := machine .framed) (Or.inr ⟨rfl, rfl, fun _ => rfl⟩))
  exact ⟨_, hdown.trans (steps_of_start (Y := machine .framed) (i := .next 0)
    ⟨fun c hc => (by cases hc), rfl, rfl⟩ rfl (begins_next_call rfl)), by simp, rfl, rfl, rfl⟩

end Repeated

open Repeated in
/-- The owner claims the machine again. -/
theorem requests_handed_out_again : ∃ P P' : Pool TaskId Op Op.Ret Result State,
    Step (machine .framed) P P' ∧ Hands P P' 0 pin ∧ P.st.owner = some manager ∧
      (P.st.owner = none ∨
        ∃ c rest, P.st.unread = (c, pin) :: rest ∧ P.st.owner = some c.manager) := by
  obtain ⟨P, hsteps, hn, hunread, howner, -⟩ := asked (Or.inr rfl)
  obtain ⟨P', hstep, hh⟩ := hands_first (J := .framed) hn hunread
  exact ⟨P, P', hstep, hh, howner, (requests_handed_out hsteps).1 P' 0 pin hstep hh⟩

open Repeated in
/-- **Requests outlive a claim and a shutdown**: the owner's own request is handed out, and so is one
that was in the channel at a shutdown. -/
theorem requests_outlive :
    (¬ ∀ (J : Serde) (owner : Option EndpointId) (P P' : Pool TaskId Op Op.Ret Result State) (n : ℕ)
      (pin : ClaimPin), Steps (machine J) (Pool.idle (.started owner)) P → P.st.down = false →
        Step (machine J) P P' → Hands P P' n pin → P.st.owner = none) ∧
    ¬ ∀ (J : Serde) (owner : Option EndpointId) (P P' : Pool TaskId Op Op.Ret Result State) (n : ℕ)
      (pin : ClaimPin), Steps (machine J) (Pool.idle (.started owner)) P → P.st.owner = none →
        Step (machine J) P P' → Hands P P' n pin → P.st.down = false := by
  constructor
  · intro h
    obtain ⟨P, hsteps, hn, hunread, howner, hdown⟩ := asked (Or.inr rfl)
    obtain ⟨P', hstep, hh⟩ := hands_first (J := .framed) hn hunread
    rw [h .framed (some manager) P P' 0 pin hsteps hdown hstep hh] at howner
    cases howner
  · intro h
    obtain ⟨P, hsteps, hn, hunread, howner, hdown⟩ := asked_down
    obtain ⟨P', hstep, hh⟩ := hands_first (J := .framed) hn hunread
    rw [h .framed none P P' 0 pin hsteps howner hstep hh] at hdown
    cases hdown

end Vendimint.Request
