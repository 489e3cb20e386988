import Vendimint.Claim.Tasks

/-! # The tasks of a manager, and all tasks together

* `claim_safe`: the manager's side of a connection, which stores what was granted to it.
* `listMachines_safe`: what a listing returns was granted.
* `keeps`: all tasks of machines and managers, as one discipline of the system.
* `mono_steps`: over any number of steps, files and histories only grow. -/

namespace Vendimint.Claim

open Vendimint.Store Vendimint.Async

section Tasks
variable {Z : Setting} {sure : ConnId → Prop} {i : TaskId} {s : State} {c : ConnId} {m M : EndpointId}
  {α : Type}

/-! ### The manager's side of a connection -/

/-- What the manager has read of a stream is a ticket only if it was granted. -/
theorem granted_of_read (hi : Inv Z s) {l : Bytes} {t : DocTicket}
    (hl : l <+: (s.toManager c).sent) (ht : Z.serde.ticket.dec l = some t) :
    Granted Z s c.machine c.manager t := by
  have hne : s.toManager c ≠ .empty := by
    intro h
    rw [h] at hl
    obtain rfl := List.prefix_nil.mp hl
    rw [Z.serde.ticket.dec_nil] at ht
    cases ht
  obtain ⟨t', hg, hsent, -⟩ := hi.sent c hne
  obtain ⟨-, rfl⟩ := Z.serde.ticket.eq_of_prefix (hl.trans hsent) ht
  exact hg

/-- The manager has a ticket of the machine, which sent one, if no step on the connection fails. -/
def Stored (sure : ConnId → Prop) (c : ConnId) (s : State) : Prop :=
  sure c → s.tickets c.manager c.machine ≠ none ∧ s.toManager c ≠ .empty

theorem Stored.mono {t : State} (h : Stored sure c s) (hm : Mono Z s t) : Stored sure c t :=
  fun hs => ⟨hm.tickets _ _ (h hs).1, hm.sent c (h hs).2⟩

/-- A ticket that was granted is stored. -/
theorem storeTicket_safe {bytes : Bytes}
    (hread : Z.honest → bytes <+: (s.toManager c).sent)
    (hsure : sure c → ∃ t, Z.serde.ticket.dec bytes = some t ∧ ∃ d, t.capability = .write d)
    (hsent : sure c → s.toManager c ≠ .empty) (hi : Inv Z s) :
    Safe (network Z sure) (discipline Z) (.claim c)
      (ManagerProtocol.storeTicket Z.serde c.machine bytes).run
      (Outcome.returns fun _ t => Stored sure c t) s := by
  have hquery : ∀ m n, TaskId.claim c ≠ .query m n := fun _ _ => nofun
  unfold ManagerProtocol.storeTicket
  rcases hdec : Z.serde.ticket.dec bytes with _ | ticket
  · refine .returned fun t _ _ hs => ?_
    obtain ⟨t', ht', -⟩ := hsure hs
    rw [hdec] at ht'
    cases ht'
  · simp only
    rcases hcap : ticket.capability with d | d
    · simp only [Fallible.run_bind, await_eq, Fallible.run_of, Prog.await_bind, Prog.pure_bind,
        Fallible.andThen_ok]
      refine safe_plain hquery ⟨fun _ _ => trivial, fun _ _ _ _ h => h⟩ fun r t ht _ _ => ?_
      refine safe_op (fun u hu _ => ⟨c, rfl, rfl, fun hh => ⟨ticket, rfl, ?_⟩⟩)
        (fun _ _ _ hq => ?_) fun r u v hu _ _ he => ?_
      · exact ((granted_of_read hi (hread hh) hdec).mono ht.mono).mono hu.mono
      · obtain ⟨m, n, hq⟩ := hq
        cases hq
      · refine .returned fun w hw _ hs => ?_
        obtain ⟨_, rfl⟩ := he.2 hs
        obtain ⟨-, rfl⟩ := he.1.resolve_right fun h => h.1 rfl
        refine ⟨hw.mono.tickets _ _ ?_, hw.mono.sent c (hu.mono.sent c (ht.mono.sent c (hsent hs)))⟩
        show (u.putTicket c.manager c.machine _).tickets c.manager c.machine ≠ none
        simp [State.putTicket]
    · refine .returned fun t _ _ hs => ?_
      obtain ⟨t', ht', d', hd'⟩ := hsure hs
      rw [hdec, Option.some.injEq] at ht'
      subst ht'
      rw [hcap] at hd'
      cases hd'

/-- The manager may ping. -/
def Pings (c : ConnId) (s : State) : Prop := .claim c ∈ s.begun ∧ c ∈ s.managerAnswers

theorem Pings.mono {t : State} (h : Pings c s) (hm : Mono Z s t) : Pings c t :=
  ⟨hm.begun h.1, hm.managerAnswers h.2⟩

theorem claimOnConnection_safe (hbegun : .claim c ∈ s.begun) :
    Safe (network Z sure) (discipline Z) (.claim c)
      (ManagerProtocol.claimOnConnection Z.serde c.machine).run
      (Outcome.returns fun _ t => Stored sure c t) s := by
  have hquery : ∀ m n, TaskId.claim c ≠ .query m n := fun _ _ => nofun
  have hsync : ∀ {t : State}, (∃ m n, TaskId.claim c = .query m n) →
      Synced Z (TaskId.claim c).device t := by
    rintro t ⟨m, n, hq⟩
    cases hq
  have hfail : ∀ {op : Op} {t u : State} {r : op.Ret} {x : Except Error Unit},
      (network Z sure).exec (.claim c) op t r u → (sure c → ¬ Smooth (.claim c) t op r) →
      Safe (network Z sure) (discipline Z) (.claim c) (.pure x)
        (Outcome.returns fun _ t => Stored sure c t) u :=
    fun he hr => .returned fun _ _ _ hs => absurd (he.2 hs) (hr hs)
  simp only [ManagerProtocol.claimOnConnection, Fallible.run_bind, Fallible.run_ite, await_eq,
    Fallible.run_of, call_eq, Prog.await_bind, Prog.pure_bind, Fallible.andThen_ok, Fallible.run_pure]
  refine safe_op (fun t _ _ => ⟨⟨fun _ _ hc => (by cases hc), fun _ _ _ hc => (by cases hc)⟩,
    fun _ hc => (by cases hc)⟩) (fun _ _ _ => hsync) fun r t u ht _ _ hu => ?_
  by_cases hr : r = some true
  · subst hr
    obtain ⟨-, rfl⟩ := hu.1.resolve_right fun h => h.1 rfl
    have hB : Pings c (t.answer (.claim c)) := ⟨ht.mono.begun hbegun, List.mem_cons_self⟩
    simp only [Option.getD_some, if_true]
    refine safe_plain hquery ⟨fun _ _ => trivial, fun _ _ _ _ h => h⟩ fun r v hv _ he => ?_
    rcases r with e | _
    · exact hfail he fun _ h => by cases h.choose_spec
    have hBv := hB.mono hv.mono
    simp only [Fallible.run_bind, run_attempt, Fallible.run_of, Prog.await_bind, Prog.pure_bind,
      Fallible.andThen_ok]
    refine safe_op (fun w hw _ => ⟨fun _ hc => (by cases hc), fun c' hc => ?_⟩)
      (fun _ _ _ => hsync) fun r w x hw _ _ he => ?_
    · cases hc
      exact hBv.mono hw.mono
    rcases r with e | _
    · exact hfail he fun _ h => by cases h.choose_spec
    have hBx : Pings c x := by
      rcases he.1 with ⟨-, rfl⟩ | ⟨hr, -⟩
      · have hBw := hBv.mono hw.mono
        exact ⟨hBw.1, hBw.2⟩
      · exact absurd rfl hr
    refine safe_op (fun y hy _ => ⟨fun _ hc => (by cases hc), fun c' hc => ?_⟩)
      (fun _ _ _ => hsync) fun r y z _ _ _ he => ?_
    · cases hc
      exact hBx.mono hy.mono
    rcases r with e | _
    · exact hfail he fun _ h => by cases h.choose_spec
    refine safe_plain hquery ⟨fun _ _ => trivial, fun _ _ _ _ h => h⟩ fun r v _ _ he => ?_
    rcases r with e | _
    · exact hfail he fun _ h => by cases h.choose_spec
    -- The stream of the machine is read.
    refine safe_plain hquery ⟨fun _ _ => trivial, fun _ _ _ _ h => h.1⟩ fun r w _ hiw he => ?_
    rcases r with e | bytes
    · refine safe_plain hquery ⟨fun _ _ => trivial, fun _ _ _ _ h => h⟩ fun r x _ _ _ => ?_
      exact .returned fun _ _ _ hs => by cases (he.2 hs).2
    · have hsent : sure c → w.toManager c ≠ .empty := by
        intro hs hempty
        have hfinished : (w.toManager c).finished = true := (he.2 hs).1
        rw [hempty] at hfinished
        cases hfinished
      simp only [Fallible.run_bind]
      refine .bind_returns hiw (storeTicket_safe (fun hh => he.1.2 bytes rfl hh) (fun hs => ?_)
        hsent hiw) fun r x _ hx => ?_
      · obtain ⟨hfinished, hbytes⟩ := he.2 hs
        cases hbytes
        obtain ⟨ticket, hg, -, hsent⟩ := hiw.sent c (hsent hs)
        refine ⟨ticket, ?_, hg.write⟩
        rw [show w.incoming (.claim c) = w.toManager c from rfl, hsent hfinished,
          Format.decode_encode]
      · rcases r with e | _
        · exact .returned fun y hy _ => hx.mono hy.mono
        · refine safe_plain hquery ⟨fun _ _ => trivial, fun _ _ _ _ h => h⟩ fun r y hy _ _ => ?_
          exact .returned fun z hz _ => (hx.mono hy.mono).mono hz.mono
  · have hanswer : r.getD false = false := by
      rcases r with _ | _ | _
      · rfl
      · rfl
      · exact absurd rfl hr
    simp only [hanswer, Bool.false_eq_true, if_false]
    exact hfail hu fun _ h => hr h

/-- **The manager's side of a connection.** -/
theorem claim_safe (hi : Inv Z s) (hbegun : .claim c ∈ s.begun) :
    Safe (network Z sure) (discipline Z) (.claim c) (program Z.serde (.claim c))
      (Outcome.returns fun _ t => Stored sure c t) s := by
  have hquery : ∀ m n, TaskId.claim c ≠ .query m n := fun _ _ => nofun
  unfold program ManagerProtocol.claimTask
  simp only [Prog.bind_eq, Prog.bind_assoc]
  refine .bind_returns hi (claimOnConnection_safe hbegun) fun r t _ ht => ?_
  rcases r with e | _
  · exact .returned fun u hu _ => ht.mono hu.mono
  · refine safe_plain hquery ⟨fun _ _ => trivial, fun _ _ _ _ h => h⟩ fun _ u hu _ _ => ?_
    exact .returned fun v hv _ => (ht.mono hu.mono).mono hv.mono

/-! ### Listings -/

/-- The machines of a list were granted to `M`. -/
def AllGranted (Z : Setting) (M : EndpointId) (machines : List (EndpointId × DocTicket))
    (s : State) : Prop := Z.honest → ∀ x ∈ machines, Granted Z s x.1 M x.2

theorem machinesOf_safe {n : ℕ} : ∀ (names : List FileName)
    (machines : List (EndpointId × DocTicket)) (s : State), (∀ n ∈ names, ∃ m, n = .endpoint m) →
    AllGranted Z M machines s →
    Safe (network Z sure) (discipline Z) (.list M n)
      (ManagerProtocol.machinesOf Z.serde names machines).run (Outcome.oks (AllGranted Z M)) s
  | [], machines, s, _, hm => by
    refine .returned fun t ht _ l hl hh x hx => ?_
    cases hl
    exact (hm hh x hx).mono ht.mono
  | name :: names, machines, s, hn, hm => by
    have hquery : ∀ m k, TaskId.list M n ≠ .query m k := fun _ _ => nofun
    obtain ⟨m, rfl⟩ := hn name List.mem_cons_self
    have hn' : ∀ n ∈ names, ∃ m, n = .endpoint m := fun n h => hn n (List.mem_cons_of_mem _ h)
    simp only [ManagerProtocol.machinesOf, Fallible.run_bind, Fallible.run_ite, run_attempt, call_eq,
      Prog.await_bind, Prog.pure_bind, ManagerProtocol.endpointOfName, Fallible.run_unwrap_some,
      Fallible.andThen_ok]
    refine safe_plain hquery ⟨fun _ _ => trivial, fun _ _ _ _ h => h.1⟩ fun r t ht _ _ => ?_
    have hmt : AllGranted Z M machines t := fun hh x hx => (hm hh x hx).mono ht.mono
    rcases r with e | isFile
    · exact .failed
    simp only [Fallible.andThen_ok]
    split
    · refine safe_plain hquery ⟨fun _ _ => trivial, fun _ _ _ _ h => h.1⟩ fun r u hu hiu he => ?_
      rcases r with e | b
      · exact .failed
      simp only [Fallible.andThen_ok]
      rcases hdec : Z.serde.ticket.dec b with _ | ticket
      · exact .panicked
      · refine machinesOf_safe names _ u hn' fun hh x hx => ?_
        rcases List.mem_append.mp hx with hx | hx
        · exact (hmt hh x hx).mono hu.mono
        · rw [List.mem_singleton] at hx
          subst hx
          obtain ⟨t', rfl, hg⟩ := hiu.tickets hh M m b (he.1.2 b rfl)
          rw [Format.decode_encode, Option.some.injEq] at hdec
          exact hdec ▸ hg
    · exact machinesOf_safe names machines t hn' hmt

/-- **A listing** returns what was granted to the manager. -/
theorem listMachines_safe {n : ℕ} :
    Safe (network Z sure) (discipline Z) (.list M n) (ManagerProtocol.listMachines Z.serde).run
      (Outcome.oks (AllGranted Z M)) s := by
  have hquery : ∀ m k, TaskId.list M n ≠ .query m k := fun _ _ => nofun
  simp only [ManagerProtocol.listMachines, Fallible.run_bind, run_attempt, call_eq, Prog.await_bind,
    Prog.pure_bind]
  refine safe_plain hquery ⟨fun _ _ => trivial, fun _ _ _ _ h => h.1⟩ fun r t _ _ he => ?_
  rcases r with e | names
  · exact .failed
  refine machinesOf_safe names [] t (fun n hn => ?_) fun _ x hx => by cases hx
  obtain ⟨m, rfl, -⟩ := ((he.1.2 names rfl).2 n).mp hn
  exact ⟨m, rfl⟩

end Tasks

/-! ### The discipline of the system -/

/-- What holds when a task has ended. -/
def Ends (Z : Setting) (sure : ConnId → Prop) : TaskId → Outcome Result → State → Prop
  | .claim c => Outcome.returns fun _ s => Stored sure c s
  | .list M _ => Outcome.returns fun r s => ∀ machines, r = .listed (.ok machines) →
    AllGranted Z M machines s
  | _ => Outcome.returns fun _ _ => True

/-- **The tasks of machines and managers keep the invariant.** -/
def keeps (Z : Setting) (sure : ConnId → Prop) : RelyGuarantee (claims Z sure) where
  toDiscipline := discipline Z
  post := Ends Z sure
  env_ok {s s' dead} hi he := by
    obtain ⟨d, rfl, hdead⟩ := he
    obtain ⟨hi', hr⟩ := crash_kept hi d
    refine ⟨hi', fun j hj => hr j ?_⟩
    rw [hdead j, decide_eq_false_iff_not] at hj
    exact hj
  spawn_ok {i p s s'} hi hs := by
    obtain ⟨hmay, rfl, rfl⟩ := hs
    obtain ⟨hi', hr⟩ := begin_kept hi i
    refine ⟨hi', fun j _ => hr j, ?_⟩
    cases i with
    | accept c =>
      refine .bind_returns hi' (accept_safe List.mem_cons_self ((hi.unbegun c).1 hmay.2)) ?_
      exact fun _ _ _ _ => safe_ended
    | claim c => exact claim_safe hi' List.mem_cons_self
    | start m => exact .bind_returns hi' (new_safe hmay hi') fun _ _ _ _ => safe_ended
    | query m n => exact .bind_returns hi' getMachineState_safe fun _ _ _ _ => safe_ended
    | list M n =>
      refine .bind_returns hi' listMachines_safe fun r t _ ht => ?_
      refine .returned fun u hu _ machines h hh x hx => ?_
      cases h
      exact (ht machines rfl hh x hx).mono hu.mono

/-- Every pool that is reached is good. -/
theorem good {Z : Setting} {sure : ConnId → Prop} {P : Pool TaskId Op Op.Ret Result State}
    (h : Steps (claims Z sure) (Pool.idle State.fresh) P) : Good (keeps Z sure) P :=
  good_steps (good_idle inv_fresh) h

/-- **Files and histories only grow**, over any number of steps. -/
theorem mono_steps {Z : Setting} {sure : ConnId → Prop} {P P' : Pool TaskId Op Op.Ret Result State}
    (hg : Good (keeps Z sure) P) (h : Steps (claims Z sure) P P') : Mono Z P.st P'.st := by
  refine hg.along .refl .trans (fun _ (hg : Guards Z _ _ _) => hg.mono) (fun _ hs => ?_)
    (fun _ he => ?_) h
  · obtain ⟨-, -, rfl⟩ := hs
    exact mono_begin _
  · obtain ⟨d, rfl, -⟩ := he
    exact mono_crash d

/-- A task that is there has begun. -/
theorem begun_of_task {Z : Setting} {sure : ConnId → Prop}
    {P : Pool TaskId Op Op.Ret Result State} (h : Steps (claims Z sure) (Pool.idle State.fresh) P) :
    ∀ {i : TaskId} {p : Fut Result}, P.task i = some p → i ∈ P.st.begun := by
  induction h with
  | refl =>
    intro i p hi
    cases hi
  | @tail P₁ P₂ hsteps hstep ih =>
    intro i p hi
    have hmono := (mono_steps (good hsteps) (.single hstep)).begun
    cases hstep with
    | @run j _ _ _ _ hj _ =>
      by_cases hij : i = j
      · subst hij
        exact hmono (ih hj)
      · exact hmono (ih ((Function.update_of_ne hij ..).symm.trans hi))
    | @abort j _ _ _ hj _ =>
      by_cases hij : i = j
      · subst hij
        exact hmono (ih hj)
      · exact hmono (ih ((Function.update_of_ne hij ..).symm.trans hi))
    | @spawn j _ _ _ hs =>
      by_cases hij : i = j
      · obtain ⟨-, -, rfl⟩ := hs
        subst hij
        exact List.mem_cons_self
      · exact hmono (ih ((Function.update_of_ne hij ..).symm.trans hi))
    | env _ =>
      simp only at hi
      split_ifs at hi
      exact hmono (ih hi)

/-- A task that has not begun is not there. -/
theorem task_of_unbegun {Z : Setting} {sure : ConnId → Prop}
    {P : Pool TaskId Op Op.Ret Result State} (h : Steps (claims Z sure) (Pool.idle State.fresh) P)
    {i : TaskId} (hi : i ∉ P.st.begun) : P.task i = none := by
  rcases hp : P.task i with _ | p
  · rfl
  · exact absurd (begun_of_task h hp) hi

end Vendimint.Claim
