import Vendimint.Request.World

/-! # The handlers of a machine keep requests fresh

* `accept_safe`: a handler sends its request while it holds the lock, and sets the owner only after the
  request was received.
* `keeps`: handlers and calls, as one discipline of the machine. -/

namespace Vendimint.Request

open Vendimint.Store Vendimint.Async

section Handlers
variable {J : Serde} {s t : State} {c : Conn} {op : Op} {α : Type}

/-! ### What a handler knows -/

/-- The handler holds the lock, and no other manager owns the machine. -/
structure Holds (c : Conn) (s : State) : Prop where
  lock : s.lock = some c
  mine : s.owner = none ∨ s.owner = some c.manager

/-- The handler holds the lock, and only its own request may be in the channel. -/
structure Asked (c : Conn) (s : State) : Prop extends Holds c s where
  own : ∀ q ∈ s.unread, q.1 = c

/-- The handler holds the lock, and the channel is empty. -/
structure Answered (c : Conn) (s : State) : Prop extends Holds c s where
  read : s.unread = []

theorem Holds.stable (h : Holds c s) (hk : Keeps c s t) : Holds c t := by
  obtain ⟨hlock, howner, -⟩ := hk h.lock
  exact ⟨hlock, howner ▸ h.mine⟩

theorem Asked.stable (h : Asked c s) (hk : Keeps c s t) : Asked c t :=
  ⟨h.toHolds.stable hk, fun q hq => h.own q ((hk h.lock).2.2 hq)⟩

theorem Answered.stable (h : Answered c s) (hk : Keeps c s t) : Answered c t :=
  ⟨h.toHolds.stable hk, List.eq_nil_of_subset_nil (h.read ▸ (hk h.lock).2.2)⟩

/-- An operation apart from lock, owner and channel. -/
theorem safe_quiet {K : State → Prop} {k : op.Ret → Fut α} {R : α → State → Prop}
    (hop : ¬ Special op) (hK : ∀ {s t}, K s → Keeps c s t → K t) (hs : K s)
    (h : ∀ r t, K t → Fresh t →
      Safe requests discipline (.accept c) (k r) (Outcome.returns R) t) :
    Safe requests discipline (.accept c) (.await op k) (Outcome.returns R) s := by
  refine safe_op fun t r u ht hi he => ?_
  obtain rfl := eq_of_exec hop he
  exact ⟨hi, guar_refl _ u, h r u (hK hs (ht c rfl)) hi⟩

/-- Nothing is asserted at the end. -/
theorem safe_any {K : State → Prop} {a : α} (hK : ∀ {s t}, K s → Keeps c s t → K t) (hs : K s) :
    Safe requests discipline (.accept c) (.pure a) (Outcome.returns fun _ t => K t) s :=
  .returned fun _ ht _ => hK hs (ht c rfl)

/-- What the holder of the lock does to the others. -/
theorem guar_of_lock (hlock : s.lock = some c) : discipline.guar (.accept c) s t := by
  intro c' hne hlock'
  rw [hlock, Option.some.injEq] at hlock'
  exact absurd (congrArg TaskId.accept hlock') hne

/-! ### The claim handler -/

/-- The document is opened or created under the lock. -/
theorem getOrCreateMachineDoc_safe (hs : Answered c s) :
    Safe requests discipline (.accept c) (MachineProtocol.getOrCreateMachineDoc J).run
      (Outcome.returns fun _ t => Answered c t) s := by
  have hend : ∀ {r : Except Error NamespaceId} {t : State}, Answered c t →
      Safe requests discipline (.accept c) (.pure r) (Outcome.returns fun _ t => Answered c t) t :=
    fun ht => safe_any Answered.stable ht
  simp only [MachineProtocol.getOrCreateMachineDoc, Fallible.run_bind, run_attempt, await_eq,
    Fallible.run_of, call_eq, Prog.await_bind, Prog.pure_bind, Fallible.andThen_ok]
  refine safe_quiet id Answered.stable hs fun r t ht _ => ?_
  rcases r with e | _
  · exact hend ht
  refine safe_quiet id Answered.stable ht fun r u hu _ => ?_
  rcases MachineProtocol.ticketOf J r with _ | ticket
  · simp only [Fallible.run_bind, run_attempt, Prog.await_bind, Prog.pure_bind]
    refine safe_quiet id Answered.stable hu fun r v hv _ => ?_
    rcases r with e | doc
    · exact hend hv
    refine safe_quiet id Answered.stable hv fun r w hw _ => ?_
    rcases r with e | newTicket
    · exact hend hw
    refine safe_quiet id Answered.stable hw fun r x hx _ => ?_
    rcases r with e | _
    · exact hend hx
    · exact hend hx
  · simp only [Fallible.run_bind, run_attempt, Prog.await_bind, Prog.pure_bind]
    refine safe_op fun v r w hv hi he => ?_
    have hv := hu.stable (hv c rfl)
    rcases he with ⟨rfl, rfl⟩ | ⟨hr, rfl⟩
    · obtain ⟨hfresh, hguar⟩ := release_ok hi (.accept c)
      exact ⟨hfresh, hguar, .panicked⟩
    · refine ⟨hi, guar_refl _ _, ?_⟩
      rcases r with e | docOr
      · exact hend hv
      rcases docOr with _ | doc
      · exact absurd rfl hr
      · exact hend hv

theorem acceptClaim_safe (hs : Holds c s) :
    Safe requests discipline (.accept c) (MachineProtocol.acceptClaim J c.manager).run
      (Outcome.returns fun _ t => Holds c t) s := by
  have hend : ∀ {r : Except Error (Option DocTicket)} {t : State}, Holds c t →
      Safe requests discipline (.accept c) (.pure r) (Outcome.returns fun _ t => Holds c t) t :=
    fun ht => safe_any Holds.stable ht
  simp only [MachineProtocol.acceptClaim, Fallible.run_bind, Fallible.run_ite, run_attempt, await_eq,
    Fallible.run_of, call_eq, Prog.await_bind, Prog.pure_bind, Fallible.andThen_ok]
  refine safe_quiet id Holds.stable hs fun km t ht _ => ?_
  refine safe_op fun t₁ r u ht₁ hi he => ?_
  have hlock := ht.stable (ht₁ c rfl)
  rcases he with ⟨rfl, -, c', hc, rfl⟩ | ⟨hr, rfl⟩
  · cases hc
    have hasked : Asked c { t₁ with unread := [(c, claimPinFromKeyingMaterial km)] } :=
      ⟨⟨hlock.lock, hlock.mine⟩, fun q hq => by rw [List.mem_singleton.mp hq]⟩
    refine ⟨fun q hq => ?_, guar_of_lock hlock.lock, ?_⟩
    · rw [hasked.own q hq]
      exact hlock.mine
    rw [Fallible.andThen_ok]
    -- The answer comes after the request was received.
    refine safe_op fun u answer v hu hiu he => ?_
    obtain ⟨rfl, hread⟩ := he
    have hasked := hasked.stable (hu c rfl)
    have hanswered : Answered c v := ⟨hasked.toHolds, List.eq_nil_iff_forall_not_mem.mpr
      fun q hq => hread c rfl q hq (hasked.own q hq)⟩
    refine ⟨hiu, guar_refl _ _, ?_⟩
    split
    · refine safe_quiet id Answered.stable hanswered fun r w hw _ => ?_
      rcases r with e | _
      · exact hend hw.toHolds
      refine safe_quiet id Answered.stable hw fun r x hx hix => ?_
      rcases r with e | ping
      · exact hend hx.toHolds
      rw [Fallible.andThen_ok]
      split
      · exact hend hx.toHolds
      · refine .bind_returns hix (getOrCreateMachineDoc_safe hx) fun r y _ hy => ?_
        rcases r with e | doc
        · exact hend hy.toHolds
        refine safe_quiet id Answered.stable hy fun r z hz _ => ?_
        rcases r with e | ticket
        · exact hend hz.toHolds
        refine safe_quiet id Answered.stable hz fun r z hz _ => ?_
        rcases r with e | _
        · exact hend hz.toHolds
        refine safe_op fun z₁ r z₂ hz₁ _ he => ?_
        obtain rfl := he
        have hz := hz.stable (hz₁ c rfl)
        refine ⟨fun q hq => ?_, guar_of_lock hz.lock, hend ⟨hz.lock, Or.inr rfl⟩⟩
        have hq' : q ∈ z₁.unread := hq
        rw [hz.read] at hq'
        cases hq'
    · exact safe_quiet id Holds.stable hanswered.toHolds fun _ w hw _ => hend hw
  · rcases r with e | _
    · exact ⟨hi, guar_refl _ _, hend hlock⟩
    · exact absurd rfl hr

/-- The ticket is sent without the lock. -/
theorem uses_sendTicket (J : Serde) (ticket : DocTicket) :
    (MachineProtocol.sendTicket J ticket).run.Uses fun op => ¬ Special op := by
  unfold MachineProtocol.sendTicket
  simp only [Fallible.run_bind]
  refine Prog.Uses.andThen ⟨id, fun _ => trivial⟩ fun _ => ?_
  refine Prog.Uses.andThen ⟨id, fun _ => trivial⟩ fun _ => ?_
  refine Prog.Uses.andThen ⟨id, fun _ => trivial⟩ fun _ => ?_
  refine Prog.Uses.andThen ⟨id, fun _ => trivial⟩ fun _ => ?_
  exact ⟨id, fun _ => trivial⟩

/-- **The claim handler.** -/
theorem accept_safe :
    Safe requests discipline (.accept c) (program J (.accept c)) (Outcome.returns fun _ _ => True)
      s := by
  have hend : ∀ {r : Result} {t : State}, Safe requests discipline (.accept c) (.pure r)
      (Outcome.returns fun _ _ => True) t := .returned fun _ _ _ => trivial
  -- The lock is dropped.
  have hunlock : ∀ {k : Unit → Fut Result} {t : State}, t.lock = some c →
      (∀ r u, Safe requests discipline (.accept c) (k r) (Outcome.returns fun _ _ => True) u) →
      Safe requests discipline (.accept c) (.await .ownerUnlock k)
        (Outcome.returns fun _ _ => True) t := by
    intro k t ht h
    refine safe_op fun u r v hu hi he => ?_
    obtain rfl := he
    exact ⟨hi, guar_of_lock (hu c rfl ht).1, h r _⟩
  simp only [program, MachineProtocol.accept, Fallible.run_bind, Fallible.run_ite, await_eq,
    Fallible.run_of, Prog.await_bind, Prog.pure_bind, Fallible.andThen_ok]
  refine safe_op fun t r u ht hi he => ?_
  obtain ⟨hfree, rfl, c', hc, rfl⟩ := he
  cases hc
  refine ⟨hi, fun c' hne hlock => ?_, ?_⟩
  · rw [hfree] at hlock
    cases hlock
  split
  · refine safe_quiet (K := fun t => t.lock = some c) id (fun h hk => (hk h).1) rfl fun _ v hv _ => ?_
    exact hunlock hv fun _ _ => hend
  · rename_i hother
    have hholds : Holds c { t with lock := some c } := by
      refine ⟨rfl, ?_⟩
      rcases howner : t.owner with _ | M
      · exact Or.inl rfl
      · rw [howner, MachineProtocol.claimedByOther, Option.any_some, decide_eq_true_eq,
          not_not] at hother
        exact Or.inr (congrArg some hother)
    simp only [run_guarded, Prog.bind_assoc, Prog.await_bind, Prog.pure_bind]
    refine .bind_returns hi (acceptClaim_safe hholds) fun r v _ hv => ?_
    refine hunlock hv.lock fun _ w => ?_
    rcases r with e | ticketOr
    · exact hend
    rcases ticketOr with _ | ticket
    · exact hend
    · have hsend := Safe.of_uses (D := discipline) (W := requests) (i := .accept c) (s := w)
        (fun op t r u hop hi he => by
          obtain rfl := eq_of_exec hop he
          exact ⟨hi, guar_refl _ u⟩)
        (fun op t u _ hi hc => by
          rw [hc.2]
          exact release_ok hi _)
        ((uses_sendTicket J ticket).bind fun r => Prog.uses_pure (Result.accepted r))
      exact hsend.mono fun o u _ _ => by cases o <;> trivial

/-! ### The calls for the next request -/

/-- What receives a request. -/
def receiving : Fut Result := .await .claimRequestRecv fun r => .pure (.request r)

theorem program_next (J : Serde) (n : ℕ) :
    program J (.next n) = .await .receiverLock fun _ => receiving := rfl

/-- **A call for the next request.** -/
theorem next_safe {n : ℕ} : Safe requests discipline (.next n) (program J (.next n))
    (Outcome.returns fun _ _ => True) s := by
  rw [program_next]
  refine safe_op fun t r u _ hi he => ?_
  obtain ⟨-, n', -, rfl⟩ := he
  refine ⟨hi, fun c _ hlock => ⟨hlock, rfl, List.Subset.refl _⟩, safe_op fun t r u _ hi he => ?_⟩
  rcases he.2 with ⟨q, rest, hunread, rfl, rfl⟩ | ⟨-, -, rfl, rfl⟩
  · have hsub : rest ⊆ t.unread := by
      rw [hunread]
      exact List.subset_cons_self q rest
    exact ⟨fun q' hq' => hi q' (hsub hq'), fun c _ hlock => ⟨hlock, rfl, hsub⟩,
      .returned fun _ _ _ => trivial⟩
  · exact ⟨hi, fun c _ hlock => ⟨hlock, rfl, List.Subset.refl _⟩, .returned fun _ _ _ => trivial⟩

end Handlers

/-- **Handlers and calls keep requests fresh.** -/
def keeps (J : Serde) : RelyGuarantee (machine J) where
  toDiscipline := discipline
  post _ := Outcome.returns fun _ _ => True
  env_ok {s s' dead} hi he := by
    rcases he with ⟨rfl, -⟩ | ⟨-, rfl, hdead⟩
    · exact ⟨hi, fun i _ c _ hlock => ⟨hlock, rfl, List.Subset.refl _⟩⟩
    · refine ⟨hi, fun i hi' c hc => ?_⟩
      rw [hdead i, hc] at hi'
      cases hi'
  spawn_ok {i p s s'} hi hs := by
    obtain ⟨-, rfl, rfl⟩ := hs
    refine ⟨hi, fun j _ => discipline.rely_refl j _, ?_⟩
    cases i with
    | accept c => exact accept_safe
    | next n => exact next_safe

/-- Every pool that is reached is good. -/
theorem good {J : Serde} {owner : Option EndpointId} {P : Pool TaskId Op Op.Ret Result State}
    (h : Steps (machine J) (Pool.idle (.started owner)) P) : Good (keeps J) P :=
  good_steps (good_idle fun q hq => by cases hq) h

end Vendimint.Request
