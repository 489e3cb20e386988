import Vendimint.Claim.Invariant

/-! # Steps keep the invariant of claims

One lemma for each kind of change of the state, and from these `exec_kept`, `cut_kept`, `begin_kept`
and `crash_kept`: an operation that is allowed, a call that is dropped, the start of a task and the end
of a process keep `Inv`, and do to the other tasks what `Guards` says. -/

namespace Vendimint.Claim

open Vendimint.Store Vendimint.Async

variable {Z : Setting} {s s' : State} {i : TaskId} {m M : EndpointId} {h : Host} {c : ConnId}

theorem inv_fresh : Inv Z State.fresh := by
  refine ⟨fun m => ⟨?_, ?_, ?_, ?_, ?_, ?_, ?_⟩, ?_, ?_, ?_, ?_⟩
  · intro b hb
    cases hb
  · intro M hM
    cases hM
  · intro _ hr
    cases hr
  · intro i hl
    cases hl
  · intro b hb
    cases hb
  · exact fun h => absurd rfl h
  · intro _ M hM
    cases hM
  · exact fun c hc => absurd rfl hc
  · exact fun c => ⟨fun _ => rfl, fun _ => rfl⟩
  · exact fun c hc => absurd rfl hc
  · intro _ M m b hb
    cases hb

/-! ### Nothing is done to others -/

theorem Guards.refl (i : TaskId) (s : State) : Guards Z i s s := by
  refine ⟨.refl s, fun _ => Or.inl rfl, fun _ _ => rfl, fun _ _ h => absurd rfl h, fun _ h => h,
    fun _ _ h => Or.inl h, fun _ h => absurd rfl h, ?_, fun _ _ _ _ => ⟨rfl, rfl⟩⟩
  intro _ c M _ _ _
  refine ⟨(s.host c.machine).lock, ?_⟩
  rw [State.setLock, State.setHost, Function.update_eq_self]

/-- A step of a task whose machine is not a stranger's, and that asks no operator. -/
theorem guards_of_mine (hmono : Mono Z s s')
    (hhost : ∀ m, s'.host m = s.host m ∨ (s.host m).lock = some i ∨
      ((s.host m).lock = none ∧ (s.host m).running = true) ∨
      (i = .start m ∧ (s.host m).running = false))
    (hstream : ∀ c, i ≠ .accept c → s'.toManager c = s.toManager c)
    (htickets : s'.tickets = s.tickets)
    (hrun : ∀ m, (s.host m).running = true → (s'.host m).running = true)
    (howned : ∀ m M, Owned Z s m M → Owned Z s' m M ∨ (i = .start m ∧ (s.host m).running = false))
    (hgrants : ∀ c, s'.toManager c ≠ s.toManager c →
      (s'.host c.machine).running = true ∧ Owned Z s' c.machine c.manager)
    (hmine : Mine Z i s) (hasks : s'.requests = s.requests ∧ s'.answers = s.answers) :
    Guards Z i s s' where
  mono := hmono
  host := hhost
  toManager := hstream
  tickets M m hne := absurd (by rw [htickets]) hne
  running := hrun
  owned := howned
  grants := hgrants
  foreign hk c M hc hM hne := absurd (hmine.file hk c M hc hM) hne
  asks _ _ _ _ := hasks

/-- The machine `m` changes and keeps its owner. -/
theorem owned_setHost (h' : Owned Z s m M → Owned Z (s.setHost m h) m M) {m' : EndpointId}
    (ho : Owned Z s m' M) : Owned Z (s.setHost m h) m' M := by
  by_cases hne : m' = m
  · subst hne
    exact h' ho
  · have hhost := State.setHost_of_ne s m m' h hne
    exact ho.congr (by rw [hhost]) (by rw [hhost]) (by rw [hhost])

theorem running_setHost (hrun : (s.host m).running = true → h.running = true) {m' : EndpointId}
    (hm' : (s.host m').running = true) : ((s.setHost m h).host m').running = true := by
  by_cases hne : m' = m
  · subst hne
    rw [State.setHost_self]
    exact hrun hm'
  · rw [State.setHost_of_ne s m m' h hne]
    exact hm'

/-- The holder of the lock changes its machine. -/
theorem guards_setHost (hlock : (s.host i.device).lock = some i)
    (hm : HostMono Z (s.host i.device) h)
    (hrun : (s.host i.device).running = true → h.running = true)
    (howned : ∀ M, Owned Z s i.device M → Owned Z (s.setHost i.device h) i.device M)
    (hmine : Mine Z i s) : Guards Z i s (s.setHost i.device h) := by
  refine guards_of_mine (mono_setHost hm) (fun m => ?_) (fun _ _ => rfl) rfl
    (fun m => running_setHost hrun) (fun m M ho => Or.inl (owned_setHost (howned M) ho))
    (fun _ hne => absurd rfl hne) hmine ⟨rfl, rfl⟩
  by_cases hne : m = i.device
  · subst hne
    exact Or.inr (Or.inl hlock)
  · exact Or.inl (State.setHost_of_ne s i.device m h hne)

/-! ### The lock and the owner -/

theorem hostMono_lock (h : Host) (l : Option TaskId) : HostMono Z h { h with lock := l } :=
  ⟨fun _ _ hb => hb, fun _ _ ho => ho, fun _ _ hb => hb⟩

theorem hostMono_owner (h : Host) (M : EndpointId) : HostMono Z h { h with owner := some M } :=
  ⟨fun _ _ hb => hb, fun _ _ _ _ => Option.some_ne_none M, fun _ _ hb => hb⟩

theorem hostMono_ticketFile (h : Host) (hnone : Z.readable → h.ticketFile = none) (b : Bytes) :
    HostMono Z h { h with ticketFile := some b } := by
  refine ⟨fun _ _ hb => hb, fun _ _ ho => ho, fun hr b hb => ?_⟩
  rw [hnone hr] at hb
  cases hb

/-- The lock changes hands. -/
theorem Inv.setLock (hi : Inv Z s) {l : Option TaskId} (hnone : l = none → Synced Z m s)
    (hsome : ∀ j, l = some j → j.device = m ∧ (s.host m).running = true) :
    Inv Z (s.setLock m l) := by
  have hok := hi.hosts m
  exact hi.setHost ⟨hok.ownerFile, hok.owner, fun hk _ hl => hnone hl hk, hsome, hok.ticketFile,
    hok.shared, hok.agreed⟩ (hostMono_lock _ l)

/-- Without its lock and its ticket a machine is as before. -/
theorem owned_same (hfile : h.ownerFile = (s.host m).ownerFile) (howner : h.owner = (s.host m).owner)
    (hrun : h.running = (s.host m).running) (ho : Owned Z s m M) : Owned Z (s.setHost m h) m M :=
  ho.congr (by rw [State.setHost_self, hfile]) (by rw [State.setHost_self, howner])
    (by rw [State.setHost_self, hrun])

theorem guards_setLock {l : Option TaskId} (hhost : (s.host i.device).lock = some i ∨
    ((s.host i.device).lock = none ∧ (s.host i.device).running = true)) :
    Guards Z i s (s.setLock i.device l) := by
  have hsame : ∀ M, Owned Z s i.device M → Owned Z (s.setLock i.device l) i.device M :=
    fun M => owned_same (h := { s.host i.device with lock := l }) rfl rfl rfl
  refine ⟨mono_setHost (hostMono_lock _ l), fun m => ?_, fun _ _ => rfl, fun _ _ h => absurd rfl h,
    fun m hrun => running_setHost (h := { s.host i.device with lock := l }) (fun h => h) hrun,
    fun m M ho => Or.inl (owned_setHost (hsame M) ho), fun _ hne => absurd rfl hne, ?_,
    fun _ _ _ _ => ⟨rfl, rfl⟩⟩
  · by_cases hne : m = i.device
    · subst hne
      exact Or.inr (hhost.imp_right Or.inl)
    · exact Or.inl (State.setHost_of_ne s i.device m _ hne)
  · intro _ c M hc _ _
    subst hc
    exact ⟨l, rfl⟩

/-- The task that holds the lock drops it. -/
theorem unlock_kept (hi : Inv Z s) (hlock : (s.host i.device).lock = some i)
    (hsync : Synced Z i.device s) :
    Inv Z (s.setLock i.device none) ∧ Guards Z i s (s.setLock i.device none) :=
  ⟨hi.setLock (fun _ => hsync) fun _ hj => (by cases hj), guards_setLock (Or.inl hlock)⟩

/-- The owner is set in memory. -/
theorem setOwner_kept (hi : Inv Z s) (hlock : (s.host i.device).lock = some i) (hmine : Mine Z i s)
    (hfile : (s.host i.device).ownerFile = some (Z.serde.endpointId.enc M)) :
    Inv Z (s.setOwner i.device M) ∧ Guards Z i s (s.setOwner i.device M) := by
  have hok := hi.hosts i.device
  have hm : HostMono Z (s.host i.device) { s.host i.device with owner := some M } :=
    hostMono_owner _ M
  refine ⟨hi.setHost ⟨hok.ownerFile, fun M' hM' => ?_, fun _ _ hl => ?_, hok.locked, hok.ticketFile,
    hok.shared, hok.agreed⟩ hm, guards_setHost hlock hm (fun h => h) (fun M' ho => ?_) hmine⟩
  · rw [Option.some.injEq] at hM'
    subst hM'
    exact hfile
  · rw [hlock] at hl
    cases hl
  · have hMM : M = M' := Z.serde.endpointId.enc_injective (Option.some.inj (hfile.symm.trans ho.1))
    subst hMM
    refine ⟨?_, fun _ => ?_⟩
    · rw [State.setHost_self]
      exact hfile
    · rw [State.setHost_self]

/-- The owner is written to its file. -/
theorem writeOwner_kept (hi : Inv Z s) (hic : i = .accept c)
    (hlock : (s.host i.device).lock = some i) (hmine : Mine Z i s)
    (hticket : (s.host i.device).ticketFile ≠ none) (hA : c ∈ s.answers)
    (hB : Z.honest → c ∈ s.managerAnswers) :
    Inv Z (s.writeOwner i.device (Z.serde.endpointId.enc c.manager)) ∧
      Guards Z i s (s.writeOwner i.device (Z.serde.endpointId.enc c.manager)) := by
  have hok := hi.hosts i.device
  have hm : HostMono Z (s.host i.device)
      { s.host i.device with ownerFile := some (Z.serde.endpointId.enc c.manager) } := by
    refine ⟨fun hk b hb => ?_, fun _ _ ho => ho, fun _ _ hb => hb⟩
    obtain ⟨M, rfl⟩ := hok.ownerFile b hb
    subst hic
    rw [hmine.file hk c M rfl hb]
  refine ⟨hi.setHost ⟨?_, fun M hM => ?_, fun _ _ hl => ?_, hok.locked, hok.ticketFile,
    fun _ => hticket, fun hh M hM => ?_⟩ hm, guards_setHost hlock hm (fun h => h) (fun M ho => ?_)
    hmine⟩
  · intro b hb
    exact ⟨c.manager, (Option.some.inj hb).symm⟩
  · subst hic
    rw [hmine.owner c M rfl hM]
  · rw [hlock] at hl
    cases hl
  · have hcM : c.manager = M := Z.serde.endpointId.enc_injective (Option.some.inj hM)
    subst hic
    exact ⟨c, rfl, hcM, hA, hB hh⟩
  · -- The machine is running, so its owner is in memory.
    have howner := ho.2 (hok.locked i hlock).2
    subst hic
    obtain rfl := hmine.owner c M rfl howner
    refine ⟨?_, fun _ => ?_⟩
    · rw [State.setHost_self]
    · rw [State.setHost_self]
      exact howner

/-- The document ticket is written to its file. -/
theorem writeTicket_kept (hi : Inv Z s) (hlock : (s.host i.device).lock = some i)
    (hmine : Mine Z i s) (hnone : Z.readable → (s.host i.device).ticketFile = none)
    (t : DocTicket) :
    Inv Z (s.writeTicket i.device (Z.serde.ticket.enc t)) ∧
      Guards Z i s (s.writeTicket i.device (Z.serde.ticket.enc t)) := by
  have hok := hi.hosts i.device
  have hm : HostMono Z (s.host i.device)
      { s.host i.device with ticketFile := some (Z.serde.ticket.enc t) } :=
    hostMono_ticketFile _ hnone _
  refine ⟨hi.setHost ⟨hok.ownerFile, hok.owner, fun hk hr hl => hok.synced hk hr hl, hok.locked, ?_,
    ?_, hok.agreed⟩ hm, guards_setHost hlock hm (fun h => h) (fun M => owned_same rfl rfl rfl) hmine⟩
  · intro b hb
    exact ⟨t, (Option.some.inj hb).symm⟩
  · exact fun _ => Option.some_ne_none _

/-- A machine starts to run with the owner that it has read. -/
theorem run_kept (hi : Inv Z s) (him : i = .start m) (hrun : (s.host m).running = false)
    {owner : Option EndpointId}
    (howner : ∀ M, owner = some M → (s.host m).ownerFile = some (Z.serde.endpointId.enc M))
    (hfile : Z.known → (s.host m).ownerFile = owner.map Z.serde.endpointId.enc) :
    Inv Z (s.run i.device owner) ∧ Guards Z i s (s.run i.device owner) := by
  subst him
  have hok := hi.hosts m
  have hm : HostMono Z (s.host m) { s.host m with owner := owner, running := true } := by
    refine ⟨fun _ _ hb => hb, fun hk hne _ _ hnone => hne ?_, fun _ _ hb => hb⟩
    rw [hfile hk, show owner = none from hnone]
    rfl
  refine ⟨hi.setHost ⟨hok.ownerFile, howner, fun hk _ _ => hfile hk, fun j hj => ?_,
    hok.ticketFile, hok.shared, hok.agreed⟩ hm, ?_⟩
  · have hrunning := (hok.locked j hj).2
    rw [hrun] at hrunning
    cases hrunning
  · refine guards_of_mine (mono_setHost hm) (fun m' => ?_) (fun _ _ => rfl) rfl
      (fun m' => running_setHost fun _ => rfl) (fun m' M ho => ?_) (fun _ hne => absurd rfl hne)
      ⟨fun c M hc => (by cases hc), fun _ c M hc => (by cases hc)⟩ ⟨rfl, rfl⟩
    · by_cases hne : m' = m
      · subst hne
        exact Or.inr (Or.inr (Or.inr ⟨rfl, hrun⟩))
      · exact Or.inl (State.setHost_of_ne s m m' _ hne)
    · by_cases hne : m' = m
      · subst hne
        exact Or.inr ⟨rfl, hrun⟩
      · have hhost : (s.run (TaskId.start m).device owner).host m' = s.host m' :=
          State.setHost_of_ne s m m' _ hne
        exact Or.inl (ho.congr (by rw [hhost]) (by rw [hhost]) (by rw [hhost]))

/-! ### Operators and streams -/

/-- The histories of requests and answers grow. -/
theorem Inv.grow (hi : Inv Z s) {A B R : List ConnId} (hA : s.answers ⊆ A)
    (hB : s.managerAnswers ⊆ B) :
    Inv Z { s with answers := A, managerAnswers := B, requests := R } := by
  have hmono : Mono Z s { s with answers := A, managerAnswers := B, requests := R } :=
    ⟨fun m => .refl (s.host m), hA, hB, fun _ _ h => h, List.Subset.refl _, fun _ h => h⟩
  refine ⟨fun m => (hi.hosts m).answers hA hB, fun c hc => hB (hi.pinged c hc), hi.unbegun,
    fun c hc => ?_, fun hh M m b hb => ?_⟩
  · obtain ⟨t, ht, hsent⟩ := hi.sent c hc
    exact ⟨t, ht.mono hmono, hsent⟩
  · obtain ⟨t, hb', ht⟩ := hi.tickets hh M m b hb
    exact ⟨t, hb', ht.mono hmono⟩

theorem guards_ask {A B R : List ConnId} (hA : s.answers ⊆ A) (hB : s.managerAnswers ⊆ B)
    (hmine : Mine Z i s) (hasks : ∀ c, i = .accept c → Z.again ∨ Unowned Z c.machine s) :
    Guards Z i s { s with answers := A, managerAnswers := B, requests := R } where
  mono := ⟨fun m => .refl (s.host m), hA, hB, fun _ _ h => h, List.Subset.refl _, fun _ h => h⟩
  host _ := Or.inl rfl
  toManager _ _ := rfl
  tickets _ _ hne := absurd rfl hne
  running _ h := h
  owned _ _ ho := Or.inl ho
  grants _ hne := absurd rfl hne
  foreign hk c M hc hM hne := absurd (hmine.file hk c M hc hM) hne
  asks c hc hagain howner := ((hasks c hc).elim hagain howner).elim

theorem request_kept (hi : Inv Z s) (hmine : Mine Z i s)
    (hasks : ∀ c, i = .accept c → Z.again ∨ Unowned Z c.machine s) :
    Inv Z (s.request i) ∧ Guards Z i s (s.request i) := by
  cases i with
  | accept c =>
    exact ⟨hi.grow (List.Subset.refl _) (List.Subset.refl _),
      guards_ask (List.Subset.refl _) (List.Subset.refl _) hmine hasks⟩
  | _ => exact ⟨hi, Guards.refl _ s⟩

theorem answer_kept (hi : Inv Z s) (hmine : Mine Z i s)
    (hasks : ∀ c, i = .accept c → Z.again ∨ Unowned Z c.machine s) :
    Inv Z (s.answer i) ∧ Guards Z i s (s.answer i) := by
  cases i with
  | accept c =>
    exact ⟨hi.grow (List.subset_cons_self _ _) (List.Subset.refl _),
      guards_ask (List.subset_cons_self _ _) (List.Subset.refl _) hmine hasks⟩
  | claim c =>
    exact ⟨hi.grow (List.Subset.refl _) (List.subset_cons_self _ _),
      guards_ask (List.Subset.refl _) (List.subset_cons_self _ _) hmine hasks⟩
  | _ => exact ⟨hi, Guards.refl _ s⟩

/-- The machine has sent on the connection `c`. -/
theorem outgoing_accept_kept (hi : Inv Z s) {f : Stream → Stream} {t : DocTicket}
    (hbegun : .accept c ∈ s.begun) (hrun : (s.host c.machine).running = true)
    (ho : Owned Z s c.machine c.manager) (ht : Granted Z s c.machine c.manager t)
    (hne : s.toManager c ≠ .empty → f (s.toManager c) ≠ .empty)
    (hp : (f (s.toManager c)).sent <+: Z.serde.ticket.enc t)
    (hf : (f (s.toManager c)).finished = true → (f (s.toManager c)).sent = Z.serde.ticket.enc t) :
    Inv Z (s.outgoing f (.accept c)) ∧ Guards Z (.accept c) s (s.outgoing f (.accept c)) := by
  have hself : (s.outgoing f (.accept c)).toManager c = f (s.toManager c) := Function.update_self ..
  have hother : ∀ c', c' ≠ c → (s.outgoing f (.accept c)).toManager c' = s.toManager c' :=
    fun c' hne => Function.update_of_ne hne ..
  have hmono : Mono Z s (s.outgoing f (.accept c)) := by
    refine ⟨fun m => .refl (s.host m), List.Subset.refl _, List.Subset.refl _, fun _ _ h => h,
      List.Subset.refl _, fun c' hc' => ?_⟩
    by_cases hcc : c' = c
    · subst hcc
      rw [hself]
      exact hne hc'
    · rw [hother c' hcc]
      exact hc'
  have howner : (s.host c.machine).owner = some c.manager := ho.2 hrun
  have hmine : Mine Z (.accept c) s := by
    refine ⟨fun c' M hc hM => ?_, fun _ c' M hc hM => ?_⟩
    · cases hc
      exact (Option.some.inj (howner.symm.trans hM)).symm
    · cases hc
      exact (Z.serde.endpointId.enc_injective (Option.some.inj (ho.1.symm.trans hM))).symm
  refine ⟨⟨hi.hosts, hi.pinged, fun c' => ?_, fun c' hc' => ?_, fun hh M m b hb => ?_⟩, ?_⟩
  · refine ⟨fun hc' => ?_, (hi.unbegun c').2⟩
    have hcc : c' ≠ c := by
      rintro rfl
      exact hc' hbegun
    exact (hother c' hcc).trans ((hi.unbegun c').1 hc')
  · by_cases hcc : c' = c
    · subst hcc
      rw [hself]
      exact ⟨t, ht.mono hmono, hp, hf⟩
    · rw [hother c' hcc] at hc' ⊢
      obtain ⟨t', ht', hsent⟩ := hi.sent c' hc'
      exact ⟨t', ht'.mono hmono, hsent⟩
  · obtain ⟨t', hb', ht'⟩ := hi.tickets hh M m b hb
    exact ⟨t', hb', ht'.mono hmono⟩
  · refine guards_of_mine hmono (fun _ => Or.inl rfl) (fun c' hc' => ?_) rfl (fun _ h => h)
      (fun _ _ h => Or.inl h) (fun c' hc' => ?_) hmine ⟨rfl, rfl⟩
    · have hcc : c' ≠ c := by
        rintro rfl
        exact hc' rfl
      exact hother c' hcc
    · by_cases hcc : c' = c
      · subst hcc
        exact ⟨hrun, ho⟩
      · exact absurd (hother c' hcc) hc'

/-- The manager has sent on the connection `c`. -/
theorem outgoing_claim_kept (hi : Inv Z s) {f : Stream → Stream}
    (hc : .claim c ∈ s.begun ∧ c ∈ s.managerAnswers) :
    Inv Z (s.outgoing f (.claim c)) ∧ Guards Z (.claim c) s (s.outgoing f (.claim c)) := by
  have hmono : Mono Z s (s.outgoing f (.claim c)) :=
    ⟨fun m => .refl (s.host m), List.Subset.refl _, List.Subset.refl _, fun _ _ h => h,
      List.Subset.refl _, fun _ h => h⟩
  refine ⟨⟨hi.hosts, fun c' hc' => ?_, fun c' => ⟨(hi.unbegun c').1, fun hc' => ?_⟩,
    fun c' hc' => ?_, fun hh M m b hb => ?_⟩, ?_⟩
  · by_cases hne : c' = c
    · subst hne
      exact hc.2
    · have hother : (s.outgoing f (.claim c)).toMachine c' = s.toMachine c' :=
        Function.update_of_ne hne ..
      rw [hother] at hc'
      exact hi.pinged c' hc'
  · have hne : c' ≠ c := by
      rintro rfl
      exact hc' hc.1
    exact (Function.update_of_ne hne ..).trans ((hi.unbegun c').2 hc')
  · obtain ⟨t', ht', hsent⟩ := hi.sent c' hc'
    exact ⟨t', ht'.mono hmono, hsent⟩
  · obtain ⟨t', hb', ht'⟩ := hi.tickets hh M m b hb
    exact ⟨t', hb', ht'.mono hmono⟩
  · exact guards_of_mine hmono (fun _ => Or.inl rfl) (fun _ _ => rfl) rfl (fun _ h => h)
      (fun _ _ h => Or.inl h) (fun _ hne => absurd rfl hne)
      ⟨fun c' M hc => (by cases hc), fun _ c' M hc => (by cases hc)⟩ ⟨rfl, rfl⟩

/-! ### The ticket files of managers -/

theorem putTicket_kept (hi : Inv Z s) (hic : i = .claim c) {b : Bytes}
    (hb : Z.honest → ∃ t, b = Z.serde.ticket.enc t ∧ Granted Z s c.machine c.manager t) :
    Inv Z (s.putTicket i.device c.machine b) ∧
      Guards Z i s (s.putTicket i.device c.machine b) := by
  subst hic
  have hself : (s.putTicket c.manager c.machine b).tickets c.manager c.machine = some b := by
    simp [State.putTicket]
  have hother : ∀ M m, ¬ (M = c.manager ∧ m = c.machine) →
      (s.putTicket c.manager c.machine b).tickets M m = s.tickets M m := by
    intro M m hne
    by_cases hM : M = c.manager
    · subst hM
      have hm : m ≠ c.machine := fun hm => hne ⟨rfl, hm⟩
      simp [State.putTicket, Function.update_of_ne hm]
    · simp [State.putTicket, Function.update_of_ne hM]
  have hmono : Mono Z s (s.putTicket c.manager c.machine b) := by
    refine ⟨fun m => .refl (s.host m), List.Subset.refl _, List.Subset.refl _, fun M m hM => ?_,
      List.Subset.refl _, fun _ h => h⟩
    by_cases hMm : M = c.manager ∧ m = c.machine
    · obtain ⟨rfl, rfl⟩ := hMm
      rw [hself]
      exact Option.some_ne_none b
    · rw [hother M m hMm]
      exact hM
  refine ⟨⟨hi.hosts, hi.pinged, hi.unbegun, fun c' hc' => ?_, fun hh M m b' hb' => ?_⟩, ?_⟩
  · obtain ⟨t, ht, hsent⟩ := hi.sent c' hc'
    exact ⟨t, ht.mono hmono, hsent⟩
  · by_cases hMm : M = c.manager ∧ m = c.machine
    · obtain ⟨rfl, rfl⟩ := hMm
      have hbb : b = b' := Option.some.inj (hself.symm.trans hb')
      subst hbb
      obtain ⟨t, ht, hg⟩ := hb hh
      exact ⟨t, ht, hg.mono hmono⟩
    · obtain ⟨t, ht, hg⟩ := hi.tickets hh M m b' ((hother M m hMm).symm.trans hb')
      exact ⟨t, ht, hg.mono hmono⟩
  · refine ⟨hmono, fun _ => Or.inl rfl, fun _ _ => rfl, fun M m hne => ?_, fun _ h => h,
      fun _ _ h => Or.inl h, fun _ hne => absurd rfl hne, fun _ _ _ hc => (by cases hc),
      fun _ hc => (by cases hc)⟩
    by_cases hMm : M = c.manager ∧ m = c.machine
    · exact ⟨c, rfl, hMm.2.symm, hMm.1.symm⟩
    · exact absurd (hother M m hMm) hne

/-! ### Operations -/

/-- A part of a stream is sent. -/
theorem send_kept (hi : Inv Z s) {b p : Bytes} (ha : Allowed Z i (.writeAll b) s) (hp : p <+: b) :
    Inv Z (s.send i p) ∧ Guards Z i s (s.send i p) := by
  cases i with
  | accept c =>
    obtain ⟨hbegun, hempty, hrun, ho, t, ht, hb⟩ := ha.1 c rfl
    refine outgoing_accept_kept hi hbegun hrun ho ht (absurd hempty) ?_ ?_
    · rw [hempty, ← hb]
      exact hp
    · rw [hempty]
      exact nofun
  | claim c => exact outgoing_claim_kept hi (ha.2 c rfl)
  | _ => exact ⟨hi, Guards.refl _ s⟩

/-- What the machine has sent is not empty. -/
theorem Inv.begun_of_sent (hi : Inv Z s) {t : DocTicket}
    (ht : (s.toManager c).sent = Z.serde.ticket.enc t) : .accept c ∈ s.begun := by
  by_contra hc
  rw [(hi.unbegun c).1 hc] at ht
  exact Z.serde.ticket.enc_ne_nil t ht.symm

/-- A stream is complete. -/
theorem finish_kept (hi : Inv Z s) (ha : Allowed Z i .finish s) :
    Inv Z (s.finish i) ∧ Guards Z i s (s.finish i) := by
  cases i with
  | accept c =>
    obtain ⟨hrun, ho, t, ht, hsent⟩ := ha.1 c rfl
    exact outgoing_accept_kept hi (hi.begun_of_sent hsent) hrun ho ht
      (fun _ h => Bool.noConfusion (congrArg Stream.finished h))
      ⟨[], by rw [hsent, List.append_nil]⟩ fun _ => hsent
  | claim c => exact outgoing_claim_kept hi (ha.2 c rfl)
  | _ => exact ⟨hi, Guards.refl _ s⟩

/-- **An operation that is allowed** keeps the invariant. -/
theorem exec_kept (hi : Inv Z s) {op : Op} (ha : Allowed Z i op s) {r : op.Ret}
    (he : effect Z i op s r s') : Inv Z s' ∧ Guards Z i s s' := by
  have hsame : s' = s → Inv Z s' ∧ Guards Z i s s' := by
    rintro rfl
    exact ⟨hi, Guards.refl i s'⟩
  unfold effect at he
  split at he
  · obtain ⟨⟨hrun, hlock, -⟩, -, rfl⟩ := he
    refine ⟨hi.setLock nofun fun j hj => ?_, guards_setLock (Or.inr ⟨hlock, hrun⟩)⟩
    rw [Option.some.injEq] at hj
    subst hj
    exact ⟨rfl, hrun⟩
  · subst he
    exact unlock_kept hi ha.1 ha.2
  · subst he
    exact setOwner_kept hi ha.1 ha.2.1 ha.2.2
  · rcases he with ⟨-, rfl⟩ | ⟨-, he⟩
    · exact request_kept hi ha.1 ha.2
    · exact hsame he
  · rcases he with ⟨-, rfl⟩ | ⟨-, he⟩
    · exact answer_kept hi ha.1 ha.2
    · exact hsame he
  · exact hsame he.1
  · rcases he with ⟨-, rfl⟩ | ⟨-, p, hp, rfl⟩
    · exact send_kept hi ha List.prefix_rfl
    · exact send_kept hi ha hp
  · rcases he with ⟨-, rfl⟩ | ⟨-, he⟩
    · exact finish_kept hi ha
    · exact hsame he
  · exact hsame he.1
  · exact hsame he.1
  · obtain ⟨-, ⟨-, he⟩ | ⟨-, rfl⟩⟩ := he
    · exact hsame he
    · exact unlock_kept hi ha.1 ha.2
  · exact hsame he.1
  · rcases he with ⟨-, rfl⟩ | ⟨-, he⟩
    · obtain ⟨hlock, hmine, hnone, t, rfl⟩ := ha
      exact writeTicket_kept hi hlock hmine hnone t
    · exact hsame he
  · rcases he with ⟨-, rfl⟩ | ⟨-, he⟩
    · obtain ⟨hlock, hmine, hticket, c, hic, rfl, hA, hB⟩ := ha
      exact writeOwner_kept hi hic hlock hmine hticket hA hB
    · exact hsame he
  · rcases he with ⟨-, rfl⟩ | ⟨-, he⟩
    · obtain ⟨c, hic, rfl, hb⟩ := ha
      exact putTicket_kept hi hic hb
    · exact hsame he
  · subst he
    obtain ⟨m, him, hrun, howner, hfile⟩ := ha
    exact run_kept hi him hrun howner hfile
  · exact hsame he.1
  · exact hsame he.1
  · exact hsame he.1
  · exact hsame he

/-- The task `i` drops the lock, if it holds it. -/
theorem release_kept (hi : Inv Z s) (hsync : (s.host i.device).lock = some i → Synced Z i.device s) :
    Inv Z (s.release i) ∧ Guards Z i s (s.release i) := by
  unfold State.release
  split_ifs with hlock
  · exact unlock_kept hi hlock (hsync hlock)
  · exact ⟨hi, Guards.refl i s⟩

theorem Guards.trans {s'' : State} (h₁ : Guards Z i s s') (h₂ : Guards Z i s' s'')
    (hhost : ∀ m, s'.host m = s.host m ∨ (s.host m).lock = some i)
    (hforeign : ∀ c, i ≠ .accept c) : Guards Z i s s'' where
  mono := h₁.mono.trans h₂.mono
  host m := by
    rcases hhost m with h | h
    · rw [← h]
      exact h₂.host m
    · exact Or.inr (Or.inl h)
  toManager c hc := (h₂.toManager c hc).trans (h₁.toManager c hc)
  tickets M m hne := by
    by_cases h : s''.tickets M m = s'.tickets M m
    · exact h₁.tickets M m fun h' => hne (h.trans h')
    · exact h₂.tickets M m h
  running m hrun := h₂.running m (h₁.running m hrun)
  owned m M ho := by
    rcases h₁.owned m M ho with h | h
    · rcases h₂.owned m M h with h' | ⟨him, hrun⟩
      · exact Or.inl h'
      · refine Or.inr ⟨him, ?_⟩
        cases h : (s.host m).running with
        | false => rfl
        | true =>
          rw [h₁.running m h] at hrun
          cases hrun
    · exact Or.inr h
  grants c hne := by
    by_cases h : s''.toManager c = s'.toManager c
    · exact absurd (h₁.toManager c (hforeign c)) fun h' => hne (h.trans h')
    · exact h₂.grants c h
  foreign _ c M hc := absurd hc (hforeign c)
  asks c hc := absurd hc (hforeign c)

/-- **A call that is dropped** keeps the invariant. -/
theorem cut_kept (hi : Inv Z s) {op : Op} (ha : Allowed Z i op s)
    (hsync : op ≠ .ownerLock → (s.host i.device).lock = some i → Synced Z i.device s)
    (hc : dropped i op s s') : Inv Z s' ∧ Guards Z i s s' := by
  obtain ⟨⟨m, n, rfl⟩, -, ⟨-, rfl⟩ | ⟨hop, rfl | ⟨b, rfl, rfl⟩⟩⟩ := hc
  · exact ⟨hi, Guards.refl _ s'⟩
  · exact release_kept hi (hsync hop)
  · obtain ⟨hlock, hmine, hnone, t, rfl⟩ := ha
    obtain ⟨hi', hg⟩ := writeTicket_kept hi hlock hmine hnone t
    obtain ⟨hi'', hg'⟩ := release_kept (i := .query m n) hi' fun hlock' => by
      have hsync' := hsync hop hlock
      unfold Synced State.writeTicket at *
      rw [State.setHost_self]
      exact hsync'
    refine ⟨hi'', hg.trans hg' (fun m' => ?_) fun c hc => by cases hc⟩
    by_cases hne : m' = m
    · subst hne
      exact Or.inr hlock
    · exact Or.inl (State.setHost_of_ne s m m' _ hne)

/-! ### Starts and ends of processes -/

theorem mono_begin (i : TaskId) : Mono Z s (s.begin i) :=
  ⟨fun m => .refl (s.host m), List.Subset.refl _, List.Subset.refl _, fun _ _ h => h,
    List.subset_cons_self _ _, fun _ h => h⟩

theorem hostMono_crash (h : Host) :
    HostMono Z h { h with owner := none, lock := none, running := false } :=
  ⟨fun _ _ hb => hb, fun _ _ _ hr => (by cases hr), fun _ _ hb => hb⟩

theorem mono_crash (d : EndpointId) : Mono Z s (s.crash d) := mono_setHost (hostMono_crash _)

/-- **The start of a task** keeps the invariant. -/
theorem begin_kept (hi : Inv Z s) (i : TaskId) :
    Inv Z (s.begin i) ∧ ∀ j, Relies Z j s (s.begin i) := by
  have hmono : Mono Z s (s.begin i) := mono_begin i
  refine ⟨⟨hi.hosts, hi.pinged, fun c => ⟨fun hc => ?_, fun hc => ?_⟩, fun c hc => ?_,
    fun hh M m b hb => ?_⟩, fun j => ⟨hmono, fun _ _ => rfl, fun _ _ _ => rfl,
      fun _ hrun ho => ⟨hrun, ho⟩, fun _ _ => rfl⟩⟩
  · exact (hi.unbegun c).1 fun hc' => hc (List.mem_cons_of_mem _ hc')
  · exact (hi.unbegun c).2 fun hc' => hc (List.mem_cons_of_mem _ hc')
  · obtain ⟨t, ht, hsent⟩ := hi.sent c hc
    exact ⟨t, ht.mono hmono, hsent⟩
  · obtain ⟨t, hb', ht⟩ := hi.tickets hh M m b hb
    exact ⟨t, hb', ht.mono hmono⟩

/-- **The end of a process** keeps the invariant, and the tasks on other devices do not notice it. -/
theorem crash_kept (hi : Inv Z s) (d : EndpointId) :
    Inv Z (s.crash d) ∧ ∀ j, j.device ≠ d → Relies Z j s (s.crash d) := by
  have hok := hi.hosts d
  refine ⟨hi.setHost ⟨hok.ownerFile, nofun, nofun, nofun, hok.ticketFile, hok.shared, hok.agreed⟩
    (hostMono_crash _), fun j hj => ⟨mono_crash d, fun m hl => ?_, fun m him _ => ?_,
      fun M hrun ho => ?_, fun _ _ => rfl⟩⟩
  · refine State.setHost_of_ne s d m _ fun hmd => hj ?_
    rw [((hi.hosts m).locked j hl).1, hmd]
  · refine State.setHost_of_ne s d m _ fun hmd => hj ?_
    rw [him, ← hmd]
    rfl
  · have hhost : (s.crash d).host j.device = s.host j.device := State.setHost_of_ne s d _ _ hj
    exact ⟨by rw [hhost]; exact hrun, ho.congr (by rw [hhost]) (by rw [hhost]) (by rw [hhost])⟩

/-- What a task does is what the others rely on. -/
theorem Guards.relies {j : TaskId} (hij : i ≠ j) (hi : Inv Z s) (hg : Guards Z j s s') :
    Relies Z i s s' := by
  refine ⟨hg.mono, fun m hl => ?_, fun m him hrun => ?_, fun M hrun ho => ?_, fun c hic => ?_⟩
  · rcases hg.host m with h | h | ⟨h, -⟩ | ⟨-, h⟩
    · exact h
    · rw [hl, Option.some.injEq] at h
      exact absurd h hij
    · rw [hl] at h
      cases h
    · rw [((hi.hosts m).locked i hl).2] at h
      cases h
  · rcases hg.host m with h | h | ⟨-, h⟩ | ⟨h, -⟩
    · exact h
    · rw [((hi.hosts m).locked j h).2] at hrun
      cases hrun
    · rw [h] at hrun
      cases hrun
    · exact absurd (him.trans h.symm) hij
  · refine ⟨hg.running _ hrun, (hg.owned _ M ho).resolve_right fun h => ?_⟩
    rw [h.2] at hrun
    cases hrun
  · exact hg.toManager c fun hj => hij (hic.trans hj.symm)

/-- **The discipline of claims.** -/
def discipline (Z : Setting) : Discipline TaskId State where
  inv := Inv Z
  rely := Relies Z
  guar := Guards Z
  rely_refl _ s :=
    ⟨.refl s, fun _ _ => rfl, fun _ _ _ => rfl, fun _ hrun ho => ⟨hrun, ho⟩, fun _ _ => rfl⟩
  rely_trans {i s s' s''} h h' := by
    refine ⟨h.mono.trans h'.mono, fun m hl => ?_, fun m him hrun => ?_,
      fun M hrun ho => h'.owned M (h.owned M hrun ho).1 (h.owned M hrun ho).2, fun c hic => ?_⟩
    · have hhost := h.held m hl
      exact (h'.held m (by rw [hhost]; exact hl)).trans hhost
    · have hhost := h.start m him hrun
      exact (h'.start m him (by rw [hhost]; exact hrun)).trans hhost
    · exact (h'.toManager c hic).trans (h.toManager c hic)
  compat hij hi _ hg := hg.relies hij hi

end Vendimint.Claim
