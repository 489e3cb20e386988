import Vendimint.Claim.Steps

/-! # The tasks of a machine

Each task of a machine keeps the invariant of claims and does to the others what `Guards` says.

* `accept_safe`: the claim handler. While it holds the lock it knows that the owner in memory is the
  one in the file (`Holding`); what it sends is a ticket for the document of its machine.
* `getMachineState_safe`, `new_safe`: calls of `get_machine_state`, and the start of a machine. -/

namespace Vendimint.Claim

open Vendimint.Store Vendimint.Async

/-! ### Rules -/

/-- Operations that change nothing and are always allowed. -/
def Quiet (Z : Setting) (op : Op) : Prop :=
  (∀ i s, Allowed Z i op s) ∧ ∀ i s r s', effect Z i op s r s' → s' = s

/-- What the task `i` holds the lock for: nobody else changes its machine, whose owner in memory is
the one in the file. -/
structure Locked (Z : Setting) (i : TaskId) (s : State) : Prop where
  lock : (s.host i.device).lock = some i
  synced : Synced Z i.device s

/-- The same, on a machine that is not a stranger's. -/
structure Holding (Z : Setting) (i : TaskId) (s : State) : Prop extends Locked Z i s where
  mine : Mine Z i s

/-- What has happened between two states in which the task `i` sent nothing. -/
structure Frame (Z : Setting) (i : TaskId) (s s' : State) : Prop where
  mono : Mono Z s s'
  toManager : ∀ c, i = .accept c → s'.toManager c = s.toManager c

section Rules
variable {Z : Setting} {sure : ConnId → Prop} {i : TaskId} {s t u : State} {α : Type} {op : Op}

theorem Frame.refl (s : State) : Frame Z i s s := ⟨.refl s, fun _ _ => rfl⟩

theorem Frame.trans (h : Frame Z i s t) (h' : Frame Z i t u) : Frame Z i s u :=
  ⟨h.mono.trans h'.mono, fun c hc => (h'.toManager c hc).trans (h.toManager c hc)⟩

theorem Relies.frame (h : Relies Z i s t) : Frame Z i s t := ⟨h.mono, h.toManager⟩

theorem frame_setHost {h : Host} (hm : HostMono Z (s.host i.device) h) :
    Frame Z i s (s.setHost i.device h) := ⟨mono_setHost hm, fun _ _ => rfl⟩

theorem Locked.stable (h : Locked Z i s) (hr : Relies Z i s t) : Locked Z i t := by
  have hhost := hr.held i.device h.lock
  refine ⟨by rw [hhost]; exact h.lock, ?_⟩
  unfold Synced
  rw [hhost]
  exact h.synced

theorem Mine.congr (h : Mine Z i s) (howner : (t.host i.device).owner = (s.host i.device).owner)
    (hfile : (t.host i.device).ownerFile = (s.host i.device).ownerFile) : Mine Z i t := by
  refine ⟨fun c M hc hM => ?_, fun hk c M hc hM => ?_⟩
  · subst hc
    exact h.owner c M rfl (howner.symm.trans hM)
  · subst hc
    exact h.file hk c M rfl (hfile.symm.trans hM)

/-- The lock and the owner of the machine have not changed. -/
theorem Holding.congr (h : Holding Z i s) (hlock : (t.host i.device).lock = (s.host i.device).lock)
    (howner : (t.host i.device).owner = (s.host i.device).owner)
    (hfile : (t.host i.device).ownerFile = (s.host i.device).ownerFile) : Holding Z i t := by
  refine ⟨⟨hlock.trans h.lock, ?_⟩, h.mine.congr howner hfile⟩
  unfold Synced
  rw [hfile, howner]
  exact h.synced

theorem Holding.host (h : Holding Z i s) (hhost : t.host i.device = s.host i.device) :
    Holding Z i t :=
  h.congr (by rw [hhost]) (by rw [hhost]) (by rw [hhost])

theorem Holding.stable (h : Holding Z i s) (hr : Relies Z i s t) : Holding Z i t :=
  h.host (hr.held i.device h.lock)

/-- An operation that is allowed. A call that is dropped has the owner of the file in memory. -/
theorem safe_op {k : op.Ret → Fut α} {R : α → State → Prop}
    (ha : ∀ t, Relies Z i s t → Inv Z t → Allowed Z i op t)
    (hsync : ∀ t, Relies Z i s t → op ≠ .ownerLock → (∃ m n, i = .query m n) → Synced Z i.device t)
    (h : ∀ r t u, Relies Z i s t → Inv Z t → Inv Z u → (network Z sure).exec i op t r u →
      Safe (network Z sure) (discipline Z) i (k r) (Outcome.returns R) u) :
    Safe (network Z sure) (discipline Z) i (.await op k) (Outcome.returns R) s := by
  refine .act fun t ht hi => ⟨fun r u hu => ?_, fun u hu => ?_⟩
  · obtain ⟨hiu, hg⟩ := exec_kept hi (ha t ht hi) hu.1
    exact ⟨hiu, hg, h r t u ht hi hiu hu⟩
  · exact cut_kept hi (ha t ht hi) (fun hop _ => hsync t ht hop hu.1) hu

/-- An operation under the lock. -/
theorem safe_locked {k : op.Ret → Fut α} {R : α → State → Prop} (hs : Locked Z i s)
    (ha : ∀ t, Locked Z i t → Relies Z i s t → Inv Z t → Allowed Z i op t)
    (h : ∀ r t u, Locked Z i t → Relies Z i s t → Inv Z t → Inv Z u →
      (network Z sure).exec i op t r u →
      Safe (network Z sure) (discipline Z) i (k r) (Outcome.returns R) u) :
    Safe (network Z sure) (discipline Z) i (.await op k) (Outcome.returns R) s :=
  safe_op (fun t ht => ha t (hs.stable ht) ht) (fun _ ht _ _ => (hs.stable ht).synced)
    fun r t u ht => h r t u (hs.stable ht) ht

/-- An operation under the lock on a machine that is not a stranger's, which changes nothing. -/
theorem safe_quiet {k : op.Ret → Fut α} {R : α → State → Prop} (hop : Quiet Z op)
    (hs : Holding Z i s)
    (h : ∀ r t, Holding Z i t → Frame Z i s t → Inv Z t → (network Z sure).exec i op t r t →
      Safe (network Z sure) (discipline Z) i (k r) (Outcome.returns R) t) :
    Safe (network Z sure) (discipline Z) i (.await op k) (Outcome.returns R) s := by
  refine safe_locked hs.toLocked (fun t _ _ _ => hop.1 i t) fun r t u _ ht hi _ hu => ?_
  obtain rfl := hop.2 i t r u hu.1
  exact h r u (hs.stable ht) ht.frame hi hu

/-- A program whose operations change nothing. -/
theorem safe_uses {p : Fut α} (hi : ∀ m n, i ≠ .query m n) (h : p.Uses (Quiet Z)) :
    Safe (network Z sure) (discipline Z) i p (Outcome.returns fun _ t => Relies Z i s t) s := by
  induction p generalizing s with
  | pure a => exact fun t ht _ => ht
  | panic => exact fun _ _ _ => trivial
  | await op k ih =>
    refine safe_op (fun t _ _ => h.1.1 i t) (fun _ _ _ hq => ?_) fun r t u ht _ _ hu => ?_
    · obtain ⟨m, n, hq⟩ := hq
      exact absurd hq (hi m n)
    · obtain rfl := h.1.2 i t r u hu.1
      refine (ih r (h.2 r)).mono fun o v _ hv => ?_
      cases o with
      | returned a => exact (discipline Z).rely_trans ht hv
      | panicked => trivial
      | aborted => trivial

end Rules

/-! ### The document -/

section Tasks
variable {Z : Setting} {sure : ConnId → Prop} {i : TaskId} {s : State} {c : ConnId} {m M : EndpointId}
  {α : Type}

theorem ticketOf_ok {J : Serde} {b : Bytes} {t : DocTicket} (h : b = J.ticket.enc t) :
    MachineProtocol.ticketOf J (.ok b) = some t := by
  rw [h]
  exact J.ticket.dec_enc t

/-- The lock is held, and the ticket in the file names the document that was returned, if any. -/
structure Documented (Z : Setting) (i : TaskId) (s : State) (r : Except Error NamespaceId)
    (t : State) : Prop where
  holding : Holding Z i t
  frame : Frame Z i s t
  doc : ∀ d, r = .ok d →
    ∃ t', (t.host i.device).ticketFile = some (Z.serde.ticket.enc t') ∧ t'.capability.id = d

/-- **The document of the machine.** -/
theorem getOrCreateMachineDoc_safe (hs : Holding Z i s) :
    Safe (network Z sure) (discipline Z) i (MachineProtocol.getOrCreateMachineDoc Z.serde).run
      (Outcome.returns (Documented Z i s)) s := by
  simp only [MachineProtocol.getOrCreateMachineDoc, Fallible.run_bind, run_attempt, await_eq,
    Fallible.run_of, call_eq, Prog.await_bind, Prog.pure_bind, Fallible.andThen_ok]
  have hfail : ∀ {e : Error} {t : State}, Holding Z i t → Frame Z i s t →
      Safe (network Z sure) (discipline Z) i (.pure (.error e)) (Outcome.returns (Documented Z i s)) t := by
    intro e t ht hf
    exact .returned fun u hu _ => ⟨ht.stable hu, hf.trans hu.frame, nofun⟩
  refine safe_quiet ⟨fun _ _ => trivial, fun _ _ _ _ h => h⟩ hs fun r t ht hst hi _ => ?_
  rcases r with e | _
  · exact hfail ht hst
  refine safe_quiet ⟨fun _ _ => trivial, fun _ _ _ _ h => h.1⟩ ht fun r u hu htu hiu he => ?_
  obtain ⟨⟨-, hread, hreadable⟩, -⟩ := he
  have hsu := hst.trans htu
  rcases hticket : MachineProtocol.ticketOf Z.serde r with _ | docTicket
  · -- There is no ticket: the document is created.
    have hnone : Z.readable → (u.host i.device).ticketFile = none := by
      intro hr
      by_contra hne
      obtain ⟨b, rfl⟩ := hreadable hr hne
      obtain ⟨t', ht'⟩ := (hiu.hosts i.device).ticketFile b (hread b rfl)
      rw [ticketOf_ok ht'] at hticket
      cases hticket
    simp only [Fallible.run_bind, run_attempt, Prog.await_bind, Prog.pure_bind]
    refine safe_locked hu.toLocked (fun _ _ _ _ => trivial) fun r v v' _ hv hiv _ he => ?_
    obtain rfl := he.1
    have hhv := hu.stable hv
    have hnv : Z.readable → (v'.host i.device).ticketFile = none := fun hr => by
      rw [hv.held _ hu.lock]
      exact hnone hr
    rcases r with e | newDoc
    · exact hfail hhv (hsu.trans hv.frame)
    refine safe_locked hhv.toLocked (fun _ _ _ _ => trivial) fun r w w' _ hw hiw _ he => ?_
    obtain ⟨⟨rfl, hshare⟩, -⟩ := he
    have hhw := hhv.stable hw
    rcases r with e | newDocTicket
    · exact hfail hhw ((hsu.trans hv.frame).trans hw.frame)
    refine safe_locked hhw.toLocked (fun x _ hx _ => ?_) fun r x y _ hx hix _ he => ?_
    · refine ⟨(hhw.stable hx).lock, (hhw.stable hx).mine, fun hr => ?_, newDocTicket, rfl⟩
      rw [hx.held _ hhw.lock, hw.held _ hhv.lock]
      exact hnv hr
    have hhx := hhw.stable hx
    have hframe := ((hsu.trans hv.frame).trans hw.frame).trans hx.frame
    rcases he.1 with ⟨rfl, rfl⟩ | ⟨hr, rfl⟩
    · have hm : HostMono Z (x.host i.device)
          { x.host i.device with ticketFile := some (Z.serde.ticket.enc newDocTicket) } := by
        refine hostMono_ticketFile _ (fun hr => ?_) _
        rw [hx.held _ hhw.lock, hw.held _ hhv.lock]
        exact hnv hr
      have hself : (x.writeTicket i.device (Z.serde.ticket.enc newDocTicket)).host i.device =
          { x.host i.device with ticketFile := some (Z.serde.ticket.enc newDocTicket) } :=
        State.setHost_self ..
      have hhold : Holding Z i (x.writeTicket i.device (Z.serde.ticket.enc newDocTicket)) :=
        hhx.congr (by rw [hself]) (by rw [hself]) (by rw [hself])
      refine .returned fun y hy _ => ⟨hhold.stable hy,
        (hframe.trans (frame_setHost hm)).trans hy.frame, fun d hd => ?_⟩
      cases hd
      refine ⟨newDocTicket, ?_, ?_⟩
      · rw [hy.held _ hhold.lock, hself]
      · rw [hshare newDocTicket rfl]
        rfl
    · rcases r with e | _
      · exact hfail hhx hframe
      · exact absurd rfl hr
  · -- The ticket names the document.
    have hfile : ∃ b, r = .ok b ∧ b = Z.serde.ticket.enc docTicket := by
      rcases r with e | b
      · cases hticket
      · obtain ⟨t', ht'⟩ := (hiu.hosts i.device).ticketFile b (hread b rfl)
        rw [ticketOf_ok ht', Option.some.injEq] at hticket
        exact ⟨b, rfl, hticket ▸ ht'⟩
    obtain ⟨b, rfl, hb⟩ := hfile
    have hub := hread b rfl
    simp only [Fallible.run_bind, run_attempt, Prog.await_bind, Prog.pure_bind]
    refine safe_locked hu.toLocked (fun v hv _ _ => ⟨hv.lock, hv.synced⟩)
      fun r v w _ hv _ _ he => ?_
    obtain ⟨hdoc, he⟩ := he.1
    have hhv := hu.stable hv
    rcases r with e | docOr
    · obtain rfl := (he.resolve_right fun h => by cases h.1).2
      exact hfail hhv (hsu.trans hv.frame)
    rcases docOr with _ | d
    · exact .panicked
    · obtain rfl := (he.resolve_right fun h => by cases h.1).2
      obtain rfl := hdoc d rfl
      refine .returned fun x hx _ => ⟨hhv.stable hx, (hsu.trans hv.frame).trans hx.frame,
        fun d hd => ?_⟩
      cases hd
      refine ⟨docTicket, ?_, rfl⟩
      rw [hx.held _ hhv.lock, hv.held _ hu.lock, hub, hb]

/-! ### The claim handler -/

/-- What the handler of `c` may send: a ticket for the document of its machine. -/
structure Sends (Z : Setting) (c : ConnId) (s : State) (t : DocTicket) : Prop where
  begun : .accept c ∈ s.begun
  unsent : s.toManager c = .empty
  granted : Granted Z s c.machine c.manager t

theorem Sends.frame {t : State} {ticket : DocTicket} (h : Sends Z c s ticket)
    (hr : Frame Z (.accept c) s t) : Sends Z c t ticket :=
  ⟨hr.mono.begun h.begun, (hr.toManager c rfl).trans h.unsent, h.granted.mono hr.mono⟩

/-- The machine runs, and is owned by the manager of `c`. -/
def Claimed (Z : Setting) (c : ConnId) (s : State) : Prop :=
  (s.host c.machine).running = true ∧ Owned Z s c.machine c.manager

theorem Claimed.stable {t : State} (h : Claimed Z c s) (hr : Relies Z (.accept c) s t) :
    Claimed Z c t := hr.owned _ h.1 h.2

theorem Claimed.congr {t : State} (h : Claimed Z c s)
    (hfile : (t.host c.machine).ownerFile = (s.host c.machine).ownerFile)
    (howner : (t.host c.machine).owner = (s.host c.machine).owner)
    (hrun : (t.host c.machine).running = (s.host c.machine).running) : Claimed Z c t :=
  ⟨hrun.trans h.1, h.2.congr hfile howner hrun⟩

/-- The handler holds the lock; if it is to send a ticket, it may. -/
structure Accepting (Z : Setting) (c : ConnId) (r : Except Error (Option DocTicket)) (t : State) :
    Prop where
  locked : Locked Z (.accept c) t
  sends : ∀ ticket, r = .ok (some ticket) → Sends Z c t ticket ∧ Claimed Z c t

/-- The handler holds the lock and has sent nothing. -/
structure Serving (Z : Setting) (c : ConnId) (s : State) : Prop extends Holding Z (.accept c) s where
  begun : .accept c ∈ s.begun
  unsent : s.toManager c = .empty

theorem Serving.frame {t : State} (h : Serving Z c s) (hold : Holding Z (.accept c) t)
    (hf : Frame Z (.accept c) s t) : Serving Z c t :=
  ⟨hold, hf.mono.begun h.begun, (hf.toManager c rfl).trans h.unsent⟩

theorem Serving.stable {t : State} (h : Serving Z c s) (hr : Relies Z (.accept c) s t) :
    Serving Z c t := h.frame (h.toHolding.stable hr) hr.frame

/-- The handler may also ask the operator. -/
structure Asking (Z : Setting) (c : ConnId) (s : State) : Prop extends Serving Z c s where
  first : Z.again ∨ Unowned Z c.machine s

theorem Asking.host {t : State} (h : Asking Z c s) (hhost : t.host c.machine = s.host c.machine)
    (hsent : t.toManager c = s.toManager c) (hbegun : s.begun ⊆ t.begun) : Asking Z c t :=
  ⟨⟨h.toHolding.host hhost, hbegun h.begun, hsent.trans h.unsent⟩, by
    unfold Unowned
    rw [hhost]
    exact h.first⟩

theorem Asking.stable {t : State} (h : Asking Z c s) (hr : Relies Z (.accept c) s t) :
    Asking Z c t :=
  h.host (hr.held c.machine h.lock) (hr.toManager c rfl) hr.mono.begun

/-- An operation of a handler that has sent nothing, which changes nothing. -/
theorem safe_asking {op : Op} {k : op.Ret → Fut α} {R : α → State → Prop} (hop : Quiet Z op)
    (hs : Asking Z c s)
    (h : ∀ r t, Asking Z c t → Mono Z s t → Inv Z t → (network Z sure).exec (.accept c) op t r t →
      Safe (network Z sure) (discipline Z) (.accept c) (k r) (Outcome.returns R) t) :
    Safe (network Z sure) (discipline Z) (.accept c) (.await op k) (Outcome.returns R) s := by
  refine safe_locked hs.toLocked (fun t _ _ _ => hop.1 _ t) fun r t u _ ht hi _ hu => ?_
  obtain rfl := hop.2 _ t r u hu.1
  exact h r u (hs.stable ht) ht.mono hi hu

/-- The claim is written to the file, and the handler holds the lock. -/
structure Committing (Z : Setting) (c : ConnId) (ticket : DocTicket) (s : State) : Prop where
  lock : (s.host c.machine).lock = some (.accept c)
  mine : Mine Z (.accept c) s
  file : (s.host c.machine).ownerFile = some (Z.serde.endpointId.enc c.manager)
  sends : Sends Z c s ticket

theorem Committing.stable {t : State} {ticket : DocTicket} (h : Committing Z c ticket s)
    (hr : Relies Z (.accept c) s t) : Committing Z c ticket t := by
  have hhost := hr.held c.machine h.lock
  exact ⟨by rw [hhost]; exact h.lock, h.mine.congr (congrArg Host.owner hhost)
    (congrArg Host.ownerFile hhost), by rw [hhost]; exact h.file, h.sends.frame hr.frame⟩

/-- The owner is set in memory. -/
theorem ownerSet_safe {ticket : DocTicket} (hs : Committing Z c ticket s) :
    Safe (network Z sure) (discipline Z) (.accept c)
      (.await (.ownerSet c.manager) fun _ => .pure (.ok (some ticket)))
      (Outcome.returns (Accepting Z c)) s := by
  refine safe_op (fun t ht _ => ?_) (fun _ _ _ hq => ?_) fun _ t u ht hit _ hu => ?_
  · have hst := hs.stable ht
    exact ⟨hst.lock, hst.mine, hst.file⟩
  · obtain ⟨m, n, hq⟩ := hq
    cases hq
  have hst := hs.stable ht
  obtain rfl := hu.1
  have hhost : (t.setOwner c.machine c.manager).host c.machine =
      { t.host c.machine with owner := some c.manager } := State.setHost_self ..
  have hm : HostMono Z (t.host c.machine) { t.host c.machine with owner := some c.manager } :=
    hostMono_owner _ _
  have hlocked : Locked Z (.accept c) (t.setOwner c.machine c.manager) := by
    refine ⟨?_, fun _ => ?_⟩
    · show ((t.setOwner c.machine c.manager).host c.machine).lock = some (.accept c)
      rw [hhost]
      exact hst.lock
    · show ((t.setOwner c.machine c.manager).host c.machine).ownerFile = _
      unfold TaskId.device
      rw [hhost]
      exact hst.file
  have hsends : Sends Z c (t.setOwner c.machine c.manager) ticket :=
    hst.sends.frame (frame_setHost (i := .accept c) hm)
  have hclaimed : Claimed Z c (t.setOwner c.machine c.manager) := by
    refine ⟨?_, ?_, fun _ => ?_⟩
    · rw [hhost]
      exact ((hit.hosts c.machine).locked _ hst.lock).2
    · rw [hhost]
      exact hst.file
    · rw [hhost]
  refine .returned fun v hv _ => ⟨hlocked.stable hv, fun ticket' h => ?_⟩
  cases h
  exact ⟨hsends.frame hv.frame, hclaimed.stable hv⟩

/-- The claim is written to the file, and the owner is set. -/
theorem commit_safe {ticket : DocTicket} {d : NamespaceId} (hs : Serving Z c s)
    (hA : c ∈ s.answers) (hB : Z.honest → c ∈ s.managerAnswers)
    (hdoc : ∃ t', (s.host c.machine).ticketFile = some (Z.serde.ticket.enc t') ∧
      t'.capability.id = d) (hticket : ticket.capability = .write d) :
    Safe (network Z sure) (discipline Z) (.accept c)
      (.await (.writeFile .managerPublicKey (Z.serde.endpointId.enc c.manager))
        (Fallible.andThen fun _ =>
          .await (.ownerSet c.manager) fun _ => .pure (.ok (some ticket))))
      (Outcome.returns (Accepting Z c)) s := by
  obtain ⟨t', ht', hid⟩ := hdoc
  have hticketFile : ∀ {t : State}, Relies Z (.accept c) s t →
      (t.host c.machine).ticketFile = some (Z.serde.ticket.enc t') := by
    intro t ht
    rw [ht.held c.machine hs.lock]
    exact ht'
  refine safe_locked hs.toLocked (fun t hl ht _ => ?_) fun r t u _ ht _ _ hu => ?_
  · refine ⟨hl.lock, (hs.stable ht).mine, ?_, c, rfl, rfl, ht.mono.answers hA,
      fun hh => ht.mono.managerAnswers (hB hh)⟩
    show (t.host c.machine).ticketFile ≠ none
    rw [hticketFile ht]
    exact Option.some_ne_none _
  have hst := hs.stable ht
  rcases hu.1 with ⟨rfl, rfl⟩ | ⟨hr, rfl⟩
  · have hhost : (t.writeOwner c.machine (Z.serde.endpointId.enc c.manager)).host c.machine =
        { t.host c.machine with ownerFile := some (Z.serde.endpointId.enc c.manager) } :=
      State.setHost_self ..
    have hfile : ((t.writeOwner c.machine (Z.serde.endpointId.enc c.manager)).host c.machine).ownerFile =
        some (Z.serde.endpointId.enc c.manager) := by rw [hhost]
    refine ownerSet_safe ⟨?_, ⟨fun c' M hc hM => ?_, fun _ c' M hc hM => ?_⟩, hfile, hst.begun,
      hst.unsent, fun _ => hfile, ⟨d, hticket⟩, fun _ => ⟨t', ?_, ?_⟩, fun hh => ?_⟩
    · show ((t.writeOwner c.machine (Z.serde.endpointId.enc c.manager)).host c.machine).lock = _
      rw [hhost]
      exact hst.lock
    · cases hc
      refine hst.mine.owner c M rfl (Eq.trans ?_ hM)
      exact (congrArg Host.owner hhost).symm
    · cases hc
      exact (Z.serde.endpointId.enc_injective (Option.some.inj (hfile.symm.trans hM))).symm
    · show ((t.writeOwner c.machine (Z.serde.endpointId.enc c.manager)).host c.machine).ticketFile = _
      rw [hhost]
      exact hticketFile ht
    · rw [hticket, hid]
      rfl
    · exact ⟨c, rfl, rfl, ht.mono.answers hA, ht.mono.managerAnswers (hB hh)⟩
  · rcases r with e | _
    · exact .returned fun v hv _ => ⟨hst.toLocked.stable hv, nofun⟩
    · exact absurd rfl hr

/-- **The part of the handler that holds the lock.** -/
theorem acceptClaim_safe (hs : Asking Z c s) :
    Safe (network Z sure) (discipline Z) (.accept c) (MachineProtocol.acceptClaim Z.serde c.manager).run
      (Outcome.returns (Accepting Z c)) s := by
  have hfail : ∀ {e : Error} {t : State}, Locked Z (.accept c) t →
      Safe (network Z sure) (discipline Z) (.accept c) (.pure (.error e))
        (Outcome.returns (Accepting Z c)) t :=
    fun ht => .returned fun u hu _ => ⟨ht.stable hu, nofun⟩
  simp only [MachineProtocol.acceptClaim, Fallible.run_bind, Fallible.run_ite, run_attempt, await_eq,
    Fallible.run_of, call_eq, Prog.await_bind, Prog.pure_bind, Fallible.andThen_ok]
  refine safe_asking ⟨fun _ _ => trivial, fun _ _ _ _ h => h⟩ hs fun km t hs _ _ _ => ?_
  -- The request goes to the operator.
  refine safe_locked hs.toLocked (fun u _ hu _ => ?_) fun r u v _ hu _ _ hv => ?_
  · exact ⟨(hs.stable hu).mine, fun c' hc => by cases hc; exact (hs.stable hu).first⟩
  replace hs := hs.stable hu
  have hs' : Asking Z c v := by
    rcases hv.1 with ⟨-, rfl⟩ | ⟨-, rfl⟩
    · exact hs.host rfl rfl (List.Subset.refl _)
    · exact hs
  rcases r with e | _
  · exact hfail hs'.toLocked
  simp only [Fallible.andThen_ok]
  -- The operator answers.
  refine safe_locked hs'.toLocked (fun w _ hw _ => ?_) fun r w x _ hw _ _ hx => ?_
  · exact ⟨(hs'.stable hw).mine, fun c' hc => by cases hc; exact (hs'.stable hw).first⟩
  replace hs' := hs'.stable hw
  by_cases hr : r = some true
  · subst hr
    obtain rfl := (hx.1.resolve_right fun h => h.1 rfl).2
    have hsx : Asking Z c (w.answer (.accept c)) := hs'.host rfl rfl (List.Subset.refl _)
    have hA : c ∈ (w.answer (.accept c)).answers := List.mem_cons_self
    simp only [Option.getD_some, if_true]
    refine safe_asking ⟨fun _ _ => trivial, fun _ _ _ _ h => h⟩ hsx fun r y hsy hxy _ _ => ?_
    rcases r with e | _
    · exact hfail hsy.toLocked
    refine safe_asking ⟨fun _ _ => trivial, fun _ _ _ _ h => h.1⟩ hsy fun r z hsz hyz hiz hz => ?_
    rcases r with e | ping
    · exact hfail hsz.toLocked
    simp only [Fallible.andThen_ok]
    by_cases hping : ping = PING_MAGIC_BYTES
    · -- The manager has pinged, so its operator has answered.
      have hB : Z.honest → c ∈ z.managerAnswers := by
        intro hh
        refine hiz.pinged c fun hnil => ?_
        have hprefix := hz.1.2 ping rfl hh
        rw [hping, show z.incoming (.accept c) = z.toMachine c from rfl, hnil] at hprefix
        exact absurd (List.prefix_nil.mp hprefix) (by decide)
      rw [if_neg (not_not_intro hping)]
      have hAz := hyz.answers (hxy.answers hA)
      refine .bind_returns hiz (getOrCreateMachineDoc_safe hsz.toHolding) fun r w hiw hw => ?_
      rcases r with e | d
      · exact hfail hw.holding.toLocked
      have hserving := hsz.toServing.frame hw.holding hw.frame
      have hAw := hw.frame.mono.answers hAz
      have hBw := fun hh => hw.frame.mono.managerAnswers (hB hh)
      simp only [Fallible.andThen_ok]
      refine safe_locked hserving.toLocked (fun _ _ _ _ => trivial) fun r v v' _ hv _ _ he => ?_
      obtain ⟨⟨rfl, hshare⟩, -⟩ := he
      have hservingv := hserving.stable hv
      rcases r with e | ticket
      · exact hfail hservingv.toLocked
      refine commit_safe hservingv (hv.mono.answers hAw) (fun hh => hv.mono.managerAnswers (hBw hh))
        ?_ (hshare ticket rfl)
      rw [hv.held c.machine hserving.lock]
      exact hw.doc d rfl
    · rw [if_pos hping]
      exact hfail hsz.toLocked
  · have hanswer : r.getD false = false := by
      rcases r with _ | _ | _
      · rfl
      · rfl
      · exact absurd rfl hr
    obtain rfl := (hx.1.resolve_left fun h => hr h.1).2
    simp only [hanswer, Bool.false_eq_true, if_false]
    refine safe_asking ⟨fun _ _ => trivial, fun _ _ _ _ h => h⟩ hs' fun _ y hsy _ _ _ => ?_
    exact .returned fun z hz _ => ⟨hsy.toLocked.stable hz, nofun⟩

/-- A program that has ended. -/
theorem safe_ended {a : α} {t : State} :
    Safe (network Z sure) (discipline Z) i (.pure a) (Outcome.returns fun _ _ => True) t :=
  fun _ _ _ => trivial

/-- An operation without a result that matters, of a task that is never dropped. -/
theorem safe_plain {op : Op} {k : op.Ret → Fut α} {R : α → State → Prop}
    (hi : ∀ m n, i ≠ .query m n) (hop : Quiet Z op)
    (h : ∀ r t, Relies Z i s t → Inv Z t → (network Z sure).exec i op t r t →
      Safe (network Z sure) (discipline Z) i (k r) (Outcome.returns R) t) :
    Safe (network Z sure) (discipline Z) i (.await op k) (Outcome.returns R) s := by
  refine safe_op (fun t _ _ => hop.1 i t) (fun _ _ _ hq => ?_) fun r t u ht hit _ hu => ?_
  · obtain ⟨m, n, hq⟩ := hq
    exact absurd hq (hi m n)
  · obtain rfl := hop.2 i t r u hu.1
    exact h r u ht hit hu

/-- **The ticket goes to the manager.** -/
theorem sendTicket_safe {ticket : DocTicket} (hs : Sends Z c s ticket) (hclaimed : Claimed Z c s) :
    Safe (network Z sure) (discipline Z) (.accept c) (MachineProtocol.sendTicket Z.serde ticket).run
      (Outcome.returns fun _ _ => True) s := by
  have hquery : ∀ m n, TaskId.accept c ≠ .query m n := fun _ _ => nofun
  have hsync : ∀ {t : State}, (∃ m n, TaskId.accept c = .query m n) →
      Synced Z (TaskId.accept c).device t := by
    rintro t ⟨m, n, hq⟩
    cases hq
  simp only [MachineProtocol.sendTicket, Fallible.run_bind, run_attempt, await_eq, Fallible.run_of,
    call_eq, Prog.await_bind, Prog.pure_bind]
  refine safe_op (fun t ht _ => ?_) (fun _ _ _ => hsync) fun r t u ht _ _ hu => ?_
  · have hst := hs.frame ht.frame
    have hct := hclaimed.stable ht
    refine ⟨fun c' hc' => ?_, fun c' hc' => by cases hc'⟩
    cases hc'
    exact ⟨hst.begun, hst.unsent, hct.1, hct.2, ticket, hst.granted, rfl⟩
  have hst := hs.frame ht.frame
  rcases hu.1 with ⟨rfl, rfl⟩ | ⟨hr, -⟩
  · have hsent : ((t.send (.accept c) (Z.serde.ticket.enc ticket)).toManager c).sent =
        Z.serde.ticket.enc ticket := by
      rw [State.send, State.outgoing_toManager, hst.unsent]
      rfl
    have hgranted : Granted Z (t.send (.accept c) (Z.serde.ticket.enc ticket)) c.machine c.manager
        ticket := ⟨hst.granted.owner, hst.granted.write, hst.granted.doc, hst.granted.agreed⟩
    have hsendc : Claimed Z c (t.send (.accept c) (Z.serde.ticket.enc ticket)) :=
      ⟨(hclaimed.stable ht).1, (hclaimed.stable ht).2⟩
    refine safe_op (fun v hv _ => ?_) (fun _ _ _ => hsync) fun r v w _ _ _ _ => ?_
    · refine ⟨fun c' hc' => ?_, fun c' hc' => by cases hc'⟩
      cases hc'
      have hcv := hsendc.stable hv
      exact ⟨hcv.1, hcv.2, ticket, hgranted.mono hv.mono, by rw [hv.toManager c rfl]; exact hsent⟩
    rcases r with e | _
    · exact safe_ended
    refine safe_plain hquery ⟨fun _ _ => trivial, fun _ _ _ _ h => h⟩ fun r _ _ _ _ => ?_
    rcases r with e | _
    · exact safe_ended
    refine safe_plain hquery ⟨fun _ _ => trivial, fun _ _ _ _ h => h⟩ fun r _ _ _ _ => ?_
    rcases r with e | _
    · exact safe_ended
    refine safe_plain hquery ⟨fun _ _ => trivial, fun _ _ _ _ h => h⟩ fun _ _ _ _ _ => ?_
    exact safe_ended
  · rcases r with e | _
    · exact safe_ended
    · exact absurd rfl hr

/-- The guard is dropped. -/
theorem unlock_safe {k : Op.ownerUnlock.Ret → Fut α} {R : α → State → Prop} (hs : Locked Z i s)
    (h : ∀ r t, Relies Z i s t → Inv Z (t.setLock i.device none) →
      Safe (network Z sure) (discipline Z) i (k r) (Outcome.returns R) (t.setLock i.device none)) :
    Safe (network Z sure) (discipline Z) i (.await .ownerUnlock k) (Outcome.returns R) s := by
  refine safe_locked hs (fun t ht _ _ => ⟨ht.lock, ht.synced⟩) fun r t u _ ht _ hiu hu => ?_
  obtain rfl := hu.1
  exact h r t ht hiu

/-- What the lock gives: the owner in memory is the one in the file. -/
theorem locked_of_lock {t u : State} {r : Option EndpointId} (hi : Inv Z t)
    (he : effect Z i .ownerLock t r u) : Locked Z i u ∧ r = (u.host i.device).owner ∧
      Frame Z i t u := by
  obtain ⟨⟨hrun, hlock, -⟩, rfl, rfl⟩ := he
  have hhost : (t.setLock i.device (some i)).host i.device =
      { t.host i.device with lock := some i } := State.setHost_self ..
  refine ⟨⟨by rw [hhost], ?_⟩, by rw [hhost], frame_setHost (hostMono_lock _ _)⟩
  unfold Synced
  rw [hhost]
  exact fun hk => (hi.hosts i.device).synced hk hrun hlock

/-- **The claim handler.** -/
theorem accept_safe (hbegun : .accept c ∈ s.begun)
    (hunsent : s.toManager c = .empty) :
    Safe (network Z sure) (discipline Z) (.accept c) (MachineProtocol.accept Z.serde c.manager).run
      (Outcome.returns fun _ _ => True) s := by
  simp only [MachineProtocol.accept, Fallible.run_bind, Fallible.run_ite, await_eq, Fallible.run_of,
    Prog.await_bind, Prog.pure_bind, Fallible.andThen_ok]
  refine safe_op (fun _ _ _ => trivial) (fun _ _ hop => absurd rfl hop) fun r t u ht hit hiu hu => ?_
  obtain ⟨hlocked, hr, hframe⟩ := locked_of_lock hit hu.1
  have hsynced : Z.known → (u.host c.machine).ownerFile = r.map Z.serde.endpointId.enc := by
    rw [hr]
    exact hlocked.synced
  split
  · next hother =>
    refine safe_locked hlocked (fun _ _ _ _ => trivial) fun _ v w _ hv _ _ hw => ?_
    obtain rfl := hw.1
    exact unlock_safe (hlocked.stable hv) fun _ _ _ _ => safe_ended
  · next hother =>
    have howner : r = none ∨ r = some c.manager := by
      rcases r with _ | M
      · exact Or.inl rfl
      · refine Or.inr ?_
        by_contra hne
        refine hother ?_
        simp only [MachineProtocol.claimedByOther, Option.any_some, decide_eq_true_eq]
        exact fun h => hne (congrArg some h)
    have hmine : Mine Z (.accept c) u := by
      refine ⟨fun c' M hc hM => ?_, fun hk c' M hc hM => ?_⟩
      · cases hc
        rw [show (u.host c.machine).owner = r from hr.symm] at hM
        rcases howner with rfl | rfl
        · cases hM
        · exact (Option.some.inj hM).symm
      · cases hc
        rcases howner with rfl | rfl
        · rw [hsynced hk] at hM
          cases hM
        · rw [hsynced hk, Option.map_some, Option.some.injEq] at hM
          exact (Z.serde.endpointId.enc_injective hM).symm
    have hfirst : Z.again ∨ Unowned Z c.machine u := by
      by_cases hagain : Z.again
      · exact Or.inl hagain
      · refine Or.inr ?_
        have hne := hu.1.1.2.2 c rfl hagain
        rcases howner with rfl | rfl
        · exact ⟨hr.symm, hsynced⟩
        · exact absurd hu.1.2.1.symm hne
    have hfu := ht.frame.trans hframe
    have hasking : Asking Z c u := ⟨⟨⟨hlocked, hmine⟩, hfu.mono.begun hbegun,
      (hfu.toManager c rfl).trans hunsent⟩, hfirst⟩
    refine .bind_returns hiu
      (R := fun r t => ∀ ticket, r = .ok (some ticket) → Sends Z c t ticket ∧ Claimed Z c t)
      ?_ fun r v _ hv => ?_
    · simp only [run_guarded]
      refine .bind_returns hiu (acceptClaim_safe hasking) fun r v _ hv => ?_
      refine unlock_safe hv.locked fun _ w hw _ => ?_
      refine .returned fun x hx _ ticket h => ?_
      obtain ⟨hsends, hclaimed⟩ := hv.sends ticket h
      have hunlock : Frame Z (.accept c) w (w.setLock c.machine none) :=
        frame_setHost (i := .accept c) (hostMono_lock _ none)
      have hclaimed' : Claimed Z c (w.setLock c.machine none) :=
        (hclaimed.stable hw).congr (by simp [State.setLock]) (by simp [State.setLock])
          (by simp [State.setLock])
      exact ⟨hsends.frame ((hw.frame.trans hunlock).trans hx.frame), hclaimed'.stable hx⟩
    · rcases r with e | ticketOr
      · exact safe_ended
      · rcases ticketOr with _ | ticket
        · exact safe_ended
        · exact sendTicket_safe (hv ticket rfl).1 (hv ticket rfl).2

/-! ### Calls of `get_machine_state` -/

theorem getMachineConfig_safe (hi : Inv Z s) (hs : Holding Z i s) :
    Safe (network Z sure) (discipline Z) i (MachineProtocol.getMachineConfig Z.serde).run
      (Outcome.returns fun _ t => Holding Z i t) s := by
  simp only [MachineProtocol.getMachineConfig, Fallible.run_bind]
  have hend : ∀ {r : Except Error (Option MachineConfig)} {t : State}, Holding Z i t →
      Safe (network Z sure) (discipline Z) i (.pure r) (Outcome.returns fun _ t => Holding Z i t) t :=
    fun ht => .returned fun u hu _ => ht.stable hu
  refine .bind_returns hi (getOrCreateMachineDoc_safe hs) fun r t _ ht => ?_
  rcases r with e | doc
  · exact hend ht.holding
  refine safe_quiet ⟨fun _ _ => trivial, fun _ _ _ _ h => h⟩ ht.holding fun r u hu _ _ _ => ?_
  rcases r with e | entryOr
  · exact hend hu
  rcases entryOr with _ | entry
  · exact hend hu
  refine safe_quiet ⟨fun _ _ => trivial, fun _ _ _ _ h => h⟩ hu fun r v hv _ _ _ => ?_
  rcases r with e | bytes
  · exact hend hv
  show Safe (network Z sure) (discipline Z) i ((fromSlice (Z.serde.config.dec bytes)).run.bind
    (Fallible.andThen fun config => .pure (.ok (some config)))) _ v
  rcases Z.serde.config.dec bytes with _ | config
  · exact hend hv
  · exact hend hv

theorem getMachineState_safe {n : ℕ} :
    Safe (network Z sure) (discipline Z) (.query m n) (MachineProtocol.getMachineState Z.serde).run
      (Outcome.returns fun _ _ => True) s := by
  simp only [MachineProtocol.getMachineState, Fallible.run_bind, await_eq, Fallible.run_of,
    Prog.await_bind, Prog.pure_bind, Fallible.andThen_ok]
  refine safe_op (fun _ _ _ => trivial) (fun _ _ hop => absurd rfl hop) fun r t u _ hit hiu hu => ?_
  obtain ⟨hlocked, hr, -⟩ := locked_of_lock hit hu.1
  have hholding : Holding Z (.query m n) u :=
    ⟨hlocked, fun c M hc => (by cases hc), fun _ c M hc => (by cases hc)⟩
  simp only [run_guarded]
  refine .bind_returns hiu (R := fun _ t => Holding Z (.query m n) t) ?_ fun r v _ hv => ?_
  · split
    · simp only [Fallible.run_bind]
      refine .bind_returns hiu (getMachineConfig_safe hiu hholding) fun r v _ hv => ?_
      rcases r with e | config
      · exact .returned fun w hw _ => hv.stable hw
      · exact .returned fun w hw _ => hv.stable hw
    · exact .returned fun w hw _ => hholding.stable hw
  · exact unlock_safe hv.toLocked fun _ _ _ _ => safe_ended

/-! ### The start of a machine -/

theorem uses_loadSecretKey : SharedProtocol.loadSecretKey.run.Uses (Quiet Z) := by
  unfold SharedProtocol.loadSecretKey
  simp only [Fallible.run_bind, await_eq, Fallible.run_of, Prog.await_bind, Prog.pure_bind,
    Fallible.andThen_ok]
  refine ⟨⟨fun _ _ => trivial, fun _ _ _ _ h => h⟩, fun r => ?_⟩
  rcases r with e | keyBytes
  · simp only [Fallible.run_bind, Fallible.run_of, run_attempt, call_eq, Prog.await_bind,
      Prog.pure_bind, Fallible.andThen_ok]
    refine ⟨⟨fun _ _ => trivial, fun _ _ _ _ h => h⟩, fun keyBytes => ?_⟩
    refine ⟨⟨fun _ _ => trivial, fun _ _ _ _ h => h⟩, fun r => ?_⟩
    rcases r with e | _
    · trivial
    refine ⟨⟨fun _ _ => trivial, fun _ _ _ _ h => h⟩, fun r => ?_⟩
    rcases r with e | _ <;> trivial
  · simp only [Fallible.run_bind]
    rcases BytesN.ofBytes 32 keyBytes with _ | key <;> trivial

theorem uses_sharedNew : SharedProtocol.new.run.Uses (Quiet Z) := by
  refine uses_loadSecretKey.andThen fun key => ?_
  refine Prog.Uses.andThen ⟨⟨fun _ _ => trivial, fun _ _ _ _ h => h⟩, fun _ => trivial⟩ fun _ => ?_
  refine Prog.Uses.andThen ⟨⟨fun _ _ => trivial, fun _ _ _ _ h => h⟩, fun _ => trivial⟩ fun _ => ?_
  refine Prog.Uses.andThen ⟨⟨fun _ _ => trivial, fun _ _ _ _ h => h⟩, fun _ => trivial⟩ fun _ => ?_
  refine Prog.Uses.andThen ⟨⟨fun _ _ => trivial, fun _ _ _ _ h => h⟩, fun _ => trivial⟩ fun _ => ?_
  refine Prog.Uses.andThen ⟨⟨fun _ _ => trivial, fun _ _ _ _ h => h⟩, fun _ => trivial⟩ fun _ => ?_
  trivial

theorem ownerOf_ok {J : Serde} (M : EndpointId) :
    MachineProtocol.ownerOf J (.ok (J.endpointId.enc M)) = some M := J.endpointId.dec_enc M

/-- **The start of a machine** takes the owner from its file. -/
theorem new_safe (hrun : (s.host m).running = false) (hi : Inv Z s) :
    Safe (network Z sure) (discipline Z) (.start m) (MachineProtocol.new Z.serde).run
      (Outcome.returns fun _ _ => True) s := by
  have hquery : ∀ m' n, TaskId.start m ≠ .query m' n := fun _ _ => nofun
  simp only [MachineProtocol.new, Fallible.run_bind, await_eq, Fallible.run_of, Prog.await_bind,
    Prog.pure_bind, Fallible.andThen_ok]
  refine .bind_returns hi (safe_uses hquery uses_sharedNew) fun r t _ ht => ?_
  rcases r with e | secretKey
  · exact safe_ended
  have hrunt : (t.host m).running = false := by
    rw [ht.start m rfl hrun]
    exact hrun
  refine safe_plain hquery ⟨fun _ _ => trivial, fun _ _ _ _ h => h.1⟩ fun r u hu hiu he => ?_
  obtain ⟨⟨-, hread, hknown⟩, -⟩ := he
  have hrunu : (u.host m).running = false := by
    rw [hu.start m rfl hrunt]
    exact hrunt
  -- What is read names the owner of the file, and every owner is read if the machine knows it.
  have howner : ∀ M, MachineProtocol.ownerOf Z.serde r = some M →
      (u.host m).ownerFile = some (Z.serde.endpointId.enc M) := by
    intro M hM
    rcases r with e | b
    · cases hM
    · obtain ⟨M', rfl⟩ := (hiu.hosts m).ownerFile b (hread b rfl)
      rw [ownerOf_ok, Option.some.injEq] at hM
      exact hM ▸ hread _ rfl
  have hfile : Z.known → (u.host m).ownerFile =
      (MachineProtocol.ownerOf Z.serde r).map Z.serde.endpointId.enc := by
    intro hk
    rcases hM : MachineProtocol.ownerOf Z.serde r with _ | M
    · by_contra hne
      obtain ⟨b, rfl⟩ := hknown hk hne
      obtain ⟨M', rfl⟩ := (hiu.hosts m).ownerFile b (hread b rfl)
      rw [ownerOf_ok] at hM
      cases hM
    · exact howner M hM
  refine safe_op (fun v hv _ => ⟨m, rfl, ?_, ?_, ?_⟩) (fun _ _ _ hq => ?_)
    fun _ _ _ _ _ _ _ => safe_ended
  · rw [hv.start m rfl hrunu]
    exact hrunu
  · rw [hv.start m rfl hrunu]
    exact howner
  · rw [hv.start m rfl hrunu]
    exact hfile
  · obtain ⟨m', n, hq⟩ := hq
    exact absurd hq (hquery m' n)

end Tasks

end Vendimint.Claim
