import Vendimint.Async.Track
import Vendimint.Claim.Agreement
import Vendimint.Iroh.Uses

/-! # What happens without consent

Nothing is assumed about the peers here: what is read from a stream may be anything.

* `Consented`: streams, owner files and ticket files, with the answers of the operators behind them.
* `consent`: **no byte leaves a machine on a connection unless its operator was asked about that very
  connection and answered `true`**; what leaves is a ticket for the document of the machine, if the
  ticket file is readable, and it only ever goes to one manager, if every start reads the owner file. -/

namespace Vendimint.Claim

open Vendimint.Store Vendimint.Async

/-- How far a connection is: nothing has happened yet, the operator was asked, or answered `true`. -/
inductive Stage
  | begun
  | asked
  | agreed
  deriving DecidableEq

/-- The stage of the task `i` after an operation. What leaves the device or changes its files needs an
answer, and the answer on a machine a request. -/
def Stage.next (J : Serde) (i : TaskId) (h : Stage) : (op : Op) → op.Ret → Option Stage
  | .claimRequestSend _, r => some (if r = .ok () ∧ h = .begun then .asked else h)
  | .answer, r =>
    match i with
    | .accept _ => if h = .begun then none else some (if r = some true then .agreed else h)
    | _ => some (if r = some true then .agreed else h)
  | .writeAll _, _ | .finish, _ => if h = .agreed then some h else none
  | .writeFile .managerPublicKey b, _ =>
    match i with
    | .accept c => if h = .agreed ∧ b = J.endpointId.enc c.manager then some h else none
    | _ => none
  | .writeFile (.machineDocTicket n) _, _ =>
    match i with
    | .claim c => if h = .agreed ∧ n = .endpoint c.machine then some h else none
    | _ => none
  | _, _ => some h

/-- The histories have what the stage of the task `i` says. -/
def Stage.Shown (i : TaskId) (s : State) : Stage → Prop
  | .begun => True
  | .asked => ∀ c, i = .accept c → c ∈ s.requests
  | .agreed => (∀ c, i = .accept c → c ∈ s.answers) ∧ ∀ c, i = .claim c → c ∈ s.managerAnswers

/-- **The invariant.** -/
structure Consented (J : Serde) (s : State) : Prop where
  asked : s.answers ⊆ s.requests
  toManager : ∀ c, s.toManager c ≠ .empty → c ∈ s.answers
  ownerFile : ∀ m b, (s.host m).ownerFile = some b →
    ∃ c ∈ s.answers, c.machine = m ∧ b = J.endpointId.enc c.manager
  tickets : ∀ M m, s.tickets M m ≠ none → ∃ c ∈ s.managerAnswers, c.machine = m ∧ c.manager = M

/-- What the tasks know of their connections. -/
def stages (J : Serde) : Tracking TaskId Op Op.Ret Result State Stage where
  next := Stage.next J
  start := .begun
  done _ _ := True
  inv := Consented J
  agrees := Stage.Shown

/-! ### What operations do -/

/-- The operation neither asks nor answers, and nothing leaves by it. -/
def Inert : Op → Prop
  | .claimRequestSend _ | .answer | .writeAll _ | .finish | .writeFile .managerPublicKey _
  | .writeFile (.machineDocTicket _) _ => False
  | _ => True

/-- The same streams, files and histories, up to document tickets of machines. -/
structure Same (s s' : State) : Prop where
  requests : s'.requests = s.requests
  answers : s'.answers = s.answers
  managerAnswers : s'.managerAnswers = s.managerAnswers
  toManager : s'.toManager = s.toManager
  tickets : s'.tickets = s.tickets
  ownerFile : ∀ m, (s'.host m).ownerFile = (s.host m).ownerFile

/-- Histories grow. -/
structure Grows (s s' : State) : Prop where
  requests : s.requests ⊆ s'.requests
  answers : s.answers ⊆ s'.answers
  managerAnswers : s.managerAnswers ⊆ s'.managerAnswers

section Steps
variable {Z : Setting} {J : Serde} {sure : ConnId → Prop} {i j : TaskId} {op : Op} {r : op.Ret}
  {h h' : Stage} {s s' s'' : State} {m : EndpointId}

theorem next_inert (hop : Inert op) : Stage.next J i h op r = some h := by
  unfold Stage.next
  split
  all_goals first
    | exact hop.elim
    | rfl

theorem Same.refl (s : State) : Same s s := ⟨rfl, rfl, rfl, rfl, rfl, fun _ => rfl⟩

theorem Same.trans (h : Same s s') (h' : Same s' s'') : Same s s'' :=
  ⟨h'.requests.trans h.requests, h'.answers.trans h.answers,
    h'.managerAnswers.trans h.managerAnswers, h'.toManager.trans h.toManager,
    h'.tickets.trans h.tickets, fun m => (h'.ownerFile m).trans (h.ownerFile m)⟩

theorem same_setHost {x : Host} (hx : x.ownerFile = (s.host m).ownerFile) : Same s (s.setHost m x) := by
  refine ⟨rfl, rfl, rfl, rfl, rfl, fun m' => ?_⟩
  by_cases hm : m' = m
  · subst hm
    rw [State.setHost_self, hx]
  · rw [State.setHost_of_ne s m m' x hm]

theorem same_release : Same s (s.release i) := by
  unfold State.release
  split_ifs
  · exact same_setHost rfl
  · exact .refl s

/-- Most operations change no stream, no owner and no ticket. -/
theorem same_of_effect (hop : Inert op) (he : effect Z i op s r s') : Same s s' := by
  unfold effect at he
  split at he
  all_goals first
    | exact hop.elim
    | (obtain rfl := he; first | exact .refl _ | exact same_setHost rfl)
    | (rcases he with ⟨-, rfl⟩ | ⟨-, rfl⟩
       · exact same_setHost rfl
       · exact .refl _)
    | (obtain ⟨-, ⟨-, rfl⟩ | ⟨-, rfl⟩⟩ := he
       · exact .refl _
       · exact same_setHost rfl)
    | (obtain ⟨-, -, rfl⟩ := he; exact same_setHost rfl)
    | (obtain ⟨rfl, -⟩ := he; exact .refl _)

theorem same_of_dropped (hd : dropped i op s s') : Same s s' := by
  obtain ⟨-, -, ⟨-, rfl⟩ | ⟨-, rfl | ⟨b, -, rfl⟩⟩⟩ := hd
  · exact .refl _
  · exact same_release
  · have hwrite : Same s (s.writeTicket i.device b) := same_setHost rfl
    exact hwrite.trans same_release

theorem Same.consented (h : Same s s') (hc : Consented J s) : Consented J s' := by
  refine ⟨?_, fun c hne => ?_, fun m b hb => ?_, fun M m ht => ?_⟩
  · rw [h.answers, h.requests]
    exact hc.asked
  · rw [h.toManager] at hne
    rw [h.answers]
    exact hc.toManager c hne
  · rw [h.ownerFile m] at hb
    rw [h.answers]
    exact hc.ownerFile m b hb
  · rw [h.tickets] at ht
    rw [h.managerAnswers]
    exact hc.tickets M m ht

theorem Grows.refl (s : State) : Grows s s :=
  ⟨List.Subset.refl _, List.Subset.refl _, List.Subset.refl _⟩

theorem Same.grows (h : Same s s') : Grows s s' :=
  ⟨h.requests ▸ List.Subset.refl _, h.answers ▸ List.Subset.refl _,
    h.managerAnswers ▸ List.Subset.refl _⟩

/-- A stage stays as histories grow. -/
theorem Stage.Shown.grow (hs : h.Shown i s) (hg : Grows s s') : h.Shown i s' := by
  cases h with
  | begun => trivial
  | asked => exact fun c hc => hg.requests (hs c hc)
  | agreed => exact ⟨fun c hc => hg.answers (hs.1 c hc), fun c hc => hg.managerAnswers (hs.2 c hc)⟩

theorem request_consented (hc : Consented J s) : Consented J (s.request i) := by
  cases i with
  | accept c =>
    exact ⟨List.Subset.trans hc.asked (List.subset_cons_self _ _), hc.toManager, hc.ownerFile, hc.tickets⟩
  | _ => exact hc

theorem request_grows : Grows s (s.request i) := by
  cases i with
  | accept c => exact ⟨List.subset_cons_self _ _, List.Subset.refl _, List.Subset.refl _⟩
  | _ => exact .refl s

theorem answer_consented (hc : Consented J s) (hasked : ∀ c, i = .accept c → c ∈ s.requests) :
    Consented J (s.answer i) := by
  cases i with
  | accept c =>
    refine ⟨List.cons_subset.mpr ⟨hasked c rfl, hc.asked⟩,
      fun c' hc' => List.mem_cons_of_mem _ (hc.toManager c' hc'), fun m b hb => ?_, hc.tickets⟩
    obtain ⟨c', hc', hcb⟩ := hc.ownerFile m b hb
    exact ⟨c', List.mem_cons_of_mem _ hc', hcb⟩
  | claim c =>
    refine ⟨hc.asked, hc.toManager, hc.ownerFile, fun M m ht => ?_⟩
    obtain ⟨c', hc', hcm⟩ := hc.tickets M m ht
    exact ⟨c', List.mem_cons_of_mem _ hc', hcm⟩
  | _ => exact hc

theorem answer_grows : Grows s (s.answer i) := by
  cases i with
  | accept c => exact ⟨List.Subset.refl _, List.subset_cons_self _ _, List.Subset.refl _⟩
  | claim c => exact ⟨List.Subset.refl _, List.Subset.refl _, List.subset_cons_self _ _⟩
  | _ => exact .refl s

theorem answer_agreed : Stage.Shown i (s.answer i) .agreed := by
  refine ⟨fun c hc => ?_, fun c hc => ?_⟩
  · subst hc
    exact List.mem_cons_self
  · subst hc
    exact List.mem_cons_self

/-- Something is sent, or the stream ends, on a connection whose operator has answered. -/
theorem outgoing_consented (hc : Consented J s) (hh : Stage.Shown i s .agreed) (f : Stream → Stream) :
    Consented J (s.outgoing f i) := by
  cases i with
  | accept c =>
    refine ⟨hc.asked, fun c' hc' => ?_, hc.ownerFile, hc.tickets⟩
    by_cases hcc : c' = c
    · subst hcc
      exact hh.1 c' rfl
    · refine hc.toManager c' ?_
      have hsame : (s.outgoing f (.accept c)).toManager c' = s.toManager c' :=
        Function.update_of_ne hcc ..
      rwa [hsame] at hc'
  | _ => exact ⟨hc.asked, hc.toManager, hc.ownerFile, hc.tickets⟩

theorem outgoing_grows (f : Stream → Stream) : Grows s (s.outgoing f i) := by
  cases i <;> exact ⟨List.Subset.refl _, List.Subset.refl _, List.Subset.refl _⟩

theorem writeOwner_consented {c : ConnId} (hc : Consented J s) (hcA : c ∈ s.answers) :
    Consented J (s.writeOwner c.machine (J.endpointId.enc c.manager)) := by
  refine ⟨hc.asked, hc.toManager, fun m b hb => ?_, hc.tickets⟩
  by_cases hm : m = c.machine
  · subst hm
    rw [State.writeOwner, State.setHost_self, Option.some.injEq] at hb
    exact ⟨c, hcA, rfl, hb.symm⟩
  · rw [State.writeOwner, State.setHost_of_ne s _ m _ hm] at hb
    exact hc.ownerFile m b hb

theorem putTicket_consented {c : ConnId} {b : Bytes} (hc : Consented J s) (hcB : c ∈ s.managerAnswers) :
    Consented J (s.putTicket c.manager c.machine b) := by
  refine ⟨hc.asked, hc.toManager, hc.ownerFile, fun M m ht => ?_⟩
  by_cases hcm : c.machine = m ∧ c.manager = M
  · exact ⟨c, hcB, hcm⟩
  · refine hc.tickets M m fun hnone => ht ?_
    have hother : (s.putTicket c.manager c.machine b).tickets M m = s.tickets M m := by
      by_cases hM : M = c.manager
      · subst hM
        simp [State.putTicket, Function.update_of_ne fun hm => hcm ⟨Eq.symm hm, rfl⟩]
      · simp [State.putTicket, Function.update_of_ne hM]
    exact hother.trans hnone

/-- **An operation that the stage allows keeps the invariant**, and the task has what its next stage
says. -/
theorem exec_consented (hc : Consented Z.serde s) (hh : h.Shown i s)
    (hn : Stage.next Z.serde i h op r = some h') (he : effect Z i op s r s') :
    Consented Z.serde s' ∧ Grows s s' ∧ h'.Shown i s' := by
  by_cases hop : Inert op
  · have hsame := same_of_effect hop he
    rw [next_inert hop, Option.some.injEq] at hn
    subst hn
    exact ⟨hsame.consented hc, hsame.grows, hh.grow hsame.grows⟩
  cases op with
  | claimRequestSend pin =>
    simp only [Stage.next, Option.some.injEq] at hn
    obtain ⟨rfl, rfl⟩ | ⟨hr, rfl⟩ := he
    · refine ⟨request_consented hc, request_grows, ?_⟩
      subst hn
      split_ifs
      · rintro c rfl
        exact List.mem_cons_self
      · exact hh.grow request_grows
    · rw [if_neg fun hok => hr hok.1] at hn
      subst hn
      exact ⟨hc, .refl _, hh⟩
  | answer =>
    have hasked : (∀ c, i = .accept c → c ∈ s.requests) ∧
        h' = if r = some true then .agreed else h := by
      cases i with
      | accept c =>
        simp only [Stage.next, Option.ite_none_left_eq_some, Option.some.injEq] at hn
        refine ⟨?_, hn.2.symm⟩
        rintro c' ⟨⟩
        cases h with
        | begun => exact absurd rfl hn.1
        | asked => exact hh c rfl
        | agreed => exact hc.asked (hh.1 c rfl)
      | _ => exact ⟨fun c hc => (by cases hc), (Option.some.inj hn).symm⟩
    obtain ⟨hasked, rfl⟩ := hasked
    obtain ⟨rfl, rfl⟩ | ⟨hr, rfl⟩ := he
    · rw [if_pos rfl]
      exact ⟨answer_consented hc hasked, answer_grows, answer_agreed⟩
    · rw [if_neg hr]
      exact ⟨hc, .refl _, hh⟩
  | writeAll b =>
    obtain ⟨rfl, hsome⟩ := Option.ite_none_right_eq_some.mp hn
    obtain rfl := Option.some.inj hsome
    obtain ⟨-, rfl⟩ | ⟨-, p, -, rfl⟩ := he
    · exact ⟨outgoing_consented hc hh _, outgoing_grows _, hh.grow (outgoing_grows _)⟩
    · exact ⟨outgoing_consented hc hh _, outgoing_grows _, hh.grow (outgoing_grows _)⟩
  | finish =>
    obtain ⟨rfl, hsome⟩ := Option.ite_none_right_eq_some.mp hn
    obtain rfl := Option.some.inj hsome
    obtain ⟨-, rfl⟩ | ⟨-, rfl⟩ := he
    · exact ⟨outgoing_consented hc hh _, outgoing_grows _, hh.grow (outgoing_grows _)⟩
    · exact ⟨hc, .refl _, hh⟩
  | writeFile p b =>
    cases p with
    | managerPublicKey =>
      cases i with
      | accept c =>
        obtain ⟨⟨rfl, rfl⟩, hsome⟩ := Option.ite_none_right_eq_some.mp hn
        obtain rfl := Option.some.inj hsome
        obtain ⟨-, rfl⟩ | ⟨-, rfl⟩ := he
        · exact ⟨writeOwner_consented hc (hh.1 c rfl), ⟨List.Subset.refl _, List.Subset.refl _,
            List.Subset.refl _⟩, hh⟩
        · exact ⟨hc, .refl _, hh⟩
      | _ => cases hn
    | machineDocTicket n =>
      cases i with
      | claim c =>
        obtain ⟨⟨rfl, rfl⟩, hsome⟩ := Option.ite_none_right_eq_some.mp hn
        obtain rfl := Option.some.inj hsome
        obtain ⟨-, rfl⟩ | ⟨-, rfl⟩ := he
        · exact ⟨putTicket_consented hc (hh.2 c rfl), ⟨List.Subset.refl _, List.Subset.refl _,
            List.Subset.refl _⟩, hh⟩
        · exact ⟨hc, .refl _, hh⟩
      | _ => cases hn
    | _ => exact absurd trivial hop
  | _ => exact absurd trivial hop

end Steps

/-! ### Programs -/

section Tasks
variable {Z : Setting} {J : Serde} {sure : ConnId → Prop} {i : TaskId} {h : Stage} {c : ConnId} {α : Type}

theorem tracks_inert {p : Fut α} (hp : p.Uses Inert) :
    p.Tracks (Stage.next J i) h fun _ h' => h' = h :=
  Prog.Tracks.of_uses (fun _ hop _ => next_inert hop) hp

theorem inert_of_starting (op : Op) (hop : Starting op) : Inert op := by
  unfold Starting at hop
  split at hop <;> trivial

theorem inert_of_opening (op : Op) (hop : MachineProtocol.Opening op) : Inert op := by
  unfold MachineProtocol.Opening at hop
  split at hop <;> trivial

theorem uses_new : (MachineProtocol.new J).run.Uses Inert := by
  simp only [MachineProtocol.new, Fallible.run_bind]
  refine (SharedProtocol.uses_new.mono inert_of_starting).andThen fun secretKey => ?_
  refine Prog.Uses.andThen ⟨trivial, fun _ => trivial⟩ fun r => ?_
  exact Prog.Uses.andThen ⟨trivial, fun _ => trivial⟩ fun _ => trivial

theorem uses_getMachineState : (MachineProtocol.getMachineState J).run.Uses Inert := by
  simp only [MachineProtocol.getMachineState, Fallible.run_bind]
  refine Prog.Uses.andThen ⟨trivial, fun _ => trivial⟩ fun owner => ?_
  rw [run_guarded]
  refine Prog.Uses.bind ?_ fun r => ⟨trivial, fun _ => trivial⟩
  rw [Fallible.run_ite]
  split
  · rw [Fallible.run_bind]
    exact (MachineProtocol.uses_getMachineConfig.mono inert_of_opening).andThen fun _ => trivial
  · trivial

/-- The handler writes the owner only after the operator was asked and answered `true`. -/
theorem tracks_acceptClaim :
    (MachineProtocol.acceptClaim J c.manager).run.Tracks (Stage.next J (.accept c)) .begun
      fun r h => ∀ ticket, r = .ok (some ticket) → h = .agreed := by
  simp only [MachineProtocol.acceptClaim, Fallible.run_bind, Fallible.run_ite, run_attempt, await_eq,
    Fallible.run_of, call_eq, Prog.await_bind, Prog.pure_bind, Fallible.andThen_ok]
  refine .await (fun _ => rfl) fun km => ?_
  -- Without a request there is no answer.
  intro r
  rcases r with e | _
  · exact ⟨.begun, by simp [Stage.next], fun ticket ht => (by cases ht)⟩
  refine ⟨.asked, by simp [Stage.next], fun answer => ?_⟩
  by_cases hanswer : answer = some true
  · subst hanswer
    refine ⟨.agreed, by simp [Stage.next], ?_⟩
    refine .await (fun _ => rfl) fun r => ?_
    rcases r with e | _
    · exact fun _ ht => (by cases ht)
    refine .await (fun _ => rfl) fun r => ?_
    rcases r with e | ping
    · exact fun _ ht => (by cases ht)
    simp only [Fallible.andThen_ok]
    split
    · exact fun _ ht => (by cases ht)
    refine .andThen (tracks_inert (MachineProtocol.uses_getOrCreateMachineDoc.mono
      inert_of_opening)) (fun _ _ _ _ ht => (by cases ht)) ?_
    rintro doc h rfl
    refine .await (fun _ => rfl) fun r => ?_
    rcases r with e | ticket
    · exact fun _ ht => (by cases ht)
    refine .await (fun _ => if_pos ⟨rfl, rfl⟩) fun r => ?_
    rcases r with e | _
    · exact fun _ ht => (by cases ht)
    · exact .await (fun _ => rfl) fun _ _ _ => rfl
  · have hno : ¬ answer.getD false = true := by simpa [Option.getD_eq_iff] using hanswer
    refine ⟨.asked, by simp [Stage.next, hanswer], ?_⟩
    simp only [if_neg hno]
    exact .await (fun _ => rfl) fun _ _ ht => (by cases ht)

/-- The ticket is sent on a connection whose operator has answered. -/
theorem tracks_sendTicket (ticket : DocTicket) :
    (MachineProtocol.sendTicket J ticket).run.Tracks (Stage.next J (.accept c)) .agreed
      fun _ _ => True := by
  simp only [MachineProtocol.sendTicket, Fallible.run_bind, run_attempt, await_eq,
    Fallible.run_of, call_eq, Prog.await_bind, Prog.pure_bind]
  refine .await (fun _ => rfl) fun r => ?_
  rcases r with e | _
  · trivial
  refine .await (fun _ => rfl) fun r => ?_
  rcases r with e | _
  · trivial
  refine .await (fun _ => rfl) fun r => ?_
  rcases r with e | _
  · trivial
  refine .await (fun _ => rfl) fun r => ?_
  rcases r with e | _
  · trivial
  · exact .await (fun _ => rfl) fun _ => trivial

theorem tracks_accept :
    (MachineProtocol.accept J c.manager).run.Tracks (Stage.next J (.accept c)) .begun
      fun _ _ => True := by
  simp only [MachineProtocol.accept, Fallible.run_bind, Fallible.run_ite, await_eq, Fallible.run_of,
    Prog.await_bind, Prog.pure_bind, Fallible.andThen_ok, run_guarded]
  refine .await (fun _ => rfl) fun owner => ?_
  split
  · exact .await (fun _ => rfl) fun _ => .await (fun _ => rfl) fun _ => trivial
  rw [Prog.bind_assoc]
  refine Prog.Tracks.bind tracks_acceptClaim fun r h hr => ?_
  refine .await (fun _ => rfl) fun _ => ?_
  rcases r with e | ticketOr
  · trivial
  rcases ticketOr with _ | ticket
  · trivial
  obtain rfl := hr ticket rfl
  exact tracks_sendTicket ticket

/-- A ticket is stored on a connection whose operator has answered. -/
theorem tracks_storeTicket (bytes : Bytes) :
    (ManagerProtocol.storeTicket J c.machine bytes).run.Tracks (Stage.next J (.claim c)) .agreed
      fun _ h => h = .agreed := by
  unfold ManagerProtocol.storeTicket
  rcases J.ticket.dec bytes with _ | ticket
  · exact rfl
  simp only
  rcases ticket.capability with d | d
  · simp only [Fallible.run_bind, await_eq, Fallible.run_of, Prog.await_bind, Prog.pure_bind,
      Fallible.andThen_ok]
    exact .await (fun _ => rfl) fun _ => .await (fun _ => if_pos ⟨rfl, rfl⟩) fun _ => rfl
  · exact rfl

/-- The manager pings, and stores a ticket, only after its operator has answered `true`. -/
theorem tracks_claim :
    (ManagerProtocol.claimOnConnection J c.machine).run.Tracks (Stage.next J (.claim c)) .begun
      fun _ _ => True := by
  simp only [ManagerProtocol.claimOnConnection, Fallible.run_bind, Fallible.run_ite, await_eq,
    Fallible.run_of, call_eq, Prog.await_bind, Prog.pure_bind, Fallible.andThen_ok]
  intro answer
  by_cases hanswer : answer = some true
  · subst hanswer
    refine ⟨.agreed, by simp [Stage.next], ?_⟩
    refine .await (fun _ => rfl) fun r => ?_
    rcases r with e | _
    · trivial
    simp only [Fallible.run_bind, run_attempt, Fallible.run_of, Prog.await_bind, Prog.pure_bind,
      Fallible.andThen_ok]
    refine .await (fun _ => rfl) fun r => ?_
    rcases r with e | _
    · trivial
    refine .await (fun _ => rfl) fun r => ?_
    rcases r with e | _
    · trivial
    refine .await (fun _ => rfl) fun r => ?_
    rcases r with e | _
    · trivial
    refine .await (fun _ => rfl) fun r => ?_
    rcases r with e | bytes
    · exact .await (fun _ => rfl) fun _ => trivial
    simp only [Fallible.run_bind]
    refine .andThen (tracks_storeTicket bytes) (fun _ _ _ => trivial) ?_
    rintro - h rfl
    exact .await (fun _ => rfl) fun _ => trivial
  · have hno : ¬ answer.getD false = true := by simpa [Option.getD_eq_iff] using hanswer
    refine ⟨.begun, by simp [Stage.next, hanswer], ?_⟩
    simp only [if_neg hno]
    trivial

theorem tracks_program : ∀ i : TaskId,
    (program J i).Tracks (Stage.next J i) .begun fun _ _ => True
  | .accept _ => Prog.Tracks.bind tracks_accept fun _ _ _ => trivial
  | .claim c => by
    refine Prog.Tracks.bind (Q := fun _ _ => True) ?_ fun _ _ _ => trivial
    refine Prog.Tracks.bind tracks_claim fun r h _ => ?_
    cases r with
    | error e => trivial
    | ok u => exact .await (fun _ => rfl) fun _ => trivial
  | .start _ => Prog.Tracks.bind (tracks_inert uses_new) fun _ _ _ => trivial
  | .query _ _ => Prog.Tracks.bind (tracks_inert uses_getMachineState) fun _ _ _ => trivial
  | .list _ _ => Prog.Tracks.bind (tracks_inert (ManagerProtocol.uses_listMachines trivial
      (fun _ => trivial) fun _ => trivial)) fun _ _ _ => trivial

end Tasks

/-! ### The system -/

section System
variable {Z : Setting} {sure : ConnId → Prop} {P : Pool TaskId Op Op.Ret Result State}

/-- Every step of machines and managers keeps what the tasks know of their connections. -/
theorem stages_sound : (stages Z.serde).Sound (claims Z sure) where
  run hc hh hn he := by
    obtain ⟨hc', hgrows, hh'⟩ := exec_consented hc hh hn he.1
    exact ⟨hc', hh', fun j x _ hx => hx.grow hgrows⟩
  cut hc _ _ hd := by
    have hsame := same_of_dropped hd
    exact ⟨hsame.consented hc, trivial, fun j x _ hx => hx.grow hsame.grows⟩
  spawn {i p s s'} hc _ hs := by
    obtain ⟨-, rfl, rfl⟩ := hs
    have hsame : Same s (s.begin i) := ⟨rfl, rfl, rfl, rfl, rfl, fun _ => rfl⟩
    exact ⟨hsame.consented hc, trivial, tracks_program i, fun j x _ hx => hx.grow hsame.grows⟩
  env {s s' dead} hc he := by
    obtain ⟨d, rfl, -⟩ := he
    have hsame : Same s (s.crash d) := same_setHost rfl
    exact ⟨hsame.consented hc, fun _ _ => trivial, fun i x _ hx => hx.grow hsame.grows⟩

theorem consented (h : Steps (claims Z sure) (Pool.idle State.fresh) P) :
    Consented Z.serde P.st := by
  have hfresh : (stages Z.serde).Known
      (Pool.idle State.fresh : Pool TaskId Op Op.Ret Result State) := by
    refine ⟨⟨List.Subset.refl _, fun c hc => absurd rfl hc, fun m b hb => (by cases hb),
      fun M m ht => absurd rfl ht⟩, fun i => trivial⟩
  exact (Tracking.known_steps stages_sound hfresh h).inv

/-- **Nothing without consent.** -/
theorem consent (h : Steps (claims Z sure) (Pool.idle State.fresh) P) :
    (∀ c, (P.st.toManager c).sent ≠ [] → c ∈ P.st.requests ∧ c ∈ P.st.answers ∧
      ∃ t, Granted Z P.st c.machine c.manager t ∧ (P.st.toManager c).sent <+: Z.serde.ticket.enc t) ∧
    (Z.known → ∀ c c', (P.st.toManager c).sent ≠ [] → (P.st.toManager c').sent ≠ [] →
      c.machine = c'.machine → c.manager = c'.manager) ∧
    (∀ m M, Records Z P.st m M →
      ∃ c ∈ P.st.answers, c ∈ P.st.requests ∧ c.machine = m ∧ c.manager = M) ∧
    ∀ M m, P.st.tickets M m ≠ none → ∃ c ∈ P.st.managerAnswers, c.machine = m ∧ c.manager = M := by
  have hi := (good h).1
  have hc := consented h
  have hempty : ∀ c, (P.st.toManager c).sent ≠ [] → P.st.toManager c ≠ .empty := by
    intro c hsent hempty
    rw [hempty] at hsent
    exact hsent rfl
  refine ⟨fun c hsent => ?_, fun hk c c' hsent hsent' hm => ?_, fun m M hM => ?_, hc.tickets⟩
  · obtain ⟨t, hgranted, hprefix, -⟩ := hi.sent c (hempty c hsent)
    have hanswer := hc.toManager c (hempty c hsent)
    exact ⟨hc.asked hanswer, hanswer, t, hgranted, hprefix⟩
  · obtain ⟨t, hgranted, -⟩ := hi.sent c (hempty c hsent)
    obtain ⟨t', hgranted', -⟩ := hi.sent c' (hempty c' hsent')
    have howner := hgranted.owner hk
    rw [hm, hgranted'.owner hk, Option.some.injEq] at howner
    exact (Z.serde.endpointId.enc_injective howner).symm
  · obtain ⟨c, hcA, hcm, hcM⟩ := hc.ownerFile m _ (hM.ownerFile hi)
    exact ⟨c, hcA, hc.asked hcA, hcm, (Z.serde.endpointId.enc_injective hcM).symm⟩

end System

open FirstClaim in
/-- A machine that was claimed, and the connection on which its operator answered. -/
theorem consent_claimed :
    ∃ P : Pool TaskId Op Op.Ret Result State,
      Steps (claims ⟨Serde.framed, False, True, True, True⟩ fun _ => False) (Pool.idle State.fresh) P ∧
      ∃ c ∈ P.st.answers, c ∈ P.st.requests ∧ c.machine = machine ∧ c.manager = manager := by
  obtain ⟨P, hsteps, -, -, howner⟩ := claimed ⟨Serde.framed, False, True, True, True⟩
  exact ⟨P, hsteps, (consent hsteps).2.2.1 machine manager (Or.inl howner)⟩

end Vendimint.Claim
