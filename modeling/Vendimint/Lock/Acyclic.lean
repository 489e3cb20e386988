import Vendimint.Lock.Orderly

/-! # Tasks that wait for each other

* `never_deadlocked`: no cycle of tasks that wait for each other is ever reached, as long as nobody asks
  for the mutex out of turn.
* `locks_acyclic`: nor is there an endless chain of such tasks.
* `leave_deadlocks`: `leaveFederation`, which asks for the mutex while it holds the clients, may wait for a
  call of `setDefaultFederation` that waits for the clients. -/

namespace Vendimint.Lock

open Vendimint.Store Vendimint.Async
open Vendimint.View (TaskId capacity)

/-- The operation waits for the task that updates the view. -/
def AsksView : Op → Prop
  | .forceUpdateSend | .forceUpdateRecv => True
  | _ => False

section Waiting
variable {P : Tasks} {i j : TaskId} {op : Op} {k : op.Ret → Fut Unit}

/-- What a task waits for, and what it awaits. -/
theorem WaitsFor.cases (h : WaitsFor P i j) :
    (i ∈ P.st.dataDir.waiting ∧ (P.st.dataDir.Holds j ∨ Before P.st.dataDir.waiting j i)) ∨
    (i ∈ P.st.clients.waiting ∧ (P.st.clients.Holds j ∨ Before P.st.clients.waiting j i)) ∨
    ∃ op k, P.task i = some (.await op k) ∧ AsksView op ∧ ¬ Passes P.st i op ∧ j = .view := by
  cases h with
  | dataDir hb => exact .inl ⟨FairLock.mem_waiting_of_blocks hb, FairLock.holds_of_blocks hb⟩
  | clients hb => exact .inr (.inl ⟨FairLock.mem_waiting_of_blocks hb, FairLock.holds_of_blocks hb⟩)
  | @send k hi halive _ =>
    refine .inr (.inr ⟨.forceUpdateSend, k, hi, trivial, fun hpass => ?_, rfl⟩)
    have hdead : P.st.alive = false := hpass
    rw [halive] at hdead
    cases hdead
  | @reply k hi halive hn =>
    refine .inr (.inr ⟨.forceUpdateRecv, k, hi, trivial, fun hpass => ?_, rfl⟩)
    rcases hpass with hdead | ⟨n, hmem, heq⟩
    · rw [halive] at hdead
      cases hdead
    · exact hn n hmem heq

/-- Nobody asks for the clients, or for a view, while it holds the clients. -/
theorem not_holds_clients (hP : tracking.Known P) (hi : P.task i = some (.await op k))
    (hop : (∃ m, Takes m op) ∨ AsksView op) : ¬ P.st.clients.Holds i := by
  obtain ⟨h, h', r, hagrees, hn⟩ := ready_of_known hP hi
  rw [hagrees.holds_clients, not_not]
  cases op
  case clientsRead => simpa using (next_unless hn).1
  case clientsWrite => simpa using (next_unless hn).1
  case forceUpdateSend => simpa using next_unless_or hn
  case forceUpdateRecv => simpa using next_unless_or hn
  all_goals
    rcases hop with ⟨m, hop⟩ | hop
    · cases m <;> cases hop
    · cases hop

/-- The task that updates the view asks neither for the mutex nor for a view. -/
theorem view_asks (hP : tracking.Known P) (hi : P.task .view = some (.await op k)) :
    op ≠ .dataDirLock ∧ ¬ AsksView op := by
  obtain ⟨h, h', r, -, hn⟩ := ready_of_known hP hi
  have hnext : h.next true op r = some h' := hn
  cases op
  case dataDirLock => cases hnext
  case forceUpdateSend => cases hnext
  case forceUpdateRecv => cases hnext
  all_goals exact ⟨by simp, id⟩

theorem Orderly.not_holds_dataDir (h : Orderly P) (hP : tracking.Known P)
    (hi : i ∈ P.st.dataDir.waiting) : ¬ P.st.dataDir.Holds i := by
  obtain ⟨k, hk⟩ := h.asked_dataDir i hi
  obtain ⟨hh, h', r, hagrees, hn⟩ := ready_of_known hP hk
  rw [hagrees.dataDir]
  exact Bool.eq_false_iff.mp (next_unless_or hn)

theorem Orderly.not_mem_clients (h : Orderly P) (hP : tracking.Known P) (hi : P.st.clients.Holds i) :
    i ∉ P.st.clients.waiting := by
  intro hmem
  obtain ⟨m, op, k, hop, hk⟩ := h.takes_of_waiting hmem
  exact not_holds_clients hP hk (.inl ⟨m, hop⟩) hi

/-- A task waits in one place only. -/
theorem Orderly.not_mem_of_dataDir (h : Orderly P) (hi : i ∈ P.st.dataDir.waiting) :
    i ∉ P.st.clients.waiting ∧
      ∀ op k, P.task i = some (.await op k) → ¬ AsksView op := by
  obtain ⟨k, hk⟩ := h.asked_dataDir i hi
  refine ⟨fun hmem => ?_, fun op k' hk' hop => ?_⟩
  · obtain ⟨m, op, k', hop, hk'⟩ := h.takes_of_waiting hmem
    obtain rfl : Op.dataDirLock = op := by injection Option.some.inj (hk.symm.trans hk')
    exact not_takes_dataDirLock m hop
  · obtain rfl : Op.dataDirLock = op := by injection Option.some.inj (hk.symm.trans hk')
    exact hop

theorem Orderly.not_asks_of_clients (h : Orderly P) (hi : i ∈ P.st.clients.waiting) :
    ∀ op k, P.task i = some (.await op k) → ¬ AsksView op := by
  obtain ⟨m, op', k', hop', hk'⟩ := h.takes_of_waiting hi
  intro op k hk hop
  obtain rfl : op' = op := by injection Option.some.inj (hk'.symm.trans hk)
  cases op'
  case clientsRead => exact hop
  case clientsWrite => exact hop
  all_goals cases m <;> exact hop'

/-! ### Nobody waits for ever -/

/-- A task that passes and that has not asked for the mutex waits for nobody. -/
theorem Orderly.unblocked_of_passes (h : Orderly P) (hi : i ∉ P.st.dataDir.waiting)
    (hpass : ∀ p, P.task i = some p → p.Uses (Passes P.st i)) : Unblocked (WaitsFor P) i := by
  refine Acc.intro i fun j hj => ?_
  rcases hj.cases with ⟨hmem, -⟩ | ⟨hmem, -⟩ | ⟨op, k, hk, -, hstuck, -⟩
  · exact absurd hmem hi
  · obtain ⟨m, op, k, hop, hk⟩ := h.takes_of_waiting hmem
    have hpasses := (hpass _ hk).1
    cases op
    case clientsRead => exact hpasses.elim
    case clientsWrite => exact hpasses.elim
    all_goals cases m <;> exact hop.elim
  · exact absurd (hpass _ hk).1 hstuck

/-- Whoever waits for the mutex and holds the clients, or is before such a task. -/
def Ahead (P : Tasks) (i : TaskId) : Prop :=
  ∃ l ∈ P.st.dataDir.waiting, P.st.clients.Holds l ∧ (i = l ∨ Before P.st.dataDir.waiting i l)

theorem Ahead.mem (h : Ahead P i) : i ∈ P.st.dataDir.waiting := by
  obtain ⟨l, hl, -, rfl | hbefore⟩ := h
  · exact hl
  · exact hbefore.subset List.mem_cons_self

theorem Orderly.unblocked_ahead (h : Orderly P) (hP : tracking.Known P) :
    ∀ i, Ahead P i → Unblocked (WaitsFor P) i := by
  refine unblocked_of_queue h.nodup_dataDir fun i hi j hj => ?_
  have hmem := hi.mem
  obtain ⟨l, hl, hcl, hil⟩ := hi
  rcases hj.cases with ⟨-, hj⟩ | ⟨hmem', -⟩ | ⟨op, k, hk, hop, -, -⟩
  · rcases hj with hj | hj
    · have hpass := fun p hp => h.clear l hl hcl j p (.inl hj) hp
      have hoff : j ∉ P.st.dataDir.waiting := fun hj' => h.not_holds_dataDir hP hj' hj
      exact .inl (h.unblocked_of_passes hoff hpass)
    · refine .inr ⟨⟨l, hl, hcl, .inr ?_⟩, hj⟩
      rcases hil with rfl | hil
      · exact hj
      · exact hj.trans h.nodup_dataDir hil
  · exact absurd hmem' (h.not_mem_of_dataDir hmem).1
  · exact absurd hop ((h.not_mem_of_dataDir hmem).2 op k hk)

/-- Whoever holds the clients waits for nobody but tasks that are ahead of it. -/
theorem Orderly.unblocked_holder (h : Orderly P) (hP : tracking.Known P) (hi : P.st.clients.Holds i) :
    Unblocked (WaitsFor P) i := by
  by_cases hmem : i ∈ P.st.dataDir.waiting
  · exact h.unblocked_ahead hP i ⟨i, hmem, hi, .inl rfl⟩
  · refine Acc.intro i fun j hj => ?_
    rcases hj.cases with ⟨hmem', -⟩ | ⟨hmem', -⟩ | ⟨op, k, hk, hop, -, -⟩
    · exact absurd hmem' hmem
    · exact absurd hmem' (h.not_mem_clients hP hi)
    · exact absurd hi (not_holds_clients hP hk (.inr hop))

theorem Orderly.unblocked_clients (h : Orderly P) (hP : tracking.Known P) :
    ∀ i ∈ P.st.clients.waiting, Unblocked (WaitsFor P) i := by
  refine unblocked_of_queue h.nodup_clients fun i hi j hj => ?_
  rcases hj.cases with ⟨hmem, -⟩ | ⟨-, hj⟩ | ⟨op, k, hk, hop, -, -⟩
  · exact absurd hi (h.not_mem_of_dataDir hmem).1
  · rcases hj with hj | hj
    · exact .inl (h.unblocked_holder hP hj)
    · exact .inr ⟨hj.subset List.mem_cons_self, hj⟩
  · exact absurd hop (h.not_asks_of_clients hi op k hk)

/-- The task that updates the view waits for nothing but the clients. -/
theorem Orderly.unblocked_view (h : Orderly P) (hP : tracking.Known P) :
    Unblocked (WaitsFor P) .view := by
  refine Acc.intro _ fun j hj => ?_
  rcases hj.cases with ⟨hmem, -⟩ | ⟨hmem, -⟩ | ⟨op, k, hk, hop, -, -⟩
  · obtain ⟨k, hk⟩ := h.asked_dataDir _ hmem
    exact absurd rfl (view_asks hP hk).1
  · exact (h.unblocked_clients hP _ hmem).inv hj
  · exact absurd hop (view_asks hP hk).2

theorem Orderly.unblocked_off (h : Orderly P) (hP : tracking.Known P) (hi : i ∉ P.st.dataDir.waiting) :
    Unblocked (WaitsFor P) i := by
  refine Acc.intro i fun j hj => ?_
  rcases hj.cases with ⟨hmem, -⟩ | ⟨hmem, -⟩ | ⟨op, k, hk, hop, -, rfl⟩
  · exact absurd hmem hi
  · exact (h.unblocked_clients hP i hmem).inv hj
  · exact h.unblocked_view hP

/-- **Nobody waits for ever for tasks that wait.** -/
theorem Orderly.unblocked (h : Orderly P) (hP : tracking.Known P) (i : TaskId) :
    Unblocked (WaitsFor P) i := by
  by_cases hi : i ∈ P.st.dataDir.waiting
  · refine unblocked_of_queue (C := (· ∈ P.st.dataDir.waiting)) h.nodup_dataDir (fun i hi j hj => ?_) i hi
    rcases hj.cases with ⟨-, hj⟩ | ⟨hmem, -⟩ | ⟨op, k, hk, hop, -, -⟩
    · rcases hj with hj | hj
      · exact .inl (h.unblocked_off hP fun hj' => h.not_holds_dataDir hP hj' hj)
      · exact .inr ⟨hj.subset List.mem_cons_self, hj⟩
    · exact absurd hmem (h.not_mem_of_dataDir hi).1
    · exact absurd hop ((h.not_mem_of_dataDir hi).2 op k hk)
  · exact h.unblocked_off hP hi

end Waiting

section Runs
variable {J : Serde} {secret : Mnemonic} {iterations : ℕ} {connected others : Finset FederationId}
  {P : Tasks}

/-- In a run in which nobody asks for the mutex out of turn nobody waits for ever. -/
theorem unblocked_moves (h : Moves (wallet J secret) Clear (opened iterations connected others) P) :
    ∀ i, Unblocked (WaitsFor P) i := (orderly_moves h).unblocked (known_moves h)

/-- **The locks never deadlock in a run in which nobody asks for the mutex out of turn**: from a wallet
that has just been opened, no such run reaches a cycle of tasks each of which waits for the next. -/
theorem never_deadlocked
    (h : Moves (wallet J secret) Clear (opened iterations connected others) P) : ¬ Deadlocked P := by
  rintro ⟨i, hi⟩
  exact not_transGen_of_unblocked (unblocked_moves h) i hi

/-- **Whoever waits is on a chain that ends**: there is no cycle, and no endless chain of tasks each of
which waits for the next. -/
theorem locks_acyclic (h : Moves (wallet J secret) Clear (opened iterations connected others) P) :
    ¬ Deadlocked P ∧ ∀ i, Unblocked (WaitsFor P) i := by
  have hunblocked := unblocked_moves h
  refine ⟨?_, hunblocked⟩
  rintro ⟨i, hi⟩
  exact not_transGen_of_unblocked hunblocked i hi

end Runs

/-! ### A call that waits, and one that waits for ever -/

namespace Leaving

/-- The call `n` finds that there is no default federation; it is about to drop the mutex. -/
theorem begins_read {s : State} {n : ℕ} : ∃ k k',
    Call.getDefaultFederation.program .framed secret = .await .dataDirLock k ∧
    Begins operations (.call n) (.await .dataDirLock k)
      { s with dataDir := ⟨[], [(.call n, ())]⟩ } (.await .dataDirRelease k')
      { s with dataDir := ⟨[(.call n, ())], []⟩ } ∧
    ∀ t i, (Prog.await .dataDirRelease k').Uses (Passes t i) := by
  apply Exists.intro
  apply Exists.intro
  refine ⟨rfl, ?_, ?_⟩
  · refine begins_next .dataDirLock () { s with dataDir := ⟨[(.call n, ())], []⟩ }
      ⟨_, ⟨[], rfl, by simp, rfl⟩, rfl⟩ ?_
    refine begins_next (.pathExists .defaultFederation) false _ rfl ?_
    exact .refl _ _
  · exact fun _ _ => ⟨trivial, fun _ => trivial⟩

/-- The call `1` joins another one, and both have asked for what the other one holds. -/
def stuck : State :=
  { joined leaving 1 with
    dataDir := (joined leaving 1).dataDir.ask (.call 0) ()
    clients := (joined leaving 1).clients.ask (.call 1) .write }

/-- The call `0` reads the default federation, and the call `1` has started. -/
def reading : State :=
  { started with dataDir := ⟨[(.call 0, ())], []⟩, begun := [1, 0] }

/-- The call `1` has asked for the mutex. -/
def waiting : State :=
  { removed reading 1 with dataDir := reading.dataDir.ask (.call 1) () }

end Leaving

open Leaving in
/-- A call leaves the federation while another one holds the mutex. -/
theorem reaches_waiting : ∃ P : Tasks, Moves (wallet .framed secret) Clear start P ∧
    P.st.clients.Holds (.call 1) ∧ WaitsFor P (.call 1) (.call 0) := by
  obtain ⟨k₀, k₀', hp₀, hread, hpass⟩ := @begins_read started 0
  obtain ⟨k₁, _, k₁', hp₁, hremoving, hleft⟩ := @begins_leave reading 1 mem_started
  let f₁ := Function.update start.task (.call 0) (some (.await .dataDirRelease k₀'))
  let f₂ := Function.update f₁ (.call 1) (some (.await .dataDirLock k₁'))
  let Y := wallet .framed secret
  have hs₀ : Y.spawn (.call 0) (.await .dataDirLock k₀) start.st started :=
    ⟨0, .getDefaultFederation, rfl, hp₀.symm, List.not_mem_nil, rfl⟩
  have ha₀ : Y.ask (.call 0) .dataDirLock started
      { started with dataDir := started.dataDir.ask (.call 0) () } := ⟨List.not_mem_nil, rfl⟩
  have hfree : ¬ started.clients.Holds (.call 0) := FairLock.not_holds_free
  have h₁ : Moves Y Clear start ⟨{ started with dataDir := reading.dataDir }, f₁⟩ :=
    moves_of_start hs₀ rfl ha₀ (fun _ hholds => absurd hholds hfree) hread
  have hs₁ : Y.spawn (.call 1) (.await .clientsWrite k₁) { started with dataDir := reading.dataDir }
      reading := ⟨1, .leaveFederation federation, rfl, hp₁.symm, by simp [started], rfl⟩
  have ha₁ : Y.ask (.call 1) .clientsWrite reading
      { reading with clients := reading.clients.ask (.call 1) .write } := ⟨List.not_mem_nil, rfl⟩
  have h₂ : Moves Y Clear ⟨{ started with dataDir := reading.dataDir }, f₁⟩ ⟨removed reading 1, f₂⟩ :=
    moves_of_start hs₁ rfl ha₁ (fun hop => by cases hop) (hremoving.trans hleft)
  have hclear : Clear ⟨removed reading 1, f₂⟩ (.call 1) .dataDirLock := by
    intro _ _ j p hj hp
    have hj0 : j = .call 0 := by
      simpa [removed, removing, reading, FairLock.Holds, FairLock.waiting] using hj
    subst hj0
    obtain rfl : Prog.await .dataDirRelease k₀' = p := Option.some.inj hp
    exact hpass _ _
  have h₃ : Move Y Clear ⟨removed reading 1, f₂⟩ ⟨waiting, f₂⟩ :=
    .ask (i := .call 1) (k := k₁') rfl ⟨List.not_mem_nil, rfl⟩ hclear
  refine ⟨⟨waiting, f₂⟩, (h₁.trans h₂).tail h₃, ?_, .dataDir ⟨(), ?_, .inl ⟨(), ?_, trivial⟩⟩⟩
  · simp [waiting, removed, removing, FairLock.Holds]
  · simp [waiting, reading, FairLock.ask]
  · simp [waiting, reading, FairLock.ask]

/-- That call waits for the mutex while it holds the clients, and there is no deadlock. -/
theorem never_deadlocked_leaving : ∃ P : Tasks,
    P.st.clients.Holds (.call 1) ∧ WaitsFor P (.call 1) (.call 0) ∧ ¬ Deadlocked P := by
  obtain ⟨P, h, hholds, hwaits⟩ := reaches_waiting
  exact ⟨P, hholds, hwaits, never_deadlocked h⟩

/-- That call is on a chain that ends. -/
theorem locks_acyclic_waiting : ∃ P : Tasks, WaitsFor P (.call 1) (.call 0) ∧ ¬ Deadlocked P ∧
    Unblocked (WaitsFor P) (.call 1) := by
  obtain ⟨P, h, -, hwaits⟩ := reaches_waiting
  exact ⟨P, hwaits, (locks_acyclic h).1, (locks_acyclic h).2 (.call 1)⟩

open Leaving in
/-- **`leaveFederation` deadlocks**: it holds the clients and waits for the mutex, while a call of
`setDefaultFederation` holds the mutex and waits for the clients. -/
theorem leave_deadlocks : ∃ P : Tasks, Deadlocked P ∧
    Moves (wallet .framed secret) (fun _ _ _ => True) start P := by
  obtain ⟨k₀, _, k₀', hp₀, hremoving, hleft⟩ := @begins_leave started 0 mem_started
  obtain ⟨k₁, _, k₁', hp₁, hopening, hjoin⟩ := @begins_join leaving 1 not_mem_leaving
  let f₂ := Function.update (Function.update start.task (.call 0) (some (.await .dataDirLock k₀')))
    (.call 1) (some (.await .clientsWrite k₁'))
  let Y := wallet .framed secret
  let G : Tasks → TaskId → Op → Prop := fun _ _ _ => True
  have h₂ : Moves Y G start ⟨joined leaving 1, f₂⟩ :=
    moves_both hp₀ hp₁ rfl rfl (hremoving.trans hleft) (hopening.trans hjoin)
  have h₃ : Move Y G ⟨joined leaving 1, f₂⟩
      ⟨{ joined leaving 1 with dataDir := (joined leaving 1).dataDir.ask (.call 0) () }, f₂⟩ :=
    .ask (i := .call 0) (k := k₀') rfl ⟨by simp [joined, opening, FairLock.waiting], rfl⟩ trivial
  have h₄ : Move Y G
      ⟨{ joined leaving 1 with dataDir := (joined leaving 1).dataDir.ask (.call 0) () }, f₂⟩
      ⟨stuck, f₂⟩ :=
    .ask (i := .call 1) (k := k₁') rfl
      ⟨by simp [joined, opening, leaving, removed, removing, FairLock.waiting], rfl⟩ trivial
  refine ⟨⟨stuck, f₂⟩, ⟨.call 0, .tail (b := .call 1) (.single (.dataDir ?_)) (.clients ?_)⟩,
    (h₂.tail h₃).tail h₄⟩
  · exact ⟨(), by simp [stuck, joined, opening, FairLock.ask],
      .inl ⟨(), by simp [stuck, joined, opening, FairLock.ask], trivial⟩⟩
  · exact ⟨.write, by simp [stuck, joined, opening, leaving, removed, removing, FairLock.ask],
      .inl ⟨.write, by simp [stuck, joined, opening, leaving, removed, removing, FairLock.ask], trivial⟩⟩

open Leaving in
/-- **The locks of a wallet may deadlock.** -/
theorem wallet_deadlocks : ¬ ∀ (J : Serde) (secret : Mnemonic) (iterations : ℕ)
    (connected others : Finset FederationId) (P : Tasks),
    Moves (wallet J secret) (fun _ _ _ => True) (opened iterations connected others) P →
      ¬ Deadlocked P := by
  intro h
  obtain ⟨P, hdead, hmoves⟩ := leave_deadlocks
  exact h .framed secret 1 {federation, other} ∅ P hmoves hdead

end Vendimint.Lock
