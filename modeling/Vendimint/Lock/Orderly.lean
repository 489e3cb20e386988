import Vendimint.Lock.Discipline

/-! # The order in which the tasks of a wallet wait

* `Orderly`: what every pool keeps in which nobody asks for the mutex out of turn (`Clear`).
* `orderly_moves`: every pool that such moves reach is orderly.
* `Effect`: what an operation does to the locks. -/

namespace Vendimint.Lock

open Vendimint.Store Vendimint.Async
open Vendimint.View (TaskId capacity)

/-! ### What an operation does to the locks -/

/-- The operation takes the lock on the clients in the mode. -/
def Takes : Mode → Op → Prop
  | .read, .clientsRead => True
  | .write, .clientsWrite => True
  | _, _ => False

/-- Replies stay, and the task that updates the view does not come back. -/
structure Keeps (s s' : State) : Prop where
  replied : s.replied ⊆ s'.replied
  alive : s'.alive = true → s.alive = true

/-- The effect of an operation of the task `i` on the locks. -/
inductive Effect (i : TaskId) (s : State) : Op → State → Prop
  | lock {L : FairLock TaskId Unit} : FairLock.Grants Exclusive i () s.dataDir L →
      Effect i s .dataDirLock { s with dataDir := L }
  | unlock : Effect i s .dataDirRelease { s with dataDir := s.dataDir.release i }
  | take {op : Op} {m : Mode} {L : FairLock TaskId Mode} : Takes m op →
      FairLock.Grants Mode.Conflict i m s.clients L → Effect i s op { s with clients := L }
  | drop : Effect i s .clientsRelease { s with clients := s.clients.release i }
  | other {op : Op} {s' : State} : op ≠ .dataDirLock → (∀ m, ¬ Takes m op) →
      s'.dataDir = s.dataDir → s'.clients = s.clients → Keeps s s' → Effect i s op s'

theorem not_takes_dataDirLock (m : Mode) : ¬ Takes m .dataDirLock := by cases m <;> exact id

theorem Keeps.refl (s : State) : Keeps s s := ⟨List.Subset.refl _, id⟩

theorem Keeps.passes {s s' : State} (h : Keeps s s') {i : TaskId} {op : Op} (hp : Passes s i op) :
    Passes s' i op := by
  have hdead : s.alive = false → s'.alive = false := fun hs => by
    by_contra hs'
    rw [h.alive (by simpa using hs')] at hs
    cases hs
  cases op
  case forceUpdateSend => exact hdead hp
  case forceUpdateRecv =>
    rcases hp with hp | ⟨n, hn, hi⟩
    · exact .inl (hdead hp)
    · exact .inr ⟨n, h.replied hn, hi⟩
  all_goals exact hp

section Effects
variable {i : TaskId} {op : Op} {r : op.Ret} {s s' : State}

theorem effect_of_exec (he : exec i op s r s') : Effect i s op s' := by
  have hsame : ∀ {op : Op}, op ≠ .dataDirLock → (∀ m, ¬ Takes m op) → Effect i s op s :=
    fun hop hop' => .other hop hop' rfl rfl (.refl s)
  cases op
  case dataDirLock => obtain ⟨L, hL, rfl⟩ := he; exact .lock hL
  case dataDirRelease => obtain rfl := he; exact .unlock
  case clientsRead => obtain ⟨L, hL, rfl⟩ := he; exact .take (m := .read) trivial hL
  case clientsWrite => obtain ⟨L, hL, rfl⟩ := he; exact .take (m := .write) trivial hL
  case clientsRelease => obtain rfl := he; exact .drop
  case clientsContains => obtain ⟨rfl, -⟩ := he; exact hsame (by simp) (by simp [Takes])
  case clientsInsert =>
    obtain rfl := he
    exact .other (by simp) (by simp [Takes]) rfl rfl ⟨List.Subset.refl _, id⟩
  case clientsRemove =>
    obtain ⟨rfl, -⟩ := he
    exact .other (by simp) (by simp [Takes]) rfl rfl ⟨List.Subset.refl _, id⟩
  case clientsIter => obtain ⟨rfl, -⟩ := he; exact hsame (by simp) (by simp [Takes])
  case isDir p =>
    cases p
    case federationDir f => obtain ⟨rfl, -⟩ := he; exact hsame (by simp) (by simp [Takes])
    all_goals obtain rfl := he; exact hsame (by simp) (by simp [Takes])
  case readDir p =>
    cases p
    case clientsDataDir => obtain ⟨rfl, -⟩ := he; exact hsame (by simp) (by simp [Takes])
    all_goals obtain rfl := he; exact hsame (by simp) (by simp [Takes])
  case dbOpen f =>
    obtain ⟨-, rfl⟩ | ⟨-, rfl | rfl⟩ := he
    all_goals exact .other (by simp) (by simp [Takes]) rfl rfl ⟨List.Subset.refl _, id⟩
  case removeDirAll p =>
    cases p
    case federationDir f =>
      obtain ⟨-, rfl⟩ | ⟨-, rfl | rfl⟩ := he
      all_goals exact .other (by simp) (by simp [Takes]) rfl rfl ⟨List.Subset.refl _, id⟩
    all_goals obtain rfl := he; exact hsame (by simp) (by simp [Takes])
  case forceUpdateSend =>
    rcases he with ⟨-, -, -, n, -, rfl⟩ | ⟨-, -, rfl⟩
    all_goals exact .other (by simp) (by simp [Takes]) rfl rfl ⟨List.Subset.refl _, id⟩
  case forceUpdateRecv => obtain ⟨rfl, -⟩ := he; exact hsame (by simp) (by simp [Takes])
  case forceUpdateWait =>
    obtain ⟨-, ⟨n, rest, -, -, rfl⟩ | ⟨-, rfl⟩⟩ := he
    all_goals exact .other (by simp) (by simp [Takes]) rfl rfl ⟨List.Subset.refl _, id⟩
  case forceUpdateReply n =>
    obtain ⟨-, rfl⟩ := he
    exact .other (by simp) (by simp [Takes]) rfl rfl ⟨List.subset_cons_self _ _, id⟩
  case viewSend =>
    obtain ⟨-, ⟨-, rfl⟩ | ⟨-, rfl⟩⟩ := he
    · exact hsame (by simp) (by simp [Takes])
    · exact .other (by simp) (by simp [Takes]) rfl rfl ⟨List.Subset.refl _, fun halive => (by cases halive)⟩
  all_goals obtain rfl := he; exact hsame (by simp) (by simp [Takes])

theorem Effect.moved (h : Effect i s op s') :
    s.dataDir.Moved i s'.dataDir ∧ s.clients.Moved i s'.clients := by
  cases h with
  | lock hL => exact ⟨hL.moved, .refl i _⟩
  | unlock => exact ⟨FairLock.moved_release, .refl i _⟩
  | take _ hL => exact ⟨.refl i _, hL.moved⟩
  | drop => exact ⟨.refl i _, FairLock.moved_release⟩
  | other _ _ hdir hclients _ =>
    rw [hdir, hclients]
    exact ⟨.refl i _, .refl i _⟩

theorem Effect.keeps (h : Effect i s op s') : Keeps s s' := by
  cases h with
  | other _ _ _ _ hkeeps => exact hkeeps
  | _ => exact ⟨List.Subset.refl _, id⟩

theorem keeps_of_left {t : State} (hl : left op s t) :
    t.dataDir = s.dataDir ∧ t.clients = s.clients ∧ Keeps s t := by
  cases op
  case dbOpen f => obtain rfl | rfl := hl <;> exact ⟨rfl, rfl, List.Subset.refl _, id⟩
  case removeDirAll p =>
    cases p
    case federationDir f => obtain rfl | rfl := hl <;> exact ⟨rfl, rfl, List.Subset.refl _, id⟩
    all_goals obtain rfl := hl; exact ⟨rfl, rfl, .refl _⟩
  all_goals obtain rfl := hl; exact ⟨rfl, rfl, .refl _⟩

end Effects

/-! ### Orderly pools -/

/-- **The order of the queues.** Whoever is in a queue awaits the lock of it; and if a task waits for the
mutex while it holds the clients, everybody before it passes. The task that updates the view is there as
long as its callers take it to be. -/
structure Orderly (P : Tasks) : Prop where
  asked_dataDir : ∀ i ∈ P.st.dataDir.waiting, ∃ k, P.task i = some (.await .dataDirLock k)
  asked_clients : ∀ i m, (i, m) ∈ P.st.clients.queue →
    ∃ op k, Takes m op ∧ P.task i = some (.await op k)
  nodup_dataDir : P.st.dataDir.waiting.Nodup
  nodup_clients : P.st.clients.waiting.Nodup
  clear : ∀ l ∈ P.st.dataDir.waiting, P.st.clients.Holds l → ∀ j p,
    P.st.dataDir.Holds j ∨ Before P.st.dataDir.waiting j l → P.task j = some p →
      p.Uses (Passes P.st j)
  alive : P.st.alive = true → P.task .view ≠ none

section Steps
variable {P : Tasks} {i j : TaskId} {op : Op} {k : op.Ret → Fut Unit} {s' : State}

/-- **A step of the task `i`**, after which it has left the queues and goes on with `q`. -/
theorem Orderly.step (h : Orderly P) {q : Option (Fut Unit)} (hdir : P.st.dataDir.Moved i s'.dataDir)
    (hclients : P.st.clients.Moved i s'.clients) (hoff : i ∉ s'.dataDir.waiting)
    (hoff' : i ∉ s'.clients.waiting) (hkeeps : Keeps P.st s')
    (hpart : ∀ p, q = some p → ∃ p₀, P.task i = some p₀ ∧ ∀ C, p₀.Uses C → p.Uses C)
    (hgone : q = none → i = .view → s'.alive = false) :
    Orderly ⟨s', Function.update P.task i q⟩ := by
  have hself : Function.update P.task i q i = q := Function.update_self ..
  have hother : ∀ {j}, j ≠ i → Function.update P.task i q j = P.task j := fun hj =>
    Function.update_of_ne hj ..
  refine ⟨fun j hj => ?_, fun j m hj => ?_, ?_, ?_, fun l hl hcl j p hj hp => ?_, fun halive => ?_⟩
  · have hji : j ≠ i := fun heq => hoff (heq ▸ hj)
    obtain ⟨k, hk⟩ := h.asked_dataDir j (hdir.waiting.subset hj)
    exact ⟨k, (hother hji).trans hk⟩
  · have hji : j ≠ i := fun heq => hoff' (heq ▸ FairLock.mem_waiting_of_mem hj)
    obtain ⟨op, k, hop, hk⟩ := h.asked_clients j m (hclients.queue.subset hj)
    exact ⟨op, k, hop, (hother hji).trans hk⟩
  · exact h.nodup_dataDir.sublist hdir.waiting
  · exact h.nodup_clients.sublist hclients.waiting
  · have hli : l ≠ i := fun heq => hoff (heq ▸ hl)
    have hl₀ := hdir.waiting.subset hl
    have hcl₀ := (hclients.others l hli).mp hcl
    by_cases hji : j = i
    · subst hji
      obtain ⟨p₀, hp₀, huses⟩ := hpart p (hself.symm.trans hp)
      have hbefore : P.st.dataDir.Holds j ∨ Before P.st.dataDir.waiting j l := by
        rcases hj with hj | hj
        · exact (hdir.first hj).imp id fun hfirst => hfirst l hl
        · exact absurd (hj.subset List.mem_cons_self) hoff
      exact huses _ ((h.clear l hl₀ hcl₀ j p₀ hbefore hp₀).mono fun _ => hkeeps.passes)
    · have hbefore : P.st.dataDir.Holds j ∨ Before P.st.dataDir.waiting j l :=
        hj.imp (hdir.others j hji).mp fun hj => List.Sublist.trans hj hdir.waiting
      have hp₀ := (hother hji).symm.trans hp
      exact (h.clear l hl₀ hcl₀ j p hbefore hp₀).mono fun _ => hkeeps.passes
  · by_cases hi : TaskId.view = i
    · subst hi
      intro hnone
      have hdead := hgone (hself.symm.trans hnone) rfl
      cases halive.symm.trans hdead
    · exact fun hnone => h.alive (hkeeps.alive halive) ((hother hi).symm.trans hnone)

theorem Orderly.takes_of_waiting (h : Orderly P) (hi : i ∈ P.st.clients.waiting) :
    ∃ m op k, Takes m op ∧ P.task i = some (.await op k) := by
  obtain ⟨⟨_, m⟩, hm, rfl⟩ := List.mem_map.mp hi
  exact ⟨m, h.asked_clients _ m hm⟩

/-- A task that is in a queue does no operation but the one that it has asked for. -/
theorem Orderly.off_of_effect (h : Orderly P) (hi : P.task i = some (.await op k))
    (he : Effect i P.st op s') : i ∉ s'.dataDir.waiting ∧ i ∉ s'.clients.waiting := by
  have hdir : i ∈ P.st.dataDir.waiting → op = .dataDirLock := fun hq => by
    obtain ⟨k', hk'⟩ := h.asked_dataDir i hq
    rw [hi] at hk'
    injection Option.some.inj hk'
  have hclients : i ∈ P.st.clients.waiting → ∃ m, Takes m op := fun hq => by
    obtain ⟨m, op', k', hop', hk'⟩ := h.takes_of_waiting hq
    rw [hi] at hk'
    have heq : op = op' := by injection Option.some.inj hk'
    exact ⟨m, heq ▸ hop'⟩
  cases he with
  | lock hL =>
    have hnodup := h.nodup_dataDir
    rw [hL.waiting] at hnodup
    exact ⟨(List.nodup_cons.mp hnodup).1, fun hq => (hclients hq).elim not_takes_dataDirLock⟩
  | unlock =>
    refine ⟨fun hq => (by cases hdir hq), fun hq => ?_⟩
    obtain ⟨m, hop⟩ := hclients hq
    cases m <;> exact hop
  | @take _ m _ hop hL =>
    have hnodup := h.nodup_clients
    rw [hL.waiting] at hnodup
    refine ⟨fun hq => ?_, (List.nodup_cons.mp hnodup).1⟩
    obtain rfl := hdir hq
    exact not_takes_dataDirLock m hop
  | drop =>
    refine ⟨fun hq => (by cases hdir hq), fun hq => ?_⟩
    obtain ⟨m, hop⟩ := hclients hq
    cases m <;> exact hop
  | other hop hop' hsame hsame' _ =>
    exact ⟨fun hq => hop (hdir (hsame ▸ hq)), fun hq => (hclients (hsame' ▸ hq)).elim hop'⟩

/-- A task that is gone has left its guards and its places. -/
theorem Orderly.abandoned (h : Orderly P) (hdir : s'.dataDir = P.st.dataDir.leave i)
    (hclients : s'.clients = P.st.clients.leave i) (hkeeps : Keeps P.st s')
    (hgone : i = .view → s'.alive = false) : Orderly ⟨s', Function.update P.task i none⟩ := by
  refine h.step ?_ ?_ ?_ ?_ hkeeps (fun p hp => by cases hp) fun _ => hgone
  · rw [hdir]
    exact FairLock.moved_leave
  · rw [hclients]
    exact FairLock.moved_leave
  · rw [hdir]
    exact FairLock.not_mem_waiting_leave
  · rw [hclients]
    exact FairLock.not_mem_waiting_leave

theorem Orderly.run (h : Orderly P) {r : op.Ret} (hi : P.task i = some (.await op k))
    (he : exec i op P.st r s') : Orderly ⟨s', Function.update P.task i (some (k r))⟩ := by
  have heffect := effect_of_exec he
  obtain ⟨hdir, hclients⟩ := heffect.moved
  obtain ⟨hoff, hoff'⟩ := h.off_of_effect hi heffect
  refine h.step hdir hclients hoff hoff' heffect.keeps (fun p hp => ?_) fun hp => by cases hp
  obtain rfl := Option.some.inj hp
  exact ⟨_, hi, fun C hC => hC.2 r⟩

/-- A task that asks for the clients joins the end of the queue. -/
theorem Orderly.ask_clients (h : Orderly P) {m : Mode} (hop : Takes m op)
    (hi : P.task i = some (.await op k)) (hnew : i ∉ P.st.clients.waiting) :
    Orderly ⟨{ P.st with clients := P.st.clients.ask i m }, P.task⟩ := by
  refine ⟨h.asked_dataDir, fun j m' hj => ?_, h.nodup_dataDir, ?_, h.clear, h.alive⟩
  · rcases List.mem_append.mp hj with hj | hj
    · exact h.asked_clients j m' hj
    · obtain ⟨rfl, rfl⟩ := Prod.mk.inj (List.mem_singleton.mp hj)
      exact ⟨op, k, hop, hi⟩
  · exact FairLock.nodup_waiting_ask h.nodup_clients hnew

/-- A task that asks for the mutex in turn. -/
theorem Orderly.ask_dataDir (h : Orderly P) {k : Op.dataDirLock.Ret → Fut Unit}
    (hi : P.task i = some (.await .dataDirLock k)) (hnew : i ∉ P.st.dataDir.waiting)
    (hclear : Clear P i .dataDirLock) :
    Orderly ⟨{ P.st with dataDir := P.st.dataDir.ask i () }, P.task⟩ := by
  refine ⟨fun j hj => ?_, h.asked_clients, ?_, h.nodup_clients, fun l hl hcl j p hj hp => ?_, h.alive⟩
  · rcases List.mem_append.mp (FairLock.waiting_ask ▸ hj) with hj | hj
    · exact h.asked_dataDir j hj
    · obtain rfl := List.mem_singleton.mp hj
      exact ⟨k, hi⟩
  · exact FairLock.nodup_waiting_ask h.nodup_dataDir hnew
  · have hj' : P.st.dataDir.Holds j ∨ l = i ∧ j ∈ P.st.dataDir.waiting ∨
        Before P.st.dataDir.waiting j l := by
      rcases hj with hj | hj
      · exact .inl hj
      · have hbefore : Before (P.st.dataDir.waiting ++ [i]) j l := FairLock.waiting_ask ▸ hj
        rcases before_append hbefore with ⟨rfl, hmem⟩ | hbefore
        · exact .inr (.inl ⟨rfl, hmem⟩)
        · exact .inr (.inr hbefore)
    have hold : l ∈ P.st.dataDir.waiting ∨ l = i := by
      rcases List.mem_append.mp (FairLock.waiting_ask ▸ hl) with hl | hl
      · exact .inl hl
      · exact .inr (List.mem_singleton.mp hl)
    by_cases hli : l = i
    · subst hli
      refine hclear rfl hcl j p ?_ hp
      rcases hj' with hj | ⟨-, hj⟩ | hj
      · exact .inl hj
      · exact .inr hj
      · exact .inr (hj.subset List.mem_cons_self)
    · have hl' := hold.resolve_right hli
      rcases hj' with hj | ⟨rfl, -⟩ | hj
      · exact h.clear l hl' hcl j p (.inl hj) hp
      · exact absurd rfl hli
      · exact h.clear l hl' hcl j p (.inr hj) hp

theorem Orderly.asked (h : Orderly P) (hi : P.task i = some (.await op k)) (ha : ask i op P.st s')
    (hclear : Clear P i op) : Orderly ⟨s', P.task⟩ := by
  cases op
  case dataDirLock => obtain ⟨hnew, rfl⟩ := ha; exact h.ask_dataDir hi hnew hclear
  case clientsRead =>
    obtain ⟨hnew, rfl⟩ := ha
    have hop : Takes .read .clientsRead := trivial
    exact h.ask_clients hop hi hnew
  case clientsWrite =>
    obtain ⟨hnew, rfl⟩ := ha
    have hop : Takes .write .clientsWrite := trivial
    exact h.ask_clients hop hi hnew
  all_goals exact ha.elim

/-- A call starts with nothing. -/
theorem Orderly.start (h : Orderly P) (hP : tracking.Known P) {n : ℕ} {p : Fut Unit} {begun : List ℕ}
    (hi : P.task (.call n) = none) :
    Orderly ⟨{ P.st with begun := begun }, Function.update P.task (.call n) (some p)⟩ := by
  have hother : ∀ {j}, j ≠ TaskId.call n →
      Function.update P.task (.call n) (some p) j = P.task j := fun hj => Function.update_of_ne hj ..
  refine ⟨fun j hj => ?_, fun j m hj => ?_, h.nodup_dataDir, h.nodup_clients,
    fun l hl hcl j q hj hq => ?_, fun halive => ?_⟩
  · obtain ⟨k, hk⟩ := h.asked_dataDir j hj
    have hjn : j ≠ .call n := fun heq => by
      rw [heq, hi] at hk
      cases hk
    exact ⟨k, (hother hjn).trans hk⟩
  · obtain ⟨op, k, hop, hk⟩ := h.asked_clients j m hj
    have hjn : j ≠ .call n := fun heq => by
      rw [heq, hi] at hk
      cases hk
    exact ⟨op, k, hop, (hother hjn).trans hk⟩
  · have hjn : j ≠ .call n := by
      rintro rfl
      rcases hj with hj | hj
      · exact (not_holds_of_ended hP (.inl hi)).1 hj
      · obtain ⟨k, hk⟩ := h.asked_dataDir _ (hj.subset List.mem_cons_self)
        rw [hi] at hk
        cases hk
    exact h.clear l hl hcl j q hj ((hother hjn).symm.trans hq)
  · have hview : TaskId.view ≠ .call n := by simp
    exact fun hnone => h.alive halive ((hother hview).symm.trans hnone)

/-- No task is left when the wallet is dropped. -/
theorem orderly_dropped (hdir : s'.dataDir = .free) (hclients : s'.clients = .free)
    (hdead : s'.alive = false) : Orderly ⟨s', fun _ => none⟩ := by
  refine ⟨fun j hj => ?_, fun j m hj => ?_, ?_, ?_, fun l hl => ?_, fun halive => ?_⟩
  · rw [hdir] at hj
    cases hj
  · rw [hclients] at hj
    cases hj
  · rw [hdir]
    exact List.nodup_nil
  · rw [hclients]
    exact List.nodup_nil
  · rw [hdir] at hl
    cases hl
  · cases halive.symm.trans hdead

end Steps

section Wallets
variable {J : Serde} {secret : Mnemonic} {P P' : Tasks}

/-- **One move of a wallet keeps the order of the queues.** -/
theorem orderly_move (hP : tracking.Known P) (h : Orderly P) (hm : Move (wallet J secret) Clear P P') :
    Orderly P' := by
  cases hm with
  | step hs =>
    cases hs with
    | run hi he => exact h.run hi he
    | abort hi hc =>
      obtain ⟨n, t, rfl, hl, rfl⟩ := hc
      obtain ⟨hdir, hclients, hkeeps⟩ := keeps_of_left hl
      refine h.abandoned ?_ ?_ ⟨hkeeps.replied, hkeeps.alive⟩ fun hview => by cases hview
      · rw [← hdir]
        rfl
      · rw [← hclients]
        rfl
    | spawn hi hsp =>
      obtain ⟨n, c, rfl, rfl, -, rfl⟩ := hsp
      exact h.start hP hi
    | @env s' dead he =>
      obtain ⟨rfl, hdead⟩ := he
      have hnone : (fun i => if dead i then none else P.task i) = fun _ => none :=
        funext fun i => if_pos (hdead i)
      rw [hnone]
      exact orderly_dropped rfl rfl rfl
  | ask hi ha hclear => exact h.asked hi ha hclear
  | unwind hi hu =>
    obtain rfl := hu
    refine h.abandoned rfl rfl ⟨List.Subset.refl _, fun halive => ?_⟩ fun hview => ?_
    · exact (Bool.and_eq_true_iff.mp halive).1
    · simp [State.unwind, hview]

theorem orderly_opened (iterations : ℕ) (connected others : Finset FederationId) :
    Orderly (opened iterations connected others) := by
  exact ⟨fun i hi => (by cases hi), fun i m hi => (by cases hi), .nil, .nil,
    fun l hl => (by cases hl), fun _ hnone => (by cases hnone)⟩

/-- **Every run in which nobody asks for the mutex out of turn keeps it.** -/
theorem orderly_moves {iterations : ℕ} {connected others : Finset FederationId}
    (hm : Moves (wallet J secret) Clear (opened iterations connected others) P) : Orderly P := by
  induction hm with
  | refl => exact orderly_opened iterations connected others
  | tail hmoves hmove ih => exact orderly_move (known_moves hmoves) ih hmove

end Wallets

end Vendimint.Lock
