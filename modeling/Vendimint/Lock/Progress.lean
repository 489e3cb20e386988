import Vendimint.Lock.Acyclic

/-! # Somebody goes on

* `ready_of_not_waits`: a task that waits for nobody can go on, unless it has ended.
* `locks_progress`: in a run in which nobody asks for the mutex out of turn, whoever waits waits in the end
  for a task that can go on. -/

namespace Vendimint.Lock

open Vendimint.Store Vendimint.Async
open Vendimint.View (TaskId capacity)

/-- **The task `i` can go on**: it can do its operation, or ask for it, or it has panicked and is
unwound. -/
inductive Ready (P : Tasks) (i : TaskId) : Prop
  | run {op : Op} {k : op.Ret → Fut Unit} {r : op.Ret} {s' : State} :
      P.task i = some (.await op k) → exec i op P.st r s' → Ready P i
  | ask {op : Op} {k : op.Ret → Fut Unit} {s' : State} :
      P.task i = some (.await op k) → ask i op P.st s' → Ready P i
  | unwind : P.task i = some .panic → Ready P i

/-- The operation is not one for which a task waits. -/
def Free : Op → Prop
  | .dataDirLock | .clientsRead | .clientsWrite | .forceUpdateSend | .forceUpdateRecv => False
  | _ => True

/-- An operation for which nobody waits can be done at once. -/
theorem exec_of_free {i : TaskId} {op : Op} {s : State} {h h' : Held} {r : op.Ret} (hop : Free op)
    (hn : h.next (decide (i = .view)) op r = some h') : ∃ r s', exec i op s r s' := by
  have hview : ∀ {h₁ : Held}, (if decide (i = TaskId.view) then some h else none) = some h₁ →
      i = .view := fun hn => of_decide_eq_true (next_if hn).1
  cases op
  case clientsIter => exact ⟨s.connected.toList, s, rfl, s.connected.nodup_toList, s.connected.toList_toFinset⟩
  case isDir p =>
    cases p
    case federationDir f => exact ⟨decide (f ∈ s.dirs), s, rfl, rfl⟩
    all_goals exact ⟨r, s, rfl⟩
  case readDir p =>
    cases p
    case clientsDataDir => exact ⟨.error "", s, rfl, fun l hl => by cases hl⟩
    all_goals exact ⟨r, s, rfl⟩
  case dbOpen f => exact ⟨.ok (), _, .inl ⟨rfl, rfl⟩⟩
  case removeDirAll p =>
    cases p
    case federationDir f => exact ⟨.ok (), _, .inl ⟨rfl, rfl⟩⟩
    all_goals exact ⟨r, s, rfl⟩
  case forceUpdateWait => exact ⟨none, s, hview hn, .inr ⟨rfl, rfl⟩⟩
  case forceUpdateReply n => exact ⟨(), _, hview hn, rfl⟩
  case viewSend v => exact ⟨.ok (), s, hview hn, .inl ⟨rfl, rfl⟩⟩
  case clientsContains f => exact ⟨decide (f ∈ s.connected), s, rfl, rfl⟩
  case clientsRemove f => exact ⟨decide (f ∈ s.connected), _, rfl, rfl⟩
  case dataDirLock => exact hop.elim
  case clientsRead => exact hop.elim
  case clientsWrite => exact hop.elim
  case forceUpdateSend => exact hop.elim
  case forceUpdateRecv => exact hop.elim
  all_goals exact ⟨r, _, rfl⟩

section Progress
variable {P : Tasks} {i j : TaskId} {op : Op} {k : op.Ret → Fut Unit}

/-- A task that waits for nobody and awaits the lock on the clients. -/
theorem Orderly.ready_takes (h : Orderly P) {m : Mode} (hop : Takes m op)
    (hi : P.task i = some (.await op k)) (hfree : ∀ j, ¬ WaitsFor P i j) : Ready P i := by
  by_cases hmem : i ∈ P.st.clients.waiting
  · obtain ⟨⟨_, m'⟩, hm, rfl⟩ := List.mem_map.mp hmem
    obtain ⟨op', k', hop', hi'⟩ := h.asked_clients _ m' hm
    obtain rfl : op = op' := by injection Option.some.inj (hi.symm.trans hi')
    obtain ⟨L, hL⟩ := FairLock.grants_of_not_blocks h.nodup_clients hm fun j hj => hfree j (.clients hj)
    cases op
    case clientsRead => cases m' <;> first | exact .run (r := ()) hi ⟨L, hL, rfl⟩ | exact hop'.elim
    case clientsWrite => cases m' <;> first | exact .run (r := ()) hi ⟨L, hL, rfl⟩ | exact hop'.elim
    all_goals cases m <;> exact hop.elim
  · cases op
    case clientsRead => exact .ask hi ⟨hmem, rfl⟩
    case clientsWrite => exact .ask hi ⟨hmem, rfl⟩
    all_goals cases m <;> exact hop.elim

/-- A task that waits for no reply and for no place in the channel. -/
theorem ready_asks (hP : tracking.Known P) (hop : AsksView op) (hi : P.task i = some (.await op k))
    (hfree : ∀ j, ¬ WaitsFor P i j) : Ready P i := by
  obtain ⟨n, hn⟩ : ∃ n, i = .call n := by
    cases i with
    | view => exact absurd hop (view_asks hP hi).2
    | call n => exact ⟨n, rfl⟩
  cases hdead : P.st.alive with
  | false =>
    cases op
    case forceUpdateSend => exact .run (r := Except.error "") hi (.inr ⟨⟨"", rfl⟩, hdead, rfl⟩)
    case forceUpdateRecv => exact .run (r := Except.error "") hi ⟨rfl, .inr ⟨⟨"", rfl⟩, hdead⟩⟩
    all_goals exact hop.elim
  | true =>
    cases op
    case forceUpdateSend =>
      have hroom : P.st.queue.length < capacity := by
        by_contra hfull
        exact hfree .view (.send hi hdead (Nat.le_of_not_lt hfull))
      exact .run (r := Except.ok ()) hi (.inl ⟨rfl, hdead, hroom, n, hn, rfl⟩)
    case forceUpdateRecv =>
      have hreplied : n ∈ P.st.replied := by
        by_contra hmem
        refine hfree .view (.reply hi hdead fun m hm heq => hmem ?_)
        rw [hn] at heq
        obtain rfl := TaskId.call.inj heq
        exact hm
      exact .run (r := Except.ok ()) hi ⟨rfl, .inl ⟨rfl, n, hn, hreplied⟩⟩
    all_goals exact hop.elim

/-- **A task that waits for nobody can go on**, unless it has ended. -/
theorem Orderly.ready (h : Orderly P) (hP : tracking.Known P) {p : Fut Unit} (hi : P.task i = some p)
    (hne : p ≠ .pure ()) (hfree : ∀ j, ¬ WaitsFor P i j) : Ready P i := by
  cases p with
  | pure a => exact absurd rfl hne
  | panic => exact .unwind hi
  | await op k =>
    by_cases hop : Free op
    · obtain ⟨_, _, r, -, hn⟩ := ready_of_known hP hi
      obtain ⟨r, s', he⟩ := exec_of_free (s := P.st) hop hn
      exact .run hi he
    · cases op
      case dataDirLock =>
        by_cases hmem : i ∈ P.st.dataDir.waiting
        · obtain ⟨⟨_, m⟩, hm, rfl⟩ := List.mem_map.mp hmem
          obtain ⟨L, hL⟩ := FairLock.grants_of_not_blocks h.nodup_dataDir hm fun j hj =>
            hfree j (.dataDir hj)
          exact .run (r := ()) hi ⟨L, hL, rfl⟩
        · exact .ask hi ⟨hmem, rfl⟩
      case clientsRead =>
        have htakes : Takes .read .clientsRead := trivial
        exact h.ready_takes htakes hi hfree
      case clientsWrite =>
        have htakes : Takes .write .clientsWrite := trivial
        exact h.ready_takes htakes hi hfree
      case forceUpdateSend =>
        have hasks : AsksView .forceUpdateSend := trivial
        exact ready_asks hP hasks hi hfree
      case forceUpdateRecv =>
        have hasks : AsksView .forceUpdateRecv := trivial
        exact ready_asks hP hasks hi hfree
      all_goals exact absurd trivial hop

/-- Whoever is waited for is still there. -/
theorem Orderly.waited_for (h : Orderly P) (hP : tracking.Known P) (hw : WaitsFor P i j) :
    ∃ p, P.task j = some p ∧ (p ≠ .pure () ∨ j = .view) := by
  have hthere : P.st.dataDir.Holds j ∨ P.st.clients.Holds j →
      ∃ p, P.task j = some p ∧ (p ≠ .pure () ∨ j = .view) := fun hholds => by
    have hleft := mt (not_holds_of_ended hP (i := j)) (not_and_or.mpr (hholds.imp not_not.mpr not_not.mpr))
    obtain ⟨hgone, hended⟩ := not_or.mp hleft
    obtain ⟨p, hp⟩ := Option.ne_none_iff_exists'.mp hgone
    exact ⟨p, hp, .inl fun heq => hended (heq ▸ hp)⟩
  cases hw with
  | dataDir hb =>
    rcases FairLock.holds_of_blocks hb with hholds | hbefore
    · exact hthere (.inl hholds)
    · obtain ⟨k, hk⟩ := h.asked_dataDir j (hbefore.subset List.mem_cons_self)
      exact ⟨_, hk, .inl (by simp)⟩
  | clients hb =>
    rcases FairLock.holds_of_blocks hb with hholds | hbefore
    · exact hthere (.inr hholds)
    · obtain ⟨m, op, k, -, hk⟩ := h.takes_of_waiting (hbefore.subset List.mem_cons_self)
      exact ⟨_, hk, .inl (by simp)⟩
  | send _ halive _ =>
    obtain ⟨p, hp⟩ := Option.ne_none_iff_exists'.mp (h.alive halive)
    exact ⟨p, hp, .inr rfl⟩
  | reply _ halive _ =>
    obtain ⟨p, hp⟩ := Option.ne_none_iff_exists'.mp (h.alive halive)
    exact ⟨p, hp, .inr rfl⟩

end Progress

/-- **Whoever waits waits in the end for a task that can go on**, as long as nobody asks for the mutex out
of turn, or for the task that updates the view, whose iterations are over. -/
theorem locks_progress {J : Serde} {secret : Mnemonic} {iterations : ℕ}
    {connected others : Finset FederationId} {P : Tasks} {i j : TaskId}
    (h : Moves (wallet J secret) Clear (opened iterations connected others) P) (hw : WaitsFor P i j) :
    ∃ l, Relation.TransGen (WaitsFor P) i l ∧
      (Ready P l ∨ l = .view ∧ P.task .view = some (.pure ())) := by
  have horderly := orderly_moves h
  have hP := known_moves h
  obtain ⟨l, hl, hend⟩ := (unblocked_moves h j).exists_end
  have hpath : Relation.TransGen (WaitsFor P) i l := .head' hw hl
  obtain ⟨x, -, hx⟩ := Relation.TransGen.tail'_iff.mp hpath
  obtain ⟨p, hp, hleft⟩ := horderly.waited_for hP hx
  refine ⟨l, hpath, ?_⟩
  by_cases hne : p = .pure ()
  · subst hne
    obtain rfl := hleft.resolve_left (not_not.mpr rfl)
    exact .inr ⟨rfl, hp⟩
  · exact .inl (horderly.ready hP hp hne hend)

open Leaving in
/-- The call that waits for the mutex waits for one that can drop it. -/
theorem locks_progress_waiting : ∃ (P : Tasks) (l : TaskId),
    Relation.TransGen (WaitsFor P) (.call 1) l ∧
      (Ready P l ∨ l = .view ∧ P.task .view = some (.pure ())) := by
  obtain ⟨P, h, -, hwaits⟩ := reaches_waiting
  exact ⟨P, locks_progress h hwaits⟩

end Vendimint.Lock
