import Vendimint.Async.Pool
import Mathlib.Data.List.Nodup
import Mathlib.Order.WellFounded

/-! # Fair locks and the tasks that wait

A `FairLock` is held by tasks in modes, of which some conflict, and it is given to the tasks of its
queue in the order in which they have asked for it. In a `Queued` system a task asks before it does
some of its operations, and a task that has panicked is unwound.

* `FairLock.Moved`: what a task may do to a lock, apart from asking for it.
* `steps_of_moves`: what every discipline of the system keeps, those moves keep.
* `grants_of_not_blocks`: whoever is not kept waiting is given the lock.
* `unblocked_of_queue`, `not_transGen_of_unblocked`: a queue in which every task waits only for tasks
  that wait for nobody in the end, or for tasks before it, does not wait in a cycle. -/

namespace Vendimint.Async

/-- A lock, with the tasks that hold it and those that have asked for it. -/
structure FairLock (ι Mode : Type) where
  held : List (ι × Mode)
  queue : List (ι × Mode)

variable {ι Mode Op : Type} {Ret : Op → Type} {α β ε S H : Type}

/-- The task `j` is before the task `i` in a queue. -/
abbrev Before (q : List ι) (j i : ι) : Prop := List.Sublist [j, i] q

namespace FairLock

/-- Nobody holds the lock, and nobody has asked for it. -/
def free : FairLock ι Mode := ⟨[], []⟩

/-- The tasks that have asked for the lock, in this order. -/
def waiting (L : FairLock ι Mode) : List ι := L.queue.map Prod.fst

/-- The task `i` holds the lock. -/
def Holds (L : FairLock ι Mode) (i : ι) : Prop := ∃ m, (i, m) ∈ L.held

/-- The task `i` asks for the lock in the mode `m`. -/
def ask (L : FairLock ι Mode) (i : ι) (m : Mode) : FairLock ι Mode :=
  { L with queue := L.queue ++ [(i, m)] }

/-- The first task of the queue takes the lock, if its mode conflicts with none in which it is held. -/
def Grants (conflict : Mode → Mode → Prop) (i : ι) (m : Mode) (L L' : FairLock ι Mode) : Prop :=
  ∃ rest, L.queue = (i, m) :: rest ∧ (∀ x ∈ L.held, ¬ conflict m x.2) ∧ L' = ⟨(i, m) :: L.held, rest⟩

/-- The task `j` keeps the task `i` waiting: it holds the lock in a mode that conflicts, or it has
asked for the lock before. -/
def Blocks (conflict : Mode → Mode → Prop) (L : FairLock ι Mode) (j i : ι) : Prop :=
  ∃ m, (i, m) ∈ L.queue ∧ ((∃ m', (j, m') ∈ L.held ∧ conflict m m') ∨ Before L.waiting j i)

section Changes
variable [DecidableEq ι] {L L' : FairLock ι Mode} {i j : ι} {m : Mode}

/-- The task `i` drops its guard. -/
def release (L : FairLock ι Mode) (i : ι) : FairLock ι Mode :=
  { L with held := L.held.filter fun x => x.1 ≠ i }

/-- The task `i` drops its guard and its place in the queue. -/
def leave (L : FairLock ι Mode) (i : ι) : FairLock ι Mode where
  held := L.held.filter fun x => x.1 ≠ i
  queue := L.queue.filter fun x => x.1 ≠ i

omit [DecidableEq ι] in
@[simp] theorem not_mem_held_free : (i, m) ∉ (free : FairLock ι Mode).held := List.not_mem_nil

omit [DecidableEq ι] in
@[simp] theorem not_holds_free : ¬ (free : FairLock ι Mode).Holds i := fun ⟨_, h⟩ => not_mem_held_free h

omit [DecidableEq ι] in
@[simp] theorem waiting_free : (free : FairLock ι Mode).waiting = [] := rfl

omit [DecidableEq ι] in
@[simp] theorem holds_ask : (L.ask i m).Holds j ↔ L.Holds j := Iff.rfl

omit [DecidableEq ι] in
@[simp] theorem waiting_ask : (L.ask i m).waiting = L.waiting ++ [i] := by simp [waiting, ask]

omit [DecidableEq ι] in
theorem nodup_waiting_ask (h : L.waiting.Nodup) (hi : i ∉ L.waiting) : (L.ask i m).waiting.Nodup := by
  rw [waiting_ask, ← List.concat_eq_append]
  exact List.Nodup.concat hi h

omit [DecidableEq ι] in
theorem mem_waiting_of_mem (h : (i, m) ∈ L.queue) : i ∈ L.waiting := List.mem_map_of_mem h

omit [DecidableEq ι] in
theorem mem_waiting_of_blocks {conflict : Mode → Mode → Prop} (h : L.Blocks conflict j i) :
    i ∈ L.waiting := by
  obtain ⟨m, hm, -⟩ := h
  exact mem_waiting_of_mem hm

omit [DecidableEq ι] in
/-- Whoever keeps a task waiting holds the lock or is before it in the queue. -/
theorem holds_of_blocks {conflict : Mode → Mode → Prop} (h : L.Blocks conflict j i) :
    L.Holds j ∨ Before L.waiting j i := by
  obtain ⟨m, -, ⟨m', hj, -⟩ | hj⟩ := h
  · exact .inl ⟨m', hj⟩
  · exact .inr hj

@[simp] theorem mem_held_release : (i, m) ∈ (L.release j).held ↔ i ≠ j ∧ (i, m) ∈ L.held := by
  simp [release, and_comm]

@[simp] theorem mem_held_leave : (i, m) ∈ (L.leave j).held ↔ i ≠ j ∧ (i, m) ∈ L.held := by
  simp [leave, and_comm]

@[simp] theorem holds_release : (L.release j).Holds i ↔ i ≠ j ∧ L.Holds i := by simp [Holds]

@[simp] theorem holds_leave : (L.leave j).Holds i ↔ i ≠ j ∧ L.Holds i := by simp [Holds]

@[simp] theorem waiting_release : (L.release j).waiting = L.waiting := rfl

theorem not_mem_waiting_leave : i ∉ (L.leave i).waiting := by
  simp [waiting, leave]

omit [DecidableEq ι] in
theorem Grants.mem_held {conflict : Mode → Mode → Prop} (h : Grants conflict i m L L')
    {x : ι × Mode} : x ∈ L'.held ↔ x = (i, m) ∨ x ∈ L.held := by
  obtain ⟨rest, -, -, rfl⟩ := h
  simp

omit [DecidableEq ι] in
theorem Grants.free_of {conflict : Mode → Mode → Prop} (h : Grants conflict i m L L')
    {x : ι × Mode} (hx : x ∈ L.held) : ¬ conflict m x.2 := by
  obtain ⟨rest, -, hfree, -⟩ := h
  exact hfree x hx

omit [DecidableEq ι] in
theorem Grants.holds {conflict : Mode → Mode → Prop} (h : Grants conflict i m L L') :
    L'.Holds j ↔ j = i ∨ L.Holds j := by
  simp only [Holds, h.mem_held, Prod.mk.injEq]
  constructor
  · rintro ⟨m', ⟨hj, -⟩ | hj⟩
    · exact .inl hj
    · exact .inr ⟨m', hj⟩
  · rintro (hj | ⟨m', hj⟩)
    · exact ⟨m, .inl ⟨hj, rfl⟩⟩
    · exact ⟨m', .inr hj⟩

omit [DecidableEq ι] in
theorem Grants.waiting {conflict : Mode → Mode → Prop} (h : Grants conflict i m L L') :
    L.waiting = i :: L'.waiting := by
  obtain ⟨rest, hq, -, rfl⟩ := h
  simp [FairLock.waiting, hq]

/-- **A step of the task `i` on a lock**: the other tasks keep their guards, nobody joins the queue,
and `i` has taken the lock only as the first of the queue. -/
structure Moved (i : ι) (L L' : FairLock ι Mode) : Prop where
  others : ∀ j, j ≠ i → (L'.Holds j ↔ L.Holds j)
  queue : List.Sublist L'.queue L.queue
  first : L'.Holds i → L.Holds i ∨ ∀ j ∈ L'.waiting, Before L.waiting i j

omit [DecidableEq ι] in
theorem Moved.refl (i : ι) (L : FairLock ι Mode) : Moved i L L :=
  ⟨fun _ _ => Iff.rfl, List.Sublist.refl _, .inl⟩

omit [DecidableEq ι] in
theorem Moved.waiting (h : Moved i L L') : List.Sublist L'.waiting L.waiting := h.queue.map Prod.fst

omit [DecidableEq ι] in
theorem Grants.moved {conflict : Mode → Mode → Prop} (h : Grants conflict i m L L') :
    Moved i L L' := by
  refine ⟨fun j hj => ?_, ?_, fun _ => .inr fun j hj => ?_⟩
  · rw [h.holds]
    simp [hj]
  · obtain ⟨rest, hq, -, rfl⟩ := h
    rw [hq]
    exact List.sublist_cons_self _ _
  · rw [h.waiting]
    exact (List.singleton_sublist.mpr hj).cons_cons i

theorem moved_release : Moved i L (L.release i) := by
  refine ⟨fun j hj => ?_, List.Sublist.refl _, fun h => ?_⟩
  · simp [hj]
  · exact absurd rfl (holds_release.mp h).1

theorem moved_leave : Moved i L (L.leave i) := by
  refine ⟨fun j hj => ?_, ?_, fun h => ?_⟩
  · simp [hj]
  · exact List.filter_sublist
  · exact absurd rfl (holds_leave.mp h).1

omit [DecidableEq ι] in
/-- A task that nobody keeps waiting is given the lock. -/
theorem grants_of_not_blocks {conflict : Mode → Mode → Prop} (hq : L.waiting.Nodup)
    (hm : (i, m) ∈ L.queue) (h : ∀ j, ¬ L.Blocks conflict j i) : ∃ L', Grants conflict i m L L' := by
  cases hqueue : L.queue with
  | nil =>
    rw [hqueue] at hm
    cases hm
  | cons x rest =>
    have hwaiting : L.waiting = x.1 :: rest.map Prod.fst := by simp [waiting, hqueue]
    rw [hwaiting] at hq
    have hx : (i, m) = x := by
      rcases List.mem_cons.mp (hqueue ▸ hm) with hx | hx
      · exact hx
      · have hi : i ∈ rest.map Prod.fst := List.mem_map_of_mem hx
        have hbefore : Before L.waiting x.1 i := by
          rw [hwaiting]
          exact (List.singleton_sublist.mpr hi).cons_cons x.1
        exact absurd ⟨m, hm, .inr hbefore⟩ (h x.1)
    subst hx
    exact ⟨_, rest, hqueue, fun y hy hconflict => h y.1 ⟨m, hm, .inl ⟨y.2, hy, hconflict⟩⟩, rfl⟩

end Changes

end FairLock

/-! ### Tasks that ask -/

/-- A system whose tasks ask for some operations before they do them, and in which a task that has
panicked is unwound. -/
structure Queued (ι Op : Type) (Ret : Op → Type) (α S : Type) extends System ι Op Ret α S where
  ask : ι → Op → S → S → Prop
  unwind : ι → S → S → Prop

/-- One move of a pool in which tasks ask only if `G` allows it. -/
inductive Move [DecidableEq ι] (Y : Queued ι Op Ret α S) (G : Pool ι Op Ret α S → ι → Op → Prop) :
    Pool ι Op Ret α S → Pool ι Op Ret α S → Prop
  | step {P P' : Pool ι Op Ret α S} : Step Y.toSystem P P' → Move Y G P P'
  | ask {P : Pool ι Op Ret α S} {i : ι} {op : Op} {k : Ret op → Prog Op Ret α} {s' : S} :
      P.task i = some (.await op k) → Y.ask i op P.st s' → G P i op → Move Y G P ⟨s', P.task⟩
  | unwind {P : Pool ι Op Ret α S} {i : ι} {s' : S} :
      P.task i = some .panic → Y.unwind i P.st s' →
      Move Y G P ⟨s', Function.update P.task i none⟩

/-- Any number of moves. -/
abbrev Moves [DecidableEq ι] (Y : Queued ι Op Ret α S) (G : Pool ι Op Ret α S → ι → Op → Prop) :=
  Relation.ReflTransGen (Move Y G)

/-- Steps are moves. -/
theorem moves_of_steps [DecidableEq ι] {Y : Queued ι Op Ret α S}
    {G : Pool ι Op Ret α S → ι → Op → Prop} {P P' : Pool ι Op Ret α S}
    (h : Steps Y.toSystem P P') : Moves Y G P P' :=
  Relation.ReflTransGen.mono (fun _ _ => Move.step) _ _ h

/-- A task that asks, and what it does until it has come to `q`. -/
theorem moves_of_ask [DecidableEq ι] {Y : Queued ι Op Ret α S}
    {G : Pool ι Op Ret α S → ι → Op → Prop} {f : ι → Option (Prog Op Ret α)} {i : ι} {op : Op}
    {k : Ret op → Prog Op Ret α} {q : Prog Op Ret α} {s s₁ s₂ : S} (hi : f i = some (.await op k))
    (ha : Y.ask i op s s₁) (hG : G ⟨s, f⟩ i op) (hr : Begins Y.toWorld i (.await op k) s₁ q s₂) :
    Moves Y G ⟨s, f⟩ ⟨s₂, Function.update f i (some q)⟩ := by
  have hask : Move Y G ⟨s, f⟩ ⟨s₁, f⟩ := .ask hi ha hG
  exact .head hask (moves_of_steps (steps_of_begins hr hi))

/-- A task that starts, asks, and comes to `q`. -/
theorem moves_of_start [DecidableEq ι] {Y : Queued ι Op Ret α S}
    {G : Pool ι Op Ret α S → ι → Op → Prop} {f : ι → Option (Prog Op Ret α)} {i : ι} {op : Op}
    {k : Ret op → Prog Op Ret α} {q : Prog Op Ret α} {s s₁ s₂ s₃ : S}
    (hs : Y.spawn i (.await op k) s s₁) (hf : f i = none) (ha : Y.ask i op s₁ s₂)
    (hG : G ⟨s₁, Function.update f i (some (.await op k))⟩ i op)
    (hr : Begins Y.toWorld i (.await op k) s₂ q s₃) :
    Moves Y G ⟨s, f⟩ ⟨s₃, Function.update f i (some q)⟩ := by
  have hrun := moves_of_ask (Function.update_self i (some (Prog.await op k)) f) ha hG hr
  rw [Function.update_idem] at hrun
  exact .head (.step (.spawn hf hs)) hrun

/-- The system in which a task may ask, and be unwound, at any time. -/
def Queued.loose [DecidableEq ι] (Y : Queued ι Op Ret α S) : System ι Op Ret α S where
  toWorld := Y.toWorld
  spawn := Y.spawn
  env s s' dead := Y.env s s' dead ∨ (∃ i op, Y.ask i op s s') ∧ (∀ i, dead i = false) ∨
    ∃ i, Y.unwind i s s' ∧ ∀ j, dead j = decide (j = i)

/-- **Moves are steps of the loose system**: what its disciplines say holds over moves. -/
theorem steps_of_moves [DecidableEq ι] {Y : Queued ι Op Ret α S}
    {G : Pool ι Op Ret α S → ι → Op → Prop} {P P' : Pool ι Op Ret α S} (h : Moves Y G P P') :
    Steps Y.loose P P' := by
  refine Relation.ReflTransGen.mono (fun P P' hm => ?_) _ _ h
  cases hm with
  | step hs =>
    have hwithin : Y.toWorld.Within Y.loose.toWorld := .refl _
    exact hs.mono hwithin id .inl
  | @ask i op k s' _ ha _ =>
    have henv : Step Y.loose P ⟨s', fun j => if (fun _ => false) j then none else P.task j⟩ :=
      .env (.inr (.inl ⟨⟨i, op, ha⟩, fun _ => rfl⟩))
    simpa using henv
  | @unwind i s' _ hu =>
    have henv : Step Y.loose P ⟨s', fun j => if decide (j = i) then none else P.task j⟩ :=
      .env (.inr (.inr ⟨i, hu, fun _ => rfl⟩))
    have hupdate : (fun j => if decide (j = i) then none else P.task j) =
        Function.update P.task i none := by
      funext j
      by_cases hj : j = i
      · subst hj
        simp
      · simp [hj]
    rwa [hupdate] at henv

/-! ### Cycles of tasks that wait -/

section Cycles
variable {W : ι → ι → Prop}

/-- Whichever way one goes from `i` to a task that it waits for, and so on, one comes to an end. -/
abbrev Unblocked (W : ι → ι → Prop) : ι → Prop := Acc fun j i => W i j

/-- No task is on a cycle if none waits for ever. -/
theorem not_transGen_of_unblocked (h : ∀ i, Unblocked W i) (i : ι) : ¬ Relation.TransGen W i i := by
  have hwf : WellFounded (Relation.TransGen fun j i => W i j) := WellFounded.transGen ⟨h⟩
  intro hi
  exact hwf.irrefl.irrefl i (Relation.transGen_swap.mpr hi)

/-- Whoever does not wait for ever comes to a task that does not wait. -/
theorem Unblocked.exists_end {i : ι} (h : Unblocked W i) :
    ∃ l, Relation.ReflTransGen W i l ∧ ∀ j, ¬ W l j := by
  induction h with
  | intro i _ ih =>
    by_cases hi : ∃ j, W i j
    · obtain ⟨j, hj⟩ := hi
      obtain ⟨l, hl, hend⟩ := ih j hj
      exact ⟨l, .head hj hl, hend⟩
    · exact ⟨i, .refl, fun j hj => hi ⟨j, hj⟩⟩

theorem idxOf_lt_of_before [DecidableEq ι] {q : List ι} {i j : ι} (hq : q.Nodup)
    (h : Before q j i) : q.idxOf j < q.idxOf i := by
  induction q with
  | nil => cases h
  | cons a q ih =>
    obtain ⟨ha, hq⟩ := List.nodup_cons.mp hq
    rcases h with _ | h | h
    · rename_i h
      have hj : j ∈ q := h.subset (by simp)
      have hi : i ∈ q := h.subset (by simp)
      have hja : a ≠ j := fun heq => ha (heq ▸ hj)
      have hia : a ≠ i := fun heq => ha (heq ▸ hi)
      rw [List.idxOf_cons_ne q hja, List.idxOf_cons_ne q hia]
      exact Nat.succ_lt_succ (ih hq h)
    · rename_i h
      have hi : i ∈ q := List.singleton_sublist.mp h
      have hia : j ≠ i := fun heq => ha (heq ▸ hi)
      rw [List.idxOf_cons_self, List.idxOf_cons_ne q hia]
      exact Nat.succ_pos _

theorem Before.trans {q : List ι} {i j l : ι} (hq : q.Nodup) (h : Before q j i) (h' : Before q i l) :
    Before q j l := by
  induction q with
  | nil => cases h
  | cons a q ih =>
    obtain ⟨ha, hq⟩ := List.nodup_cons.mp hq
    have hafter : i ∈ q → Before q i l := fun hi => by
      rcases h' with _ | h' | h'
      · assumption
      · exact absurd hi ha
    rcases h with _ | h | h
    · rename_i h
      exact (ih hq h (hafter (h.subset (by simp)))).cons a
    · rename_i h
      have hl : l ∈ q := (hafter (List.singleton_sublist.mp h)).subset (by simp)
      exact (List.singleton_sublist.mpr hl).cons_cons j

/-- Whoever is before a task in a queue that has grown was so already, or the task is the new one. -/
theorem before_append {q : List ι} {i j k : ι} (h : Before (q ++ [k]) j i) :
    (i = k ∧ j ∈ q) ∨ Before q j i := by
  obtain ⟨l₁, l₂, heq, h₁, h₂⟩ := List.sublist_append_iff.mp h
  rcases List.sublist_singleton.mp h₂ with rfl | rfl
  · rw [List.append_nil] at heq
    subst heq
    exact .inr h₁
  · have hpair : [j] ++ [i] = l₁ ++ [k] := heq
    obtain ⟨rfl, hik⟩ := List.append_inj' hpair rfl
    exact .inl ⟨List.head_eq_of_cons_eq hik, List.singleton_sublist.mp h₁⟩

/-- **The tasks of a queue**: if each of them waits only for tasks that do not wait for ever and for
tasks of the queue that are before it, then none waits for ever. -/
theorem unblocked_of_queue [DecidableEq ι] {q : List ι} (hq : q.Nodup) {C : ι → Prop}
    (h : ∀ i, C i → ∀ j, W i j → Unblocked W j ∨ C j ∧ Before q j i) :
    ∀ i, C i → Unblocked W i := by
  intro i hi
  induction hn : q.idxOf i using Nat.strong_induction_on generalizing i with
  | _ n ih =>
    refine Acc.intro i fun j hj => ?_
    rcases h i hi j hj with hj | ⟨hCj, hbefore⟩
    · exact hj
    · exact ih _ (hn ▸ idxOf_lt_of_before hq hbefore) j hCj rfl

end Cycles

end Vendimint.Async
