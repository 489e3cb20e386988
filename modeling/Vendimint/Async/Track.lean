import Vendimint.Async.Pool

/-! # What the tasks of a pool know

A `Tracking` says what a task has and knows after each of its operations, and when it is so. If the
steps of a system keep what the other tasks know (`Tracking.Sound`), then in every pool reached each
task knows what its program has been followed to (`known_steps`).

* `Prog.Tracks`: a program is never without what its next operation needs. -/

namespace Vendimint.Async

variable {ι Op : Type} {Ret : Op → Type} {α β ε S H : Type}

/-- The program that starts with `h` ends as `Q` says, if `next h op r` is what a task has after `op`
when it had `h` before, and if it is never without that. -/
def Prog.Tracks (next : H → (op : Op) → Ret op → Option H) :
    Prog Op Ret α → H → (α → H → Prop) → Prop
  | .pure a, h, Q => Q a h
  | .panic, _, _ => True
  | .await op k, h, Q => ∀ r, ∃ h₁, next h op r = some h₁ ∧ (k r).Tracks next h₁ Q

section Tracks
variable {next : H → (op : Op) → Ret op → Option H} {h : H} {Q : α → H → Prop}

/-- An operation after which a task has the same, whatever the result. -/
theorem Prog.Tracks.await {op : Op} {k : Ret op → Prog Op Ret α} {h₁ : H}
    (hop : ∀ r, next h op r = some h₁) (hk : ∀ r, (k r).Tracks next h₁ Q) :
    (Prog.await op k).Tracks next h Q := fun r => ⟨h₁, hop r, hk r⟩

theorem Prog.Tracks.mono {Q' : α → H → Prop} (hQ : ∀ a h, Q a h → Q' a h) {p : Prog Op Ret α}
    (hp : p.Tracks next h Q) : p.Tracks next h Q' := by
  induction p generalizing h with
  | pure a => exact hQ a h hp
  | panic => trivial
  | await op k ih =>
    intro r
    obtain ⟨h₁, hop, hk⟩ := hp r
    exact ⟨h₁, hop, ih r hk⟩

theorem Prog.Tracks.bind {R : β → H → Prop} {p : Prog Op Ret α} {f : α → Prog Op Ret β}
    (hp : p.Tracks next h Q) (hf : ∀ a h, Q a h → (f a).Tracks next h R) :
    (p.bind f).Tracks next h R := by
  induction p generalizing h with
  | pure a => exact hf a h hp
  | panic => trivial
  | await op k ih =>
    intro r
    obtain ⟨h₁, hop, hk⟩ := hp r
    exact ⟨h₁, hop, ih r hk⟩

theorem Prog.Tracks.andThen {R : Except ε β → H → Prop} {Q : Except ε α → H → Prop}
    {p : Prog Op Ret (Except ε α)} {f : α → Prog Op Ret (Except ε β)} (hp : p.Tracks next h Q)
    (he : ∀ e h, Q (.error e) h → R (.error e) h)
    (hf : ∀ a h, Q (.ok a) h → (f a).Tracks next h R) :
    (p.bind (Fallible.andThen f)).Tracks next h R := by
  refine hp.bind fun r h hr => ?_
  cases r with
  | error e => exact he e h hr
  | ok a => exact hf a h hr

/-- A program of operations that change nothing. -/
theorem Prog.Tracks.of_uses {C : Op → Prop} (hC : ∀ op, C op → ∀ r, next h op r = some h)
    {p : Prog Op Ret α} (hp : p.Uses C) : p.Tracks next h fun _ h' => h' = h := by
  induction p with
  | pure a => exact rfl
  | panic => trivial
  | await op k ih => exact fun r => ⟨h, hC op hp.1 r, ih r (hp.2 r)⟩

/-- A program whose operations are never without what they need. -/
theorem Prog.Tracks.of_total (hnext : ∀ h op r, ∃ h', next h op r = some h') (p : Prog Op Ret α) :
    p.Tracks next h fun _ _ => True := by
  induction p generalizing h with
  | pure a => trivial
  | panic => trivial
  | await op k ih =>
    intro r
    obtain ⟨h', hop⟩ := hnext h op r
    exact ⟨h', hop, ih r⟩

end Tracks

/-- **What tasks know**: `agrees i s h` if the task `i` has what `h` says in the state `s`. -/
structure Tracking (ι Op : Type) (Ret : Op → Type) (α S H : Type) where
  next : ι → H → (op : Op) → Ret op → Option H
  start : H
  done : α → H → Prop
  inv : S → Prop
  agrees : ι → S → H → Prop

namespace Tracking
variable {T : Tracking ι Op Ret α S H} {Y : System ι Op Ret α S} {P P' : Pool ι Op Ret α S}

/-- What the tasks other than `i` know stays so from `s` to `s'`. -/
def Frames (T : Tracking ι Op Ret α S H) (i : ι) (s s' : S) : Prop :=
  ∀ j h, j ≠ i → T.agrees j s h → T.agrees j s' h

theorem Frames.trans {i : ι} {s s' s'' : S} (h : T.Frames i s s') (h' : T.Frames i s' s'') :
    T.Frames i s s'' := fun j hj hne ha => h' j hj hne (h j hj hne ha)

/-- Every step of the system keeps what the tasks know; a task that is gone has nothing. -/
structure Sound (T : Tracking ι Op Ret α S H) (Y : System ι Op Ret α S) : Prop where
  run : ∀ {i op r h h' s s'}, T.inv s → T.agrees i s h → T.next i h op r = some h' →
    Y.exec i op s r s' → T.inv s' ∧ T.agrees i s' h' ∧ T.Frames i s s'
  cut : ∀ {i op h s s'}, T.inv s → T.agrees i s h → (∀ r, ∃ h', T.next i h op r = some h') →
    Y.cut i op s s' → T.inv s' ∧ T.agrees i s' T.start ∧ T.Frames i s s'
  spawn : ∀ {i p s s'}, T.inv s → T.agrees i s T.start → Y.spawn i p s s' →
    T.inv s' ∧ T.agrees i s' T.start ∧ p.Tracks (T.next i) T.start T.done ∧ T.Frames i s s'
  env : ∀ {s s' dead}, T.inv s → Y.env s s' dead →
    T.inv s' ∧ (∀ i, dead i = true → T.agrees i s' T.start) ∧
      ∀ i h, dead i = false → T.agrees i s h → T.agrees i s' h

/-- What the task `i` knows lets it go on with `p`, or it is gone and has nothing. -/
def Follows (T : Tracking ι Op Ret α S H) (s : S) (i : ι) : Option (Prog Op Ret α) → Prop
  | some p => ∃ h, T.agrees i s h ∧ p.Tracks (T.next i) h T.done
  | none => T.agrees i s T.start

/-- The invariant holds, and every task knows what it needs. -/
structure Known (T : Tracking ι Op Ret α S H) (P : Pool ι Op Ret α S) : Prop where
  inv : T.inv P.st
  follows : ∀ i, T.Follows P.st i (P.task i)

theorem Follows.frame {s s' : S} {i : ι} {q : Option (Prog Op Ret α)} (hq : T.Follows s i q)
    (h : ∀ h, T.agrees i s h → T.agrees i s' h) : T.Follows s' i q := by
  cases q with
  | none => exact h _ hq
  | some p =>
    obtain ⟨hi, hagrees, htracks⟩ := hq
    exact ⟨hi, h _ hagrees, htracks⟩

/-- A step of one task. -/
theorem Known.update [DecidableEq ι] (h : T.Known P) {i : ι} {s' : S} {q : Option (Prog Op Ret α)}
    (hinv : T.inv s') (hframes : T.Frames i P.st s') (hq : T.Follows s' i q) :
    T.Known ⟨s', Function.update P.task i q⟩ := by
  refine ⟨hinv, fun j => ?_⟩
  by_cases hj : j = i
  · subst hj
    simpa using hq
  · simpa [Function.update_of_ne hj] using (h.follows j).frame fun h => hframes j h hj

theorem Known.of_task (h : T.Known P) {i : ι} {p : Prog Op Ret α} (hi : P.task i = some p) :
    ∃ h, T.agrees i P.st h ∧ p.Tracks (T.next i) h T.done := by
  have hi' := h.follows i
  rwa [hi] at hi'

theorem Known.of_gone (h : T.Known P) {i : ι} (hi : P.task i = none) : T.agrees i P.st T.start := by
  have hi' := h.follows i
  rwa [hi] at hi'

/-- **One step keeps what the tasks know.** -/
theorem known_step [DecidableEq ι] (hT : T.Sound Y) (h : T.Known P) (hs : Step Y P P') :
    T.Known P' := by
  cases hs with
  | @run i op k r s' hi he =>
    obtain ⟨h₀, hagrees, htracks⟩ := h.of_task hi
    obtain ⟨h₁, hnext, hk⟩ := htracks r
    obtain ⟨hinv, hagrees', hframes⟩ := hT.run h.inv hagrees hnext he
    exact h.update hinv hframes ⟨h₁, hagrees', hk⟩
  | @abort i op k s' hi hc =>
    obtain ⟨h₀, hagrees, htracks⟩ := h.of_task hi
    have hready : ∀ r, ∃ h', T.next i h₀ op r = some h' := fun r =>
      (htracks r).imp fun _ hr => hr.1
    obtain ⟨hinv, hagrees', hframes⟩ := hT.cut h.inv hagrees hready hc
    exact h.update hinv hframes hagrees'
  | @spawn i p s' hi hsp =>
    obtain ⟨hinv, hagrees, hp, hframes⟩ := hT.spawn h.inv (h.of_gone hi) hsp
    exact h.update hinv hframes ⟨T.start, hagrees, hp⟩
  | @env s' dead he =>
    obtain ⟨hinv, hdead, hlive⟩ := hT.env h.inv he
    refine ⟨hinv, fun i => ?_⟩
    show T.Follows s' i (if dead i then none else P.task i)
    cases hd : dead i with
    | true => exact hdead i hd
    | false => exact (h.follows i).frame fun h => hlive i h hd

/-- **In every pool reached the tasks know what they need.** -/
theorem known_steps [DecidableEq ι] (hT : T.Sound Y) (h : T.Known P) (hs : Steps Y P P') :
    T.Known P' := by
  induction hs with
  | refl => exact h
  | tail _ hstep ih => exact known_step hT ih hstep

end Tracking

end Vendimint.Async
