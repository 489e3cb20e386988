import Vendimint.Async.Run
import Mathlib.Logic.Function.Basic
import Mathlib.Logic.Relation

/-! # Pools of tasks

A pool is a shared state and the tasks that are under way on it. A step of a pool runs one operation
of one task, drops one task at the operation it awaits, starts a task, or is a step of the
environment, which may also kill tasks (a restart).

A `RelyGuarantee` gives a discipline that every task of a system can be started under; then every
pool reached is `Good`: the invariant holds and every task is safe (`good_steps`). In particular a
task that has returned has met its postcondition (`Good.returned`), and every step of a task meets
its guarantee (`Good.guar`). `steps_of_runs` goes the other way, from runs of one task to steps. -/

namespace Vendimint.Async

/-- A shared state and the tasks on it. A task that has returned stays, as its value. -/
structure Pool (ι Op : Type) (Ret : Op → Type) (α S : Type) where
  st : S
  task : ι → Option (Prog Op Ret α)

/-- A world with the tasks that may be started in it and with an environment: `env s s' dead` may
change the state from `s` to `s'` and kills the tasks of `dead`. -/
structure System (ι Op : Type) (Ret : Op → Type) (α S : Type) extends World ι Op Ret S where
  spawn : ι → Prog Op Ret α → S → S → Prop
  env : S → S → (ι → Bool) → Prop

variable {ι Op : Type} {Ret : Op → Type} {α S : Type} [DecidableEq ι]

/-- The system in which a task runs, or is dropped at, an operation only if `G` allows it. -/
def System.guarded (Y : System ι Op Ret α S) (G : ι → Op → S → Prop) : System ι Op Ret α S where
  exec i op s r s' := Y.exec i op s r s' ∧ G i op s
  cut i op s s' := Y.cut i op s s' ∧ G i op s
  spawn := Y.spawn
  env := Y.env

/-- The system in which an operation has only the results that `G` allows, and leaves only what `C`
allows when its task is dropped. -/
def System.given (Y : System ι Op Ret α S) (G : ι → (op : Op) → S → Ret op → S → Prop)
    (C : ι → Op → S → S → Prop) : System ι Op Ret α S where
  exec i op s r s' := Y.exec i op s r s' ∧ G i op s r s'
  cut i op s s' := Y.cut i op s s' ∧ C i op s s'
  spawn := Y.spawn
  env := Y.env

omit [DecidableEq ι] in
theorem System.guarded_within (Y : System ι Op Ret α S) (G : ι → Op → S → Prop) :
    (Y.guarded G).toWorld.Within Y.toWorld := ⟨And.left, And.left⟩

/-- One step of a pool. -/
inductive Step (Y : System ι Op Ret α S) : Pool ι Op Ret α S → Pool ι Op Ret α S → Prop
  | run {P : Pool ι Op Ret α S} {i : ι} {op : Op} {k : Ret op → Prog Op Ret α} {r : Ret op} {s' : S} :
      P.task i = some (.await op k) → Y.exec i op P.st r s' →
      Step Y P ⟨s', Function.update P.task i (some (k r))⟩
  | abort {P : Pool ι Op Ret α S} {i : ι} {op : Op} {k : Ret op → Prog Op Ret α} {s' : S} :
      P.task i = some (.await op k) → Y.cut i op P.st s' →
      Step Y P ⟨s', Function.update P.task i none⟩
  | spawn {P : Pool ι Op Ret α S} {i : ι} {p : Prog Op Ret α} {s' : S} :
      P.task i = none → Y.spawn i p P.st s' → Step Y P ⟨s', Function.update P.task i (some p)⟩
  | env {P : Pool ι Op Ret α S} {s' : S} {dead : ι → Bool} :
      Y.env P.st s' dead → Step Y P ⟨s', fun i => if dead i then none else P.task i⟩

/-- Any number of steps. -/
abbrev Steps (Y : System ι Op Ret α S) := Relation.ReflTransGen (Step Y)

/-- The pool in state `s` with no task under way. -/
def Pool.idle (s : S) : Pool ι Op Ret α S := ⟨s, fun _ => none⟩

/-- **A discipline of a system**: the environment and the start of a task keep it, and a task is
safe when it starts. -/
structure RelyGuarantee (Y : System ι Op Ret α S) extends Discipline ι S where
  post : ι → Outcome α → S → Prop
  env_ok : ∀ {s s' dead}, inv s → Y.env s s' dead →
    inv s' ∧ ∀ i, dead i = false → rely i s s'
  spawn_ok : ∀ {i p s s'}, inv s → Y.spawn i p s s' →
    inv s' ∧ (∀ j, j ≠ i → rely j s s') ∧ Safe Y.toWorld toDiscipline i p (post i) s'

/-- The invariant holds and every task is safe. -/
def Good {Y : System ι Op Ret α S} (L : RelyGuarantee Y) (P : Pool ι Op Ret α S) : Prop :=
  L.inv P.st ∧ ∀ i p, P.task i = some p → Safe Y.toWorld L.toDiscipline i p (L.post i) P.st

/-- A step is one of every system in which more may happen. -/
theorem Step.mono {Y Y' : System ι Op Ret α S} (hW : Y.toWorld.Within Y'.toWorld)
    (hspawn : ∀ {i p s s'}, Y.spawn i p s s' → Y'.spawn i p s s')
    (henv : ∀ {s s' dead}, Y.env s s' dead → Y'.env s s' dead) {P P' : Pool ι Op Ret α S}
    (h : Step Y P P') : Step Y' P P' := by
  cases h with
  | run hi he => exact .run hi (hW.exec he)
  | abort hi hc => exact .abort hi (hW.cut hc)
  | spawn hi hs => exact .spawn hi (hspawn hs)
  | env he => exact .env (henv he)

/-- Steps are steps of every system in which more may happen. -/
theorem steps_within {Y Y' : System ι Op Ret α S} (hW : Y.toWorld.Within Y'.toWorld)
    (hspawn : ∀ {i p s s'}, Y.spawn i p s s' → Y'.spawn i p s s')
    (henv : ∀ {s s' dead}, Y.env s s' dead → Y'.env s s' dead) {P P' : Pool ι Op Ret α S}
    (h : Steps Y P P') : Steps Y' P P' :=
  Relation.ReflTransGen.mono (fun _ _ => Step.mono hW hspawn henv) _ _ h

/-- Steps under a guard are steps. -/
theorem steps_of_guarded {Y : System ι Op Ret α S} {G : ι → Op → S → Prop}
    {P P' : Pool ι Op Ret α S} (h : Steps (Y.guarded G) P P') : Steps Y P P' :=
  steps_within (Y.guarded_within G) id id h

/-- Steps under a condition are steps under a weaker one. -/
theorem steps_given {Y : System ι Op Ret α S} {G G' : ι → (op : Op) → S → Ret op → S → Prop}
    {C C' : ι → Op → S → S → Prop} (hG : ∀ {i op s r s'}, G i op s r s' → G' i op s r s')
    (hC : ∀ {i op s s'}, C i op s s' → C' i op s s') {P P' : Pool ι Op Ret α S}
    (h : Steps (Y.given G C) P P') : Steps (Y.given G' C') P P' := by
  have hwithin : (Y.given G C).toWorld.Within (Y.given G' C').toWorld :=
    ⟨fun h => ⟨h.1, hG h.2⟩, fun h => ⟨h.1, hC h.2⟩⟩
  exact steps_within hwithin id id h

section Soundness
variable {Y : System ι Op Ret α S} {L : RelyGuarantee Y} {P P' : Pool ι Op Ret α S}

omit [DecidableEq ι] in
theorem good_idle {s : S} (h : L.inv s) : Good L (Pool.idle s) :=
  ⟨h, fun _ _ hp => by cases hp⟩

/-- The tasks other than `i` stay safe over a step of `i`. -/
theorem Good.others (h : Good L P) {i : ι} {s' : S} {q : Option (Prog Op Ret α)}
    (hr : ∀ j, j ≠ i → L.rely j P.st s') {j : ι} {p : Prog Op Ret α} (hj : j ≠ i)
    (hp : Function.update P.task i q j = some p) :
    Safe Y.toWorld L.toDiscipline j p (L.post j) s' := by
  rw [Function.update_of_ne hj] at hp
  exact (h.2 j p hp).stable (hr j hj)

/-- **One step keeps a pool good.** -/
theorem good_step (h : Good L P) (hs : Step Y P P') : Good L P' := by
  cases hs with
  | @run i op k r s' hi he =>
    obtain ⟨hinv, hg, hk⟩ := (h.2 i _ hi P.st (L.rely_refl i _) h.1).1 r s' he
    refine ⟨hinv, fun j p hp => ?_⟩
    by_cases hj : j = i
    · subst hj
      simp only [Function.update_self, Option.some.injEq] at hp
      exact hp ▸ hk
    · exact h.others (fun j hj => L.compat hj h.1 hinv hg) hj hp
  | @abort i op k s' hi hc =>
    obtain ⟨hinv, hg, -⟩ := (h.2 i _ hi P.st (L.rely_refl i _) h.1).2 s' hc
    refine ⟨hinv, fun j p hp => ?_⟩
    by_cases hj : j = i
    · subst hj
      simp only [Function.update_self] at hp
      cases hp
    · exact h.others (fun j hj => L.compat hj h.1 hinv hg) hj hp
  | @spawn i p s' _ hsp =>
    obtain ⟨hinv, hrely, hsafe⟩ := L.spawn_ok h.1 hsp
    refine ⟨hinv, fun j q hq => ?_⟩
    by_cases hj : j = i
    · subst hj
      simp only [Function.update_self, Option.some.injEq] at hq
      exact hq ▸ hsafe
    · exact h.others hrely hj hq
  | @env s' dead he =>
    obtain ⟨hinv, hrely⟩ := L.env_ok h.1 he
    refine ⟨hinv, fun j q hq => ?_⟩
    simp only at hq
    split_ifs at hq with hd
    exact (h.2 j q hq).stable (hrely j (by simpa using hd))

/-- **Every pool reached from a good one is good.** -/
theorem good_steps (h : Good L P) (hs : Steps Y P P') : Good L P' := by
  induction hs with
  | refl => exact h
  | tail _ hstep ih => exact good_step ih hstep

omit [DecidableEq ι] in
theorem Good.returned (h : Good L P) {i : ι} {a : α} (hi : P.task i = some (.pure a)) :
    L.post i (.returned a) P.st :=
  h.2 i _ hi P.st (L.rely_refl i _) h.1

omit [DecidableEq ι] in
/-- A task that runs an operation of a good pool meets its guarantee. -/
theorem Good.guar (h : Good L P) {i : ι} {op : Op} {k : Ret op → Prog Op Ret α} {r : Ret op} {s' : S}
    (hi : P.task i = some (.await op k)) (he : Y.exec i op P.st r s') : L.guar i P.st s' :=
  ((h.2 i _ hi P.st (L.rely_refl i _) h.1).1 r s' he).2.1

omit [DecidableEq ι] in
/-- The same, of a task that is dropped. -/
theorem Good.guar_cut (h : Good L P) {i : ι} {op : Op} {k : Ret op → Prog Op Ret α} {s' : S}
    (hi : P.task i = some (.await op k)) (hc : Y.cut i op P.st s') : L.guar i P.st s' :=
  ((h.2 i _ hi P.st (L.rely_refl i _) h.1).2 s' hc).2.1

/-- **Steps from a good pool are steps of tasks that meet their guarantees**, also in a system in which
less may happen. -/
theorem Good.steps_given {Y' : System ι Op Ret α S} (hW : Y'.toWorld.Within Y.toWorld)
    (hspawn : ∀ {i p s s'}, Y'.spawn i p s s' → Y.spawn i p s s')
    (henv : ∀ {s s' dead}, Y'.env s s' dead → Y.env s s' dead) (h : Good L P) (hs : Steps Y' P P') :
    Steps (Y'.given (fun i _ s _ s' => L.inv s ∧ L.guar i s s') fun i _ s s' => L.inv s ∧ L.guar i s s')
      P P' := by
  induction hs with
  | refl => exact .refl
  | @tail P₁ P₂ hsteps hstep ih =>
    have hgood := good_steps h (steps_within hW hspawn henv hsteps)
    refine ih.tail ?_
    cases hstep with
    | run hi he => exact .run hi ⟨he, hgood.1, hgood.guar hi (hW.exec he)⟩
    | abort hi hc => exact .abort hi ⟨hc, hgood.1, hgood.guar_cut hi (hW.cut hc)⟩
    | spawn hi hs => exact .spawn hi hs
    | env he => exact .env he

/-- **What every step keeps**: a preorder that holds over guarantees, starts and steps of the
environment holds over any number of steps. -/
theorem Good.along {T : S → S → Prop} (hrefl : ∀ s, T s s)
    (htrans : ∀ {s s' s''}, T s s' → T s' s'' → T s s'')
    (hguar : ∀ {i s s'}, L.inv s → L.guar i s s' → T s s')
    (hspawn : ∀ {i p s s'}, L.inv s → Y.spawn i p s s' → T s s')
    (henv : ∀ {s s' dead}, L.inv s → Y.env s s' dead → T s s')
    (h : Good L P) (hs : Steps Y P P') : T P.st P'.st := by
  induction hs with
  | refl => exact hrefl _
  | @tail P₁ P₂ hsteps hstep ih =>
    have hgood := good_steps h hsteps
    refine htrans ih ?_
    cases hstep with
    | run hi he => exact hguar hgood.1 (hgood.guar hi he)
    | abort hi hc => exact hguar hgood.1 (hgood.guar_cut hi hc)
    | spawn _ hsp => exact hspawn hgood.1 hsp
    | env he => exact henv hgood.1 he

end Soundness

/-- What is left of a task that has ended. -/
def Outcome.left : Outcome α → Option (Prog Op Ret α)
  | .returned a => some (.pure a)
  | .panicked => some .panic
  | .aborted => none

/-- **From a run to steps**: a run of one task alone is a sequence of steps of the pool. -/
theorem steps_of_runs {Y : System ι Op Ret α S} {i : ι} {p : Prog Op Ret α} {s s' : S}
    {o : Outcome α} (hr : Runs Y.toWorld i Alone p s o s') :
    ∀ {f : ι → Option (Prog Op Ret α)}, f i = some p →
      Steps Y ⟨s, f⟩ ⟨s', Function.update f i o.left⟩ := by
  induction hr with
  | returned a s =>
    intro f hf
    rw [Outcome.left, ← hf, Function.update_eq_self]
  | panicked s =>
    intro f hf
    rw [Outcome.left, ← hf, Function.update_eq_self]
  | aborted hc =>
    intro f hf
    exact Relation.ReflTransGen.single (Step.abort hf hc)
  | @step op k s s₁ s₂ r o he _ ih =>
    intro f hf
    have h1 : Step Y ⟨s, f⟩ ⟨s₁, Function.update f i (some (k r))⟩ := Step.run hf he
    have h2 := ih (f := Function.update f i (some (k r))) (Function.update_self ..)
    rw [Function.update_idem] at h2
    exact .head h1 h2
  | env he _ _ => exact he.elim

section Tasks
variable {Y : System ι Op Ret α S} {i : ι} {p : Prog Op Ret α} {s s₁ t : S}
  {f : ι → Option (Prog Op Ret α)}

/-- A task that starts and runs alone. -/
theorem steps_of_task (hs : Y.spawn i p s s₁) (hf : f i = none) {o : Outcome α}
    (hr : Runs Y.toWorld i Alone p s₁ o t) : Steps Y ⟨s, f⟩ ⟨t, Function.update f i o.left⟩ := by
  have h := steps_of_runs hr (Function.update_self i (some p) f)
  rw [Function.update_idem] at h
  exact .head (.spawn hf hs) h

/-- A task that starts, runs alone and returns. -/
theorem steps_of_return (hs : Y.spawn i p s s₁) (hf : f i = none) {a : α}
    (hr : Runs Y.toWorld i Alone p s₁ (.returned a) t) :
    Steps Y ⟨s, f⟩ ⟨t, Function.update f i (some (.pure a))⟩ := steps_of_task hs hf hr

/-- A task that starts, runs alone and is dropped. -/
theorem steps_of_abort (hs : Y.spawn i p s s₁) (hf : f i = none)
    (hr : Runs Y.toWorld i Alone p s₁ .aborted t) : Steps Y ⟨s, f⟩ ⟨t, f⟩ := by
  have h := steps_of_task hs hf hr
  rwa [Outcome.left, ← hf, Function.update_eq_self] at h

/-- The beginning of a run of a task: what is left of its program is `q`. -/
inductive Begins (W : World ι Op Ret S) (i : ι) :
    Prog Op Ret α → S → Prog Op Ret α → S → Prop
  | refl (p : Prog Op Ret α) (s : S) : Begins W i p s p s
  | step {op : Op} {k : Ret op → Prog Op Ret α} {r : Ret op} {q : Prog Op Ret α} {s s' s'' : S} :
      W.exec i op s r s' → Begins W i (k r) s' q s'' → Begins W i (.await op k) s q s''

omit [DecidableEq ι] in
/-- A run of a first part, then the beginning of one of the second. -/
theorem begins_of_runs {W : World ι Op Ret S} {β : Type} {p : Prog Op Ret β}
    {g : β → Prog Op Ret α} {q : Prog Op Ret α} {b : β} {o : Outcome β} {s'' : S}
    (hr : Runs W i Alone p s o t) (ho : o = .returned b) (h : Begins W i (g b) t q s'') :
    Begins W i (p.bind g) s q s'' := by
  induction hr with
  | returned b s => cases ho; exact h
  | panicked s => cases ho
  | aborted _ => cases ho
  | step he _ ih => exact .step he (ih ho h)
  | env he _ _ => exact he.elim

omit [DecidableEq ι] in
theorem Begins.trans {W : World ι Op Ret S} {q q' : Prog Op Ret α} {u : S} (h : Begins W i p s q t)
    (h' : Begins W i q t q' u) : Begins W i p s q' u := by
  induction h with
  | refl p s => exact h'
  | step he _ ih => exact .step he (ih h')

omit [DecidableEq ι] in
/-- The beginning of a run of a first part. -/
theorem Begins.bind {W : World ι Op Ret S} {β : Type} {p q : Prog Op Ret β} (g : β → Prog Op Ret α)
    (h : Begins W i p s q t) : Begins W i (p.bind g) s (q.bind g) t := by
  induction h with
  | refl p s => exact .refl _ _
  | step he _ ih => exact .step he ih

omit [DecidableEq ι] in
/-- The beginning of a run, then the rest. -/
theorem Begins.runs {W : World ι Op Ret S} {E : S → S → Prop} {q : Prog Op Ret α} {o : Outcome α}
    {s'' : S} (h : Begins W i p s q t) (hr : Runs W i E q t o s'') : Runs W i E p s o s'' := by
  induction h with
  | refl p s => exact hr
  | step he _ ih => exact .step he (ih hr)

/-! ### Calls -/

omit [DecidableEq ι] in
/-- A run of a first part and then of the second, taken apart. -/
theorem Runs.of_bind {W : World ι Op Ret S} {β : Type} {q : Prog Op Ret β} {f : β → Prog Op Ret α}
    {o : Outcome α} {s' : S} (h : Runs W i Alone (q.bind f) s o s') :
    ∃ ob t, Runs W i Alone q s ob t ∧ ∀ b, ob = .returned b → Runs W i Alone (f b) t o s' := by
  induction q generalizing s with
  | pure b =>
    refine ⟨_, s, .returned b s, fun b' hb => ?_⟩
    cases hb
    exact h
  | panic => exact ⟨_, s, .panicked s, fun _ hb => by cases hb⟩
  | await op k ih =>
    cases h with
    | aborted hc => exact ⟨_, s', .aborted hc, fun _ hb => by cases hb⟩
    | step he h =>
      obtain ⟨ob, t, hq, hf⟩ := ih _ h
      exact ⟨ob, t, .step he hq, hf⟩
    | env he _ => exact he.elim

omit [DecidableEq ι] in
/-- The beginning of a run of an operation and the rest: nothing of it, or the operation is done. -/
theorem Begins.of_await {W : World ι Op Ret S} {op : Op} {k : Ret op → Prog Op Ret α}
    {q : Prog Op Ret α} (h : Begins W i (.await op k) s q t) :
    q = .await op k ∧ t = s ∨ ∃ r s₁, W.exec i op s r s₁ ∧ Begins W i (k r) s₁ q t := by
  cases h with
  | refl => exact Or.inl ⟨rfl, rfl⟩
  | step he h => exact Or.inr ⟨_, _, he, h⟩

/-- **A call**: a run of `p` from `s` to `s'` that calls `q` on its way. -/
def Calls {β : Type} (W : World ι Op Ret S) (i : ι) (p : Prog Op Ret α) (s : S) (q : Prog Op Ret β)
    (s' : S) : Prop :=
  ∃ k t o, Begins W i p s (q.bind k) t ∧ Runs W i Alone (q.bind k) t o s'

namespace Calls
variable {W : World ι Op Ret S} {β γ : Type} {q : Prog Op Ret γ} {g : Prog Op Ret β}
  {f : β → Prog Op Ret α} {s' : S}

omit [DecidableEq ι] in
theorem here {k : γ → Prog Op Ret α} {o : Outcome α} (h : Runs W i Alone (q.bind k) s o s') :
    Calls W i (q.bind k) s q s' := ⟨k, s, o, .refl _ _, h⟩

omit [DecidableEq ι] in
/-- A call by the second part. -/
theorem after {b : β} (hg : Runs W i Alone g s (.returned b) t) (h : Calls W i (f b) t q s') :
    Calls W i (g.bind f) s q s' := by
  obtain ⟨k, u, o, hb, hr⟩ := h
  exact ⟨k, u, o, begins_of_runs hg rfl hb, hr⟩

omit [DecidableEq ι] in
/-- A first part without the first operation of `q` does not call it. -/
theorem of_bind {C : Op → Prop} {op : Op} {kq : Ret op → Prog Op Ret γ} (hop : ¬ C op)
    (hg : g.Uses C) (h : Calls W i (g.bind f) s (.await op kq) s') :
    ∃ b t, Runs W i Alone g s (.returned b) t ∧ Calls W i (f b) t (.await op kq) s' := by
  induction g generalizing s with
  | pure b => exact ⟨b, s, .returned b s, h⟩
  | panic =>
    obtain ⟨k, t, o, hb, -⟩ := h
    cases hb
  | await op' k' ih =>
    obtain ⟨k, t, o, hb, hr⟩ := h
    rcases hb.of_await with ⟨heq, -⟩ | ⟨r, s₁, he, hb⟩
    · injection heq with heq
      exact absurd (heq ▸ hg.1) hop
    · obtain ⟨b, u, hrun, hcalls⟩ := ih r (hg.2 r) ⟨k, t, o, hb, hr⟩
      exact ⟨b, u, .step he hrun, hcalls⟩

end Calls

theorem steps_of_begins {q : Prog Op Ret α} (hr : Begins Y.toWorld i p s q t) :
    ∀ {f : ι → Option (Prog Op Ret α)}, f i = some p →
      Steps Y ⟨s, f⟩ ⟨t, Function.update f i (some q)⟩ := by
  induction hr with
  | refl p s =>
    intro f hf
    rw [← hf, Function.update_eq_self]
  | @step op k r q s s₁ s₂ he _ ih =>
    intro f hf
    have h1 : Step Y ⟨s, f⟩ ⟨s₁, Function.update f i (some (k r))⟩ := Step.run hf he
    have h2 := ih (f := Function.update f i (some (k r))) (Function.update_self ..)
    rw [Function.update_idem] at h2
    exact .head h1 h2

/-- A task that starts and runs for a while. -/
theorem steps_of_start (hs : Y.spawn i p s s₁) (hf : f i = none) {q : Prog Op Ret α}
    (hr : Begins Y.toWorld i p s₁ q t) : Steps Y ⟨s, f⟩ ⟨t, Function.update f i (some q)⟩ := by
  have h := steps_of_begins hr (Function.update_self i (some p) f)
  rw [Function.update_idem] at h
  exact .head (.spawn hf hs) h

/-- A step of the environment that kills no task. -/
theorem steps_of_env (he : Y.env s t fun _ => false) : Steps Y ⟨s, f⟩ ⟨t, f⟩ := by
  have h : Step Y ⟨s, f⟩ ⟨t, fun i => if (fun _ => false) i then none else f i⟩ := .env he
  simpa using Relation.ReflTransGen.single h

/-- A step of the environment that kills every task. -/
theorem steps_of_crash (he : Y.env s t fun _ => true) : Steps Y ⟨s, f⟩ (Pool.idle t) := by
  have h : Step Y ⟨s, f⟩ ⟨t, fun i => if (fun _ => true) i then none else f i⟩ := .env he
  exact .single h

/-- A task that starts and runs for a while, and its next operation. -/
theorem step_of_start {op : Op} {k : Ret op → Prog Op Ret α} {r : Ret op} {t' : S}
    (hs : Y.spawn i p s s₁) (hf : f i = none) (hr : Begins Y.toWorld i p s₁ (.await op k) t)
    (he : Y.exec i op t r t') :
    ∃ P P', Steps Y ⟨s, f⟩ P ∧ Step Y P P' ∧ P.st = t ∧ P'.st = t' :=
  ⟨_, _, steps_of_start hs hf hr, .run (Function.update_self ..) he, rfl, rfl⟩

end Tasks

end Vendimint.Async
