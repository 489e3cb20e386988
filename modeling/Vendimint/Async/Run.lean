import Vendimint.Async.Prog

/-! # Runs of one task and their safety

A `World` says what an operation does: `exec i op s r s'` if task `i` may run `op` in state `s`,
get `r` and leave `s'`, and `cut i op s s'` if `s'` may be left when the task is dropped while it
awaits `op`. A run (`Runs`) of one task may be interleaved with steps `E` of its environment.

`Safe` is the weakest precondition of a program under a `Discipline`: an invariant `inv` of the
state, what a task may rely on of all others (`rely`), and what it guarantees itself (`guar`).

* `Safe.stable`, `Safe.mono`, `Safe.remember`, `Safe.bind`: the rules.
* `Runs.sound`: a run of a safe program keeps the invariant and ends as the postcondition says.
* `Runs.ensures`: a run of a task alone ends as its total specification (`Ensures`) says. -/

namespace Vendimint.Async

/-- How a run of a program ends. -/
inductive Outcome (α : Type) : Type
  | returned (a : α)
  | panicked
  | aborted
  deriving DecidableEq

/-- What the operations of the tasks `ι` do to a state `S`. -/
structure World (ι Op : Type) (Ret : Op → Type) (S : Type) where
  exec : ι → (op : Op) → S → Ret op → S → Prop
  cut : ι → Op → S → S → Prop

variable {ι Op : Type} {Ret : Op → Type} {S α β ε : Type}

namespace World

/-- Everything that may happen in `W` may happen in `W'`. -/
structure Within (W W' : World ι Op Ret S) : Prop where
  exec : ∀ {i op s r s'}, W.exec i op s r s' → W'.exec i op s r s'
  cut : ∀ {i op s s'}, W.cut i op s s' → W'.cut i op s s'

theorem Within.refl (W : World ι Op Ret S) : W.Within W := ⟨id, id⟩

/-- The world whose state also lists the operations done, with their results. -/
def traced (W : World ι Op Ret S) : World ι Op Ret (S × List (Σ op, Ret op)) where
  exec i op s r s' := W.exec i op s.1 r s'.1 ∧ s'.2 = s.2 ++ [⟨op, r⟩]
  cut i op s s' := W.cut i op s.1 s'.1 ∧ s'.2 = s.2

end World

/-- Runs of a program as task `i`, with environment steps `E` in between. -/
inductive Runs (W : World ι Op Ret S) (i : ι) (E : S → S → Prop) :
    Prog Op Ret α → S → Outcome α → S → Prop
  | returned (a : α) (s : S) : Runs W i E (.pure a) s (.returned a) s
  | panicked (s : S) : Runs W i E .panic s .panicked s
  | aborted {op : Op} {k : Ret op → Prog Op Ret α} {s s' : S} :
      W.cut i op s s' → Runs W i E (.await op k) s .aborted s'
  | step {op : Op} {k : Ret op → Prog Op Ret α} {s s' s'' : S} {r : Ret op} {o : Outcome α} :
      W.exec i op s r s' → Runs W i E (k r) s' o s'' → Runs W i E (.await op k) s o s''
  | env {p : Prog Op Ret α} {s s' s'' : S} {o : Outcome α} :
      E s s' → Runs W i E p s' o s'' → Runs W i E p s o s''

/-- A run of a first part, then one of the second. -/
theorem Runs.bind {W : World ι Op Ret S} {i : ι} {E : S → S → Prop} {p : Prog Op Ret α}
    {f : α → Prog Op Ret β} {s s' s'' : S} {a : α} {o : Outcome β} {oa : Outcome α}
    (h : Runs W i E p s oa s') (ha : oa = .returned a) (h' : Runs W i E (f a) s' o s'') :
    Runs W i E (p.bind f) s o s'' := by
  induction h with
  | returned b s => cases ha; exact h'
  | panicked s => cases ha
  | aborted _ => cases ha
  | step he _ ih => exact .step he (ih ha h')
  | env he _ ih => exact .env he (ih ha h')

/-- The environment of a task that runs alone. -/
def Alone (_ _ : S) : Prop := False

/-! ### Disciplines -/

/-- An invariant of the state, with what each task may rely on and what it guarantees. -/
structure Discipline (ι S : Type) where
  inv : S → Prop
  rely : ι → S → S → Prop
  guar : ι → S → S → Prop
  rely_refl : ∀ i s, rely i s s
  rely_trans : ∀ {i s s' s''}, rely i s s' → rely i s' s'' → rely i s s''
  compat : ∀ {i j s s'}, i ≠ j → inv s → inv s' → guar j s s' → rely i s s'

/-- **Safety**: from `s`, whatever the other tasks do, every operation of the program keeps the
invariant and the guarantee, and the program ends as `Q` says. -/
def Safe (W : World ι Op Ret S) (D : Discipline ι S) (i : ι) :
    Prog Op Ret α → (Outcome α → S → Prop) → S → Prop
  | .pure a, Q, s => ∀ s', D.rely i s s' → D.inv s' → Q (.returned a) s'
  | .panic, Q, s => ∀ s', D.rely i s s' → D.inv s' → Q .panicked s'
  | .await op k, Q, s => ∀ s', D.rely i s s' → D.inv s' →
      (∀ r s'', W.exec i op s' r s'' → D.inv s'' ∧ D.guar i s' s'' ∧ Safe W D i (k r) Q s'') ∧
      ∀ s'', W.cut i op s' s'' → D.inv s'' ∧ D.guar i s' s'' ∧ Q .aborted s''

/-- The postcondition of a first part: `K` on its value, `Q` if it ends otherwise. -/
def Outcome.seq (K : α → S → Prop) (Q : Outcome β → S → Prop) : Outcome α → S → Prop
  | .returned a, s => K a s
  | .panicked, s => Q .panicked s
  | .aborted, s => Q .aborted s

@[simp] theorem Outcome.seq_returned {K : α → S → Prop} {Q : Outcome β → S → Prop} {a : α} {s : S} :
    Outcome.seq K Q (.returned a) s = K a s := rfl

@[simp] theorem Outcome.seq_panicked {K : α → S → Prop} {Q : Outcome β → S → Prop} {s : S} :
    Outcome.seq K Q .panicked s = Q .panicked s := rfl

@[simp] theorem Outcome.seq_aborted {K : α → S → Prop} {Q : Outcome β → S → Prop} {s : S} :
    Outcome.seq K Q .aborted s = Q .aborted s := rfl

section Rules
variable {W : World ι Op Ret S} {D : Discipline ι S} {i : ι} {s s' : S}

theorem Safe.stable {p : Prog Op Ret α} {Q : Outcome α → S → Prop} (h : Safe W D i p Q s)
    (hr : D.rely i s s') : Safe W D i p Q s' := by
  cases p with
  | pure a => exact fun t ht => h t (D.rely_trans hr ht)
  | panic => exact fun t ht => h t (D.rely_trans hr ht)
  | await op k => exact fun t ht => h t (D.rely_trans hr ht)

theorem Safe.mono {p : Prog Op Ret α} {Q Q' : Outcome α → S → Prop} (h : Safe W D i p Q s)
    (hQ : ∀ o t, D.inv t → Q o t → Q' o t) : Safe W D i p Q' s := by
  induction p generalizing s with
  | pure a => exact fun t ht hi => hQ _ t hi (h t ht hi)
  | panic => exact fun t ht hi => hQ _ t hi (h t ht hi)
  | await op k ih =>
    intro t ht hi
    refine ⟨fun r u hu => ?_, fun u hu => ?_⟩
    · obtain ⟨h1, h2, h3⟩ := (h t ht hi).1 r u hu
      exact ⟨h1, h2, ih r h3⟩
    · obtain ⟨h1, h2, h3⟩ := (h t ht hi).2 u hu
      exact ⟨h1, h2, hQ _ u h1 h3⟩

/-- A preorder that the environment and the task keep relates the start to the end. -/
theorem Safe.remember {p : Prog Op Ret α} {Q : Outcome α → S → Prop} (T : S → S → Prop)
    (htrans : ∀ {a b c}, T a b → T b c → T a c) (hrely : ∀ {a b}, D.rely i a b → T a b)
    (hguar : ∀ {a b}, D.inv a → D.guar i a b → T a b) {s₀ : S} (h₀ : T s₀ s)
    (h : Safe W D i p Q s) : Safe W D i p (fun o t => T s₀ t ∧ Q o t) s := by
  induction p generalizing s with
  | pure a => exact fun t ht hi => ⟨htrans h₀ (hrely ht), h t ht hi⟩
  | panic => exact fun t ht hi => ⟨htrans h₀ (hrely ht), h t ht hi⟩
  | await op k ih =>
    intro t ht hi
    have h₁ : T s₀ t := htrans h₀ (hrely ht)
    refine ⟨fun r u hu => ?_, fun u hu => ?_⟩
    · obtain ⟨hu1, hu2, hu3⟩ := (h t ht hi).1 r u hu
      exact ⟨hu1, hu2, ih r (htrans h₁ (hguar hi hu2)) hu3⟩
    · obtain ⟨hu1, hu2, hu3⟩ := (h t ht hi).2 u hu
      exact ⟨hu1, hu2, htrans h₁ (hguar hi hu2), hu3⟩

/-- **Sequencing.** -/
theorem Safe.bind {p : Prog Op Ret α} {f : α → Prog Op Ret β} {Q : Outcome β → S → Prop}
    (hi : D.inv s)
    (h : Safe W D i p (Outcome.seq (fun a t => Safe W D i (f a) Q t) Q) s) :
    Safe W D i (p.bind f) Q s := by
  induction p generalizing s with
  | pure a => exact h s (D.rely_refl i s) hi
  | panic => exact h
  | await op k ih =>
    intro t ht hti
    refine ⟨fun r u hu => ?_, fun u hu => (h t ht hti).2 u hu⟩
    obtain ⟨h1, h2, h3⟩ := (h t ht hti).1 r u hu
    exact ⟨h1, h2, ih r h1 h3⟩

/-- Sequencing after a callee whose specification is `Qp`. -/
theorem Safe.bind_of {p : Prog Op Ret α} {f : α → Prog Op Ret β} {Q : Outcome β → S → Prop}
    {Qp : Outcome α → S → Prop} (hi : D.inv s) (h : Safe W D i p Qp s)
    (hr : ∀ a t, D.inv t → Qp (.returned a) t → Safe W D i (f a) Q t)
    (hp : ∀ t, D.inv t → Qp .panicked t → Q .panicked t)
    (ha : ∀ t, D.inv t → Qp .aborted t → Q .aborted t) : Safe W D i (p.bind f) Q s := by
  refine Safe.bind hi (h.mono fun o t ht hq => ?_)
  cases o with
  | returned a => exact hr a t ht hq
  | panicked => exact hp t ht hq
  | aborted => exact ha t ht hq

/-- An invariant may be strengthened by what the guarantee keeps. -/
theorem Safe.assume (D' : Discipline ι S) {T : S → Prop} (hinv : ∀ s, D'.inv s ↔ D.inv s ∧ T s)
    (hrely : D'.rely = D.rely) (hguar : D'.guar = D.guar)
    (hT : ∀ {i s s'}, D.inv s → T s → D.guar i s s' → T s')
    {p : Prog Op Ret α} {Q : Outcome α → S → Prop} (h : Safe W D i p Q s) :
    Safe W D' i p Q s := by
  induction p generalizing s with
  | pure a => exact fun t ht hi => h t (hrely ▸ ht) ((hinv t).mp hi).1
  | panic => exact fun t ht hi => h t (hrely ▸ ht) ((hinv t).mp hi).1
  | await op k ih =>
    intro t ht hi
    obtain ⟨hit, hTt⟩ := (hinv t).mp hi
    obtain ⟨h1, h2⟩ := h t (hrely ▸ ht) hit
    refine ⟨fun r u hu => ?_, fun u hu => ?_⟩
    · obtain ⟨hu1, hu2, hu3⟩ := h1 r u hu
      exact ⟨(hinv u).mpr ⟨hu1, hT hit hTt hu2⟩, hguar ▸ hu2, ih r hu3⟩
    · obtain ⟨hu1, hu2, hu3⟩ := h2 u hu
      exact ⟨(hinv u).mpr ⟨hu1, hT hit hTt hu2⟩, hguar ▸ hu2, hu3⟩

/-- Where less may happen, a safe program is safe. -/
theorem Safe.within {W' : World ι Op Ret S} (hW : W'.Within W) {p : Prog Op Ret α}
    {Q : Outcome α → S → Prop} (h : Safe W D i p Q s) : Safe W' D i p Q s := by
  induction p generalizing s with
  | pure a => exact h
  | panic => exact h
  | await op k ih =>
    intro t ht hi
    refine ⟨fun r u hu => ?_, fun u hu => (h t ht hi).2 u (hW.cut hu)⟩
    obtain ⟨h1, h2, h3⟩ := (h t ht hi).1 r u (hW.exec hu)
    exact ⟨h1, h2, ih r h3⟩

/-- **A run of a safe program** keeps the invariant and ends as the postcondition says. -/
theorem Runs.sound {E : S → S → Prop} {p : Prog Op Ret α} {o : Outcome α}
    {Q : Outcome α → S → Prop} (hE : ∀ {a b}, D.inv a → E a b → D.inv b ∧ D.rely i a b)
    (hr : Runs W i E p s o s') (hi : D.inv s) (h : Safe W D i p Q s) : D.inv s' ∧ Q o s' := by
  induction hr with
  | returned a s => exact ⟨hi, h s (D.rely_refl i s) hi⟩
  | panicked s => exact ⟨hi, h s (D.rely_refl i s) hi⟩
  | aborted hc =>
    obtain ⟨h1, -, h3⟩ := (h _ (D.rely_refl i _) hi).2 _ hc
    exact ⟨h1, h3⟩
  | step he _ ih =>
    obtain ⟨h1, -, h3⟩ := (h _ (D.rely_refl i _) hi).1 _ _ he
    exact ih h1 h3
  | env he _ ih =>
    obtain ⟨h1, h2⟩ := hE hi he
    exact ih h1 (h.stable h2)

end Rules

/-! ### What holds when a program returns -/

/-- `R` holds if the program returns. -/
def Outcome.returns (R : α → S → Prop) : Outcome α → S → Prop
  | .returned a, s => R a s
  | _, _ => True

/-- `R` holds if the function returns without an error. -/
def Outcome.oks (R : α → S → Prop) : Outcome (Except ε α) → S → Prop :=
  Outcome.returns fun r s => ∀ a, r = .ok a → R a s

/-- The function returns without an error, and `R` holds. -/
def Outcome.succeeds (R : α → S → Prop) : Outcome (Except ε α) → S → Prop :=
  Outcome.returns fun r s => ∃ a, r = .ok a ∧ R a s

section Returns
variable {W : World ι Op Ret S} {D : Discipline ι S} {i : ι} {s : S}

theorem Safe.returned {a : α} {R : α → S → Prop} (h : ∀ t, D.rely i s t → D.inv t → R a t) :
    Safe W D i (.pure a) (Outcome.returns R) s := h

theorem Safe.failed {e : ε} {R : α → S → Prop} :
    Safe W D i (.pure (.error e)) (Outcome.oks R) s :=
  fun _ _ _ a ha => by cases ha

theorem Safe.panicked {R : α → S → Prop} : Safe W D i .panic (Outcome.returns R) s :=
  fun _ _ _ => trivial

/-- An operation that changes the state. -/
theorem Safe.act {op : Op} {k : Ret op → Prog Op Ret α} {R : α → S → Prop}
    (h : ∀ t, D.rely i s t → D.inv t →
      (∀ r u, W.exec i op t r u → D.inv u ∧ D.guar i t u ∧ Safe W D i (k r) (Outcome.returns R) u) ∧
        ∀ u, W.cut i op t u → D.inv u ∧ D.guar i t u) :
    Safe W D i (.await op k) (Outcome.returns R) s :=
  fun t ht hi => ⟨(h t ht hi).1, fun u hu =>
    ⟨((h t ht hi).2 u hu).1, ((h t ht hi).2 u hu).2, trivial⟩⟩

/-- An operation that leaves the state, with what it answers. -/
theorem Safe.ask {op : Op} {k : Ret op → Prog Op Ret α} {R : α → S → Prop}
    (hguar : ∀ t, D.guar i t t) (hexec : ∀ t r u, W.exec i op t r u → u = t)
    (hcut : ∀ t u, W.cut i op t u → u = t)
    (h : ∀ t r, D.rely i s t → D.inv t → W.exec i op t r t →
      Safe W D i (k r) (Outcome.returns R) t) :
    Safe W D i (.await op k) (Outcome.returns R) s := by
  refine Safe.act fun t ht hi => ⟨fun r u hu => ?_, fun u hu => ?_⟩
  · obtain rfl := hexec t r u hu
    exact ⟨hi, hguar u, h u r ht hi hu⟩
  · obtain rfl := hcut t u hu
    exact ⟨hi, hguar u⟩

theorem Safe.andThen {p : Prog Op Ret (Except ε α)} {f : α → Prog Op Ret (Except ε β)}
    {R : α → S → Prop} {R' : β → S → Prop} (hi : D.inv s) (hp : Safe W D i p (Outcome.oks R) s)
    (hf : ∀ a t, D.inv t → R a t → Safe W D i (f a) (Outcome.oks R') t) :
    Safe W D i (p.bind (Fallible.andThen f)) (Outcome.oks R') s := by
  refine Safe.bind_of hi hp (fun r t ht hr => ?_) (fun _ _ _ => trivial) (fun _ _ _ => trivial)
  cases r with
  | ok a => exact hf a t ht (hr a rfl)
  | error e => exact Safe.failed

theorem Safe.succeeded {a : α} {R : α → S → Prop} (h : ∀ t, D.rely i s t → D.inv t → R a t) :
    Safe W D i (.pure (.ok a) : Prog Op Ret (Except ε α)) (Outcome.succeeds R) s :=
  fun t ht hi => ⟨a, rfl, h t ht hi⟩

theorem Safe.andThen_succeeds {p : Prog Op Ret (Except ε α)} {f : α → Prog Op Ret (Except ε β)}
    {R : α → S → Prop} {R' : β → S → Prop} (hi : D.inv s)
    (hp : Safe W D i p (Outcome.succeeds R) s)
    (hf : ∀ a t, D.inv t → R a t → Safe W D i (f a) (Outcome.succeeds R') t) :
    Safe W D i (p.bind (Fallible.andThen f)) (Outcome.succeeds R') s := by
  refine Safe.bind_of hi hp (fun r t ht hr => ?_) (fun _ _ _ => trivial) (fun _ _ _ => trivial)
  obtain ⟨a, rfl, ha⟩ := hr
  exact hf a t ht ha

/-- Sequencing after a program of which `R` holds when it returns. -/
theorem Safe.bind_returns {p : Prog Op Ret α} {f : α → Prog Op Ret β} {R : α → S → Prop}
    {R' : β → S → Prop} (hi : D.inv s) (hp : Safe W D i p (Outcome.returns R) s)
    (hf : ∀ a t, D.inv t → R a t → Safe W D i (f a) (Outcome.returns R') t) :
    Safe W D i (p.bind f) (Outcome.returns R') s :=
  Safe.bind_of hi hp hf (fun _ _ _ => trivial) fun _ _ _ => trivial

end Returns

/-! ### One task alone -/

/-- The discipline of a world with a single task. -/
def Discipline.alone [Subsingleton ι] : Discipline ι S where
  inv _ := True
  rely _ s s' := s = s'
  guar _ _ _ := True
  rely_refl _ _ := rfl
  rely_trans h h' := h.trans h'
  compat h := (h (Subsingleton.elim _ _)).elim

/-- The weakest precondition of a program that runs alone. -/
abbrev Wp (W : World Unit Op Ret S) (p : Prog Op Ret α) (Q : Outcome α → S → Prop) (s : S) : Prop :=
  Safe W .alone () p Q s

section Alone
variable {W : World Unit Op Ret S} {s s' : S}

@[simp] theorem wp_pure {a : α} {Q : Outcome α → S → Prop} :
    Wp W (.pure a) Q s ↔ Q (.returned a) s :=
  ⟨fun h => h s rfl trivial, fun h _ ht _ => ht ▸ h⟩

@[simp] theorem wp_panic {Q : Outcome α → S → Prop} : Wp W .panic Q s ↔ Q .panicked s :=
  ⟨fun h => h s rfl trivial, fun h _ ht _ => ht ▸ h⟩

theorem wp_await {op : Op} {k : Ret op → Prog Op Ret α} {Q : Outcome α → S → Prop} :
    Wp W (.await op k) Q s ↔
      (∀ r t, W.exec () op s r t → Wp W (k r) Q t) ∧ ∀ t, W.cut () op s t → Q .aborted t := by
  constructor
  · intro h
    obtain ⟨h1, h2⟩ := h s rfl trivial
    exact ⟨fun r t ht => (h1 r t ht).2.2, fun t ht => (h2 t ht).2.2⟩
  · rintro ⟨h1, h2⟩ t rfl -
    exact ⟨fun r u hu => ⟨trivial, trivial, h1 r u hu⟩, fun u hu => ⟨trivial, trivial, h2 u hu⟩⟩

theorem wp_bind {p : Prog Op Ret α} {f : α → Prog Op Ret β} {Q : Outcome β → S → Prop} :
    Wp W p (Outcome.seq (fun a t => Wp W (f a) Q t) Q) s → Wp W (p.bind f) Q s :=
  Safe.bind trivial

/-- A run alone ends as the weakest precondition says. -/
theorem Runs.wp {p : Prog Op Ret α} {o : Outcome α} {Q : Outcome α → S → Prop}
    (hr : Runs W () Alone p s o s') (h : Wp W p Q s) : Q o s' :=
  (hr.sound (fun _ he => he.elim) trivial h).2

/-- Where no task is dropped no program is. -/
theorem Wp.not_aborted (hcut : ∀ op s t, ¬ W.cut () op s t) {p : Prog Op Ret α}
    {Q : Outcome α → S → Prop} (h : Wp W p Q s) : Wp W p (fun o t => Q o t ∧ o ≠ .aborted) s := by
  induction p generalizing s with
  | pure a => exact wp_pure.mpr ⟨wp_pure.mp h, fun ho => by cases ho⟩
  | panic => exact wp_panic.mpr ⟨wp_panic.mp h, fun ho => by cases ho⟩
  | await op k ih =>
    refine wp_await.mpr ⟨fun r t ht => ih r ((wp_await.mp h).1 r t ht), fun t ht => ?_⟩
    exact absurd ht (hcut op s t)

end Alone

/-! ### Stop conditions -/

/-- The postcondition of a function that may stop at any point: `R` when it returns a value, and `P`
when it returns an error, panics or is dropped. -/
def Outcome.orStops (R : α → S → Prop) (P : S → Prop) : Outcome (Except ε α) → S → Prop
  | .returned (.ok a), s => R a s
  | _, s => P s

section Stops
variable {W : World Unit Op Ret S} {s : S} {R : α → S → Prop} {P : S → Prop}

theorem wp_succeeded {a : α} :
    Wp W (.pure (.ok a) : Prog Op Ret (Except ε α)) (Outcome.orStops R P) s ↔ R a s := wp_pure

theorem wp_failed {e : ε} :
    Wp W (.pure (.error e) : Prog Op Ret (Except ε α)) (Outcome.orStops R P) s ↔ P s := wp_pure

/-- An operation, with the stop condition at it. -/
theorem wp_op {op : Op} {k : Ret op → Prog Op Ret (Except ε α)}
    (h : ∀ r t, W.exec () op s r t → Wp W (k r) (Outcome.orStops R P) t)
    (hcut : ∀ t, W.cut () op s t → P t) : Wp W (.await op k) (Outcome.orStops R P) s :=
  wp_await.mpr ⟨h, hcut⟩

theorem wp_andThen {p : Prog Op Ret (Except ε α)} {f : α → Prog Op Ret (Except ε β)}
    {R' : β → S → Prop} (hp : Wp W p (Outcome.orStops R P) s)
    (hf : ∀ a t, R a t → Wp W (f a) (Outcome.orStops R' P) t) :
    Wp W (p.bind (Fallible.andThen f)) (Outcome.orStops R' P) s := by
  refine wp_bind (hp.mono fun o t _ ho => ?_)
  rcases o with (e | a) | _ | _
  · exact (wp_failed (W := W) (R := R')).mpr ho
  · exact hf a t ho
  · exact ho
  · exact ho

end Stops

/-! ### Total correctness -/

/-- A task alone may return `a`. -/
def Returns (W : World ι Op Ret S) (i : ι) (p : Prog Op Ret α) (s : S) (a : α) : Prop :=
  ∃ s', Runs W i Alone p s (.returned a) s'

/-- **Total correctness** of a task that runs alone: each operation that it awaits has a result, and
it ends as `Q` says. -/
def Ensures (W : World ι Op Ret S) (i : ι) : Prog Op Ret α → (Outcome α → S → Prop) → S → Prop
  | .pure a, Q, s => Q (.returned a) s
  | .panic, Q, s => Q .panicked s
  | .await op k, Q, s => (∃ r s', W.exec i op s r s') ∧
      (∀ r s', W.exec i op s r s' → Ensures W i (k r) Q s') ∧ ∀ s', W.cut i op s s' → Q .aborted s'

section Ensures
variable {W : World ι Op Ret S} {i : ι} {s s' : S}

theorem Ensures.mono {p : Prog Op Ret α} {Q Q' : Outcome α → S → Prop} (h : Ensures W i p Q s)
    (hQ : ∀ o t, Q o t → Q' o t) : Ensures W i p Q' s := by
  induction p generalizing s with
  | pure a => exact hQ _ _ h
  | panic => exact hQ _ _ h
  | await op k ih =>
    obtain ⟨h1, h2, h3⟩ := h
    exact ⟨h1, fun r t ht => ih r (h2 r t ht), fun t ht => hQ _ _ (h3 t ht)⟩

theorem Ensures.bind {p : Prog Op Ret α} {f : α → Prog Op Ret β} {Q : Outcome β → S → Prop}
    (h : Ensures W i p (Outcome.seq (fun a t => Ensures W i (f a) Q t) Q) s) :
    Ensures W i (p.bind f) Q s := by
  induction p generalizing s with
  | pure a => exact h
  | panic => exact h
  | await op k ih =>
    obtain ⟨h1, h2, h3⟩ := h
    exact ⟨h1, fun r t ht => ih r (h2 r t ht), h3⟩

/-- An operation with one result, at which the task is not dropped. -/
theorem Ensures.next {op : Op} {k : Ret op → Prog Op Ret α} {Q : Outcome α → S → Prop} (r : Ret op)
    (s' : S) (he : W.exec i op s r s') (hdet : ∀ r' t, W.exec i op s r' t → r' = r ∧ t = s')
    (hcut : ∀ t, ¬ W.cut i op s t) (h : Ensures W i (k r) Q s') :
    Ensures W i (.await op k) Q s := by
  refine ⟨⟨r, s', he⟩, fun r' t ht => ?_, fun t ht => (hcut t ht).elim⟩
  obtain ⟨rfl, rfl⟩ := hdet r' t ht
  exact h

/-- A task that ends has a run in which it is not dropped. -/
theorem Ensures.exists_run {p : Prog Op Ret α} {Q : Outcome α → S → Prop} (h : Ensures W i p Q s)
    {E : S → S → Prop} : ∃ o t, Runs W i E p s o t ∧ o ≠ .aborted ∧ Q o t := by
  induction p generalizing s with
  | pure a => exact ⟨_, s, .returned a s, nofun, h⟩
  | panic => exact ⟨_, s, .panicked s, nofun, h⟩
  | await op k ih =>
    obtain ⟨⟨r, t, ht⟩, h2, -⟩ := h
    obtain ⟨o, u, hu, ho, hQ⟩ := ih r (h2 r t ht)
    exact ⟨o, u, .step ht hu, ho, hQ⟩

/-- Every run of a task alone ends as its total specification says. -/
theorem Runs.ensures {p : Prog Op Ret α} {o : Outcome α} {Q : Outcome α → S → Prop}
    (hr : Runs W i Alone p s o s') (h : Ensures W i p Q s) : Q o s' := by
  induction hr with
  | returned a s => exact h
  | panicked s => exact h
  | aborted hc => exact h.2.2 _ hc
  | step he _ ih => exact ih (h.2.1 _ _ he)
  | env he _ _ => exact he.elim

/-- The function returns a value exactly if `G`, and `R` holds then; it may be dropped. -/
def Outcome.oksIff (G : Prop) (R : α → S → Prop) : Outcome (Except ε α) → S → Prop
  | .returned (.ok a), s => G ∧ R a s
  | .aborted, _ => True
  | _, _ => ¬ G

theorem Ensures.oks_mono {p : Prog Op Ret (Except ε α)} {G G' : Prop} {R R' : α → S → Prop}
    (h : Ensures W i p (Outcome.oksIff G R) s) (hG : G' → G)
    (hR : ∀ a t, G → R a t → G' ∧ R' a t) : Ensures W i p (Outcome.oksIff G' R') s := by
  refine h.mono fun o t ho => ?_
  rcases o with (e | a) | _ | _
  · exact fun h => ho (hG h)
  · exact hR a t ho.1 ho.2
  · exact fun h => ho (hG h)
  · trivial

theorem Ensures.andThen {p : Prog Op Ret (Except ε α)} {f : α → Prog Op Ret (Except ε β)}
    {G G' : Prop} {R : α → S → Prop} {R' : β → S → Prop}
    (hp : Ensures W i p (Outcome.oksIff G R) s) (hG : G' → G)
    (hf : ∀ a t, G → R a t → Ensures W i (f a) (Outcome.oksIff G' R') t) :
    Ensures W i (p.bind (Fallible.andThen f)) (Outcome.oksIff G' R') s := by
  refine Ensures.bind (hp.mono fun o t ho => ?_)
  rcases o with (e | a) | _ | _
  · exact fun h => ho (hG h)
  · exact hf a t ho.1 ho.2
  · exact fun h => ho (hG h)
  · trivial

/-- What a function that ends as `oksIff` says may return. -/
theorem Ensures.ok_of_returns {p : Prog Op Ret (Except ε α)} {G : Prop} {R : α → S → Prop}
    (h : Ensures W i p (Outcome.oksIff G R) s) {r : Except ε α} (hr : Returns W i p s r) (hG : G) :
    ∃ a s', r = .ok a ∧ R a s' := by
  obtain ⟨s', hrun⟩ := hr
  have hQ := hrun.ensures h
  rcases r with e | a
  · exact absurd hG hQ
  · exact ⟨a, s', rfl, hQ.2⟩

theorem Ensures.of_returns_ok {p : Prog Op Ret (Except ε α)} {G : Prop} {R : α → S → Prop}
    (h : Ensures W i p (Outcome.oksIff G R) s) {a : α} (hr : Returns W i p s (.ok a)) :
    G ∧ ∃ s', R a s' := by
  obtain ⟨s', hrun⟩ := hr
  have hQ := hrun.ensures h
  exact ⟨hQ.1, s', hQ.2⟩

/-- It may return. -/
theorem Ensures.exists_returns {p : Prog Op Ret (Except ε α)} {G : Prop} {R : α → S → Prop}
    (h : Ensures W i p (Outcome.oksIff G R) s) (hG : G) : ∃ a, Returns W i p s (.ok a) := by
  obtain ⟨o, t, hrun, ho, hQ⟩ := h.exists_run (E := Alone)
  rcases o with (e | a) | _ | _
  · exact absurd hG hQ
  · exact ⟨a, t, hrun⟩
  · exact absurd hG hQ
  · exact absurd rfl ho

end Ensures

/-! ### Programs by the answers they get -/

/-- The program returns `a` if its operations are answered as `l` says. -/
inductive Yields : Prog Op Ret α → List (Σ op, Ret op) → α → Prop
  | pure (a : α) : Yields (.pure a) [] a
  | await {op : Op} {k : Ret op → Prog Op Ret α} {r : Ret op} {l : List (Σ op, Ret op)} {a : α} :
      Yields (k r) l a → Yields (.await op k) (⟨op, r⟩ :: l) a

/-! ### Programs by their operations -/

/-- Every operation that the program may await is in `C`. -/
def Prog.Uses (C : Op → Prop) : Prog Op Ret α → Prop
  | .pure _ => True
  | .panic => True
  | .await op k => C op ∧ ∀ r, (k r).Uses C

section Uses
variable {C : Op → Prop} {W : World ι Op Ret S} {i : ι} {s s' t : S}

@[simp] theorem Prog.uses_pure (a : α) : (Prog.pure a : Prog Op Ret α).Uses C := trivial

@[simp] theorem Prog.uses_panic : (Prog.panic : Prog Op Ret α).Uses C := trivial

@[simp] theorem Prog.uses_await (op : Op) (k : Ret op → Prog Op Ret α) :
    (Prog.await op k).Uses C ↔ C op ∧ ∀ r, (k r).Uses C := Iff.rfl

theorem Prog.Uses.mono {C' : Op → Prop} (hC : ∀ op, C op → C' op) {p : Prog Op Ret α}
    (h : p.Uses C) : p.Uses C' := by
  induction p with
  | pure a => trivial
  | panic => trivial
  | await op k ih => exact ⟨hC op h.1, fun r => ih r (h.2 r)⟩

theorem Prog.Uses.and {C' : Op → Prop} {p : Prog Op Ret α} (h : p.Uses C) (h' : p.Uses C') :
    p.Uses fun op => C op ∧ C' op := by
  induction p with
  | pure a => trivial
  | panic => trivial
  | await op k ih => exact ⟨⟨h.1, h'.1⟩, fun r => ih r (h.2 r) (h'.2 r)⟩

theorem Prog.Uses.bind {p : Prog Op Ret α} {f : α → Prog Op Ret β} (h : p.Uses C)
    (hf : ∀ a, (f a).Uses C) : (p.bind f).Uses C := by
  induction p with
  | pure a => exact hf a
  | panic => trivial
  | await op k ih => exact ⟨h.1, fun r => ih r (h.2 r)⟩

theorem Prog.Uses.andThen {p : Prog Op Ret (Except ε α)} {f : α → Prog Op Ret (Except ε β)}
    (h : p.Uses C) (hf : ∀ a, (f a).Uses C) : (p.bind (Fallible.andThen f)).Uses C := by
  refine h.bind fun r => ?_
  cases r with
  | ok a => exact hf a
  | error e => trivial

/-- What the operations of `C` keep, a run of a program of them keeps. -/
theorem Runs.keeps {I : S → Prop}
    (hexec : ∀ op s r s', C op → I s → W.exec i op s r s' → I s')
    (hcut : ∀ op s s', C op → I s → W.cut i op s s' → I s') {p : Prog Op Ret α} {o : Outcome α}
    (hr : Runs W i Alone p s o s') (h : p.Uses C) (hs : I s) : I s' := by
  induction hr with
  | returned a s => exact hs
  | panicked s => exact hs
  | aborted hc => exact hcut _ _ _ h.1 hs hc
  | step he _ ih => exact ih (h.2 _) (hexec _ _ _ _ h.1 hs he)
  | env he _ _ => exact he.elim

/-- **Simulation**: if the operations of `C` have the same results in related states, then so has a
program of them. -/
theorem Runs.simulate {B : S → S → Prop}
    (hexec : ∀ op s r s' t, C op → B s t → W.exec i op s r s' → ∃ t', W.exec i op t r t' ∧ B s' t')
    {p : Prog Op Ret α} {a : α} {o : Outcome α} (hr : Runs W i Alone p s o s')
    (ho : o = .returned a) (h : p.Uses C) (hB : B s t) :
    ∃ t', Runs W i Alone p t o t' ∧ B s' t' := by
  induction hr generalizing t with
  | returned a s => exact ⟨t, .returned a t, hB⟩
  | panicked s => cases ho
  | aborted hc => cases ho
  | step he _ ih =>
    obtain ⟨t₁, ht₁, hB₁⟩ := hexec _ _ _ _ _ h.1 hB he
    obtain ⟨t', ht', hB'⟩ := ih ho (h.2 _) hB₁
    exact ⟨t', .step ht₁ ht', hB'⟩
  | env he _ _ => exact he.elim

/-- A program is safe if its operations keep the invariant and the guarantee. -/
theorem Safe.of_uses {D : Discipline ι S} {s : S}
    (hexec : ∀ op t r u, C op → D.inv t → W.exec i op t r u → D.inv u ∧ D.guar i t u)
    (hcut : ∀ op t u, C op → D.inv t → W.cut i op t u → D.inv u ∧ D.guar i t u)
    {p : Prog Op Ret α} (h : p.Uses C) : Safe W D i p (fun _ _ => True) s := by
  induction p generalizing s with
  | pure a => exact fun _ _ _ => trivial
  | panic => exact fun _ _ _ => trivial
  | await op k ih =>
    intro t _ hi
    refine ⟨fun r u hu => ?_, fun u hu => ?_⟩
    · obtain ⟨hiu, hg⟩ := hexec op t r u h.1 hi hu
      exact ⟨hiu, hg, ih r (h.2 r)⟩
    · obtain ⟨hiu, hg⟩ := hcut op t u h.1 hi hu
      exact ⟨hiu, hg, trivial⟩

/-- **Projection**: what a program ensures in a world it does in every world that, seen through `f`,
does no more with its operations. -/
theorem Wp.of_ensures {T : Type} {V : World Unit Op Ret T} (f : T → S) {j : ι}
    (hexec : ∀ op t r u, C op → V.exec () op t r u → W.exec j op (f t) r (f u))
    (hcut : ∀ op t u, C op → V.cut () op t u → W.cut j op (f t) (f u))
    {p : Prog Op Ret α} {Q : Outcome α → S → Prop} {t : T} (h : p.Uses C)
    (hp : Ensures W j p Q (f t)) : Wp V p (fun o u => Q o (f u)) t := by
  induction p generalizing t with
  | pure a => exact wp_pure.mpr hp
  | panic => exact wp_panic.mpr hp
  | await op k ih =>
    obtain ⟨-, h2, h3⟩ := hp
    refine wp_await.mpr ⟨fun r u hu => ?_, fun u hu => ?_⟩
    · exact ih r (h.2 r) (h2 r (f u) (hexec op t r u h.1 hu))
    · exact h3 (f u) (hcut op t u h.1 hu)

end Uses

/-- Related states give the same results. -/
theorem returns_congr {W : World ι Op Ret S} {i : ι} {C : Op → Prop} {B : S → S → Prop}
    (hsymm : ∀ {s t}, B s t → B t s)
    (hexec : ∀ op s r s' t, C op → B s t → W.exec i op s r s' → ∃ t', W.exec i op t r t' ∧ B s' t')
    {p : Prog Op Ret α} {s t : S} (h : p.Uses C) (hB : B s t) (a : α) :
    Returns W i p s a ↔ Returns W i p t a := by
  constructor
  · rintro ⟨s', hr⟩
    obtain ⟨t', ht', -⟩ := hr.simulate hexec rfl h hB
    exact ⟨t', ht'⟩
  · rintro ⟨t', hr⟩
    obtain ⟨s', hs', -⟩ := hr.simulate hexec rfl h (hsymm hB)
    exact ⟨s', hs'⟩

end Vendimint.Async
