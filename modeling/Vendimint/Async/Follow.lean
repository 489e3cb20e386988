import Vendimint.Async.Pool

/-! # Following one task

What a task reaches if it stays and its operations answer as they should, whatever the other tasks do
meanwhile.

* `Attended`: steps over which a task stays, and its operations answer as `G` says.
* `attending`: the world of the task then: it may take for granted what every task guarantees.
* `Good.attended`: **a task that is safe in that world ends as it says**.
* `TasksUse.steps`: tasks that start as programs over some operations stay so. -/

namespace Vendimint.Async

variable {ι Op : Type} {Ret : Op → Type} {α β ε S : Type} [DecidableEq ι]

/-- A step over which the task `i` stays, and its operations answer as `G` says. -/
structure Attends (Y : System ι Op Ret α S) (i : ι) (G : (op : Op) → S → Ret op → S → Prop)
    (P P' : Pool ι Op Ret α S) : Prop where
  step : Step (Y.given (fun j op s r s' => j = i → G op s r s') fun _ _ _ _ => True) P P'
  stays : P'.task i ≠ none

/-- Any number of such steps. -/
abbrev Attended (Y : System ι Op Ret α S) (i : ι) (G : (op : Op) → S → Ret op → S → Prop) :=
  Relation.ReflTransGen (Attends Y i G)

/-- The world of a task that stays: its operations answer as `G` says, and keep the discipline. -/
def attending {Y : System ι Op Ret α S} (L : RelyGuarantee Y)
    (G : (op : Op) → S → Ret op → S → Prop) : World ι Op Ret S where
  exec i op s r s' := Y.exec i op s r s' ∧ G op s r s' ∧ L.inv s' ∧ L.guar i s s'
  cut _ _ _ _ := False

section Following
variable {Y : System ι Op Ret α S} {L : RelyGuarantee Y} {i : ι}
  {G : (op : Op) → S → Ret op → S → Prop} {P P' : Pool ι Op Ret α S} {s : S}

theorem Attends.steps (h : Attends Y i G P P') : Step Y P P' := by
  have hwithin : (Y.given (fun j op s r s' => j = i → G op s r s')
      fun _ _ _ _ => True).toWorld.Within Y.toWorld := ⟨fun h => h.1, fun h => h.1⟩
  exact h.step.mono hwithin id id

theorem steps_of_attended (h : Attended Y i G P P') : Steps Y P P' :=
  Relation.ReflTransGen.mono (fun _ _ => Attends.steps) _ _ h

/-! ### Rules -/

omit [DecidableEq ι] in
/-- An operation of a task that stays. -/
theorem Safe.attend {op : Op} {k : Ret op → Prog Op Ret β} {Q : Outcome β → S → Prop}
    (h : ∀ t r u, L.rely i s t → L.inv t → Y.exec i op t r u → G op t r u → L.inv u →
      L.guar i t u → Safe (attending L G) L.toDiscipline i (k r) Q u) :
    Safe (attending L G) L.toDiscipline i (.await op k) Q s :=
  fun t ht hi => ⟨fun r u hu => ⟨hu.2.2.1, hu.2.2.2, h t r u ht hi hu.1 hu.2.1 hu.2.2.1 hu.2.2.2⟩,
    fun _ hc => hc.elim⟩

section Mono
variable {W : World ι Op Ret S} {D : Discipline ι S}

omit [DecidableEq ι] in
theorem Safe.returns_mono {p : Prog Op Ret β} {R R' : β → S → Prop}
    (hp : Safe W D i p (Outcome.returns R) s) (hR : ∀ a t, R a t → R' a t) :
    Safe W D i p (Outcome.returns R') s := by
  refine hp.mono fun o t _ ho => ?_
  cases o with
  | returned a => exact hR a t ho
  | panicked => trivial
  | aborted => trivial

omit [DecidableEq ι] in
theorem Safe.succeeds_mono {p : Prog Op Ret (Except ε β)} {R R' : β → S → Prop}
    (hp : Safe W D i p (Outcome.succeeds R) s) (hR : ∀ a t, R a t → R' a t) :
    Safe W D i p (Outcome.succeeds R') s :=
  hp.returns_mono fun _ t ⟨a, hr, ha⟩ => ⟨a, hr, hR a t ha⟩

end Mono

variable {K : S → Prop} (hrely : ∀ {t u}, L.rely i t u → K t → K u)
  (hguar : ∀ {t u}, L.guar i t u → K t → K u)
include hrely hguar

omit [DecidableEq ι] in
/-- What no task changes stays through a program. -/
theorem Safe.keeping {p : Prog Op Ret (Except ε β)} {R : β → S → Prop} (hK : K s)
    (hp : Safe (attending L G) L.toDiscipline i p (Outcome.succeeds R) s) :
    Safe (attending L G) L.toDiscipline i p (Outcome.succeeds fun a t => K t ∧ R a t) s := by
  refine (hp.remember (fun t u => K t → K u) (fun h h' => h' ∘ h) hrely (fun _ => hguar) id).mono ?_
  intro o t _ ht
  cases o with
  | returned r =>
    obtain ⟨a, ha, hR⟩ := ht.2
    exact ⟨a, ha, ht.1 hK, hR⟩
  | panicked => trivial
  | aborted => trivial

omit [DecidableEq ι] in
/-- The same, of any program. -/
theorem safe_kept (p : Prog Op Ret β) (hK : K s) :
    Safe (attending L G) L.toDiscipline i p (Outcome.returns fun _ => K) s := by
  induction p generalizing s with
  | pure a => exact fun t ht _ => hrely ht hK
  | panic => exact fun _ _ _ => trivial
  | await op k ih =>
    exact .attend fun t r u ht _ _ _ _ hg => ih r (hguar hg (hrely ht hK))

omit hrely hguar

/-! ### From the pool to the task -/

/-- One step of the pool. -/
theorem Attends.safe {p : Prog Op Ret α} {Q : Outcome α → S → Prop} (hs : Attends Y i G P P')
    (h : Good L P) (hi : P.task i = some p) (hp : Safe (attending L G) L.toDiscipline i p Q P.st) :
    ∃ q, P'.task i = some q ∧ Safe (attending L G) L.toDiscipline i q Q P'.st := by
  have hgood := good_step h hs.steps
  obtain ⟨hstep, hstays⟩ := hs
  cases hstep with
  | @run j op k r s' hj he =>
    have hguar := h.guar hj he.1
    by_cases hij : i = j
    · subst hij
      obtain rfl := Option.some.inj (hi.symm.trans hj)
      have hnext := ((hp P.st (L.rely_refl i _) h.1).1 r s' ⟨he.1, he.2 rfl, hgood.1, hguar⟩).2.2
      exact ⟨k r, Function.update_self .., hnext⟩
    · refine ⟨p, (Function.update_of_ne hij ..).trans hi, hp.stable ?_⟩
      exact L.compat hij h.1 hgood.1 hguar
  | @abort j op k s' hj hc =>
    by_cases hij : i = j
    · subst hij
      exact absurd (Function.update_self ..) hstays
    · refine ⟨p, (Function.update_of_ne hij ..).trans hi, hp.stable ?_⟩
      exact L.compat hij h.1 hgood.1 ((h.2 j _ hj P.st (L.rely_refl j _) h.1).2 s' hc.1).2.1
  | @spawn j q s' hj hsp =>
    have hij : i ≠ j := by
      rintro rfl
      rw [hi] at hj
      cases hj
    refine ⟨p, (Function.update_of_ne hij ..).trans hi, hp.stable ?_⟩
    exact (L.spawn_ok h.1 hsp).2.1 i hij
  | @env s' dead he =>
    have hlive : dead i = false := by
      by_contra hd
      rw [Bool.not_eq_false] at hd
      exact hstays (if_pos hd)
    refine ⟨p, ?_, hp.stable ((L.env_ok h.1 he).2 i hlive)⟩
    simp [hlive, hi]

/-- **A task that stays is safe** as long as its operations answer as they should. -/
theorem Good.attended {p : Prog Op Ret α} {Q : Outcome α → S → Prop} (h : Good L P)
    (hi : P.task i = some p) (hp : Safe (attending L G) L.toDiscipline i p Q P.st)
    (hs : Attended Y i G P P') :
    ∃ q, P'.task i = some q ∧ Safe (attending L G) L.toDiscipline i q Q P'.st := by
  induction hs with
  | refl => exact ⟨p, hi, hp⟩
  | tail hsteps hstep ih =>
    obtain ⟨q, hq, hsafe⟩ := ih
    exact hstep.safe (good_steps h (steps_of_attended hsteps)) hq hsafe

/-- What holds when it has returned. -/
theorem Good.attended_returned {p : Prog Op Ret α} {R : α → S → Prop} (h : Good L P)
    (hi : P.task i = some p)
    (hp : Safe (attending L G) L.toDiscipline i p (Outcome.returns R) P.st)
    (hs : Attended Y i G P P') {a : α} (ha : P'.task i = some (.pure a)) : R a P'.st := by
  obtain ⟨q, hq, hsafe⟩ := h.attended hi hp hs
  obtain rfl := Option.some.inj (hq.symm.trans ha)
  exact hsafe P'.st (L.rely_refl i _) (good_steps h (steps_of_attended hs)).1

end Following

/-! ### What the tasks of a pool may do -/

/-- Every task of the pool is a program over its operations. -/
def TasksUse (C : ι → Op → Prop) (P : Pool ι Op Ret α S) : Prop :=
  ∀ i p, P.task i = some p → p.Uses (C i)

/-- Tasks that start as such programs stay so. -/
theorem TasksUse.steps {Y : System ι Op Ret α S} {C : ι → Op → Prop} {P P' : Pool ι Op Ret α S}
    (hspawn : ∀ {i p s s'}, Y.spawn i p s s' → p.Uses (C i)) (h : TasksUse C P) (hs : Steps Y P P') :
    TasksUse C P' := by
  have hupdate : ∀ {Q : Pool ι Op Ret α S} {i : ι} {q : Option (Prog Op Ret α)} {s : S},
      TasksUse C Q → (∀ p, q = some p → p.Uses (C i)) →
        TasksUse C ⟨s, Function.update Q.task i q⟩ := by
    intro Q i q s hQ hq j p hj
    have hj' : Function.update Q.task i q j = some p := hj
    by_cases hji : j = i
    · subst hji
      rw [Function.update_self] at hj'
      exact hq p hj'
    · rw [Function.update_of_ne hji] at hj'
      exact hQ j p hj'
  induction hs with
  | refl => exact h
  | tail _ hstep ih =>
    cases hstep with
    | @run i op k r s' hi _ =>
      refine hupdate ih fun p hp => ?_
      obtain rfl := Option.some.inj hp
      exact (ih i _ hi).2 r
    | abort => exact hupdate ih fun p hp => by cases hp
    | spawn _ hsp =>
      refine hupdate ih fun p hp => ?_
      obtain rfl := Option.some.inj hp
      exact hspawn hsp
    | @env s' dead _ =>
      intro j p hj
      have hlive : (if dead j then none else _) = some p := hj
      split_ifs at hlive
      exact ih j p hlive

/-! ### Runs of one task -/

/-- **From a run to steps**: a run of one task alone, over which it stays. -/
theorem attended_of_runs {Y : System ι Op Ret α S} {i : ι}
    {G : (op : Op) → S → Ret op → S → Prop} {W : World ι Op Ret S}
    (hexec : ∀ {op s r s'}, W.exec i op s r s' → Y.exec i op s r s' ∧ G op s r s')
    {p : Prog Op Ret α} {s s' : S} {a : α} {o : Outcome α} (hr : Runs W i Alone p s o s')
    (ho : o = .returned a) : ∀ {f : ι → Option (Prog Op Ret α)}, f i = some p →
      Attended Y i G ⟨s, f⟩ ⟨s', Function.update f i (some (.pure a))⟩ := by
  induction hr with
  | returned b s =>
    intro f hf
    obtain rfl := Outcome.returned.inj ho
    rw [← hf, Function.update_eq_self]
  | panicked s => cases ho
  | aborted hc => cases ho
  | @step op k s s₁ s₂ r o he _ ih =>
    intro f hf
    have h1 : Attends Y i G ⟨s, f⟩ ⟨s₁, Function.update f i (some (k r))⟩ := by
      refine ⟨.run hf ⟨(hexec he).1, fun _ => (hexec he).2⟩, ?_⟩
      simp
    have h2 := ih ho (f := Function.update f i (some (k r))) (Function.update_self ..)
    rw [Function.update_idem] at h2
    exact .head h1 h2
  | env he _ _ => exact he.elim

end Vendimint.Async
