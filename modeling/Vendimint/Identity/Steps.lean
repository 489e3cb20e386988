import Vendimint.Identity.World

/-! # What the tasks of a machine do to its directory

A step is `Faithful` if it neither replaces what is completely stored nor uses anything else in its
place. The discipline: every step of a task is faithful; a machine that is starting is alone; a call
that holds the lock is the only one that changes the owner; and no ticket is stored while a task is on
its way to create a document. -/

namespace Vendimint.Identity

open Vendimint.Store Vendimint.Async

/-! ### Faithful steps -/

/-- **A faithful step**: a secret key, an owner or a ticket that is completely stored stays, and it is
what the step uses, if it uses any. -/
structure Faithful (J : Serde) (s s' : State) : Prop where
  key : ∀ k, storedKey s = some k → storedKey s' = some k ∧ s'.generated = s.generated ∧
    (s'.keys = s.keys ∨ s'.keys = k :: s.keys)
  owner : ∀ M, storedOwner J s = some M → storedOwner J s' = some M ∧
    (s.running = false → s'.running = true → s'.owner = some M)
  doc : ∀ t, storedTicket J s = some t → storedTicket J s' = some t ∧ s'.docs = s.docs ∧
    (s'.returned = s.returned ∨ s'.returned = t.capability.id :: s.returned)

/-- The document of the machine is `d`. -/
def Stored (J : Serde) (s : State) (d : NamespaceId) : Prop :=
  ∃ t, storedTicket J s = some t ∧ t.capability.id = d

/-! ### The discipline -/

/-- The invariant. -/
structure Inv (J : Serde) (s : State) : Prop where
  lock : ∀ i, s.lock = some i → i ∈ s.begun
  synced : s.running = true → s.lock = none → ∀ M, storedOwner J s = some M → s.owner = some M
  creating : s.creating = [] ∨ (∃ i, s.creating = [i]) ∧ storedTicket J s = none
  one : ∀ d, d ∈ s.returned ∨ d ∈ s.used → Stored J s d

/-- What a task relies on. -/
structure Relies (J : Serde) (i : TaskId) (s s' : State) : Prop where
  begun : s.begun ⊆ s'.begun
  doc : ∀ d, Stored J s d → Stored J s' d
  started : ∀ n, i = .start n → s.starter = some n → s.running = false →
    s'.starter = some n ∧ s'.running = false ∧ storedKey s' = storedKey s ∧
      storedOwner J s' = storedOwner J s
  running : s.running = true → s'.running = true
  creating : i ∈ s.creating → i ∈ s'.creating
  held : s.running = true → s.lock = some i →
    s'.lock = some i ∧ s'.owner = s.owner ∧ storedOwner J s' = storedOwner J s
  free : s.lock ≠ some i → s'.lock ≠ some i

/-- What a call does to the other tasks. -/
structure CallGuards (J : Serde) (i : TaskId) (s s' : State) : Prop where
  before : s.running = true
  after : s'.running = true
  creating : ∀ j, j ≠ i → j ∈ s.creating → j ∈ s'.creating
  held : ∀ j, j ≠ i → s.lock = some j →
    s'.lock = some j ∧ s'.owner = s.owner ∧ storedOwner J s' = storedOwner J s
  free : ∀ j, j ≠ i → s'.lock = some j → s.lock = some j

/-- What a task guarantees. -/
structure Guards (J : Serde) (i : TaskId) (s s' : State) : Prop where
  faithful : Faithful J s s'
  begun : s.begun ⊆ s'.begun
  start : ∀ n, i = .start n → s.starter = some n ∧ s.running = false ∧ s'.lock = s.lock ∧
    s'.creating = s.creating
  call : ∀ n, i = .call n → CallGuards J i s s'

section Laws
variable {J : Serde} {i j : TaskId} {s s' s'' : State}

theorem Faithful.refl (J : Serde) (s : State) : Faithful J s s :=
  ⟨fun _ h => ⟨h, rfl, Or.inl rfl⟩, fun _ h => ⟨h, fun h0 h1 => by rw [h0] at h1; cases h1⟩,
    fun _ h => ⟨h, rfl, Or.inl rfl⟩⟩

theorem Faithful.stored (h : Faithful J s s') {d : NamespaceId} (hd : Stored J s d) : Stored J s' d := by
  obtain ⟨t, ht, rfl⟩ := hd
  exact ⟨t, (h.doc t ht).1, rfl⟩

theorem Relies.refl (J : Serde) (i : TaskId) (s : State) : Relies J i s s :=
  ⟨List.Subset.refl _, fun _ h => h, fun _ _ h h' => ⟨h, h', rfl, rfl⟩, fun h => h, fun h => h,
    fun _ h => ⟨h, rfl, rfl⟩, fun h => h⟩

theorem Relies.trans (h : Relies J i s s') (h' : Relies J i s' s'') : Relies J i s s'' where
  begun := List.Subset.trans h.begun h'.begun
  doc d hd := h'.doc d (h.doc d hd)
  started n hn hstart hrun := by
    obtain ⟨h1, h2, h3, h4⟩ := h.started n hn hstart hrun
    obtain ⟨h1', h2', h3', h4'⟩ := h'.started n hn h1 h2
    exact ⟨h1', h2', h3'.trans h3, h4'.trans h4⟩
  running hrun := h'.running (h.running hrun)
  creating hi := h'.creating (h.creating hi)
  held hrun hlock := by
    obtain ⟨h1, h2, h3⟩ := h.held hrun hlock
    obtain ⟨h1', h2', h3'⟩ := h'.held (h.running hrun) h1
    exact ⟨h1', h2'.trans h2, h3'.trans h3⟩
  free hlock := h'.free (h.free hlock)

/-- The steps of one task are what the others rely on. -/
theorem Guards.relies (hij : i ≠ j) (h : Guards J j s s') : Relies J i s s' := by
  cases j with
  | start m =>
    obtain ⟨hstart, hrun, hlock, hcreating⟩ := h.start m rfl
    refine ⟨h.begun, fun _ => h.faithful.stored, fun n hn hstart' _ => ?_, fun hrun' => ?_,
      fun hi => hcreating ▸ hi, fun hrun' => ?_, fun hfree => hlock ▸ hfree⟩
    · rw [hstart, Option.some.injEq] at hstart'
      exact absurd (hstart' ▸ hn) hij
    · rw [hrun] at hrun'
      cases hrun'
    · rw [hrun] at hrun'
      cases hrun'
  | call m =>
    have hcall := h.call m rfl
    refine ⟨h.begun, fun _ => h.faithful.stored, fun n _ _ hrun => ?_, fun _ => hcall.after,
      hcall.creating i hij, fun _ => hcall.held i hij, fun hfree hlock => ?_⟩
    · rw [hcall.before] at hrun
      cases hrun
    · exact hfree (hcall.free i hij hlock)

end Laws

/-- **The discipline of the tasks of a machine.** -/
def discipline (J : Serde) : Discipline TaskId State where
  inv := Inv J
  rely := Relies J
  guar := Guards J
  rely_refl := .refl J
  rely_trans := .trans
  compat hij _ _ h := h.relies hij

/-! ### Files -/

section Files
variable {J : Serde} {i : TaskId} {s s' t u : State} {p : Path} {b : Bytes}

/-- What is written to a file, as far as it tells when it is cut short. -/
def Writes (J : Serde) : Path → Bytes → Prop
  | .secretKey, b => b.length = 32
  | .managerPublicKey, b => ∃ M, b = J.endpointId.enc M
  | .docTicket, b => ∃ t, b = J.ticket.enc t
  | _, _ => False

/-- Two states in which the same is stored, and which differ in nothing but the files. -/
structure Same (J : Serde) (s s' : State) : Prop where
  key : storedKey s' = storedKey s
  owner : storedOwner J s' = storedOwner J s
  ticket : storedTicket J s' = storedTicket J s
  rest : ∃ files, s' = { s with files := files }

theorem Same.refl (J : Serde) (s : State) : Same J s s := ⟨rfl, rfl, rfl, s.files, rfl⟩

/-- A file that is not written. -/
theorem files_write_of_ne {q : Path} (h : q ≠ p) : (s.write p b).files q = s.files q :=
  Function.update_of_ne h ..

@[simp] theorem files_write : (s.write p b).files p = some b := Function.update_self ..

theorem take_short {n : ℕ} (hn : n < b.length) : b.take n <+: b ∧ b.take n ≠ b := by
  refine ⟨List.take_prefix n b, fun h => ?_⟩
  have hlen := congrArg List.length h
  rw [List.length_take] at hlen
  omega

/-- **A write that fails** does not change what is stored, unless it was completely stored. -/
theorem same_of_short (hw : Writes J p b) (hs : Short p b s s')
    (hwhole : Whole J s p → s'.files p = s.files p) : Same J s s' := by
  rcases hs with rfl | ⟨n, hn, rfl⟩
  · exact .refl J s'
  obtain ⟨hpre, hne⟩ := take_short hn
  by_cases hp : Whole J s p
  · have hfile := hwhole hp
    have hfiles : (s.write p (b.take n)).files = s.files := by
      funext q
      by_cases hq : q = p
      · rw [hq, hfile]
      · exact files_write_of_ne hq
    refine ⟨?_, ?_, ?_, _, rfl⟩
    · unfold storedKey
      rw [hfiles]
    · unfold storedOwner
      rw [hfiles]
    · unfold storedTicket
      rw [hfiles]
  · cases p
    case secretKey =>
      refine ⟨?_, rfl, rfl, _, rfl⟩
      rw [not_not.mp hp]
      have hlen : min n b.length ≠ 32 := by
        have : b.length = 32 := hw
        omega
      simp [storedKey, BytesN.ofBytes, State.write, hlen]
    case managerPublicKey =>
      obtain ⟨M, rfl⟩ := hw
      refine ⟨rfl, ?_, rfl, _, rfl⟩
      rw [not_not.mp hp]
      simp [storedOwner, State.write, J.endpointId.dec_prefix M _ hpre hne]
    case docTicket =>
      obtain ⟨t, rfl⟩ := hw
      refine ⟨rfl, rfl, ?_, _, rfl⟩
      rw [not_not.mp hp]
      simp [storedTicket, State.write, J.ticket.dec_prefix t _ hpre hne]
    all_goals exact hw.elim

end Files

/-! ### Steps that keep the discipline -/

/-- The task `i` is what it is: the machine that is starting, or a call on a machine that runs. -/
def Role (i : TaskId) (s : State) : Prop :=
  (∀ n, i = .start n → s.starter = some n ∧ s.running = false) ∧ ∀ n, i = .call n → s.running = true

section Kept
variable {J : Serde} {i : TaskId} {s s' t u : State}

/-- A step that changes nothing but files, and nothing that is stored. -/
theorem kept_same (hi : Inv J s) (hr : Role i s) (h : Same J s s') : Inv J s' ∧ Guards J i s s' := by
  obtain ⟨hkey, howner, hticket, files, rfl⟩ := h
  refine ⟨⟨hi.lock, ?_, ?_, fun d hd => ?_⟩, ⟨⟨fun k hk => ?_, fun M hM => ?_, fun t ht => ?_⟩,
    List.Subset.refl _, fun n hn => ⟨(hr.1 n hn).1, (hr.1 n hn).2, rfl, rfl⟩, fun n hn => ?_⟩⟩
  · rw [howner]
    exact hi.synced
  · rw [hticket]
    exact hi.creating
  · unfold Stored
    rw [hticket]
    exact hi.one d hd
  · exact ⟨hkey.trans hk, rfl, Or.inl rfl⟩
  · exact ⟨howner.trans hM, fun h0 h1 => by rw [h0] at h1; cases h1⟩
  · exact ⟨hticket.trans ht, rfl, Or.inl rfl⟩
  · exact ⟨hr.2 n hn, hr.2 n hn, fun _ _ h => h, fun _ _ h => ⟨h, rfl, howner⟩, fun _ _ h => h⟩

/-- A step of a call that changes nothing but the document. -/
structure DocStep (J : Serde) (i : TaskId) (s s' : State) : Prop where
  key : storedKey s' = storedKey s
  owner : storedOwner J s' = storedOwner J s
  rest : s'.begun = s.begun ∧ s'.lock = s.lock ∧ s'.owner = s.owner ∧ s'.running = s.running ∧
    s'.generated = s.generated ∧ s'.keys = s.keys
  others : ∀ j, j ≠ i → j ∈ s.creating → j ∈ s'.creating
  doc : ∀ t, storedTicket J s = some t → storedTicket J s' = some t ∧ s'.docs = s.docs ∧
    (s'.returned = s.returned ∨ s'.returned = t.capability.id :: s.returned)
  creating : s'.creating = [] ∨ (∃ i, s'.creating = [i]) ∧ storedTicket J s' = none
  one : ∀ d, d ∈ s'.returned ∨ d ∈ s'.used → Stored J s' d

/-- The task is a call on a machine that runs. -/
structure Called (i : TaskId) (s : State) : Prop where
  call : ∃ n, i = .call n
  running : s.running = true
  begun : i ∈ s.begun

/-- The same; `o` tells whether it holds the lock, and which owner is in memory then. -/
structure Active (J : Serde) (i : TaskId) (o : Option (Option EndpointId)) (s : State) : Prop
    extends Called i s where
  free : o = none → s.lock ≠ some i
  held : ∀ w, o = some w → s.lock = some i ∧ s.owner = w ∧ ∀ M, storedOwner J s = some M → w = some M

variable {o : Option (Option EndpointId)}

theorem Called.stable (h : Called i s) (hr : Relies J i s t) : Called i t :=
  ⟨h.call, hr.running h.running, hr.begun h.begun⟩

theorem Called.role (h : Called i s) : Role i s := by
  obtain ⟨n, rfl⟩ := h.call
  exact ⟨fun n hn => (by cases hn), fun _ _ => h.running⟩

theorem Active.stable (h : Active J i o s) (hr : Relies J i s t) : Active J i o t := by
  refine ⟨h.toCalled.stable hr, fun ho => hr.free (h.free ho), fun w hw => ?_⟩
  obtain ⟨hlock, howner, hsynced⟩ := h.held w hw
  obtain ⟨hlock', howner', hstored⟩ := hr.held h.running hlock
  exact ⟨hlock', howner'.trans howner, fun M hM => hsynced M (hstored ▸ hM)⟩

theorem kept_doc (hi : Inv J s) (ha : Active J i o s) (h : DocStep J i s s') :
    Inv J s' ∧ Guards J i s s' ∧ Active J i o s' := by
  obtain ⟨hbegun, hlock, howner, hrunning, hgenerated, hkeys⟩ := h.rest
  obtain ⟨n, rfl⟩ := ha.call
  refine ⟨⟨fun j hj => ?_, fun hrun hfree M hM => ?_, h.creating, h.one⟩,
    ⟨⟨fun k hk => ?_, fun M hM => ?_, h.doc⟩, ?_, fun n hn => (by cases hn), fun n hn => ?_⟩,
    ⟨⟨ha.call, ?_, ?_⟩, fun ho => ?_, fun w hw => ?_⟩⟩
  · rw [hbegun]
    exact hi.lock j (hlock ▸ hj)
  · rw [howner]
    exact hi.synced (hrunning ▸ hrun) (hlock ▸ hfree) M (h.owner ▸ hM)
  · exact ⟨h.key.trans hk, hgenerated, Or.inl hkeys⟩
  · refine ⟨h.owner.trans hM, fun h0 h1 => ?_⟩
    rw [hrunning, h0] at h1
    cases h1
  · rw [hbegun]
    exact List.Subset.refl _
  · refine ⟨ha.running, hrunning.trans ha.running, h.others, fun j _ hj => ?_, fun j _ hj => hlock ▸ hj⟩
    exact ⟨hlock.trans hj, howner, h.owner⟩
  · exact hrunning.trans ha.running
  · rw [hbegun]
    exact ha.begun
  · rw [hlock]
    exact ha.free ho
  · rw [hlock, howner, h.owner]
    exact ha.held w hw

/-- The lock: a step of a call that changes nothing but the lock and the owner. -/
structure LockStep (J : Serde) (i : TaskId) (s s' : State) : Prop where
  key : storedKey s' = storedKey s
  ticket : storedTicket J s' = storedTicket J s
  rest : s'.begun = s.begun ∧ s'.running = s.running ∧ s'.creating = s.creating ∧ s'.docs = s.docs ∧
    s'.generated = s.generated ∧ s'.keys = s.keys ∧ s'.returned = s.returned ∧ s'.used = s.used
  owner : ∀ M, storedOwner J s = some M → storedOwner J s' = some M
  mine : s.lock = none ∨ s.lock = some i
  after : s'.lock = some i ∨ s'.lock = none ∧ ∀ M, storedOwner J s' = some M → s'.owner = some M

theorem kept_lock (hi : Inv J s) (ha : Called i s) (h : LockStep J i s s') :
    Inv J s' ∧ Guards J i s s' := by
  obtain ⟨hbegun, hrunning, hcreating, hdocs, hgenerated, hkeys, hreturned, hused⟩ := h.rest
  obtain ⟨n, rfl⟩ := ha.call
  refine ⟨⟨fun j hj => ?_, fun _ hfree => ?_, ?_, fun d hd => ?_⟩,
    ⟨⟨fun k hk => ?_, fun M hM => ?_, fun t ht => ?_⟩, ?_, fun n hn => (by cases hn), fun n hn => ?_⟩⟩
  · rw [hbegun]
    rcases h.after with hl | ⟨hl, -⟩
    · rw [hl, Option.some.injEq] at hj
      exact hj ▸ ha.begun
    · rw [hl] at hj
      cases hj
  · rcases h.after with hl | ⟨-, hs⟩
    · rw [hl] at hfree
      cases hfree
    · exact hs
  · rw [hcreating, h.ticket]
    exact hi.creating
  · rw [hreturned, hused] at hd
    unfold Stored
    rw [h.ticket]
    exact hi.one d hd
  · exact ⟨h.key.trans hk, hgenerated, Or.inl hkeys⟩
  · refine ⟨h.owner M hM, fun h0 h1 => ?_⟩
    rw [hrunning, h0] at h1
    cases h1
  · exact ⟨h.ticket.trans ht, hdocs, Or.inl hreturned⟩
  · rw [hbegun]
    exact List.Subset.refl _
  · refine ⟨ha.running, hrunning.trans ha.running, fun j _ hj => hcreating ▸ hj, fun j hj hl => ?_,
      fun j hj hl => ?_⟩
    · rcases h.mine with hm | hm
      · rw [hm] at hl
        cases hl
      · rw [hm, Option.some.injEq] at hl
        exact absurd hl.symm hj
    · rcases h.after with hm | ⟨hm, -⟩
      · rw [hm, Option.some.injEq] at hl
        exact absurd hl.symm hj
      · rw [hm] at hl
        cases hl

end Kept

/-! ### Rules -/

/-- The machine on steps that meet the condition. -/
abbrev calmMachine (J : Serde) : System TaskId Op Op.Ret Result State :=
  (machine J).given (Calm J) (CalmCut J)

section Rules
variable {J : Serde} {i : TaskId} {o : Option (Option EndpointId)} {s : State} {op : Op} {α : Type}

/-- An operation of a task. -/
theorem safe_step {k : op.Ret → Fut α} {R : α → State → Prop}
    (hrole : ∀ t, Relies J i s t → Role i t) (hwrites : ∀ p b, op = .writeFile p b → Writes J p b)
    (h : ∀ r t u, Relies J i s t → Inv J t → effect J i op t r u → Calm J i op t r u →
      (Inv J u ∧ Guards J i t u) ∧ (Inv J u →
        Safe (calmMachine J).toWorld (discipline J) i (k r) (Outcome.returns R) u)) :
    Safe (calmMachine J).toWorld (discipline J) i (.await op k) (Outcome.returns R) s := by
  refine .act fun t ht hi => ⟨fun r u hu => ?_, fun u hu => ?_⟩
  · obtain ⟨⟨hiu, hg⟩, hk⟩ := h r t u ht hi hu.1.2 hu.2
    exact ⟨hiu, hg, hk hiu⟩
  · obtain ⟨⟨-, rfl | ⟨p, b, rfl, hshort⟩⟩, hcalm⟩ := hu
    · exact kept_same hi (hrole u ht) (.refl J u)
    · exact kept_same hi (hrole t ht) (same_of_short (hwrites p b rfl) hshort (hcalm p))

/-- An operation of a call that changes nothing but the document. -/
theorem safe_doc {k : op.Ret → Fut α} {R : α → State → Prop} (ha : Active J i o s)
    (hwrites : ∀ p b, op = .writeFile p b → Writes J p b)
    (h : ∀ r t u, Relies J i s t → Active J i o t → Inv J t → effect J i op t r u →
      Calm J i op t r u → DocStep J i t u ∧ (Active J i o u → Inv J u →
        Safe (calmMachine J).toWorld (discipline J) i (k r) (Outcome.returns R) u)) :
    Safe (calmMachine J).toWorld (discipline J) i (.await op k) (Outcome.returns R) s := by
  refine safe_step (fun t ht => (ha.stable ht).role) hwrites fun r t u ht hi he hc => ?_
  obtain ⟨hdoc, hk⟩ := h r t u ht (ha.stable ht) hi he hc
  obtain ⟨hiu, hg, hau⟩ := kept_doc hi (ha.stable ht) hdoc
  exact ⟨⟨hiu, hg⟩, hk hau⟩

end Rules

end Vendimint.Identity
