import Vendimint.Store.Query

/-! # Replicas that have caught up

A replica has caught up with another if it would take none of its records (`CaughtUp`). Receiving all
records of a replica leads there, and a replica that refuses a record refuses it from then on. A replica
of which no record would drop another one (`Sparse`) stays so.

* `refuses_receive`, `Refuses.receive`: what was received once is refused from then on.
* `caughtUp_receiveAll`, `CaughtUp.receiveAll`: what an exchange of all records leads to, and keeps.
* `mem_of_refuses`: a record that is refused, and would not be dropped, is there.
* `agreeOn_of_caughtUp`: **two replicas that have caught up with each other have the same records**, if
  no two records of an author at a key have the same time stamp. -/

namespace Vendimint.Store.Replica

variable {A : Type} [DecidableEq A] {R R' : Replica A} {e o x : Entry A}

/-! ### Dropping -/

omit [DecidableEq A] in
theorem drops_refl (e : Entry A) : Drops e e := ⟨rfl, List.prefix_rfl, le_rfl⟩

omit [DecidableEq A] in
theorem drops_trans (h : Drops x o) (h' : Drops o e) : Drops x e :=
  ⟨h'.1.trans h.1, h.2.1.trans h'.2.1, h'.2.2.trans h.2.2⟩

omit [DecidableEq A] in
/-- Records that would drop each other are in one slot, with one time stamp. -/
theorem slot_of_drops (h : Drops e o) (h' : Drops o e) :
    o.slot = e.slot ∧ o.timestamp = e.timestamp := by
  have hkey : o.key = e.key :=
    h'.2.1.eq_of_length (le_antisymm h'.2.1.length_le h.2.1.length_le)
  exact ⟨Prod.ext h.1 hkey, le_antisymm h.2.2 h'.2.2⟩

omit [DecidableEq A] in
/-- A record drops another one in its slot that is not newer. -/
theorem drops_of_same (hs : o.slot = e.slot) (ht : o.timestamp ≤ e.timestamp) : Drops e o := by
  simp only [Entry.slot, Prod.mk.injEq] at hs
  exact ⟨hs.1, hs.2 ▸ List.prefix_rfl, ht⟩

omit [DecidableEq A] in
theorem refuses_iff : R.Refuses e ↔ ∃ o ∈ R.entries, Drops o e := by
  constructor
  · rintro ⟨o, ho, ha, hk, ht⟩
    exact ⟨o, ho, ha.symm, hk, ht⟩
  · rintro ⟨o, ho, ha, hk, ht⟩
    exact ⟨o, ho, ha.symm, hk, ht⟩

omit [DecidableEq A] in
theorem refuses_of_mem (h : e ∈ R.entries) : R.Refuses e := refuses_iff.mpr ⟨e, h, drops_refl e⟩

omit [DecidableEq A] in
/-- What a refused record would drop is refused. -/
theorem Refuses.of_drops (h : R.Refuses e) (hd : Drops e o) : R.Refuses o := by
  obtain ⟨x, hx, hxe⟩ := refuses_iff.mp h
  exact refuses_iff.mpr ⟨x, hx, drops_trans hxe hd⟩

theorem not_refuses_of_put (h : R.put e = some R') : ¬ R.Refuses e := by
  intro hr
  rw [put, dif_pos hr] at h
  cases h

theorem receive_of_refuses (h : R.Refuses e) : R.receive e = R := by
  rw [receive, put, dif_pos h, Option.getD_none]

/-- What is refused stays refused. -/
theorem Refuses.put (h : R.Refuses e) (hput : R.put x = some R') : R'.Refuses e := by
  obtain ⟨o, ho, hoe⟩ := refuses_iff.mp h
  refine refuses_iff.mpr ?_
  by_cases hxo : Drops x o
  · exact ⟨x, (mem_put hput).mpr (Or.inl rfl), drops_trans hxo hoe⟩
  · exact ⟨o, (mem_put hput).mpr (Or.inr ⟨ho, hxo⟩), hoe⟩

theorem Refuses.receive (h : R.Refuses e) (x : Entry A) : (R.receive x).Refuses e := by
  rcases hput : R.put x with _ | R'
  · rw [Replica.receive, hput]
    exact h
  · rw [Replica.receive, hput]
    exact h.put hput

/-- What was received is refused from then on. -/
theorem refuses_receive (R : Replica A) (e : Entry A) : (R.receive e).Refuses e := by
  by_cases h : R.Refuses e
  · exact h.receive e
  · have hput : ∃ R', R.put e = some R' := by
      rw [put, dif_neg h]
      exact ⟨_, rfl⟩
    obtain ⟨R', hR'⟩ := hput
    rw [Replica.receive, hR']
    exact refuses_of_mem ((mem_put hR').mpr (Or.inl rfl))

/-! ### Catching up -/

/-- The replica would take no record of `R`. -/
def CaughtUp (R' R : Replica A) : Prop := ∀ e ∈ R.entries, R'.Refuses e

/-- All records of a list are received. -/
def receiveAll (R : Replica A) (l : List (Entry A)) : Replica A := l.foldl receive R

theorem Refuses.receiveAll (h : R.Refuses e) : ∀ l : List (Entry A), (R.receiveAll l).Refuses e := by
  intro l
  induction l generalizing R with
  | nil => exact h
  | cons x l ih => exact ih (h.receive x)

theorem mem_receiveAll : ∀ {l : List (Entry A)} {R : Replica A}, e ∈ (R.receiveAll l).entries →
    e ∈ l ∨ e ∈ R.entries := by
  intro l
  induction l with
  | nil => exact fun h => Or.inr h
  | cons x l ih =>
    intro R h
    rcases ih h with h | h
    · exact Or.inl (List.mem_cons_of_mem x h)
    · rcases mem_receive h with rfl | h
      · exact Or.inl (List.mem_cons_self ..)
      · exact Or.inr h

/-- **After an exchange of all records** a replica has caught up. -/
theorem caughtUp_receiveAll (R' R : Replica A) : CaughtUp (R'.receiveAll R.entries) R := by
  have hall : ∀ (l : List (Entry A)) (R' : Replica A), ∀ e ∈ l, (R'.receiveAll l).Refuses e := by
    intro l
    induction l with
    | nil => exact fun R' e he => absurd he List.not_mem_nil
    | cons x l ih =>
      intro R' e he
      rcases List.mem_cons.mp he with rfl | he
      · exact (refuses_receive R' e).receiveAll l
      · exact ih (R'.receive x) e he
  exact hall R.entries R'

/-- A replica that receives all records of one that has caught up with it: this has still caught up. -/
theorem CaughtUp.receiveAll (h : CaughtUp R' R) : CaughtUp R' (R.receiveAll R'.entries) := by
  intro e he
  rcases mem_receiveAll he with he | he
  · exact refuses_of_mem he
  · exact h e he

/-- A record of a replica that has caught up is one at the same key, if the key cannot be dropped by
another. -/
theorem CaughtUp.get_isSome (h : CaughtUp R' R) {a : A} {k : Bytes} (hs : (R.get a k).isSome)
    (hk : ∀ o ∈ R'.entries, o.key <+: k → o.key = k) : (R'.get a k).isSome := by
  obtain ⟨e, he, rfl, rfl⟩ := Replica.get_isSome.mp hs
  obtain ⟨o, ho, ha, hpre, -⟩ := h e he
  exact Replica.get_isSome.mpr ⟨o, ho, ha, hk o ho hpre⟩

/-! ### The same records -/

/-- No record of the replica would drop another one. -/
def Sparse (R : Replica A) : Prop := ∀ e ∈ R.entries, ∀ o ∈ R.entries, Drops e o → e = o

omit [DecidableEq A] in
theorem sparse_empty : (empty : Replica A).Sparse := fun _ he => absurd he List.not_mem_nil

theorem Sparse.put (h : R.Sparse) (hput : R.put x = some R') : R'.Sparse := by
  intro e he o ho hd
  rcases (mem_put hput).mp he with rfl | ⟨he, -⟩
  · rcases (mem_put hput).mp ho with rfl | ⟨-, hnd⟩
    · rfl
    · exact absurd hd hnd
  · rcases (mem_put hput).mp ho with rfl | ⟨ho, -⟩
    · exact absurd (refuses_iff.mpr ⟨e, he, hd⟩) (not_refuses_of_put hput)
    · exact h e he o ho hd

theorem Sparse.receive (h : R.Sparse) (x : Entry A) : (R.receive x).Sparse := by
  rcases hput : R.put x with _ | R'
  · rw [Replica.receive, hput]
    exact h
  · rw [Replica.receive, hput]
    exact h.put hput

omit [DecidableEq A] in
/-- **A record that is refused is there**, if the other replica would take none of its author's
records. -/
theorem mem_of_refuses (hs : R.Sparse) (he : e ∈ R.entries) (h : R'.Refuses e)
    (h' : ∀ o ∈ R'.entries, o.author = e.author → R.Refuses o)
    (hties : ∀ o ∈ R'.entries, o.slot = e.slot → o.timestamp = e.timestamp → o = e) :
    e ∈ R'.entries := by
  obtain ⟨o, ho, hoe⟩ := refuses_iff.mp h
  obtain ⟨x, hx, hxo⟩ := refuses_iff.mp (h' o ho hoe.1.symm)
  obtain rfl : x = e := hs x hx e he (drops_trans hxo hoe)
  obtain ⟨hslot, htime⟩ := slot_of_drops hxo hoe
  rwa [hties o ho hslot htime] at ho

/-- **Replicas that have caught up with each other have the same records.** -/
theorem agreeOn_of_caughtUp (hs : R.Sparse) (hs' : R'.Sparse) (h : CaughtUp R' R)
    (h' : CaughtUp R R') (hties : ∀ e ∈ R.entries, ∀ o ∈ R'.entries, o.slot = e.slot →
      o.timestamp = e.timestamp → o = e) (P : Bytes → Prop) : AgreeOn P R R' := by
  have hmem : ∀ e, e ∈ R.entries ↔ e ∈ R'.entries := by
    intro e
    constructor
    · intro he
      exact mem_of_refuses hs he (h e he) (fun o ho _ => h' o ho) fun o ho => hties e he o ho
    · intro he
      refine mem_of_refuses hs' he (h' e he) (fun o ho _ => h o ho) fun o ho hslot htime => ?_
      exact (hties o ho e he hslot.symm htime.symm).symm
  intro a k _
  refine Option.ext fun e => ?_
  rw [get_eq_some, get_eq_some, hmem]

end Vendimint.Store.Replica
