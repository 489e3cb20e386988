import Vendimint.Store.Replica
import Mathlib.Data.List.MinMax
import Mathlib.Data.Prod.Lex
import Mathlib.Logic.Relation

/-! # Queries of a replica

A query that asks for the latest record of a key orders the records under it by time stamp and, where
time stamps are equal, by a ranking of their authors (`shownAt`). It leaves out removals (`value`,
`matching`).

* `shownAt_eq_some`: the record shown is the one of greatest age.
* `AgreeOn`: two replicas with the same records under some keys answer the same queries about these
  (`AgreeOn.value`, `AgreeOn.matching`).
* `receive_agreeOn`: a record that arrives does not disturb the keys that do not start with its own.
* `shownAt_receive`: the record shown afterwards is the one that arrived or the one shown before.
* `value_put_iff`: when a write changes no answer but the one under its own key. -/

namespace Vendimint.Store

/-- An order of the authors. -/
structure Ranking (A : Type) where
  rank : A → ℕ
  injective : Function.Injective rank

/-- What a query orders records by. -/
def Entry.age {A : Type} (K : Ranking A) (e : Entry A) : ℕ ×ₗ ℕ := toLex (e.timestamp, K.rank e.author)

namespace Replica
variable {A : Type} [DecidableEq A] {K : Ranking A} {R R' : Replica A} {e o : Entry A} {k : Bytes}

omit [DecidableEq A] in
theorem age_le_iff : e.age K ≤ o.age K ↔
    e.timestamp < o.timestamp ∨ e.timestamp = o.timestamp ∧ K.rank e.author ≤ K.rank o.author :=
  Prod.Lex.toLex_le_toLex

omit [DecidableEq A] in
/-- Two records of one age under one key are the same. -/
theorem eq_of_age (he : e ∈ R.entries) (ho : o ∈ R.entries) (hk : e.key = o.key)
    (h : e.age K = o.age K) : e = o := by
  have h' : (e.timestamp, K.rank e.author) = (o.timestamp, K.rank o.author) := toLex.injective h
  rw [Prod.mk.injEq] at h'
  refine eq_of_slot he ho ?_
  rw [Entry.slot, Entry.slot, K.injective h'.2, hk]

/-- The record that a query for `k` looks at. -/
def shownAt (K : Ranking A) (R : Replica A) (k : Bytes) : Option (Entry A) :=
  (R.entries.filter fun e => e.key = k).argmax (Entry.age K)

/-- The answer to a query for `k`: the record shown there, unless it is a removal. -/
def value (K : Ranking A) (R : Replica A) (k : Bytes) : Option (Entry A) :=
  (R.shownAt K k).filter fun e => e.content ≠ []

/-- The answers to a query for the keys that start with `p`. -/
def matching (K : Ranking A) (R : Replica A) (p : Bytes) : List (Entry A) :=
  R.entries.filter fun e => R.value K e.key = some e ∧ p <+: e.key

omit [DecidableEq A] in
/-- **The record shown** is the one of greatest age. -/
theorem shownAt_eq_some : R.shownAt K k = some e ↔
    e ∈ R.entries ∧ e.key = k ∧ ∀ o ∈ R.entries, o.key = k → o.age K ≤ e.age K := by
  constructor
  · intro h
    have hmem := List.argmax_mem h
    simp only [List.mem_filter, decide_eq_true_eq] at hmem
    refine ⟨hmem.1, hmem.2, fun o ho hk => ?_⟩
    refine List.le_of_mem_argmax ?_ h
    simpa [List.mem_filter] using ⟨ho, hk⟩
  · rintro ⟨he, hk, hmax⟩
    have hmem : e ∈ R.entries.filter fun e => e.key = k := by simpa [List.mem_filter] using ⟨he, hk⟩
    rcases h : R.shownAt K k with _ | o
    · rw [shownAt, List.argmax_eq_none] at h
      rw [h] at hmem
      cases hmem
    · have ho := List.argmax_mem h
      simp only [List.mem_filter, decide_eq_true_eq] at ho
      have h1 : e.age K ≤ o.age K := List.le_of_mem_argmax hmem h
      have h2 : o.age K ≤ e.age K := hmax o ho.1 ho.2
      rw [eq_of_age ho.1 he (ho.2.trans hk.symm) (le_antisymm h2 h1)]

omit [DecidableEq A] in
theorem shownAt_eq_none : R.shownAt K k = none ↔ ∀ e ∈ R.entries, e.key ≠ k := by
  rw [shownAt, List.argmax_eq_none, List.filter_eq_nil_iff]
  simp

omit [DecidableEq A] in
theorem value_eq_some : R.value K k = some e ↔ R.shownAt K k = some e ∧ e.content ≠ [] := by
  simp [value, Option.filter_eq_some_iff]

omit [DecidableEq A] in
theorem key_of_value (h : R.value K k = some e) : e.key = k :=
  (shownAt_eq_some.mp (value_eq_some.mp h).1).2.1

theorem mem_matching {p : Bytes} :
    e ∈ R.matching K p ↔ R.value K e.key = some e ∧ p <+: e.key := by
  simp only [matching, List.mem_filter, decide_eq_true_eq, and_iff_right_iff_imp]
  exact fun h => (shownAt_eq_some.mp (value_eq_some.mp h.1).1).1

theorem nodup_matching (K : Ranking A) (R : Replica A) (p : Bytes) : (R.matching K p).Nodup :=
  (List.Nodup.of_map _ R.nodup).filter _

/-! ### Replicas that agree on some keys -/

/-- The same records under the keys of `P`. -/
def AgreeOn (P : Bytes → Prop) (R R' : Replica A) : Prop := ∀ a k, P k → R.get a k = R'.get a k

section Agree
variable {P : Bytes → Prop}

theorem AgreeOn.refl (P : Bytes → Prop) (R : Replica A) : AgreeOn P R R := fun _ _ _ => rfl

theorem AgreeOn.symm (h : AgreeOn P R R') : AgreeOn P R' R := fun a k hk => (h a k hk).symm

theorem AgreeOn.trans {R'' : Replica A} (h : AgreeOn P R R') (h' : AgreeOn P R' R'') :
    AgreeOn P R R'' := fun a k hk => (h a k hk).trans (h' a k hk)

theorem AgreeOn.mono {P' : Bytes → Prop} (h : AgreeOn P R R') (hP : ∀ k, P' k → P k) :
    AgreeOn P' R R' := fun a k hk => h a k (hP k hk)

theorem AgreeOn.mem (h : AgreeOn P R R') (he : P e.key) : e ∈ R.entries ↔ e ∈ R'.entries := by
  have hget := h e.author e.key he
  constructor
  · intro hm
    have : R.get e.author e.key = some e := get_eq_some.mpr ⟨hm, rfl, rfl⟩
    exact (get_eq_some.mp (hget ▸ this)).1
  · intro hm
    have : R'.get e.author e.key = some e := get_eq_some.mpr ⟨hm, rfl, rfl⟩
    exact (get_eq_some.mp (hget.symm ▸ this)).1

theorem AgreeOn.shownAt_of (h : AgreeOn P R R') (hk : P k) (he : R.shownAt K k = some e) :
    R'.shownAt K k = some e := by
  obtain ⟨h1, h2, h3⟩ := shownAt_eq_some.mp he
  refine shownAt_eq_some.mpr ⟨(h.mem (h2 ▸ hk)).mp h1, h2, fun o ho hok => ?_⟩
  exact h3 o ((h.mem (hok ▸ hk)).mpr ho) hok

theorem AgreeOn.shownAt (h : AgreeOn P R R') (hk : P k) : R.shownAt K k = R'.shownAt K k :=
  Option.ext fun _ => ⟨h.shownAt_of hk, h.symm.shownAt_of hk⟩

theorem AgreeOn.value (h : AgreeOn P R R') (hk : P k) : R.value K k = R'.value K k := by
  rw [Replica.value, Replica.value, h.shownAt hk]

theorem AgreeOn.matching {p : Bytes} (h : AgreeOn P R R') (hp : ∀ k, p <+: k → P k) :
    (R.matching K p).Perm (R'.matching K p) := by
  refine (List.perm_ext_iff_of_nodup (nodup_matching K R p) (nodup_matching K R' p)).mpr fun e => ?_
  rw [mem_matching, mem_matching]
  constructor
  · rintro ⟨hv, hpre⟩
    exact ⟨h.value (hp _ hpre) ▸ hv, hpre⟩
  · rintro ⟨hv, hpre⟩
    exact ⟨(h.value (hp _ hpre)).symm ▸ hv, hpre⟩

theorem put_agreeOn (h : R.put e = some R') (hP : ∀ k, P k → ¬ e.key <+: k) : AgreeOn P R R' :=
  fun _ k hk => (get_put_other h fun _ => hP k hk).symm

/-- **Frame**: a record that arrives does not disturb the keys that do not start with its own. -/
theorem receive_agreeOn (hP : ∀ k, P k → ¬ e.key <+: k) : AgreeOn P R (R.receive e) := by
  unfold receive
  rcases h : R.put e with _ | R'
  · exact AgreeOn.refl P R
  · exact put_agreeOn h hP

end Agree

/-! ### Records that arrive one after the other -/

/-- Some records of `H` arrive. -/
def Receives (H : Entry A → Prop) : Replica A → Replica A → Prop :=
  Relation.ReflTransGen fun R R' => ∃ e, H e ∧ R' = R.receive e

theorem receives_receive {H : Entry A → Prop} (he : H e) : Receives H R (R.receive e) :=
  .single ⟨e, he, rfl⟩

theorem receives_put {H : Entry A → Prop} (he : H e) (h : R.put e = some R') : Receives H R R' := by
  have : R' = R.receive e := by rw [receive, h, Option.getD_some]
  exact this ▸ receives_receive he

theorem Receives.mono {H H' : Entry A → Prop} (h : Receives H R R') (hH : ∀ e, H e → H' e) :
    Receives H' R R' := by
  induction h with
  | refl => exact .refl
  | tail _ hstep ih =>
    obtain ⟨e, he, rfl⟩ := hstep
    exact ih.tail ⟨e, hH e he, rfl⟩

/-- Records under other keys leave the records under the keys of `P`. -/
theorem Receives.agreeOn {H : Entry A → Prop} {P : Bytes → Prop} (h : Receives H R R')
    (hP : ∀ e, H e → ∀ k, P k → ¬ e.key <+: k) : AgreeOn P R R' := by
  induction h with
  | refl => exact AgreeOn.refl P R
  | tail _ hstep ih =>
    obtain ⟨e, he, rfl⟩ := hstep
    exact ih.trans (receive_agreeOn (hP e he))

/-! ### The record shown after a write -/

/-- A write that is not refused is newer than the author's record under its key. -/
theorem lt_of_put (h : R.put e = some R') (ho : o ∈ R.entries) (hs : o.slot = e.slot) :
    o.timestamp < e.timestamp := by
  unfold put at h
  split_ifs at h with href
  simp only [Entry.slot, Prod.mk.injEq] at hs
  by_contra hlt
  exact href ⟨o, ho, hs.1, hs.2 ▸ List.prefix_rfl, not_lt.mp hlt⟩

/-- After a write, its key shows it or what it showed before. -/
theorem shownAt_put (h : R.put e = some R') :
    R'.shownAt K e.key = some e ∨ R'.shownAt K e.key = R.shownAt K e.key := by
  rcases h' : R'.shownAt K e.key with _ | o
  · have := shownAt_eq_none.mp h' e ((mem_put h).mpr (Or.inl rfl))
    exact absurd rfl this
  · obtain ⟨ho, hk, hmax⟩ := shownAt_eq_some.mp h'
    rcases (mem_put h).mp ho with rfl | ⟨ho', -⟩
    · left; rfl
    · right
      refine (shownAt_eq_some.mpr ⟨ho', hk, fun x hx hxk => ?_⟩).symm
      by_cases hd : Drops e x
      · -- The author's record that the write replaces is older than the write.
        have hxe : x.age K ≤ e.age K := by
          refine age_le_iff.mpr (Or.inl (lt_of_put h hx ?_))
          rw [Entry.slot, Entry.slot, hd.1, hxk]
        exact hxe.trans (hmax e ((mem_put h).mpr (Or.inl rfl)) rfl)
      · exact hmax x ((mem_put h).mpr (Or.inr ⟨hx, hd⟩)) hxk

theorem shownAt_receive :
    (R.receive e).shownAt K e.key = some e ∨ (R.receive e).shownAt K e.key = R.shownAt K e.key := by
  unfold receive
  rcases h : R.put e with _ | R'
  · exact Or.inr rfl
  · exact shownAt_put h

/-- A write is shown if no record of another author under its key comes before it. -/
theorem shownAt_put_self (h : R.put e = some R') :
    R'.shownAt K e.key = some e ↔
      ∀ o ∈ R.entries, o.key = e.key → o.author ≠ e.author → o.age K ≤ e.age K := by
  rw [shownAt_eq_some]
  constructor
  · rintro ⟨-, -, hmax⟩ o ho hk ha
    exact hmax o ((mem_put h).mpr (Or.inr ⟨ho, fun hd => ha hd.1⟩)) hk
  · intro hmax
    refine ⟨(mem_put h).mpr (Or.inl rfl), rfl, fun o ho hk => ?_⟩
    rcases (mem_put h).mp ho with rfl | ⟨ho', hd⟩
    · exact le_rfl
    · refine hmax o ho' hk fun ha => hd ?_
      have hlt : o.timestamp < e.timestamp := lt_of_put h ho' (by rw [Entry.slot, Entry.slot, ha, hk])
      exact ⟨ha, hk ▸ List.prefix_rfl, hlt.le⟩

/-- A query does not notice if the record goes: another one is shown under its key, or it is a removal
and the next one is a removal as well. -/
def Unnoticed (K : Ranking A) (R : Replica A) (o : Entry A) : Prop :=
  R.shownAt K o.key ≠ some o ∨ o.content = [] ∧
    ∀ y ∈ R.entries, y.key = o.key → y ≠ o →
      (∀ x ∈ R.entries, x.key = o.key → x ≠ o → x.age K ≤ y.age K) → y.content = []

omit [DecidableEq A] in
/-- A write drops at most one record under a longer key. -/
theorem eq_of_drops {x : Entry A} (ho : o ∈ R.entries) (hx : x ∈ R.entries) (hdo : Drops e o)
    (hdx : Drops e x) (hk : x.key = o.key) : x = o :=
  eq_of_slot hx ho (by rw [Entry.slot, Entry.slot, hdx.1, hdo.1, hk])

section Longer
variable (h : R.put e = some R')
include h

/-- The records under a longer key after a write: those that it does not drop. -/
theorem mem_put_longer (hk : o.key ≠ e.key) : o ∈ R'.entries ↔ o ∈ R.entries ∧ ¬ Drops e o := by
  rw [mem_put h, or_iff_right]
  rintro rfl
  exact hk rfl

/-- **A query under a longer key** answers as before if it does not notice what the write drops. -/
theorem value_put_dropped (ho : o ∈ R.entries) (hd : Drops e o) (hk : o.key ≠ e.key) :
    R'.value K o.key = R.value K o.key ↔ Unnoticed K R o := by
  have hmem : ∀ x, x.key = o.key → (x ∈ R'.entries ↔ x ∈ R.entries ∧ x ≠ o) := by
    intro x hx
    rw [mem_put_longer h (hx ▸ hk)]
    refine and_congr_right fun hxR => not_congr ?_
    exact ⟨fun hdx => eq_of_drops ho hxR hd hdx hx, fun hxo => hxo ▸ hd⟩
  constructor
  · intro hv
    rw [Unnoticed, or_iff_not_imp_left, not_not]
    intro hshown
    have hcontent : o.content = [] := by
      by_contra hne
      have hval : R'.value K o.key = some o := hv.trans (value_eq_some.mpr ⟨hshown, hne⟩)
      have ho' := (shownAt_eq_some.mp (value_eq_some.mp hval).1).1
      exact ((hmem o rfl).mp ho').2 rfl
    refine ⟨hcontent, fun y hy hyk hyo hmax => ?_⟩
    by_contra hne
    have hy' : R'.shownAt K o.key = some y := by
      refine shownAt_eq_some.mpr ⟨(hmem y hyk).mpr ⟨hy, hyo⟩, hyk, fun x hx hxk => ?_⟩
      obtain ⟨hxR, hxo⟩ := (hmem x hxk).mp hx
      exact hmax x hxR hxk hxo
    have hval : R.value K o.key = some y := hv ▸ value_eq_some.mpr ⟨hy', hne⟩
    have := (value_eq_some.mp hval).1
    rw [hshown, Option.some.injEq] at this
    exact hyo this.symm
  · intro hun
    by_cases hshown : R.shownAt K o.key = some o
    · obtain ⟨hcontent, hnext⟩ := hun.resolve_left (not_not.mpr hshown)
      have hR : R.value K o.key = none := by
        rw [value, hshown, Option.filter_some, hcontent]
        simp
      rw [hR]
      rcases hR' : R'.value K o.key with _ | y
      · rfl
      · obtain ⟨hy, hne⟩ := value_eq_some.mp hR'
        obtain ⟨hyR', hyk, hmax⟩ := shownAt_eq_some.mp hy
        obtain ⟨hyR, hyo⟩ := (hmem y hyk).mp hyR'
        exact absurd (hnext y hyR hyk hyo fun x hx hxk hxo =>
          hmax x ((hmem x hxk).mpr ⟨hx, hxo⟩) hxk) hne
    · rcases hR : R.shownAt K o.key with _ | y
      · exact absurd rfl (shownAt_eq_none.mp hR o ho)
      · obtain ⟨hy, hyk, hmax⟩ := shownAt_eq_some.mp hR
        have hyo : y ≠ o := fun hyo => hshown (hyo ▸ hR)
        have hR' : R'.shownAt K o.key = some y := by
          refine shownAt_eq_some.mpr ⟨(hmem y hyk).mpr ⟨hy, hyo⟩, hyk, fun x hx hxk => ?_⟩
          exact hmax x ((hmem x hxk).mp hx).1 hxk
        rw [value, value, hR, hR']

/-- A query under a key of which the write drops nothing answers as before. -/
theorem value_put_kept (hk : k ≠ e.key) (hd : ∀ o ∈ R.entries, o.key = k → ¬ Drops e o) :
    R'.value K k = R.value K k := by
  have hag : AgreeOn (· = k) R R' := by
    rintro a k' rfl
    refine Option.ext fun o => ?_
    rw [get_eq_some, get_eq_some]
    refine and_congr_left fun hak => ?_
    rw [mem_put_longer h (hak.2 ▸ hk)]
    exact ⟨fun ho => ⟨ho, hd o ho hak.2⟩, And.left⟩
  exact (hag.value rfl).symm

/-- **A write is a map update** for all queries under the keys of `P` exactly if they do not notice
what it drops. -/
theorem value_put_iff {P : Bytes → Prop} (hP : ∀ k, e.key <+: k → P k) :
    (∀ k, P k → k ≠ e.key → R'.value K k = R.value K k) ↔
      ∀ o ∈ R.entries, Drops e o → o.key ≠ e.key → Unnoticed K R o := by
  constructor
  · intro hall o ho hd hk
    exact (value_put_dropped h ho hd hk).mp (hall o.key (hP _ hd.2.1) hk)
  · intro hun k _ hk
    by_cases hd : ∃ o ∈ R.entries, o.key = k ∧ Drops e o
    · obtain ⟨o, ho, rfl, hd⟩ := hd
      exact (value_put_dropped h ho hd hk).mpr (hun o ho hd hk)
    · exact value_put_kept h hk fun o ho hok hdo => hd ⟨o, ho, hok, hdo⟩

end Longer

/-- A property of what a key shows is kept if all that arrive under the key have it and no record
arrives under a proper prefix of the key. -/
theorem Receives.shownAt {H : Entry A → Prop} {G : Entry A → Prop} (h : Receives H R R')
    (hkey : ∀ e, H e → e.key <+: k → e.key = k) (hG : ∀ e, H e → e.key = k → G e)
    (hR : ∀ e, R.shownAt K k = some e → G e) : ∀ e, R'.shownAt K k = some e → G e := by
  induction h with
  | refl => exact hR
  | @tail R₁ R₂ _ hstep ih =>
    obtain ⟨x, hx, rfl⟩ := hstep
    intro e he
    by_cases hpre : x.key <+: k
    · have hk : x.key = k := hkey x hx hpre
      subst hk
      rcases shownAt_receive (K := K) (R := R₁) (e := x) with h1 | h1
      · rw [h1, Option.some.injEq] at he
        exact he ▸ hG x hx rfl
      · exact ih e (h1 ▸ he)
    · have hag : AgreeOn (· = k) R₁ (R₁.receive x) := receive_agreeOn fun k' hk' => hk' ▸ hpre
      exact ih e ((hag.shownAt rfl).symm ▸ he)

end Replica

end Vendimint.Store
