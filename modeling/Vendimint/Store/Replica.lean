import Vendimint.Store.Codec
import Mathlib.Data.List.Nodup
import Mathlib.Order.Nat

/-! # A replicated store with one record per author and key

A replica holds, for each author and key, at most one record: a time stamp and a content. A write
(`put`) at a key by an author drops the author's records that are not newer at all keys that start
with it, and is refused if the author has a record that is not older at a prefix of the key. An empty
content is a removal. Replicas exchange records, each of which is put like a local write (`receive`).

A reader sees for each key the record with the greatest time stamp over all authors (`latestAt`);
`visible` lists these.

* `get_put_self`, `get_put_other`: what a put does to the records.
* `mem_receive`: after an exchange each record is an old one or the one received.
* `latestAt_spec`, `latestAt_eq_none`: the record a reader sees. -/

namespace Vendimint.Store

/-- The record of an author at a key. -/
structure Entry (A : Type) where
  author : A
  key : Bytes
  timestamp : ℕ
  content : Bytes
  deriving DecidableEq

/-- What identifies a record in a replica. -/
def Entry.slot {A : Type} (e : Entry A) : A × Bytes := (e.author, e.key)

/-- The records of a replica, one per author and key. -/
structure Replica (A : Type) where
  entries : List (Entry A)
  nodup : (entries.map Entry.slot).Nodup

namespace Replica
variable {A : Type} [DecidableEq A]

/-- The replica without records. -/
def empty : Replica A := ⟨[], List.nodup_nil⟩

/-- The record of `a` at `k`. -/
def get (R : Replica A) (a : A) (k : Bytes) : Option (Entry A) :=
  R.entries.find? fun e => decide (e.slot = (a, k))

/-- The author of `e` has a record that is not older at a prefix of its key. -/
def Refuses (R : Replica A) (e : Entry A) : Prop :=
  ∃ o ∈ R.entries, o.author = e.author ∧ o.key <+: e.key ∧ e.timestamp ≤ o.timestamp

instance (R : Replica A) (e : Entry A) : Decidable (R.Refuses e) := by
  unfold Refuses; infer_instance

/-- The records that a put of `e` drops. -/
def Drops (e o : Entry A) : Prop :=
  o.author = e.author ∧ e.key <+: o.key ∧ o.timestamp ≤ e.timestamp

instance (e o : Entry A) : Decidable (Drops e o) := by
  unfold Drops; infer_instance

omit [DecidableEq A] in
/-- A record in the slot of `e` is dropped by a put of `e` that is not refused. -/
theorem drops_of_slot {R : Replica A} {e o : Entry A} (h : ¬ R.Refuses e) (ho : o ∈ R.entries)
    (hs : o.slot = e.slot) : Drops e o := by
  simp only [Entry.slot, Prod.mk.injEq] at hs
  refine ⟨hs.1, hs.2 ▸ List.prefix_rfl, ?_⟩
  by_contra hlt
  exact h ⟨o, ho, hs.1, hs.2 ▸ List.prefix_rfl, by omega⟩

/-- **A write**, unless it is refused. -/
def put (R : Replica A) (e : Entry A) : Option (Replica A) :=
  if h : R.Refuses e then none
  else some ⟨e :: R.entries.filter fun o => ¬ Drops e o, by
    rw [List.map_cons, List.nodup_cons]
    refine ⟨fun hm => ?_, R.nodup.sublist (List.filter_sublist.map _)⟩
    obtain ⟨o, ho, hs⟩ := List.mem_map.mp hm
    simp only [List.mem_filter, decide_eq_true_eq] at ho
    exact ho.2 (drops_of_slot h ho.1 hs)⟩

/-- A record that arrives from another replica: a write, without effect if it is refused. -/
def receive (R : Replica A) (e : Entry A) : Replica A := (R.put e).getD R

/-! ### Records -/

omit [DecidableEq A] in
theorem eq_of_slot {R : Replica A} {e o : Entry A} (he : e ∈ R.entries) (ho : o ∈ R.entries)
    (h : e.slot = o.slot) : e = o :=
  List.inj_on_of_nodup_map R.nodup he ho h

theorem get_eq_some {R : Replica A} {a : A} {k : Bytes} {e : Entry A} :
    R.get a k = some e ↔ e ∈ R.entries ∧ e.author = a ∧ e.key = k := by
  constructor
  · intro h
    have h2 := List.find?_some h
    simp only [decide_eq_true_eq, Entry.slot, Prod.mk.injEq] at h2
    exact ⟨List.mem_of_find?_eq_some h, h2⟩
  · rintro ⟨he, rfl, rfl⟩
    rcases hf : R.get e.author e.key with _ | o
    · have := List.find?_eq_none.mp hf e he
      simp [Entry.slot] at this
    · have h2 := List.find?_some hf
      simp only [decide_eq_true_eq] at h2
      rw [eq_of_slot (List.mem_of_find?_eq_some hf) he h2]

@[simp] theorem get_empty (a : A) (k : Bytes) : (empty : Replica A).get a k = none := rfl

theorem mem_put {R R' : Replica A} {e : Entry A} (h : R.put e = some R') {o : Entry A} :
    o ∈ R'.entries ↔ o = e ∨ o ∈ R.entries ∧ ¬ Drops e o := by
  unfold put at h
  split_ifs at h
  rw [Option.some.injEq] at h
  subst h
  simp [List.mem_filter]

theorem get_put_self {R R' : Replica A} {e : Entry A} (h : R.put e = some R') :
    R'.get e.author e.key = some e :=
  get_eq_some.mpr ⟨(mem_put h).mpr (Or.inl rfl), rfl, rfl⟩

/-- A put leaves the records at the keys that do not start with its own. -/
theorem get_put_other {R R' : Replica A} {e : Entry A} (h : R.put e = some R') {a : A} {k : Bytes}
    (hk : a = e.author → ¬ e.key <+: k) : R'.get a k = R.get a k := by
  have hmem : ∀ o : Entry A, o.author = a → o.key = k → (o ∈ R'.entries ↔ o ∈ R.entries) := by
    rintro o rfl rfl
    rw [mem_put h]
    constructor
    · rintro (rfl | ho)
      · exact absurd List.prefix_rfl (hk rfl)
      · exact ho.1
    · exact fun ho => Or.inr ⟨ho, fun hd => hk hd.1 hd.2.1⟩
  refine Option.ext fun o => ?_
  rw [get_eq_some, get_eq_some]
  constructor
  · rintro ⟨ho, ha, hk⟩; exact ⟨(hmem o ha hk).mp ho, ha, hk⟩
  · rintro ⟨ho, ha, hk⟩; exact ⟨(hmem o ha hk).mpr ho, ha, hk⟩

/-- A put is refused only by a record at a prefix of its key. -/
theorem put_isSome {R : Replica A} {e : Entry A}
    (h : ∀ o ∈ R.entries, o.author = e.author → o.key <+: e.key → o.timestamp < e.timestamp) :
    ∃ R', R.put e = some R' := by
  unfold put
  rw [dif_neg]
  · exact ⟨_, rfl⟩
  · rintro ⟨o, ho, ha, hk, ht⟩
    have := h o ho ha hk
    omega

/-- A record stays, or is replaced by one at the same key, unless a write at a proper prefix of the
key drops it. -/
theorem get_put_isSome {R R' : Replica A} {e : Entry A} (h : R.put e = some R') {a : A} {k : Bytes}
    (hk : e.key <+: k → e.key = k) (hs : (R.get a k).isSome) : (R'.get a k).isSome := by
  by_cases hak : a = e.author ∧ e.key <+: k
  · obtain ⟨rfl, hpre⟩ := hak
    rw [← hk hpre, get_put_self h]
    rfl
  · rw [get_put_other h fun ha hpre => hak ⟨ha, hpre⟩]
    exact hs

theorem get_receive_isSome {R : Replica A} {e : Entry A} {a : A} {k : Bytes}
    (hk : e.key <+: k → e.key = k) (hs : (R.get a k).isSome) : ((R.receive e).get a k).isSome := by
  unfold receive
  rcases h : R.put e with _ | R'
  · exact hs
  · exact get_put_isSome h hk hs

theorem mem_receive {R : Replica A} {e o : Entry A} (ho : o ∈ (R.receive e).entries) :
    o = e ∨ o ∈ R.entries := by
  unfold receive at ho
  rcases h : R.put e with _ | R'
  · rw [h] at ho; exact Or.inr ho
  · rw [h, Option.getD_some, mem_put h] at ho; exact ho.imp_right And.left

/-- A write that is newer than all records is not refused. -/
theorem put_eq_receive {R : Replica A} {e : Entry A} (h : ∀ o ∈ R.entries, o.timestamp < e.timestamp) :
    R.put e = some (R.receive e) := by
  obtain ⟨R', hR'⟩ := put_isSome fun o ho _ _ => h o ho
  rw [receive, hR', Option.getD_some]

theorem get_isSome {R : Replica A} {a : A} {k : Bytes} :
    (R.get a k).isSome ↔ ∃ e ∈ R.entries, e.author = a ∧ e.key = k := by
  rw [Option.isSome_iff_exists]
  simp only [get_eq_some]

/-! ### What a reader sees -/

/-- One step of the scan for the latest record at `k`. -/
def latestStep (k : Bytes) (acc : Option (Entry A)) (e : Entry A) : Option (Entry A) :=
  if e.key = k then
    match acc with
    | none => some e
    | some o => if o.timestamp < e.timestamp then some e else some o
  else acc

/-- **The record a reader sees at `k`**: the one with the greatest time stamp over all authors. -/
def latestAt (R : Replica A) (k : Bytes) : Option (Entry A) := R.entries.foldl (latestStep k) none

/-- A reader sees a record at `k` that is not a removal. -/
def Shows (R : Replica A) (k : Bytes) : Prop := ∃ e, R.latestAt k = some e ∧ e.content ≠ []

/-- The records a reader sees, one per key. -/
def visible (R : Replica A) : List (Entry A) :=
  R.entries.filter fun e => decide (R.latestAt e.key = some e)

omit [DecidableEq A] in
theorem foldl_latestStep (k : Bytes) : ∀ (l : List (Entry A)) (acc : Option (Entry A)),
    (∀ o, acc = some o → o.key = k) →
      (l.foldl (latestStep k) acc = none ↔ acc = none ∧ ∀ o ∈ l, o.key ≠ k) ∧
      ∀ e, l.foldl (latestStep k) acc = some e →
        e.key = k ∧ (acc = some e ∨ e ∈ l) ∧ (∀ o ∈ l, o.key = k → o.timestamp ≤ e.timestamp) ∧
          ∀ o, acc = some o → o.timestamp ≤ e.timestamp
  | [], acc, hacc => by
    refine ⟨by simp, fun e he => ?_⟩
    simp only [List.foldl_nil] at he
    subst he
    exact ⟨hacc e rfl, Or.inl rfl, by simp, fun o ho => by cases ho; exact le_rfl⟩
  | x :: l, acc, hacc => by
    simp only [List.foldl_cons]
    by_cases hx : x.key = k
    · have hstep : ∃ o, latestStep k acc x = some o ∧ o.key = k ∧ x.timestamp ≤ o.timestamp ∧
          (o = x ∨ acc = some o) ∧ ∀ o', acc = some o' → o'.timestamp ≤ o.timestamp := by
        unfold latestStep
        rw [if_pos hx]
        rcases acc with _ | o'
        · exact ⟨x, rfl, hx, le_rfl, Or.inl rfl, fun o ho => by cases ho⟩
        · dsimp only
          split_ifs with ht
          · exact ⟨x, rfl, hx, le_rfl, Or.inl rfl, fun o ho => by cases ho; exact ht.le⟩
          · exact ⟨o', rfl, hacc o' rfl, not_lt.mp ht, Or.inr rfl,
              fun o ho => by cases ho; exact le_rfl⟩
      obtain ⟨o, ho, hok, hxo, hor, hacco⟩ := hstep
      rw [ho]
      obtain ⟨ih1, ih2⟩ := foldl_latestStep k l (some o) (fun o' h => by cases h; exact hok)
      refine ⟨?_, fun e he => ?_⟩
      · rw [ih1]
        constructor
        · rintro ⟨h, -⟩; cases h
        · rintro ⟨-, h⟩; exact absurd hx (h x (by simp))
      · obtain ⟨h1, h2, h3, h4⟩ := ih2 e he
        refine ⟨h1, ?_, ?_, fun o' ho' => (hacco o' ho').trans (h4 o rfl)⟩
        · rcases h2 with h2 | h2
          · cases h2
            rcases hor with rfl | h
            · right; simp
            · left; exact h
          · right; simp [h2]
        · intro o' ho' hk'
          rcases List.mem_cons.mp ho' with rfl | ho'
          · exact hxo.trans (h4 o rfl)
          · exact h3 o' ho' hk'
    · have hstep : latestStep k acc x = acc := by unfold latestStep; rw [if_neg hx]
      rw [hstep]
      obtain ⟨ih1, ih2⟩ := foldl_latestStep k l acc hacc
      refine ⟨?_, fun e he => ?_⟩
      · rw [ih1]
        simp only [List.mem_cons, forall_eq_or_imp]
        exact ⟨fun ⟨a, b⟩ => ⟨a, hx, b⟩, fun ⟨a, _, b⟩ => ⟨a, b⟩⟩
      · obtain ⟨h1, h2, h3, h4⟩ := ih2 e he
        refine ⟨h1, ?_, ?_, h4⟩
        · rcases h2 with h2 | h2
          · left; exact h2
          · right; simp [h2]
        · intro o ho hk
          rcases List.mem_cons.mp ho with rfl | ho
          · exact absurd hk hx
          · exact h3 o ho hk

omit [DecidableEq A] in
/-- **The record a reader sees** is stored under the key and no record under it is newer. -/
theorem latestAt_spec {R : Replica A} {k : Bytes} {e : Entry A} (h : R.latestAt k = some e) :
    e ∈ R.entries ∧ e.key = k ∧ ∀ o ∈ R.entries, o.key = k → o.timestamp ≤ e.timestamp := by
  obtain ⟨h1, h2, h3, -⟩ :=
    (foldl_latestStep k R.entries none (fun o ho => by cases ho)).2 e h
  exact ⟨h2.resolve_left (by simp), h1, h3⟩

omit [DecidableEq A] in
theorem latestAt_eq_none {R : Replica A} {k : Bytes} :
    R.latestAt k = none ↔ ∀ o ∈ R.entries, o.key ≠ k := by
  rw [latestAt, (foldl_latestStep k R.entries none (fun o ho => by cases ho)).1]
  simp

omit [DecidableEq A] in
/-- The record seen at `k` if it is newer than all others there. -/
theorem latestAt_of_newest {R : Replica A} {e : Entry A} (he : e ∈ R.entries)
    (h : ∀ o ∈ R.entries, o.key = e.key → o ≠ e → o.timestamp < e.timestamp) :
    R.latestAt e.key = some e := by
  rcases hl : R.latestAt e.key with _ | o
  · exact absurd rfl (latestAt_eq_none.mp hl e he)
  · obtain ⟨ho, hk, hmax⟩ := latestAt_spec hl
    by_contra hne
    have h1 := h o ho hk fun h => hne (by rw [h])
    have h2 := hmax e he rfl
    omega

theorem mem_visible {R : Replica A} {e : Entry A} :
    e ∈ R.visible ↔ R.latestAt e.key = some e := by
  simp only [visible, List.mem_filter, decide_eq_true_eq]
  exact ⟨fun h => h.2, fun h => ⟨(latestAt_spec h).1, h⟩⟩

/-- A record that is newer than all others is visible when it arrives. -/
theorem mem_visible_receive {R : Replica A} {e : Entry A}
    (h : ∀ o ∈ R.entries, o.timestamp < e.timestamp) : e ∈ (R.receive e).visible := by
  have hput := put_eq_receive h
  refine mem_visible.mpr (latestAt_of_newest ((mem_put hput).mpr (Or.inl rfl)) fun o ho _ hne => ?_)
  rcases (mem_put hput).mp ho with rfl | ho
  · exact absurd rfl hne
  · exact h o ho.1

end Replica

end Vendimint.Store
