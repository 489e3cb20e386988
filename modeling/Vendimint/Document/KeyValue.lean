import Vendimint.Document.Contracts

/-! # The key/value store of a machine

`set_kv_value` passes the keys of its caller to the store below, where a write also drops what its
author wrote under longer keys, and where the newest record is shown whoever wrote it.

* `returns_getKvValue`, `returns_getKvEntries`: what a device reads is what its replica shows.
* `setKvValue_isUpdate_iff`: a write is a map update exactly if no newer record of the other device
  covers it, and no query notices what it drops under longer keys.
* `setKvValue_not_update`: a write under a key loses the value under a longer one. -/

namespace Vendimint.Document

open Vendimint.Store Vendimint.Async Vendimint.ManagerProtocol

variable {Z : Setting} {x : Access} {s : Device} {d : NamespaceId} {R : Replica AuthorId}

/-! ### Reading -/

/-- The device of an author, as the device of `x` sees it. -/
def Access.kvAuthor (x : Access) (a : AuthorId) : KvEntryAuthor :=
  if a = x.author then x.device
  else
    match x.device with
    | .machine => .manager
    | .manager => .machine

/-- The pair that the device of `x` reads from an entry. -/
def Access.kvEntry (x : Access) (e : Entry AuthorId) : KvEntry :=
  ⟨if KV_PREFIX <+: e.key then e.key.drop KV_PREFIX.length else e.key, e.content,
    x.kvAuthor e.author, e.timestamp⟩

theorem Access.kvAuthor_injective (x : Access) : Function.Injective x.kvAuthor := by
  intro a b
  cases x <;> cases a <;> cases b <;> simp [kvAuthor, author, device]

theorem Access.kvEntry_key (x : Access) {e : Entry AuthorId} {k : Bytes} (hk : e.key = KV_PREFIX ++ k) :
    (x.kvEntry e).key = k := by
  have hpre : KV_PREFIX <+: e.key := hk ▸ List.prefix_append _ _
  rw [kvEntry, if_pos hpre, hk, List.drop_left]

/-- Entries under one key are read as different pairs. -/
theorem Access.kvEntry_inj (x : Access) {e o : Entry AuthorId} (hk : e.key = o.key)
    (h : x.kvEntry e = x.kvEntry o) : e = o := by
  obtain ⟨a, k, t, c⟩ := e
  obtain ⟨a', k', t', c'⟩ := o
  simp only [kvEntry, KvEntry.mk.injEq] at h hk
  obtain ⟨-, rfl, ha, rfl⟩ := h
  rw [x.kvAuthor_injective ha, hk]

theorem ensures_fromIrohEntry (e : Entry AuthorId) :
    Ensures (world Z x.author) () (KvEntry.fromIrohEntry e x.device).run
      (Outcome.oksIff True fun r s' => s' = s ∧ r = x.kvEntry e) s := by
  unfold KvEntry.fromIrohEntry
  simp only [Fallible.run_bind, run_attempt, call_eq, Prog.await_bind, Prog.pure_bind]
  refine ensures_reply (.ok e.content) trivial ⟨rfl, rfl⟩ (fun r hr => hr.2) trivial ?_
  refine ensures_reply (.ok x.author) trivial ⟨rfl, rfl⟩ (fun r hr => hr.2) trivial ?_
  exact ⟨trivial, rfl, rfl⟩

theorem ensures_getKvValue (h : x.Opens Z.serde s d R) (k : Bytes) :
    Ensures (world Z x.author) () (x.getKvValue Z.serde k).run
      (Outcome.oksIff True fun r s' =>
        s' = s ∧ r = (R.value Z.ranking (KV_PREFIX ++ k)).map x.kvEntry) s := by
  rw [Access.getKvValue_eq]
  refine (ensures_openDoc x).andThen (fun _ => ⟨d, R, h⟩) ?_
  rintro d' s' - ⟨hs, R', hR'⟩
  obtain ⟨rfl, rfl⟩ := h.unique hR'
  rw [hs]
  obtain ⟨t, -, -, hR⟩ := h
  simp only [Fallible.run_bind, run_attempt, call_eq, Prog.await_bind, Prog.pure_bind]
  refine ensures_reply (.ok (R.value Z.ranking (KV_PREFIX ++ k))) trivial ⟨rfl, fun R' hR' => ?_⟩
    (fun r hr => hr.2 R hR) trivial ?_
  · rw [hR, Option.some.injEq] at hR'
    rw [hR']
  rw [Fallible.andThen_ok]
  rcases R.value Z.ranking (KV_PREFIX ++ k) with _ | e
  · exact ⟨trivial, rfl, rfl⟩
  · rw [Fallible.run_bind]
    refine (ensures_fromIrohEntry e).andThen id ?_
    rintro r s' - ⟨rfl, rfl⟩
    exact ⟨trivial, rfl, rfl⟩

/-- **What a device reads under a key** is what its replica shows there. -/
theorem returns_getKvValue (h : x.Opens Z.serde s d R) {k : Bytes}
    {r : Except Error (Option KvEntry)} :
    Returns (world Z x.author) () (x.getKvValue Z.serde k).run s r ↔
      r = .ok ((R.value Z.ranking (KV_PREFIX ++ k)).map x.kvEntry) := by
  have hget := ensures_getKvValue h k
  constructor
  · intro hr
    obtain ⟨a, s', rfl, -, rfl⟩ := hget.ok_of_returns hr trivial
    rfl
  · rintro rfl
    obtain ⟨a, ha⟩ := hget.exists_returns trivial
    obtain ⟨-, s', -, rfl⟩ := hget.of_returns_ok ha
    exact ha

theorem ensures_kvEntriesOf : ∀ (l : List (Entry AuthorId)) (acc : List KvEntry),
    Ensures (world Z x.author) () (MachineProtocol.kvEntriesOf x.device (l.map .ok) acc).run
      (Outcome.oksIff True fun r s' => s' = s ∧ r = acc ++ l.map x.kvEntry) s
  | [], acc => ⟨trivial, rfl, by simp⟩
  | e :: l, acc => by
    rw [List.map_cons, MachineProtocol.kvEntriesOf, Fallible.run_bind]
    refine (ensures_fromIrohEntry e).andThen id ?_
    rintro r s' - ⟨hs, rfl⟩
    rw [hs]
    refine (ensures_kvEntriesOf l _).oks_mono id ?_
    rintro r s' - ⟨rfl, rfl⟩
    exact ⟨trivial, rfl, by simp⟩

theorem ensures_getKvEntries (h : x.Opens Z.serde s d R) :
    Ensures (world Z x.author) () (x.getKvEntries Z.serde).run
      (Outcome.oksIff True fun r s' =>
        s' = s ∧ r.Perm ((R.matching Z.ranking KV_PREFIX).map x.kvEntry)) s := by
  rw [Access.getKvEntries_eq]
  refine (ensures_openDoc x).andThen (fun _ => ⟨d, R, h⟩) ?_
  rintro d' s' - ⟨hs, R', hR'⟩
  obtain ⟨rfl, rfl⟩ := h.unique hR'
  rw [hs]
  obtain ⟨t, -, -, hR⟩ := h
  simp only [Fallible.run_bind, run_attempt, call_eq, Prog.await_bind, Prog.pure_bind]
  refine ensures_ask (fun _ _ => trivial)
    ⟨.ok ((R.matching Z.ranking KV_PREFIX).map .ok), rfl, fun R' hR' => ?_⟩ trivial fun r hr => ?_
  · rw [hR, Option.some.injEq] at hR'
    exact ⟨_, hR' ▸ List.Perm.refl _, rfl⟩
  obtain ⟨l, hl, rfl⟩ := hr.2 R hR
  rw [Fallible.andThen_ok]
  refine (ensures_kvEntriesOf l []).oks_mono id ?_
  rintro r s' - ⟨rfl, rfl⟩
  exact ⟨trivial, rfl, by simpa using hl.map x.kvEntry⟩

/-- **The pairs that a device reads** are those that its replica shows, in some order. -/
theorem returns_getKvEntries (h : x.Opens Z.serde s d R) {l : List KvEntry}
    (hr : Returns (world Z x.author) () (x.getKvEntries Z.serde).run s (.ok l)) :
    l.Perm ((R.matching Z.ranking KV_PREFIX).map x.kvEntry) := by
  obtain ⟨-, s', -, hl⟩ := (ensures_getKvEntries h).of_returns_ok hr
  exact hl

/-! ### Writing -/

/-- The record of a write on the device of `x`. -/
def Access.record (x : Access) (Z : Setting) (s : Device) (k v : Bytes) : Entry AuthorId :=
  ⟨x.author, KV_PREFIX ++ k, Z.clock s.writes, v⟩

/-- The device after the write. -/
def Access.written (s : Device) (d : NamespaceId) (R' : Replica AuthorId) : Device :=
  Device.set { s with writes := s.writes + 1 } d R'

theorem Access.Opens.written (h : x.Opens Z.serde s d R) (R' : Replica AuthorId) :
    x.Opens Z.serde (Access.written s d R') d R' := by
  obtain ⟨t, ht, rfl, -⟩ := h
  refine ⟨t, ?_, rfl, by simp [Access.written]⟩
  cases x <;> exact ht

theorem ensures_setKvValue (h : x.Opens Z.serde s d R) (k v : Bytes) :
    Ensures (world Z x.author) () (x.setKvValue Z.serde k v).run
      (fun o s' => o = .returned (.ok ()) → v ≠ [] ∧
        ∃ R', R.put (x.record Z s k v) = some R' ∧ s' = Access.written s d R') s := by
  have hopen := @ensures_openDoc Z x.author s x
  rw [Access.setKvValue_eq]
  refine Ensures.bind (hopen.mono fun o t ho => ?_)
  rcases o with (e | d') | _ | _
  · exact absurd ⟨d, R, h⟩ ho
  · obtain ⟨-, rfl, R', hR'⟩ := ho
    obtain ⟨rfl, rfl⟩ := h.unique hR'
    obtain ⟨t, -, -, hR⟩ := h
    simp only [Outcome.seq_returned, Fallible.andThen_ok, Fallible.run_bind, run_attempt, call_eq,
      Prog.await_bind, Prog.pure_bind]
    refine ensures_reply (.ok x.author) trivial ⟨rfl, rfl⟩ (fun r hr => hr.2) nofun ?_
    refine ⟨⟨.error "", _, Or.inr ⟨rfl, "", rfl⟩⟩, fun r s' he => ?_, fun _ _ => nofun⟩
    rcases he with ⟨hv, ⟨R₁, R', hR₁, hput, rfl⟩, rfl⟩ | ⟨-, e, rfl⟩
    · rw [hR, Option.some.injEq] at hR₁
      exact fun _ => ⟨hv, R', hR₁ ▸ hput, rfl⟩
    · intro ho
      cases ho
  · exact absurd ⟨d, R, h⟩ ho
  · exact nofun

/-- A write of a value that is not refused may succeed. -/
theorem runs_setKvValue (h : x.Opens Z.serde s d R) {k v : Bytes} (hv : v ≠ [])
    {R' : Replica AuthorId} (hput : R.put (x.record Z s k v) = some R') :
    Runs (world Z x.author) () Alone (x.setKvValue Z.serde k v).run s (.returned (.ok ()))
      (Access.written s d R') := by
  have hopen := @ensures_openDoc Z x.author s x
  obtain ⟨d', s', hrun⟩ := hopen.exists_returns ⟨d, R, h⟩
  obtain ⟨-, hs, R₁, hR₁⟩ := hrun.ensures hopen
  obtain ⟨rfl, rfl⟩ := h.unique hR₁
  rw [hs] at hrun
  rw [Access.setKvValue_eq]
  refine hrun.bind rfl ?_
  obtain ⟨t, -, -, hR⟩ := h
  refine runs_next .authorDefault (.ok x.author) _ ⟨rfl, rfl⟩ ?_
  exact runs_next (.docSetBytes d x.author (KV_PREFIX ++ k) v) (.ok ()) _
    (Or.inl ⟨hv, ⟨R, R', hR, hput, rfl⟩, rfl⟩) (.returned _ _)

/-! ### A write as a map update -/

/-- **The write of `v` under `k` is a map update**: if it succeeds, then `k` is read as `v`, written by
this device, and every other key is read as before. -/
def SetIsUpdate (Z : Setting) (x : Access) (s : Device) (k v : Bytes) : Prop :=
  ∀ s', Runs (world Z x.author) () Alone (x.setKvValue Z.serde k v).run s (.returned (.ok ())) s' →
    (∃ t, ∀ r, Returns (world Z x.author) () (x.getKvValue Z.serde k).run s' r ↔
      r = .ok (some ⟨k, v, x.device, t⟩)) ∧
    (∀ k', k' ≠ k → ∀ r, Returns (world Z x.author) () (x.getKvValue Z.serde k').run s' r ↔
      Returns (world Z x.author) () (x.getKvValue Z.serde k').run s r) ∧
    ∀ l l', Returns (world Z x.author) () (x.getKvEntries Z.serde).run s (.ok l) →
      Returns (world Z x.author) () (x.getKvEntries Z.serde).run s' (.ok l') →
        (l'.filter (·.key ≠ k)).Perm (l.filter (·.key ≠ k))

/-- No record of another author under the key comes before the write. -/
def Uncovered (K : Ranking AuthorId) (R : Replica AuthorId) (e : Entry AuthorId) : Prop :=
  ∀ o ∈ R.entries, o.key = e.key → o.author ≠ e.author → o.age K ≤ e.age K

/-- No query under a longer key notices what the write drops. -/
def SparesLonger (K : Ranking AuthorId) (R : Replica AuthorId) (e : Entry AuthorId) : Prop :=
  ∀ o ∈ R.entries, Replica.Drops e o → o.key ≠ e.key → R.Unnoticed K o

section Update
variable {R' : Replica AuthorId} {k v : Bytes}

theorem kvKey_ne {k k' : Bytes} : KV_PREFIX ++ k' ≠ KV_PREFIX ++ k ↔ k' ≠ k :=
  not_congr (List.append_right_inj KV_PREFIX)

/-- The record of the write is shown under its key exactly if it is uncovered. -/
theorem value_written (hput : R.put (x.record Z s k v) = some R') (hv : v ≠ []) :
    R'.value Z.ranking (KV_PREFIX ++ k) = some (x.record Z s k v) ↔
      Uncovered Z.ranking R (x.record Z s k v) := by
  rw [Replica.value_eq_some, and_iff_left (show (x.record Z s k v).content ≠ [] from hv)]
  exact Replica.shownAt_put_self hput

/-- The other keys are read as before exactly if the write spares the longer ones. -/
theorem values_written (hput : R.put (x.record Z s k v) = some R') :
    (∀ k', k' ≠ k → R'.value Z.ranking (KV_PREFIX ++ k') = R.value Z.ranking (KV_PREFIX ++ k')) ↔
      SparesLonger Z.ranking R (x.record Z s k v) := by
  rw [SparesLonger, ← Replica.value_put_iff (K := Z.ranking) (P := (KV_PREFIX <+: ·)) hput
    fun k' hk' => (List.prefix_append _ _).trans hk']
  constructor
  · rintro hall _ ⟨k', rfl⟩ hk
    exact hall k' (kvKey_ne.mp hk)
  · intro hall k' hk
    exact hall _ (List.prefix_append _ _) (kvKey_ne.mpr hk)

theorem kvEntry_record : x.kvEntry (x.record Z s k v) = ⟨k, v, x.device, Z.clock s.writes⟩ := by
  have hkey := x.kvEntry_key (e := x.record Z s k v) (k := k) rfl
  have hauthor : x.kvAuthor x.author = x.device := if_pos rfl
  rw [Access.kvEntry] at hkey ⊢
  simp only [Access.record] at hkey ⊢
  rw [hkey, hauthor]

/-- Values that are read as the same pair are the same. -/
theorem map_kvEntry_inj {R₁ R₂ : Replica AuthorId} {K : Ranking AuthorId} {k : Bytes}
    (h : (R₁.value K k).map x.kvEntry = (R₂.value K k).map x.kvEntry) :
    R₁.value K k = R₂.value K k := by
  rcases h₁ : R₁.value K k with _ | e <;> rcases h₂ : R₂.value K k with _ | o
  · rfl
  · rw [h₁, h₂] at h
    cases h
  · rw [h₁, h₂] at h
    cases h
  · rw [h₁, h₂, Option.map_some, Option.map_some, Option.some.injEq] at h
    rw [x.kvEntry_inj ((Replica.key_of_value h₁).trans (Replica.key_of_value h₂).symm) h]

/-- The entries under the other keys are shown as before. -/
theorem entries_written
    (h : ∀ k', k' ≠ k → R'.value Z.ranking (KV_PREFIX ++ k') = R.value Z.ranking (KV_PREFIX ++ k')) :
    (((R'.matching Z.ranking KV_PREFIX).map x.kvEntry).filter (·.key ≠ k)).Perm
      (((R.matching Z.ranking KV_PREFIX).map x.kvEntry).filter (·.key ≠ k)) := by
  rw [List.filter_map, List.filter_map]
  refine List.Perm.map _ ((List.perm_ext_iff_of_nodup ((Replica.nodup_matching ..).filter _)
    ((Replica.nodup_matching ..).filter _)).mpr fun e => ?_)
  simp only [List.mem_filter, Replica.mem_matching, Function.comp_apply, decide_eq_true_eq]
  refine and_congr_left fun hk => and_congr_left fun hpre => ?_
  obtain ⟨k', hk'⟩ := hpre
  have hkey : k' ≠ k := x.kvEntry_key hk'.symm ▸ hk
  rw [← hk', h k' hkey]

end Update

/-- **When a write is a map update**: if the store refuses it, or if it is uncovered and spares the
longer keys. -/
theorem setKvValue_isUpdate_iff (h : x.Opens Z.serde s d R) {k v : Bytes} (hv : v ≠ []) :
    SetIsUpdate Z x s k v ↔ R.Refuses (x.record Z s k v) ∨
      Uncovered Z.ranking R (x.record Z s k v) ∧ SparesLonger Z.ranking R (x.record Z s k v) := by
  constructor
  · intro hup
    by_cases href : R.Refuses (x.record Z s k v)
    · exact Or.inl href
    obtain ⟨R', hput⟩ : ∃ R', R.put (x.record Z s k v) = some R' := ⟨_, dif_neg href⟩
    have hopens := h.written R'
    obtain ⟨⟨t, hself⟩, hother, -⟩ := hup _ (runs_setKvValue h hv hput)
    refine Or.inr ⟨?_, ?_⟩
    · have hval := (returns_getKvValue hopens).mp ((hself _).mpr rfl)
      rw [Except.ok.injEq] at hval
      rcases hR' : R'.value Z.ranking (KV_PREFIX ++ k) with _ | e
      · rw [hR'] at hval
        cases hval
      · rw [hR', Option.map_some, Option.some.injEq] at hval
        -- The entry that is read was written by this device, so it is the record of the write.
        have hauthor : e.author = x.author := by
          have hdev : x.device = x.kvAuthor e.author := congrArg KvEntry.author hval
          exact x.kvAuthor_injective (hdev.symm.trans (if_pos rfl).symm)
        obtain ⟨hmem, hkey, -⟩ := Replica.shownAt_eq_some.mp (Replica.value_eq_some.mp hR').1
        have hrec : x.record Z s k v ∈ R'.entries := (Replica.mem_put hput).mpr (Or.inl rfl)
        have he : e = x.record Z s k v :=
          Replica.eq_of_slot hmem hrec (by rw [Entry.slot, Entry.slot, hauthor, hkey]; rfl)
        exact (value_written hput hv).mp (he ▸ hR')
    · refine (values_written hput).mp fun k' hk' => map_kvEntry_inj (x := x) ?_
      have hval := (hother k' hk' _).mp ((returns_getKvValue hopens).mpr rfl)
      exact Except.ok.inj ((returns_getKvValue h).mp hval)
  · rintro hcond s' hrun
    obtain ⟨-, R', hput, rfl⟩ := hrun.ensures (ensures_setKvValue h k v) rfl
    have hopens := h.written R'
    have href : ¬ R.Refuses (x.record Z s k v) := by
      intro href
      rw [Replica.put, dif_pos href] at hput
      cases hput
    obtain ⟨hcov, hspare⟩ := hcond.resolve_left href
    have hvals := (values_written hput).mpr hspare
    refine ⟨⟨Z.clock s.writes, fun r => ?_⟩, fun k' hk' r => ?_, fun l l' hl hl' => ?_⟩
    · rw [returns_getKvValue hopens, (value_written hput hv).mpr hcov, Option.map_some, kvEntry_record]
    · rw [returns_getKvValue hopens, returns_getKvValue h, hvals k' hk']
    · refine ((returns_getKvEntries hopens hl').filter _).trans ?_
      exact (entries_written hvals).trans ((returns_getKvEntries h hl).filter _).symm

namespace BothDevices

/-- The records of both devices: the manager's value hides the machine's under the longer key. -/
def longer : Entry AuthorId := ⟨.machine, KV_PREFIX ++ [1, 2], 0, [7]⟩
def newer : Entry AuthorId := ⟨.manager, KV_PREFIX ++ [1, 2], 5, [8]⟩
def older : Entry AuthorId := ⟨.manager, KV_PREFIX ++ [1], 0, [6]⟩

def replica : Replica AuthorId := ⟨[longer, newer, older], by decide⟩

def device : Device := .single .framed ⟨.replicate 32 1⟩ ⟨.replicate 32 2⟩ replica

/-- What the machine writes under the key `1`. -/
def record : Entry AuthorId := Access.machine.record (.counting 1) device [1] [9]

theorem uncovered : Uncovered (Setting.counting 1).ranking replica record := by
  unfold Uncovered
  decide

theorem sparesLonger : SparesLonger (Setting.counting 1).ranking replica record := by
  intro o ho hdrops _
  have hown : o = longer := by
    revert o
    decide
  subst hown
  refine Or.inl fun hshown => ?_
  obtain ⟨-, -, hnewest⟩ := Replica.shownAt_eq_some.mp hshown
  exact absurd (hnewest newer (by simp [replica]) rfl) (by decide)

end BothDevices

open BothDevices in
/-- A write that drops a value which is hidden by the other device is a map update. -/
theorem setKvValue_isUpdate_hidden : SetIsUpdate (.counting 1) .machine device [1] [9] :=
  (setKvValue_isUpdate_iff (Access.single_opens .machine _ (Or.inl rfl) _ _) (by decide)).mpr
    (Or.inr ⟨uncovered, sparesLonger⟩)

/-! ### A value under a longer key -/

namespace Longer

def docId : NamespaceId := ⟨.replicate 32 2⟩

/-- The machine has written under the key `1, 2`. -/
def replica : Replica AuthorId := ⟨[⟨.machine, KV_PREFIX ++ [1, 2], 0, [7]⟩], List.nodup_singleton _⟩

def device : Device := .single .framed ⟨.replicate 32 1⟩ docId replica

/-- Then it writes under the key `1`. -/
def record : Entry AuthorId := Access.machine.record (.counting 1) device [1] [9]

theorem put_record : replica.put record = some ⟨[record], List.nodup_singleton _⟩ := by
  rw [Replica.put, dif_neg (by decide)]
  rfl

theorem opens_device : Access.machine.Opens Serde.framed device docId replica :=
  Access.single_opens .machine _ (Or.inl rfl) _ _

theorem value_before :
    replica.value (Setting.counting 1).ranking (KV_PREFIX ++ [1, 2]) =
      some ⟨.machine, KV_PREFIX ++ [1, 2], 0, [7]⟩ := by
  refine Replica.value_eq_some.mpr ⟨Replica.shownAt_eq_some.mpr ⟨List.mem_singleton.mpr rfl, rfl, ?_⟩,
    by decide⟩
  intro o ho _
  rw [List.mem_singleton.mp ho]

theorem value_after :
    Replica.value (Setting.counting 1).ranking ⟨[record], List.nodup_singleton _⟩
      (KV_PREFIX ++ [1, 2]) = none := by
  have hnone : Replica.shownAt (Setting.counting 1).ranking ⟨[record], List.nodup_singleton _⟩
      (KV_PREFIX ++ [1, 2]) = none := by
    refine Replica.shownAt_eq_none.mpr fun e he => ?_
    rw [List.mem_singleton.mp he]
    decide
  rw [Replica.value, hnone]
  rfl

end Longer

/-- **A write under a key loses the value under a longer one.** -/
theorem setKvValue_not_update : ¬ ∀ (Z : Setting) (x : Access) (s : Device) (d : NamespaceId)
    (R : Replica AuthorId) (k v : Bytes), x.Opens Z.serde s d R → v ≠ [] → SetIsUpdate Z x s k v := by
  intro hall
  have hup := hall (.counting 1) .machine Longer.device Longer.docId Longer.replica [1] [9]
    Longer.opens_device (by decide)
  have hrun := runs_setKvValue (Z := .counting 1) (k := [1]) (v := [9]) Longer.opens_device (by decide)
    Longer.put_record
  have hother := (hup _ hrun).2.1 [1, 2] (by decide)
  have hbefore := (returns_getKvValue (Z := .counting 1) (k := [1, 2]) Longer.opens_device).mpr rfl
  have hafter := (returns_getKvValue (Longer.opens_device.written _)).mp ((hother _).mpr hbefore)
  rw [Longer.value_before, Longer.value_after] at hafter
  cases hafter

end Vendimint.Document
