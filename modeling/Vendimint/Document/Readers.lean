import Vendimint.Document.KeyValue

/-! # Two readers of one store

A machine and its manager rebuild the keys and the authors of the entries of the key/value store from
the records of their replicas.

* `kvAuthor_eq`: either device says who wrote an entry.
* `entries_under`: of the entries of a device those under a key are what it reads under that key.
* `kv_readers_agree`: devices with the same records read the same store. -/

namespace Vendimint.Document

open Vendimint.Store Vendimint.Async Vendimint.ManagerProtocol

/-- The device of an author. -/
def deviceOf : AuthorId → KvEntryAuthor
  | .machine => .machine
  | .manager => .manager

/-- The pair that a record stands for, with the device that wrote it. -/
def pairOf (k : Bytes) (e : Entry AuthorId) : KvEntry := ⟨k, e.content, deviceOf e.author, e.timestamp⟩

theorem kvAuthor_eq (x : Access) (a : AuthorId) : x.kvAuthor a = deviceOf a := by
  cases x <;> cases a <;> rfl

theorem kvEntry_eq (x : Access) {e : Entry AuthorId} {k : Bytes} (hk : e.key = KV_PREFIX ++ k) :
    x.kvEntry e = pairOf k e := by
  have hpre : KV_PREFIX <+: e.key := hk ▸ List.prefix_append _ _
  rw [Access.kvEntry, if_pos hpre, hk, List.drop_left, kvAuthor_eq, pairOf]

section Entries
variable {K : Ranking AuthorId} {R R' : Replica AuthorId}

/-- Of the entries shown, those under a key are the value there. -/
theorem matching_under (K : Ranking AuthorId) (R : Replica AuthorId) (k : Bytes) :
    ((R.matching K KV_PREFIX).filter fun e => e.key = KV_PREFIX ++ k).Perm
      (R.value K (KV_PREFIX ++ k)).toList := by
  have hnodup : (R.value K (KV_PREFIX ++ k)).toList.Nodup := by
    rcases R.value K (KV_PREFIX ++ k) with _ | e
    · exact List.nodup_nil
    · exact List.nodup_singleton e
  rw [List.perm_ext_iff_of_nodup ((Replica.nodup_matching ..).filter _) hnodup]
  intro e
  rw [List.mem_filter, Replica.mem_matching, decide_eq_true_eq, Option.mem_toList]
  constructor
  · rintro ⟨⟨hv, -⟩, hk⟩
    rwa [hk] at hv
  · intro hv
    have hk := Replica.key_of_value hv
    refine ⟨⟨?_, ?_⟩, hk⟩
    · rwa [hk]
    · rw [hk]
      exact List.prefix_append _ _

/-- **The entries under a key** are what is read under it. -/
theorem entries_under (x : Access) (k : Bytes) :
    (((R.matching K KV_PREFIX).map x.kvEntry).filter (·.key = k)).Perm
      ((R.value K (KV_PREFIX ++ k)).map x.kvEntry).toList := by
  have hfilter : (R.matching K KV_PREFIX).filter ((fun v : KvEntry => decide (v.key = k)) ∘ x.kvEntry) =
      (R.matching K KV_PREFIX).filter fun e => e.key = KV_PREFIX ++ k := by
    refine List.filter_congr fun e he => ?_
    obtain ⟨-, k', hk'⟩ := Replica.mem_matching.mp he
    rw [Function.comp_apply, x.kvEntry_key hk'.symm, ← hk', decide_eq_decide]
    exact (List.append_right_inj KV_PREFIX).symm
  have hmap : ((R.value K (KV_PREFIX ++ k)).map x.kvEntry).toList =
      (R.value K (KV_PREFIX ++ k)).toList.map x.kvEntry := by
    cases R.value K (KV_PREFIX ++ k) <;> rfl
  rw [List.filter_map, hfilter, hmap]
  exact (matching_under K R k).map x.kvEntry

/-- Devices with the same records show the same pairs. -/
theorem pairs_agree (h : Replica.AgreeOn (KV_PREFIX <+: ·) R R') (x y : Access) :
    ((R.matching K KV_PREFIX).map x.kvEntry).Perm ((R'.matching K KV_PREFIX).map y.kvEntry) := by
  have hmap : (R.matching K KV_PREFIX).map x.kvEntry = (R.matching K KV_PREFIX).map y.kvEntry := by
    refine List.map_congr_left fun e he => ?_
    obtain ⟨-, k, hk⟩ := Replica.mem_matching.mp he
    rw [kvEntry_eq x hk.symm, kvEntry_eq y hk.symm]
  rw [hmap]
  exact (h.matching fun _ hk => hk).map y.kvEntry

end Entries

/-! ### What a device reads -/

/-- The device of `x` in the setting `Z` reads the store of the replica `R`: its entries are all those
that `R` shows, with the device that wrote each, and they have one entry under each key that has a
value and none under the others. -/
structure ReadsStore (Z : Setting) (x : Access) (s : Device) (R : Replica AuthorId) : Prop where
  returns : ∃ l, Returns (world Z x.author) () (x.getKvEntries Z.serde).run s (.ok l)
  ok : ∀ r, Returns (world Z x.author) () (x.getKvEntries Z.serde).run s r → ∃ l, r = .ok l
  shown : ∀ l, Returns (world Z x.author) () (x.getKvEntries Z.serde).run s (.ok l) →
    ∀ v ∈ l, ∃ e, R.value Z.ranking (KV_PREFIX ++ v.key) = some e ∧ v = pairOf v.key e
  value : ∀ k, ∃ o, Returns (world Z x.author) () (x.getKvValue Z.serde k).run s (.ok o)
  under : ∀ l, Returns (world Z x.author) () (x.getKvEntries Z.serde).run s (.ok l) →
    ∀ k o, Returns (world Z x.author) () (x.getKvValue Z.serde k).run s (.ok o) →
      l.filter (·.key = k) = o.toList

section Devices
variable {Z Z' : Setting} {x y : Access} {s s' : Device} {d d' : NamespaceId} {R R' : Replica AuthorId}

theorem perm_toList {α : Type} {l : List α} {o : Option α} (h : l.Perm o.toList) : l = o.toList := by
  cases o with
  | none => exact List.perm_nil.mp h
  | some a => exact List.perm_singleton.mp h

theorem Access.Opens.readsStore (h : x.Opens Z.serde s d R) : ReadsStore Z x s R where
  returns := (ensures_getKvEntries h).exists_returns trivial
  ok r hr := by
    obtain ⟨l, -, rfl, -⟩ := (ensures_getKvEntries h).ok_of_returns hr trivial
    exact ⟨l, rfl⟩
  shown l hl v hv := by
    obtain ⟨e, he, rfl⟩ := List.mem_map.mp ((returns_getKvEntries h hl).mem_iff.mp hv)
    obtain ⟨hval, k, hk⟩ := Replica.mem_matching.mp he
    rw [x.kvEntry_key hk.symm, kvEntry_eq x hk.symm, hk]
    exact ⟨e, hval, rfl⟩
  value k := ⟨_, (returns_getKvValue h).mpr rfl⟩
  under l hl k o ho := by
    have hval := Except.ok.inj ((returns_getKvValue h).mp ho)
    have hperm := (returns_getKvEntries h hl).filter (fun v => decide (v.key = k))
    rw [hval]
    exact perm_toList (hperm.trans (entries_under x k))

/-- **The two devices read the same store**: if the machine's replica and the manager's hold the same
records under the keys of the store, both list the same entries. -/
theorem kv_readers_agree {m : EndpointId} (hrank : Z.ranking = Z'.ranking)
    (h : Access.machine.Opens Z.serde s d R) (h' : (Access.manager m).Opens Z'.serde s' d' R')
    (hag : Replica.AgreeOn (KV_PREFIX <+: ·) R R') :
    (∀ l l', Returns (world Z .machine) () (MachineProtocol.getKvEntries Z.serde).run s (.ok l) →
      Returns (world Z' .manager) () (ManagerProtocol.getKvEntries Z'.serde m).run s' (.ok l') →
        l.Perm l') ∧
    ReadsStore Z .machine s R ∧ ReadsStore Z' (.manager m) s' R' := by
  refine ⟨fun l l' hl hl' => ?_, h.readsStore, h'.readsStore⟩
  have hpairs := pairs_agree (K := Z.ranking) hag .machine (.manager m)
  refine (returns_getKvEntries h hl).trans (hpairs.trans ?_)
  rw [hrank]
  exact (returns_getKvEntries h' hl').symm

end Devices

namespace Mirrored

def machineId : EndpointId := ⟨.replicate 32 1⟩

def docId : NamespaceId := ⟨.replicate 32 2⟩

/-- Both devices have written under the key that is the prefix itself. -/
def replica : Replica AuthorId :=
  ⟨[⟨.machine, KV_PREFIX ++ KV_PREFIX, 0, [7]⟩, ⟨.manager, KV_PREFIX ++ KV_PREFIX, 1, [8]⟩], by decide⟩

def device : Device := .single .framed machineId docId replica

end Mirrored

open Mirrored in
/-- A document with an entry of each device. -/
theorem kv_readers_agree_both :
    (∀ l l', Returns (world (.counting 1) .machine) ()
        (MachineProtocol.getKvEntries (Setting.counting 1).serde).run device (.ok l) →
      Returns (world (.counting 5) .manager) ()
        (ManagerProtocol.getKvEntries (Setting.counting 5).serde machineId).run device (.ok l') →
        l.Perm l') ∧
    ReadsStore (.counting 1) .machine device replica ∧
      ReadsStore (.counting 5) (.manager machineId) device replica :=
  kv_readers_agree rfl (Access.single_opens .machine _ (Or.inl rfl) docId replica)
    (Access.single_opens (.manager machineId) _ (Or.inr rfl) docId replica) (.refl _ replica)

end Vendimint.Document
