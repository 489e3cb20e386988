import Vendimint.Federation.Join

/-! # Reopening a wallet

A process opens the wallet and makes any number of calls at a time, each of which may fail or be
dropped at any operation; then the process ends, at any moment, and another one starts.

* `step_whole`: the operations keep a whole directory, one that has no directory of a federation
  without its database except the one that the holder of the lock is about to join.
* `wallet_reopens`: **the next start succeeds** with the clients that were joined and not left and the
  mnemonic of the first start, in runs that leave no directory without its database behind.
* `failed_join_blocks`: after a join that failed, no start succeeds. -/

namespace Vendimint.Federation

open Vendimint.Store Vendimint.Async

/-! ### Processes -/

/-- The tasks of a process: it opens the wallet, and makes calls. -/
inductive TaskId
  | new
  | call (n : ℕ)
  deriving DecidableEq

/-- What the tasks return. -/
inductive Result
  | opened (r : Except Error Mnemonic)
  | done (r : Except Error Unit)

section Semantics
variable (J : Serde)

/-- The program that opens the wallet. -/
def openWallet : Fut Result := (Wallet.new J).run.bind fun r => .pure (.opened r)

/-- The program of a call. -/
def Call.task (secret : Mnemonic) (c : Call) : Fut Result :=
  (c.run J secret).bind fun r => .pure (.done r)

/-- **The processes** on one directory, one after the other. -/
def processes : System TaskId Op Op.Ret Result (State TaskId) where
  toWorld := wallet True
  spawn i p s s' := s' = s ∧
    match i with
    | .new => p = openWallet J
    | .call _ => ∃ secret c, p = Call.task J secret c
  env s s' dead := s' = s.crash ∧ ∀ i, dead i = true

/-- What an operation has left that is written to a file, or is to remove a directory: the mnemonic is
read back, and a directory that is still there has its database. -/
def Readable : Op → State TaskId → Prop
  | .writeFile .mnemonic _, s => ∀ b, s.mnemonicFile = some b → ∃ m, J.mnemonic.dec b = some m
  | .removeDirAll (.federationDir f), s => f ∈ s.dirs → f ∈ s.initialized
  | _, _ => True

/-- An operation of the task `i` that failed, or at which `i` was dropped, has left what can be opened:
the task has not made a directory of a federation that is not joined yet. -/
def Harmless (i : TaskId) (op : Op) (s s' : State TaskId) : Prop :=
  (s.dirLock = some i → opening s'.log = none) ∧ Readable J op s'

/-- The processes, in runs in which what is left can be opened. -/
def calmProcesses : System TaskId Op Op.Ret Result (State TaskId) where
  exec i op s r s' := (wallet True).exec i op s r s' ∧ (¬ op.Succeeds r → Harmless J i op s s')
  cut i op s s' := (wallet True).cut i op s s' ∧ Harmless J i op s s'
  spawn := (processes J).spawn
  env s s' dead := (processes J).env s s' dead ∧ opening s.log = none

end Semantics

/-! ### Whole directories -/

/-- The directory can be opened, but for the federation that the holder of its lock is joining. -/
structure Whole (J : Serde) (s : State TaskId) : Prop where
  members : members s.log = s.initialized
  subset : s.initialized ⊆ s.dirs
  dirs : ∀ f ∈ s.dirs, f ∈ s.initialized ∨ opening s.log = some f
  fresh : ∀ f, opening s.log = some f → f ∉ s.initialized
  held : opening s.log ≠ none → s.dirLock ≠ none
  mnemonic : ∀ b, s.mnemonicFile = some b → ∃ m, J.mnemonic.dec b = some m

/-- What other tasks leave to the task `i`: what the lock on the directory protects, and the mnemonic
while the wallet is opened. -/
structure Relies (i : TaskId) (s s' : State TaskId) : Prop where
  lock : s.dirLock = some i → s'.dirLock = some i
  dirs : s.dirLock = some i → s'.dirs = s.dirs
  initialized : s.dirLock = some i → s'.initialized = s.initialized
  opening : s.dirLock = some i → opening s'.log = opening s.log
  mnemonic : i = .new → s'.mnemonicFile = s.mnemonicFile

/-- What the task `i` guarantees to the others. -/
structure Guards (i : TaskId) (s s' : State TaskId) : Prop where
  lock : s.dirLock ≠ some i → s.dirLock ≠ none → s'.dirLock = s.dirLock
  dirs : s.dirLock ≠ some i → s'.dirs = s.dirs
  initialized : s.dirLock ≠ some i → s'.initialized = s.initialized
  opening : s.dirLock ≠ some i → opening s'.log = opening s.log
  mnemonic : i ≠ .new → s'.mnemonicFile = s.mnemonicFile
  kept : ∀ b, s.mnemonicFile = some b → s'.mnemonicFile = some b

theorem Guards.refl (i : TaskId) (s : State TaskId) : Guards i s s :=
  ⟨fun _ _ => rfl, fun _ => rfl, fun _ => rfl, fun _ => rfl, fun _ => rfl, fun _ => id⟩

/-- The discipline of the processes, with a further invariant `T`. -/
def opens (J : Serde) (T : State TaskId → Prop) : Discipline TaskId (State TaskId) where
  inv s := Whole J s ∧ T s
  rely := Relies
  guar := Guards
  rely_refl _ _ := ⟨id, fun _ => rfl, fun _ => rfl, fun _ => rfl, fun _ => rfl⟩
  rely_trans h h' :=
    ⟨fun hl => h'.lock (h.lock hl), fun hl => (h'.dirs (h.lock hl)).trans (h.dirs hl),
      fun hl => (h'.initialized (h.lock hl)).trans (h.initialized hl),
      fun hl => (h'.opening (h.lock hl)).trans (h.opening hl),
      fun hi => (h'.mnemonic hi).trans (h.mnemonic hi)⟩
  compat {i j s s'} hij _ _ h := by
    have hne : s.dirLock = some i → s.dirLock ≠ some j :=
      fun hl hl' => hij (Option.some.inj (hl.symm.trans hl'))
    exact ⟨fun hl => (h.lock (hne hl) (by simp [hl])).trans hl, fun hl => h.dirs (hne hl),
      fun hl => h.initialized (hne hl), fun hl => h.opening (hne hl),
      fun hi => h.mnemonic fun hj => hij (hi.trans hj.symm)⟩

/-! ### Steps -/

/-- When a task may run an operation: what the lock protects is changed by its holder only, and the
mnemonic is written once. -/
def Allowed (J : Serde) (i : TaskId) : Op → State TaskId → Prop
  | .dbOpen _, s | .removeDirAll (.federationDir _), s | .dataDirRelease, s =>
    s.dirLock = some i ∧ opening s.log = none
  | .clientJoin invite _, s =>
    s.dirLock = some i ∧ opening s.log = some invite.federationId ∧ invite.federationId ∈ s.dirs
  | .writeFile .mnemonic b, s => i = .new ∧ s.mnemonicFile = none ∧ ∃ m, J.mnemonic.dec b = some m
  | _, _ => True

/-- What no step but those of directories, joins and the mnemonic changes. -/
structure Same (s s' : State TaskId) : Prop where
  dirs : s'.dirs = s.dirs
  initialized : s'.initialized = s.initialized
  opening : opening s'.log = opening s.log
  members : Federation.members s'.log = Federation.members s.log
  mnemonic : s'.mnemonicFile = s.mnemonicFile

theorem Same.refl (s : State TaskId) : Same s s := ⟨rfl, rfl, rfl, rfl, rfl⟩

section Steps
variable {J : Serde} {i : TaskId} {s s' : State TaskId}

theorem same_dirLock (s : State TaskId) (l : Option TaskId) : Same s { s with dirLock := l } :=
  ⟨rfl, rfl, rfl, rfl, rfl⟩

/-- A step after which the lock is held if a directory is being joined. -/
theorem Whole.same (hs : Whole J s) (h : Same s s')
    (hlock : Federation.opening s.log ≠ none → s'.dirLock ≠ none) : Whole J s' where
  members := by rw [h.members, h.initialized]; exact hs.members
  subset := by rw [h.initialized, h.dirs]; exact hs.subset
  dirs := by rw [h.dirs, h.initialized, h.opening]; exact hs.dirs
  fresh := by rw [h.opening, h.initialized]; exact hs.fresh
  held := by rw [h.opening]; exact hlock
  mnemonic := by rw [h.mnemonic]; exact hs.mnemonic

theorem Same.guards (h : Same s s')
    (hlock : s.dirLock ≠ some i → s.dirLock ≠ none → s'.dirLock = s.dirLock) : Guards i s s' :=
  ⟨hlock, fun _ => h.dirs, fun _ => h.initialized, fun _ => h.opening, fun _ => h.mnemonic,
    fun _ hb => h.mnemonic.trans hb⟩

/-- Operations that change neither the lock nor what it protects, nor the mnemonic. -/
def Plain : Op → Prop
  | .dataDirLock | .dataDirRelease | .dbOpen _ | .clientJoin _ _ => False
  | .removeDirAll (.federationDir _) | .writeFile .mnemonic _ => False
  | _ => True

theorem plain_effect {op : Op} (hop : Plain op) {r : op.Ret} (h : effect i op s r s') :
    Same s s' ∧ s'.dirLock = s.dirLock := by
  unfold effect at h
  split at h
  all_goals first
    | exact hop.elim
    | (obtain rfl := h; exact ⟨⟨rfl, rfl, rfl, rfl, rfl⟩, rfl⟩)
    | (obtain ⟨rfl, -⟩ := h; exact ⟨⟨rfl, rfl, rfl, rfl, rfl⟩, rfl⟩)
    | (obtain ⟨-, rfl⟩ := h; exact ⟨⟨rfl, rfl, rfl, rfl, rfl⟩, rfl⟩)
    | (obtain ⟨rfl, -⟩ := h
       unfold State.takeClient
       split_ifs <;> exact ⟨⟨rfl, rfl, rfl, rfl, rfl⟩, rfl⟩)

theorem plain_damage {op : Op} (hop : Plain op) (h : damage op s s') :
    Same s s' ∧ s'.dirLock = s.dirLock := by
  unfold damage at h
  split at h
  all_goals first
    | exact hop.elim
    | (obtain rfl := h; exact ⟨⟨rfl, rfl, rfl, rfl, rfl⟩, rfl⟩)
    | (obtain rfl | ⟨-, -, rfl⟩ := h <;> exact ⟨⟨rfl, rfl, rfl, rfl, rfl⟩, rfl⟩)

theorem Whole.makeDir (h : Whole J s) (hlock : s.dirLock ≠ none) (ho : opening s.log = none)
    (f : FederationId) : Whole J (s.makeDir f) := by
  unfold State.makeDir
  split_ifs with hf
  · exact h
  · refine ⟨h.members, h.subset.trans (Finset.subset_insert f _), ?_, ?_, fun _ => hlock, h.mnemonic⟩
    · intro g hg
      rcases Finset.mem_insert.mp hg with rfl | hg
      · exact Or.inr rfl
      · exact Or.inl ((h.dirs g hg).resolve_right (by simp [ho]))
    · intro g hg hinit
      obtain rfl : f = g := Option.some.inj hg
      exact hf (h.subset hinit)

theorem Whole.join (h : Whole J s) {f : FederationId} (ho : opening s.log = some f)
    (hf : f ∈ s.dirs) : Whole J (s.join f) := by
  refine ⟨congrArg (insert f) h.members, Finset.insert_subset hf h.subset, fun g hg => ?_,
    fun g hg => (by cases hg), fun hne => absurd rfl hne, h.mnemonic⟩
  rcases h.dirs g hg with hg | hg
  · exact Or.inl (Finset.mem_insert_of_mem hg)
  · rw [ho, Option.some.injEq] at hg
    exact Or.inl (hg ▸ Finset.mem_insert_self f _)

theorem Whole.deleteDir (h : Whole J s) (ho : opening s.log = none) (f : FederationId) :
    Whole J (s.deleteDir f) := by
  refine ⟨congrArg (Finset.erase · f) h.members, Finset.erase_subset_erase f h.subset, ?_, ?_,
    fun hne => absurd ho hne, h.mnemonic⟩
  · intro g hg
    obtain ⟨hne, hg⟩ := Finset.mem_erase.mp hg
    exact Or.inl (Finset.mem_erase.mpr ⟨hne, (h.dirs g hg).resolve_right (by simp [ho])⟩)
  · intro g hg
    have hnone : opening (s.deleteDir f).log = none := ho
    rw [hnone] at hg
    cases hg

theorem Whole.setMnemonic (h : Whole J s) {b : Bytes} (hb : ∃ m, J.mnemonic.dec b = some m) :
    Whole J { s with mnemonicFile := some b } :=
  ⟨h.members, h.subset, h.dirs, h.fresh, h.held, fun _ hb' => Option.some.inj hb' ▸ hb⟩

/-- What the holder of the lock does is no concern of the others. -/
theorem guards_of_held (hlock : s.dirLock = some i) (hm : s'.mnemonicFile = s.mnemonicFile) :
    Guards i s s' :=
  ⟨fun h => absurd hlock h, fun h => absurd hlock h, fun h => absurd hlock h,
    fun h => absurd hlock h, fun _ => hm, fun _ hb => hm.trans hb⟩

theorem guards_setMnemonic (hi : i = .new) (hs : s.mnemonicFile = none) (b : Bytes) :
    Guards i s { s with mnemonicFile := some b } :=
  ⟨fun _ _ => rfl, fun _ => rfl, fun _ => rfl, fun _ => rfl, fun h => absurd hi h,
    fun _ hb => by rw [hs] at hb; cases hb⟩

/-- **An operation that succeeds** keeps a whole directory. -/
theorem effect_whole (hs : Whole J s) {op : Op} (ha : Allowed J i op s) {r : op.Ret}
    (h : effect i op s r s') : Whole J s' ∧ Guards i s s' := by
  by_cases hop : Plain op
  · obtain ⟨hsame, hlock⟩ := plain_effect hop h
    exact ⟨hs.same hsame fun ho => hlock ▸ hs.held ho, hsame.guards fun _ _ => hlock⟩
  unfold Plain at hop
  split at hop
  · obtain ⟨hnone, rfl⟩ := h
    have hsame := same_dirLock s (some i)
    exact ⟨hs.same hsame fun _ => Option.some_ne_none i, hsame.guards fun _ hne => absurd hnone hne⟩
  · obtain rfl := h
    exact ⟨hs.same (same_dirLock s none) fun ho => absurd ha.2 ho, guards_of_held ha.1 rfl⟩
  · obtain ⟨rfl, -⟩ := h
    refine ⟨hs.makeDir (by simp [ha.1]) ha.2 _, guards_of_held ha.1 ?_⟩
    unfold State.makeDir
    split_ifs <;> rfl
  · obtain ⟨rfl, -⟩ := h
    exact ⟨hs.join ha.2.1 ha.2.2, guards_of_held ha.1 rfl⟩
  · obtain ⟨rfl, -⟩ := h
    exact ⟨hs.deleteDir ha.2 _, guards_of_held ha.1 rfl⟩
  · obtain ⟨rfl, -⟩ := h
    exact ⟨hs.setMnemonic ha.2.2, guards_setMnemonic ha.1 ha.2.1 _⟩
  · exact absurd trivial hop

/-- **What is left of an operation** that failed, or at which the task was dropped, is a whole directory
if it is harmless. -/
theorem damage_whole (hs : Whole J s) {op : Op} (ha : Allowed J i op s)
    (hh : Harmless J i op s s') (h : damage op s s') :
    Whole J s' ∧ Guards i s s' ∧ s'.dirLock = s.dirLock := by
  by_cases hop : Plain op
  · obtain ⟨hsame, hlock⟩ := plain_damage hop h
    exact ⟨hs.same hsame fun ho => hlock ▸ hs.held ho, hsame.guards fun _ _ => hlock, hlock⟩
  have hnothing : s' = s → Whole J s' ∧ Guards i s s' ∧ s'.dirLock = s.dirLock := by
    rintro rfl
    exact ⟨hs, Guards.refl i s', rfl⟩
  unfold Plain at hop
  split at hop
  · exact hnothing h
  · exact hnothing h
  · next f =>
    rcases h with h | h
    · exact hnothing h
    · refine hnothing (h.trans (if_pos ?_))
      by_contra hf
      rw [h, State.makeDir, if_neg hf] at hh
      cases hh.1 ha.1
  · exact hnothing h
  · next f =>
    rcases h with h | h | rfl
    · exact hnothing h
    · have hf : f ∉ s.initialized := fun hf => by
        have hinit : f ∈ s'.initialized := hh.2 (h ▸ hs.subset hf)
        rw [h] at hinit
        exact Finset.notMem_erase f _ hinit
      refine hnothing (h.trans ?_)
      rw [State.spoilDir, Finset.erase_eq_of_notMem hf]
    · exact ⟨hs.deleteDir ha.2 f, guards_of_held ha.1 rfl, rfl⟩
  · rcases h with h | ⟨l, -, rfl⟩
    · exact hnothing h
    · exact ⟨hs.setMnemonic (hh.2 l rfl), guards_setMnemonic ha.1 ha.2.1 l, rfl⟩
  · exact absurd trivial hop

/-- **A step of a task** keeps a whole directory. -/
theorem exec_whole (hs : Whole J s) {op : Op} (ha : Allowed J i op s) {r : op.Ret}
    (h : (calmProcesses J).exec i op s r s') : Whole J s' ∧ Guards i s s' := by
  rcases h.1 with he | ⟨-, hr, hd⟩
  · exact effect_whole hs ha he
  · obtain ⟨hw, hg, -⟩ := damage_whole hs ha (h.2 hr) hd
    exact ⟨hw, hg⟩

theorem readable_release {op : Op} (h : Readable J op (s.release i)) : Readable J op s := by
  unfold Readable at h ⊢
  split
  · exact h
  · exact h
  · trivial

/-- **A task that is dropped** leaves a whole directory. -/
theorem cut_whole (hs : Whole J s) {op : Op} (ha : Allowed J i op s)
    (h : (calmProcesses J).cut i op s s') : Whole J s' ∧ Guards i s s' := by
  obtain ⟨⟨-, t, hd, rfl⟩, hh⟩ := h
  have hh' : Harmless J i op s t := ⟨hh.1, readable_release hh.2⟩
  obtain ⟨hw, hg, hlock⟩ := damage_whole hs ha hh' hd
  have hsame : Same t (t.release i) := ⟨rfl, rfl, rfl, rfl, rfl⟩
  have hrel : s.dirLock ≠ some i → (t.release i).dirLock = t.dirLock := fun hi => if_neg (hlock ▸ hi)
  refine ⟨hw.same hsame fun ho => ?_, fun h1 h2 => (hrel h1).trans (hg.lock h1 h2), hg.dirs,
    hg.initialized, hg.opening, hg.mnemonic, hg.kept⟩
  by_cases hi : s.dirLock = some i
  · exact absurd (hh.1 hi) ho
  · exact hrel hi ▸ hw.held ho

end Steps

/-! ### The tasks of a process -/

/-- What the holder of the lock knows: the directories and databases, and the directory that it has
made. -/
structure Holding (i : TaskId) (D I : Finset FederationId) (o : Option FederationId)
    (s : State TaskId) : Prop where
  lock : s.dirLock = some i
  dirs : s.dirs = D
  initialized : s.initialized = I
  opening : opening s.log = o

section Tasks
variable {J : Serde} {T : State TaskId → Prop} {i : TaskId} {α : Type} {s : State TaskId}
  {D I : Finset FederationId} {o : Option FederationId}

theorem Holding.stable {t : State TaskId} (h : Holding i D I o s) (ht : Relies i s t) :
    Holding i D I o t :=
  ⟨ht.lock h.lock, (ht.dirs h.lock).trans h.dirs, (ht.initialized h.lock).trans h.initialized,
    (ht.opening h.lock).trans h.opening⟩

variable (hT : ∀ {s s' : State TaskId}, (∀ b, s.mnemonicFile = some b → s'.mnemonicFile = some b) →
  T s → T s')
include hT

/-- An operation that is allowed. -/
theorem safe_op {op : Op} {k : op.Ret → Fut α} {R : α → State TaskId → Prop}
    (ha : ∀ t, Relies i s t → Whole J t → Allowed J i op t)
    (h : ∀ r t u, Relies i s t → Whole J t → (opens J T).inv u → (calmProcesses J).exec i op t r u →
      Safe (calmProcesses J).toWorld (opens J T) i (k r) (Outcome.returns R) u) :
    Safe (calmProcesses J).toWorld (opens J T) i (.await op k) (Outcome.returns R) s := by
  refine .act fun t ht ⟨hw, hTt⟩ => ⟨fun r u hu => ?_, fun u hu => ?_⟩
  · obtain ⟨hwu, hg⟩ := exec_whole hw (ha t ht hw) hu
    exact ⟨⟨hwu, hT hg.kept hTt⟩, hg, h r t u ht hw ⟨hwu, hT hg.kept hTt⟩ hu⟩
  · obtain ⟨hwu, hg⟩ := cut_whole hw (ha t ht hw) hu
    exact ⟨⟨hwu, hT hg.kept hTt⟩, hg⟩

/-- An operation that is always allowed and whose result does not matter. -/
theorem safe_plain {op : Op} {k : op.Ret → Fut α} {R : α → State TaskId → Prop} (hop : Plain op)
    (h : ∀ r u, (opens J T).inv u →
      Safe (calmProcesses J).toWorld (opens J T) i (k r) (Outcome.returns R) u) :
    Safe (calmProcesses J).toWorld (opens J T) i (.await op k) (Outcome.returns R) s := by
  refine safe_op hT (fun t _ _ => ?_) fun r _ u _ _ hiu _ => h r u hiu
  unfold Plain at hop
  unfold Allowed
  split <;> first | exact hop.elim | trivial

/-- The same, for the holder of the lock. If it has made a directory, the operation succeeds. -/
theorem safe_held {op : Op} {k : op.Ret → Fut α} {R : α → State TaskId → Prop} (hop : Plain op)
    (hs : Holding i D I o s)
    (h : ∀ r t u, (calmProcesses J).exec i op t r u → (opens J T).inv u → Holding i D I o t →
      Holding i D I o u → (o ≠ none → op.Succeeds r) →
      Safe (calmProcesses J).toWorld (opens J T) i (k r) (Outcome.returns R) u) :
    Safe (calmProcesses J).toWorld (opens J T) i (.await op k) (Outcome.returns R) s := by
  refine safe_op hT (fun t _ _ => ?_) fun r t u ht _ hiu hu => ?_
  · unfold Plain at hop
    unfold Allowed
    split <;> first | exact hop.elim | trivial
  · have hst := hs.stable ht
    have hsame : Same t u ∧ u.dirLock = t.dirLock := by
      rcases hu.1 with he | ⟨-, -, hd⟩
      · exact plain_effect hop he
      · exact plain_damage hop hd
    refine h r t u hu hiu hst ⟨hsame.2.trans hst.lock, hsame.1.dirs.trans hst.dirs,
      hsame.1.initialized.trans hst.initialized, hsame.1.opening.trans hst.opening⟩ fun ho => ?_
    by_contra hr
    exact ho (hst.opening.symm.trans (hsame.1.opening.symm.trans ((hu.2 hr).1 hst.lock)))

/-- The lock on the directory. -/
theorem safe_lock {k : Op.dataDirLock.Ret → Fut α} {R : α → State TaskId → Prop}
    (h : ∀ r u, (opens J T).inv u → Holding i u.dirs u.initialized none u →
      Safe (calmProcesses J).toWorld (opens J T) i (k r) (Outcome.returns R) u) :
    Safe (calmProcesses J).toWorld (opens J T) i (.await .dataDirLock k) (Outcome.returns R) s := by
  refine safe_op hT (fun _ _ _ => trivial) fun r t u _ hw hiu hu => h r u hiu ?_
  obtain ⟨hnone, rfl⟩ := hu.1.resolve_right fun h => h.2.1 trivial
  have hopening : opening t.log = none := by_contra fun ho => hw.held ho hnone
  exact ⟨rfl, rfl, rfl, hopening⟩

/-- A function under the lock, which it holds when it returns. -/
theorem safe_guarded {x : FutResult α} (hi : (opens J T).inv s)
    (hx : Safe (calmProcesses J).toWorld (opens J T) i x.run
      (Outcome.returns fun _ t => ∃ D I, Holding i D I none t) s) :
    Safe (calmProcesses J).toWorld (opens J T) i (guarded x .dataDirRelease).run
      (Outcome.returns fun _ _ => True) s := by
  refine .bind_returns hi hx fun r t _ ht => ?_
  obtain ⟨D, I, hold⟩ := ht
  refine safe_op hT (fun u hu _ => ⟨(hold.stable hu).lock, (hold.stable hu).opening⟩)
    fun _ _ _ _ _ _ _ => .returned fun _ _ _ => trivial

/-- The client of a directory that the task has made is built: the federation is joined. -/
theorem buildClientFromInviteCode_joins (secret : Mnemonic) (inviteCode : InviteCode)
    (hf : inviteCode.federationId ∉ I) (hD : inviteCode.federationId ∈ D)
    (hs : Holding i D I (some inviteCode.federationId) s) :
    Safe (calmProcesses J).toWorld (opens J T) i (Wallet.buildClientFromInviteCode secret inviteCode).run
      (Outcome.returns fun _ t => ∃ D I, Holding i D I none t) s := by
  simp only [Wallet.buildClientFromInviteCode, Fallible.run_bind, Fallible.run_ite, run_attempt,
    await_eq, Fallible.run_of, call_eq, Prog.await_bind, Prog.pure_bind]
  have hsome : some inviteCode.federationId ≠ none := Option.some_ne_none _
  refine safe_held hT trivial hs fun initialized t u hu _ ht hs _ => ?_
  obtain ⟨-, rfl⟩ := hu.1.resolve_right fun h => h.2.1 trivial
  have hnot : decide (inviteCode.federationId ∈ t.initialized) = false :=
    decide_eq_false (ht.initialized ▸ hf)
  simp only [Fallible.andThen_ok, hnot, Bool.false_eq_true, if_false]
  refine safe_held hT trivial hs fun r _ u _ _ _ hs hr => ?_
  obtain ⟨_, rfl⟩ := hr hsome
  refine safe_held hT trivial hs fun r _ u _ _ _ hs hr => ?_
  obtain ⟨_, rfl⟩ := hr hsome
  refine safe_held hT trivial hs fun r _ u _ _ _ hs hr => ?_
  obtain ⟨_, rfl⟩ := hr hsome
  refine safe_op hT (fun v hv _ => ?_) fun r v w hv _ _ hw => ?_
  · have hs := hs.stable hv
    exact ⟨hs.lock, hs.opening, hs.dirs ▸ hD⟩
  have hs := hs.stable hv
  rcases hw.1 with ⟨rfl, rfl⟩ | ⟨-, hr, rfl⟩
  · refine .returned fun x hx _ => ⟨D, insert inviteCode.federationId I, Holding.stable ?_ hx⟩
    exact ⟨hs.lock, hs.dirs, congrArg (insert _) hs.initialized, rfl⟩
  · exact absurd ((hw.2 hr).1 hs.lock) (by simp [hs.opening])

theorem insertClient_holds (f : FederationId) (hs : Holding i D I none s) :
    Safe (calmProcesses J).toWorld (opens J T) i (Wallet.insertClient f).run
      (Outcome.returns fun _ t => ∃ D I, Holding i D I none t) s := by
  simp only [Wallet.insertClient, Fallible.run_bind, Fallible.run_lift, await_eq, Fallible.run_of,
    Prog.await_bind, Prog.pure_bind, Fallible.andThen_ok]
  refine safe_held hT trivial hs fun _ _ u _ _ _ hs _ => ?_
  refine safe_held hT trivial hs fun _ _ u _ _ _ hs _ => ?_
  refine safe_held hT trivial hs fun _ _ u _ _ _ hs _ => ?_
  refine safe_held hT trivial hs fun _ _ u _ _ _ hs _ => ?_
  refine safe_held hT trivial hs fun _ _ u _ _ _ hs _ => ?_
  exact .returned fun t ht _ => ⟨D, I, hs.stable ht⟩

/-- A join of a federation without a directory. -/
theorem joinFederation_holds (secret : Mnemonic) (inviteCode : InviteCode) (hi : (opens J T).inv s)
    (hf : inviteCode.federationId ∉ D) (hs : Holding i D I none s) :
    Safe (calmProcesses J).toWorld (opens J T) i (Wallet.joinFederation secret inviteCode).run
      (Outcome.returns fun _ t => ∃ D I, Holding i D I none t) s := by
  simp only [Wallet.joinFederation, Fallible.run_bind, run_attempt, call_eq, Prog.await_bind,
    Prog.pure_bind]
  have hI : inviteCode.federationId ∉ I := fun h =>
    hf (hs.dirs ▸ hi.1.subset (hs.initialized.symm ▸ h))
  refine safe_op hT (fun t ht _ => ⟨(hs.stable ht).lock, (hs.stable ht).opening⟩)
    fun r t u ht _ hiu hu => ?_
  have hst := hs.stable ht
  rcases hu.1 with ⟨rfl, rfl⟩ | ⟨-, hr, hd⟩
  · have hmade : Holding i (insert inviteCode.federationId D) I (some inviteCode.federationId)
        (t.makeDir inviteCode.federationId) := by
      have hdir : inviteCode.federationId ∉ t.dirs := hst.dirs ▸ hf
      rw [State.makeDir, if_neg hdir]
      exact ⟨hst.lock, congrArg (insert _) hst.dirs, hst.initialized, rfl⟩
    refine .bind_returns hiu (buildClientFromInviteCode_joins hT secret inviteCode hI
      (Finset.mem_insert_self _ _) hmade) fun r v _ hv => ?_
    obtain ⟨D, I, hv⟩ := hv
    rcases r with e | _
    · exact .returned fun w hw _ => ⟨D, I, hv.stable hw⟩
    · exact insertClient_holds hT _ hv
  · rcases r with e | _
    · refine .returned fun v hv _ => ⟨D, I, Holding.stable ?_ hv⟩
      rcases hd with rfl | rfl
      · exact hst
      · have hh := (hu.2 hr).1 hst.lock
        unfold State.makeDir at hh ⊢
        split_ifs at hh ⊢
        · exact hst
        · cases hh
    · exact absurd ⟨_, rfl⟩ hr

theorem setDefaultLocked_holds (secret : Mnemonic) (inviteCode : InviteCode)
    (hs : Holding i D I none s) :
    Safe (calmProcesses J).toWorld (opens J T) i (Wallet.setDefaultLocked J secret inviteCode).run
      (Outcome.returns fun _ t => ∃ D I, Holding i D I none t) s := by
  simp only [Wallet.setDefaultLocked, Fallible.run_bind, Fallible.run_ite, run_attempt, await_eq,
    Fallible.run_of, call_eq, Prog.await_bind, Prog.pure_bind, Fallible.andThen_ok]
  have hwrite : ∀ {t : State TaskId}, (∃ D I, Holding i D I none t) →
      Safe (calmProcesses J).toWorld (opens J T) i
        (.await (.writeFile .defaultFederation (J.invite.enc inviteCode)) .pure)
        (Outcome.returns fun _ t => ∃ D I, Holding i D I none t) t := by
    rintro t ⟨D, I, ht⟩
    refine safe_held hT trivial ht fun r _ u _ _ _ hu _ => ?_
    exact .returned fun v hv _ => ⟨D, I, hu.stable hv⟩
  refine safe_held hT trivial hs fun isDir t u hu hiu ht hs _ => ?_
  obtain ⟨-, rfl⟩ := hu.1.resolve_right fun h => h.2.1 trivial
  by_cases hf : inviteCode.federationId ∈ t.dirs
  · rw [if_pos (decide_eq_true hf)]
    exact hwrite ⟨D, I, hs⟩
  · rw [if_neg (by simpa using hf)]
    refine .bind_returns hiu (joinFederation_holds hT secret inviteCode hiu (ht.dirs ▸ hf) hs) ?_
    intro r v _ hv
    rcases r with e | _
    · obtain ⟨D, I, hv⟩ := hv
      exact .returned fun w hw _ => ⟨D, I, hv.stable hw⟩
    · exact hwrite hv

theorem setDefaultFederation_safe (secret : Mnemonic) (inviteCode : InviteCode) :
    Safe (calmProcesses J).toWorld (opens J T) i (Wallet.setDefaultFederation J secret inviteCode).run
      (Outcome.returns fun _ _ => True) s := by
  simp only [Wallet.setDefaultFederation, Fallible.run_bind, await_eq, Fallible.run_of,
    Prog.await_bind, Prog.pure_bind, Fallible.andThen_ok]
  exact safe_lock hT fun _ u hiu hu =>
    safe_guarded hT hiu (setDefaultLocked_holds hT secret inviteCode hu)

theorem removeFederationDir_holds (f : FederationId) (hs : Holding i D I none s) :
    Safe (calmProcesses J).toWorld (opens J T) i (Wallet.removeFederationDir f).run
      (Outcome.returns fun _ t => ∃ D I, Holding i D I none t) s := by
  simp only [Wallet.removeFederationDir, Fallible.run_bind, Fallible.run_ite, run_attempt, await_eq,
    Fallible.run_of, call_eq, Prog.await_bind, Prog.pure_bind, Fallible.andThen_ok, Fallible.run_pure]
  refine safe_held hT trivial hs fun isDir _ u _ _ _ hs _ => ?_
  split_ifs
  · refine safe_op hT (fun t ht _ => ⟨(hs.stable ht).lock, (hs.stable ht).opening⟩)
      fun r t u ht hw _ hu => ?_
    have hst := hs.stable ht
    refine .returned fun v hv _ => ⟨u.dirs, u.initialized, Holding.stable ⟨?_, rfl, rfl, ?_⟩ hv⟩
    · rcases hu.1 with ⟨rfl, -⟩ | ⟨-, -, rfl | rfl | rfl⟩ <;> exact hst.lock
    · rcases hu.1 with ⟨rfl, -⟩ | ⟨-, -, rfl | rfl | rfl⟩ <;> exact hst.opening
  · exact .returned fun v hv _ => ⟨D, I, hs.stable hv⟩

theorem leaveClient_safe (f : FederationId) :
    Safe (calmProcesses J).toWorld (opens J T) i (Wallet.leaveClient f).run
      (Outcome.returns fun _ _ => True) s := by
  simp only [Wallet.leaveClient, Fallible.run_bind, await_eq, Fallible.run_of, Prog.await_bind,
    Prog.pure_bind, Fallible.andThen_ok]
  refine safe_plain hT trivial fun balance u _ => ?_
  rcases balance with e | msats
  · exact safe_plain hT trivial fun _ _ _ => .panicked
  simp only [Fallible.run_ite, Fallible.run_bind, Fallible.run_of, Prog.await_bind, Prog.pure_bind,
    Fallible.andThen_ok, Fallible.run_throw]
  split_ifs
  · exact safe_plain hT trivial fun _ _ _ => .returned fun _ _ _ => trivial
  · exact safe_plain hT trivial fun _ _ _ => safe_lock hT fun _ v hiv hv =>
      safe_guarded hT hiv (removeFederationDir_holds hT f hv)

theorem leaveFederation_safe (f : FederationId) :
    Safe (calmProcesses J).toWorld (opens J T) i (Wallet.leaveFederation f).run
      (Outcome.returns fun _ _ => True) s := by
  simp only [Wallet.leaveFederation, Fallible.run_bind, Fallible.run_ite, Fallible.run_lift, await_eq,
    Fallible.run_of, Prog.await_bind, Prog.pure_bind, Fallible.andThen_ok]
  have hview : ∀ u : State TaskId, Safe (calmProcesses J).toWorld (opens J T) i
      (Wallet.forceUpdateView.bind fun _ => .pure (.ok ()) : Fut (Except Error Unit))
      (Outcome.returns fun _ _ => True) u := fun u =>
    safe_plain hT trivial fun _ _ _ => safe_plain hT trivial fun _ _ _ =>
      safe_plain hT trivial fun _ _ _ => .returned fun _ _ _ => trivial
  refine safe_plain hT trivial fun _ _ _ => safe_plain hT trivial fun removed u hiu => ?_
  split_ifs
  · rw [Prog.bind_assoc]
    refine .bind_returns hiu (leaveClient_safe hT f) fun r v _ _ => ?_
    rcases r with e | _
    · exact safe_plain hT trivial fun _ _ _ => .returned fun _ _ _ => trivial
    · exact hview v
  · exact hview u

/-! ### The start of a process -/

/-- Connecting to federations that have directories changes no directory. -/
theorem connectTo_holds (secret : Mnemonic) :
    ∀ (l : List FederationId) {s : State TaskId}, (∀ f ∈ l, f ∈ D) → Holding i D I none s →
      Safe (calmProcesses J).toWorld (opens J T) i (Wallet.connectTo secret l).run
        (Outcome.returns fun _ t => ∃ D I, Holding i D I none t) s
  | [], s, _, hs => .returned fun t ht _ => ⟨D, I, hs.stable ht⟩
  | f :: l, s, hl, hs => by
    simp only [Wallet.connectTo, Wallet.buildClientFromFederationId, Fallible.run_bind,
      Fallible.run_ite, run_attempt, await_eq, Fallible.run_of, call_eq, Prog.await_bind,
      Prog.pure_bind, Fallible.andThen_ok, Fallible.run_throw]
    have hl' : ∀ g ∈ l, g ∈ D := fun g hg => hl g (List.mem_cons_of_mem f hg)
    have hfail : ∀ {e : Error} {t : State TaskId}, Holding i D I none t →
        Safe (calmProcesses J).toWorld (opens J T) i (.pure (.error e) : Fut (Except Error Unit))
          (Outcome.returns fun _ t => ∃ D I, Holding i D I none t) t :=
      fun ht => .returned fun u hu _ => ⟨D, I, ht.stable hu⟩
    refine safe_held hT trivial hs fun connected _ t _ _ _ hs _ => ?_
    split_ifs
    · exact connectTo_holds secret l hl' hs
    refine safe_op hT (fun t ht _ => ⟨(hs.stable ht).lock, (hs.stable ht).opening⟩)
      fun r t u ht _ _ hu => ?_
    have hst := hs.stable ht
    have hs : Holding i D I none u := by
      have hdir : t.makeDir f = t := if_pos (hst.dirs ▸ hl f (by simp))
      rcases hu.1 with ⟨rfl, -⟩ | ⟨-, -, rfl | rfl⟩
      exacts [hdir.symm ▸ hst, hst, hdir.symm ▸ hst]
    rcases r with e | _
    · exact hfail hs
    refine safe_held hT trivial hs fun initialized _ u _ _ _ hs _ => ?_
    refine safe_held hT trivial hs fun r _ u _ _ _ hs _ => ?_
    rcases r with e | _
    · exact hfail hs
    refine safe_held hT trivial hs fun r _ u _ _ _ hs _ => ?_
    rcases r with e | _
    · exact hfail hs
    cases initialized with
    | false => exact hfail hs
    | true =>
      refine safe_held hT trivial hs fun r _ u _ _ _ hs _ => ?_
      rcases r with e | _
      · exact hfail hs
      refine safe_held hT trivial hs fun _ _ u _ _ _ hs _ => ?_
      exact connectTo_holds secret l hl' hs

theorem connectToListed_holds (secret : Mnemonic) (hs : Holding i D I none s) :
    Safe (calmProcesses J).toWorld (opens J T) i (Wallet.connectToListed secret).run
      (Outcome.returns fun _ t => ∃ D I, Holding i D I none t) s := by
  simp only [Wallet.connectToListed, Fallible.run_bind, Fallible.run_lift, run_attempt, await_eq,
    Fallible.run_of, call_eq, Prog.await_bind, Prog.pure_bind]
  refine safe_held hT trivial hs fun r t u hu _ ht hs _ => ?_
  rcases r with e | readDir
  · exact .returned fun v hv _ => ⟨D, I, hs.stable hv⟩
  obtain ⟨rfl, l, hl, hmem⟩ := hu.1.resolve_right fun h => h.2.1 ⟨_, rfl⟩
  obtain rfl := Except.ok.inj hl
  refine safe_held hT trivial hs fun _ _ v _ hiv _ hs _ => ?_
  rw [Prog.bind_assoc]
  refine .bind_returns hiv (connectTo_holds hT secret _ (fun f hf => ?_) hs) fun r w _ hw => ?_
  · exact ht.dirs ▸ (hmem f).mp (mem_filterMap_federationOfName.mp hf)
  obtain ⟨D, I, hs⟩ := hw
  rcases r with e | _
  · refine safe_held hT trivial hs fun _ _ u _ _ _ hs _ => ?_
    exact .returned fun v hv _ => ⟨D, I, hs.stable hv⟩
  · refine safe_held hT trivial hs fun _ _ u _ _ _ hs _ => ?_
    refine safe_held hT trivial hs fun _ _ u _ _ _ hs _ => ?_
    refine safe_held hT trivial hs fun _ _ u _ _ _ hs _ => ?_
    exact .returned fun v hv _ => ⟨D, I, hs.stable hv⟩

theorem connectToJoinedFederations_safe (secret : Mnemonic) :
    Safe (calmProcesses J).toWorld (opens J T) i (Wallet.connectToJoinedFederations secret).run
      (Outcome.returns fun _ _ => True) s := by
  simp only [Wallet.connectToJoinedFederations, Fallible.run_bind, await_eq, Fallible.run_of,
    Prog.await_bind, Prog.pure_bind, Fallible.andThen_ok]
  exact safe_lock hT fun _ u hiu hu => safe_guarded hT hiu (connectToListed_holds hT secret hu)

theorem ensureMnemonic_safe :
    Safe (calmProcesses J).toWorld (opens J T) .new (Wallet.ensureMnemonic J).run
      (Outcome.returns fun _ _ => True) s := by
  simp only [Wallet.ensureMnemonic, Fallible.run_bind, Fallible.run_ite, run_attempt, await_eq,
    Fallible.run_of, call_eq, Prog.await_bind, Prog.pure_bind, Fallible.andThen_ok, Fallible.run_pure]
  refine safe_op hT (fun _ _ _ => trivial) fun r t u _ _ _ hu => ?_
  rcases r with e | exist
  · exact .returned fun _ _ _ => trivial
  obtain ⟨rfl, hexist⟩ := hu.1.resolve_right fun h => h.2.1 ⟨_, rfl⟩
  cases exist with
  | true => exact .returned fun _ _ _ => trivial
  | false =>
    have hnone : u.mnemonicFile = none := by
      have := (Except.ok.inj hexist).symm
      rwa [Option.isSome_eq_false_iff, Option.isNone_iff_eq_none] at this
    refine safe_op hT (fun _ _ _ => trivial) fun mnemonic v w hv _ _ hw => ?_
    obtain rfl : w = v := hw.1.resolve_right fun h => h.2.1 trivial
    refine safe_op hT (fun x hx _ => ⟨rfl, ?_, mnemonic, J.mnemonic.dec_enc mnemonic⟩)
      fun _ _ _ _ _ _ _ => .returned fun _ _ _ => trivial
    rw [hx.mnemonic rfl, hv.mnemonic rfl, hnone]

/-- **A start** that returns has read its mnemonic from the file. -/
theorem new_safe :
    Safe (calmProcesses J).toWorld (opens J T) .new (Wallet.new J).run
      (Outcome.returns fun r t => ∀ m, r = .ok m →
        ∃ b, t.mnemonicFile = some b ∧ J.mnemonic.dec b = some m) s := by
  simp only [Wallet.new, Fallible.run_bind, run_attempt, call_eq, Prog.await_bind, Prog.pure_bind]
  have hfail : ∀ {e : Error} {t : State TaskId}, Safe (calmProcesses J).toWorld (opens J T) .new
      (.pure (.error e) : Fut (Except Error Mnemonic)) (Outcome.returns fun r t => ∀ m, r = .ok m →
        ∃ b, t.mnemonicFile = some b ∧ J.mnemonic.dec b = some m) t :=
    .returned fun _ _ _ m hm => by cases hm
  refine safe_plain hT trivial fun r t hit => ?_
  rcases r with e | _
  · exact hfail
  refine .bind_returns hit (ensureMnemonic_safe hT) fun r t _ _ => ?_
  rcases r with e | _
  · exact hfail
  refine safe_op hT (fun _ _ _ => trivial) fun r t u _ _ hiu hu => ?_
  rcases r with e | mnemonicString
  · exact hfail
  obtain ⟨rfl, hread⟩ := hu.1.resolve_right fun h => h.2.1 ⟨_, rfl⟩
  have hfile : u.mnemonicFile = some mnemonicString := by
    rcases hm : u.mnemonicFile with _ | b
    · rw [hm] at hread
      cases hread
    · rw [hm] at hread
      rw [Except.ok.inj hread]
  simp only [Fallible.andThen_ok]
  rcases hdec : J.mnemonic.dec mnemonicString with _ | mnemonic
  · exact .panicked
  -- The file stays as it is until the function returns.
  have hkeeps := (connectToJoinedFederations_safe (J := J) (s := u) hT mnemonic).remember
    (fun t v : State TaskId =>
      t.mnemonicFile = some mnemonicString → v.mnemonicFile = some mnemonicString)
    (fun h h' ht => h' (h ht)) (fun {t v} (h : Relies .new t v) ht => (h.mnemonic rfl).trans ht)
    (fun {t v} _ (h : Guards .new t v) => h.kept mnemonicString) (fun h : u.mnemonicFile = _ => h)
  simp only [Fallible.run_unwrap_some, Prog.pure_bind, Fallible.andThen_ok, Fallible.run_pure]
  refine .bind_of hiu hkeeps (fun r v _ hv => ?_) (fun _ _ _ => trivial) fun _ _ _ => trivial
  rcases r with e | _
  · exact hfail
  · refine .returned fun w hw _ m hm => ⟨mnemonicString, ?_, ?_⟩
    · exact (hw.mnemonic rfl).trans (hv.1 hfile)
    · rw [hdec, Except.ok.inj hm]

end Tasks

/-! ### A start without faults -/

section Starts
variable {J : Serde} {i : TaskId}

/-- Connecting to federations whose directories have databases. -/
theorem connectTo_ensures (secret : Mnemonic) :
    ∀ (l : List FederationId) {s : State TaskId}, (∀ f ∈ l, f ∈ s.dirs ∧ f ∈ s.initialized) →
      Ensures (wallet False) i (Wallet.connectTo secret l).run
        (fun o t => o = .returned (.ok ()) ∧ t.clients = s.clients ∪ l.toFinset) s
  | [], s, _ => ⟨rfl, by simp⟩
  | f :: l, s, hl => by
    simp only [Wallet.connectTo, Wallet.buildClientFromFederationId, Fallible.run_bind,
      Fallible.run_ite, run_attempt, await_eq, Fallible.run_of, call_eq, Prog.await_bind,
      Prog.pure_bind, Fallible.andThen_ok, Fallible.run_throw]
    obtain ⟨hdir, hinit⟩ := hl f (by simp)
    have hl' : ∀ g ∈ l, g ∈ s.dirs ∧ g ∈ s.initialized :=
      fun g hg => hl g (List.mem_cons_of_mem f hg)
    have hmake : s.makeDir f = s := if_pos hdir
    refine ensures_next (decide (f ∈ s.clients)) s ⟨rfl, rfl⟩ (fun r t ht => ht.symm) ?_
    by_cases hf : f ∈ s.clients
    · rw [if_pos (decide_eq_true hf)]
      refine (connectTo_ensures secret l hl').mono fun o t hot => ⟨hot.1, hot.2.trans ?_⟩
      rw [List.toFinset_cons, Finset.union_insert, Finset.insert_eq_of_mem]
      exact Finset.mem_union_left _ hf
    rw [if_neg (by simpa using hf)]
    refine ensures_next (.ok ()) s ⟨hmake.symm, rfl⟩ (fun r t ht => ⟨ht.2, ht.1.trans hmake⟩) ?_
    refine ensures_next (decide (f ∈ s.initialized)) s ⟨rfl, rfl⟩ (fun r t ht => ht.symm) ?_
    refine ensures_next (.ok ()) s ⟨rfl, rfl⟩ (fun r t ht => ht.symm) ?_
    refine ensures_next (.ok ()) s ⟨rfl, rfl⟩ (fun r t ht => ht.symm) ?_
    simp only [Fallible.andThen_ok, decide_eq_true hinit, if_true, Prog.await_bind, Prog.pure_bind]
    refine ensures_next (.ok ()) s ⟨rfl, rfl⟩ (fun r t ht => ht.symm) ?_
    refine ensures_next () (s.insertClient f) rfl (fun r t ht => ⟨rfl, ht⟩) ?_
    refine (connectTo_ensures secret l (s := s.insertClient f) hl').mono fun o t hot =>
      ⟨hot.1, hot.2.trans ?_⟩
    rw [List.toFinset_cons, Finset.union_insert, ← Finset.insert_union]
    rfl

theorem connectToListed_ensures (secret : Mnemonic) {s : State TaskId}
    (hdirs : s.dirs ⊆ s.initialized) (hclients : s.clients = ∅) (hclientsLock : s.clientsLock = none) :
    Ensures (wallet False) i (Wallet.connectToListed secret).run
      (fun o t => o = .returned (.ok ()) ∧ t.clients = s.dirs) s := by
  simp only [Wallet.connectToListed, Fallible.run_bind, Fallible.run_lift, run_attempt, await_eq,
    Fallible.run_of, call_eq, Prog.await_bind, Prog.pure_bind]
  refine ⟨⟨.ok (s.dirs.toList.map .federation), s, Or.inl ⟨rfl, _, rfl, by simp⟩⟩, fun r t ht => ?_,
    fun t ht => (wallet_not_cut ht).elim⟩
  obtain ⟨rfl, l, rfl, hmem⟩ := wallet_exec_iff.mp ht
  refine ensures_next () { t with clientsLock := some i } ⟨hclientsLock, rfl⟩
    (fun r u hu => ⟨rfl, hu.2⟩) ?_
  have hl : ∀ f, f ∈ l.filterMap Wallet.federationOfName ↔ f ∈ t.dirs :=
    fun f => mem_filterMap_federationOfName.trans (hmem f)
  rw [Prog.bind_assoc]
  refine .bind ((connectTo_ensures secret _ (s := { t with clientsLock := some i }) fun f hf =>
    ⟨(hl f).mp hf, hdirs ((hl f).mp hf)⟩).mono fun o u ho => ?_)
  obtain ⟨rfl, hu⟩ := ho
  have hu' : u.clients = t.dirs := by
    ext f
    rw [hu, hclients, Finset.empty_union, List.mem_toFinset, hl]
  refine ensures_next () { u with clientsLock := none } rfl (fun r v hv => ⟨rfl, hv⟩) ?_
  refine ensures_next (.ok ()) _ ⟨rfl, rfl⟩ (fun r v hv => ⟨hv.2, hv.1⟩) ?_
  refine ensures_next (.ok ()) _ ⟨rfl, rfl⟩ (fun r v hv => ⟨hv.2, hv.1⟩) ?_
  exact ⟨rfl, hu'⟩

/-- Connecting to all federations that have directories. -/
theorem connectToJoinedFederations_ensures (secret : Mnemonic) {s : State TaskId}
    (hdirs : s.dirs ⊆ s.initialized) (hclients : s.clients = ∅) (hdirLock : s.dirLock = none)
    (hclientsLock : s.clientsLock = none) :
    Ensures (wallet False) i (Wallet.connectToJoinedFederations secret).run
      (fun o t => o = .returned (.ok ()) ∧ t.clients = s.dirs) s := by
  simp only [Wallet.connectToJoinedFederations, Fallible.run_bind, run_guarded, await_eq,
    Fallible.run_of, Prog.await_bind, Prog.pure_bind, Fallible.andThen_ok]
  refine ensures_next () { s with dirLock := some i } ⟨hdirLock, rfl⟩ (fun r t ht => ⟨rfl, ht.2⟩) ?_
  refine .bind ((connectToListed_ensures secret (s := { s with dirLock := some i }) hdirs hclients
    hclientsLock).mono fun o t ho => ?_)
  obtain ⟨rfl, ht⟩ := ho
  exact ensures_next () { t with dirLock := none } rfl (fun r u hu => ⟨rfl, hu⟩) ⟨rfl, ht⟩

/-- The mnemonic is in the file. -/
theorem ensureMnemonic_ensures {s : State TaskId}
    (hs : ∀ b, s.mnemonicFile = some b → ∃ m, J.mnemonic.dec b = some m) :
    Ensures (wallet False) i (Wallet.ensureMnemonic J).run (fun o t => o = .returned (.ok ()) ∧
      ∃ b m, J.mnemonic.dec b = some m ∧ t = { s with mnemonicFile := some b } ∧
        ∀ b', s.mnemonicFile = some b' → b' = b) s := by
  simp only [Wallet.ensureMnemonic, Fallible.run_bind, Fallible.run_ite, run_attempt, await_eq,
    Fallible.run_of, call_eq, Prog.await_bind, Prog.pure_bind, Fallible.andThen_ok, Fallible.run_pure]
  refine ensures_next (.ok s.mnemonicFile.isSome) s ⟨rfl, rfl⟩ (fun r t ht => ht.symm) ?_
  rcases hfile : s.mnemonicFile with _ | b
  · refine ⟨⟨⟨.replicate 16 0⟩, s, Or.inl rfl⟩, fun m t ht => ?_, fun t ht => (wallet_not_cut ht).elim⟩
    obtain rfl : t = s := wallet_exec_iff.mp ht
    refine ensures_next (.ok ()) _ ⟨rfl, rfl⟩ (fun r u hu => ⟨hu.2, hu.1⟩) ⟨rfl, ?_⟩
    exact ⟨_, m, J.mnemonic.dec_enc m, rfl, fun b' hb' => by cases hb'⟩
  · obtain ⟨m, hm⟩ := hs b hfile
    refine ⟨rfl, b, m, hm, ?_, fun b' hb' => (Option.some.inj hb').symm⟩
    rw [← hfile]

/-- **A start without faults** on a whole directory. -/
theorem new_ensures {s : State TaskId} (hs : Whole J s) (ho : opening s.log = none)
    (hclients : s.clients = ∅) (hdirLock : s.dirLock = none) (hclientsLock : s.clientsLock = none) :
    Ensures (wallet False) i (Wallet.new J).run (fun o t => ∃ m, o = .returned (.ok m) ∧
      t.clients = members s.log ∧ ∀ b, s.mnemonicFile = some b → J.mnemonic.dec b = some m) s := by
  simp only [Wallet.new, Fallible.run_bind, run_attempt, call_eq, Prog.await_bind, Prog.pure_bind]
  have hdirs : s.dirs ⊆ s.initialized := fun f hf => (hs.dirs f hf).resolve_right (by simp [ho])
  refine ensures_next (.ok ()) s ⟨rfl, rfl⟩ (fun r t ht => ht.symm) ?_
  refine .bind ((ensureMnemonic_ensures hs.mnemonic).mono fun o t hot => ?_)
  obtain ⟨rfl, b, m, hm, ht, hb⟩ := hot
  refine ensures_next (.ok b) t ⟨rfl, by rw [ht]; rfl⟩ (fun r u hu => ⟨hu.2.trans ?_, hu.1⟩) ?_
  · rw [ht]
    rfl
  simp only [Fallible.andThen_ok, hm, Fallible.run_unwrap_some, Prog.pure_bind, Fallible.run_pure]
  subst ht
  refine .bind ((connectToJoinedFederations_ensures (s := { s with mnemonicFile := some b }) m hdirs
    hclients hdirLock hclientsLock).mono fun o u hou => ?_)
  obtain ⟨rfl, hu⟩ := hou
  refine ⟨m, rfl, hu.trans ?_, fun b' hb' => hb b' hb' ▸ hm⟩
  rw [hs.members]
  exact hdirs.antisymm hs.subset

end Starts

/-! ### Runs of processes -/

section Runs
variable {J : Serde}

theorem Whole.crash {s : State TaskId} (h : Whole J s) (ho : opening s.log = none) :
    Whole J s.crash :=
  ⟨h.members, h.subset, h.dirs, h.fresh, fun hne => absurd ho hne, h.mnemonic⟩

/-- **The discipline of the processes**, given an invariant `T` that keeps with the mnemonic. -/
def reopening (J : Serde) (T : State TaskId → Prop)
    (hT : ∀ {s s' : State TaskId}, (∀ b, s.mnemonicFile = some b → s'.mnemonicFile = some b) →
      T s → T s') : RelyGuarantee (calmProcesses J) where
  toDiscipline := opens J T
  post _ := Outcome.returns fun r s => ∀ m, r = .opened (.ok m) →
    ∃ b, s.mnemonicFile = some b ∧ J.mnemonic.dec b = some m
  env_ok := by
    rintro s s' dead ⟨hw, hTs⟩ ⟨⟨rfl, hdead⟩, ho⟩
    have hcrash : T s.crash := @hT s s.crash (fun _ hb => hb) hTs
    exact ⟨⟨hw.crash ho, hcrash⟩, fun i hi => by rw [hdead i] at hi; cases hi⟩
  spawn_ok := by
    rintro i p s s' hi ⟨rfl, hp⟩
    refine ⟨hi, fun j _ => (opens J T).rely_refl j s', ?_⟩
    cases i with
    | new =>
      subst hp
      refine .bind_returns hi (new_safe hT) fun r t _ hr => .returned fun u hu _ m hm => ?_
      obtain ⟨b, hb, hdec⟩ := hr m (Result.opened.inj hm)
      exact ⟨b, (hu.mnemonic rfl).trans hb, hdec⟩
    | call n =>
      obtain ⟨secret, c, rfl⟩ := hp
      refine .bind_returns (R := fun _ _ => True) hi ?_ fun r t _ _ => .returned fun _ _ _ m hm => by
        cases hm
      cases c with
      | setDefault invite => exact setDefaultFederation_safe hT secret invite
      | leave f => exact leaveFederation_safe hT f

/-- The mnemonic file has not changed since it was `b`. -/
theorem good_pinned {P : Pool TaskId Op Op.Ret Result (State TaskId)}
    (h : Good (reopening J (fun _ => True) fun _ _ => trivial) P) {b : Bytes}
    (hb : P.st.mnemonicFile = some b) :
    Good (reopening J (fun s => s.mnemonicFile = some b) fun h => h b) P := by
  refine ⟨⟨h.1.1, hb⟩, fun i p hp => ?_⟩
  exact Safe.assume (opens J fun s => s.mnemonicFile = some b) (D := opens J fun _ => True)
    (T := fun s => s.mnemonicFile = some b) (fun s => by simp [opens]) rfl rfl
    (fun _ hT hg => hg.kept b hT) (h.2 i p hp)

/-- **The next start succeeds**: in runs that leave nothing behind that cannot be opened, wherever the
process ends, the next start without faults has the clients that were joined and not left, and the
mnemonic of each start that has succeeded before. -/
theorem wallet_reopens {P P' : Pool TaskId Op Op.Ret Result (State TaskId)}
    (h : Steps (calmProcesses J) (Pool.idle State.fresh) P) (h' : Steps (calmProcesses J) P P')
    (ho : opening P'.st.log = none) :
    Ensures (wallet False) .new (Wallet.new J).run (fun o t => ∃ m, o = .returned (.ok m) ∧
      t.clients = members P'.st.log ∧
      ∀ m₀, P.task .new = some (.pure (.opened (.ok m₀))) → m = m₀) P'.st.crash := by
  have hfresh : Whole J (State.fresh : State TaskId) :=
    ⟨rfl, Finset.Subset.refl _, fun _ hf => absurd hf (Finset.notMem_empty _),
      fun _ hf => (by cases hf), fun hne => absurd rfl hne, fun _ hb => (by cases hb)⟩
  have hgood : Good (reopening J (fun _ => True) fun _ _ => trivial) P :=
    good_steps (good_idle ⟨hfresh, trivial⟩) h
  have hwhole : Whole J P'.st := (good_steps hgood h').1.1
  refine (new_ensures (hwhole.crash ho) ho rfl rfl rfl).mono fun o t ⟨m, hm, hclients, hmnemonic⟩ => ?_
  refine ⟨m, hm, hclients, fun m₀ hm₀ => ?_⟩
  obtain ⟨b, hb, hdec⟩ := hgood.returned hm₀ m₀ rfl
  have hb' : P'.st.mnemonicFile = some b := (good_steps (good_pinned hgood hb) h').1.2
  exact Option.some.inj ((hmnemonic b hb').symm.trans hdec)

end Runs

namespace FailedJoin

/-- The tasks after the wallet was opened. -/
def openedTasks : TaskId → Option (Fut Result) :=
  Function.update (fun _ => none) .new (some (.pure (.opened (.ok mnemonic))))

/-- The tasks after a call that failed. -/
def failedTasks : TaskId → Option (Fut Result) :=
  Function.update openedTasks (.call 0) (some (.pure (.done (.error "unreachable"))))

theorem calm_opened_steps :
    Steps (calmProcesses Serde.framed) (Pool.idle State.fresh) ⟨opened, openedTasks⟩ :=
  steps_of_return (Y := calmProcesses Serde.framed) (i := .new) ⟨rfl, rfl⟩ rfl
    (Runs.bind (new_runs fun h hs => ⟨Or.inl h, fun hn => absurd hs hn⟩) rfl (.returned _ _))

/-- The federation was joined. -/
def joined : State TaskId where
  dirs := {fed}
  initialized := {fed}
  mnemonicFile := some (Serde.framed.mnemonic.enc mnemonic)
  defaultFile := some (Serde.framed.invite.enc invite)
  clients := {fed}
  dirLock := none
  clientsLock := none
  log := [.inserted fed, .joined fed, .made fed]

/-- A join that succeeds, in any world in which operations may succeed. -/
theorem joined_runs {i : TaskId} {E : State TaskId → State TaskId → Prop}
    {W : World TaskId Op Op.Ret (State TaskId)}
    (hW : ∀ {op s r s'}, effect i op s r s' → op.Succeeds r → W.exec i op s r s') :
    Runs W i E (Wallet.setDefaultFederation Serde.framed mnemonic invite).run opened
      (.returned (.ok ())) joined := by
  refine runs_next .dataDirLock () _ (hW ⟨rfl, rfl⟩ trivial) ?_
  refine runs_next (.isDir (.federationDir fed)) false _ (hW ⟨rfl, rfl⟩ trivial) ?_
  refine runs_next (.dbOpen fed) (.ok ()) _ (hW ⟨rfl, rfl⟩ ⟨_, rfl⟩) ?_
  refine runs_next (.dbIsInitialized fed) false _ (hW ⟨rfl, rfl⟩ trivial) ?_
  refine runs_next .clientBuilder (.ok ()) _ (hW ⟨rfl, rfl⟩ ⟨_, rfl⟩) ?_
  refine runs_next .clientConnectors (.ok ()) _ (hW ⟨rfl, rfl⟩ ⟨_, rfl⟩) ?_
  refine runs_next (.clientPreview invite) (.ok ()) _ (hW ⟨rfl, rfl⟩ ⟨_, rfl⟩) ?_
  refine runs_next (.clientJoin invite mnemonic) (.ok ()) _ (hW ⟨rfl, rfl⟩ ⟨_, rfl⟩) ?_
  refine runs_next .clientsWrite () _ (hW ⟨rfl, rfl⟩ trivial) ?_
  refine runs_next (.clientsInsert fed) () _ (hW rfl trivial) ?_
  refine runs_next .clientsRelease () _ (hW rfl trivial) ?_
  refine runs_next .forceUpdateSend (.ok ()) _ (hW ⟨rfl, rfl⟩ ⟨_, rfl⟩) ?_
  refine runs_next .forceUpdateRecv (.ok ()) _ (hW ⟨rfl, rfl⟩ ⟨_, rfl⟩) ?_
  refine runs_next (.writeFile .defaultFederation (Serde.framed.invite.enc invite)) (.ok ()) _
    (hW ⟨rfl, rfl⟩ ⟨_, rfl⟩) ?_
  refine runs_next .dataDirRelease () joined (hW rfl trivial) ?_
  exact .returned _ _

/-- The wallet was opened, the federation was joined, and the process ended. -/
theorem calm_joined_steps :
    Steps (calmProcesses Serde.framed) ⟨opened, openedTasks⟩ (Pool.idle joined.crash) := by
  have hjoin := steps_of_return (Y := calmProcesses Serde.framed) (i := .call 0) (f := openedTasks)
    ⟨rfl, mnemonic, .setDefault invite, rfl⟩ rfl
    (Runs.bind (joined_runs fun h hs => ⟨Or.inl h, fun hn => absurd hs hn⟩) rfl (.returned _ _))
  exact hjoin.trans (steps_of_crash ⟨⟨rfl, fun _ => rfl⟩, rfl⟩)

theorem opened_steps :
    Steps (processes Serde.framed) (Pool.idle State.fresh) ⟨opened, openedTasks⟩ :=
  steps_of_return (Y := processes Serde.framed) (i := .new) ⟨rfl, rfl⟩ rfl
    (Runs.bind (new_runs fun h _ => Or.inl h) rfl (.returned _ _))

theorem failed_steps :
    Steps (processes Serde.framed) ⟨opened, openedTasks⟩ ⟨failed, failedTasks⟩ :=
  steps_of_return (Y := processes Serde.framed) (i := .call 0)
    ⟨rfl, mnemonic, .setDefault invite, rfl⟩ rfl
    (Runs.bind (setDefaultFederation_fails trivial) rfl (.returned _ _))

/-- A start after the failed join. -/
theorem new_fails : Runs (wallet False) .new Alone (Wallet.new Serde.framed).run
    (failed : State TaskId).crash (.returned (.error "Federation is not initialized.")) failed := by
  refine runs_next (.createDirAll .clientsDataDir) (.ok ()) _ (Or.inl ⟨rfl, rfl⟩) ?_
  refine runs_next (.tryExists .mnemonic) (.ok true) _ (Or.inl ⟨rfl, rfl⟩) ?_
  refine runs_next (.readFile .mnemonic) (.ok (Serde.framed.mnemonic.enc mnemonic)) _
    (Or.inl ⟨rfl, rfl⟩) ?_
  refine runs_next .dataDirLock () _ (Or.inl ⟨rfl, rfl⟩) ?_
  refine runs_next (.readDir .clientsDataDir) (.ok [.federation fed]) _
    (Or.inl ⟨rfl, _, rfl, fun f => by simp [failed, State.crash]⟩) ?_
  refine runs_next .clientsWrite () _ (Or.inl ⟨rfl, rfl⟩) ?_
  refine runs_next (.clientsContains fed) false _ (Or.inl ⟨rfl, rfl⟩) ?_
  refine runs_next (.dbOpen fed) (.ok ()) _ (Or.inl ⟨rfl, rfl⟩) ?_
  refine runs_next (.dbIsInitialized fed) false _ (Or.inl ⟨rfl, rfl⟩) ?_
  refine runs_next .clientBuilder (.ok ()) _ (Or.inl ⟨rfl, rfl⟩) ?_
  refine runs_next .clientConnectors (.ok ()) _ (Or.inl ⟨rfl, rfl⟩) ?_
  refine runs_next .clientsRelease () _ (Or.inl rfl) ?_
  refine runs_next .dataDirRelease () _ (Or.inl rfl) ?_
  exact .returned _ _

end FailedJoin

open FailedJoin in
/-- The wallet with the federation that was joined can be opened again. -/
theorem wallet_reopens_joined :
    Ensures (wallet False) .new (Wallet.new Serde.framed).run (fun o t => ∃ m, o = .returned (.ok m) ∧
      t.clients = {fed} ∧ ∀ m₀, openedTasks .new = some (.pure (.opened (.ok m₀))) → m = m₀)
      joined.crash :=
  wallet_reopens calm_opened_steps calm_joined_steps rfl

open FailedJoin in
/-- **A failed join**: no later start succeeds. -/
theorem failed_join_blocks :
    ¬ ∀ P P' : Pool TaskId Op Op.Ret Result (State TaskId),
      Steps (processes Serde.framed) (Pool.idle State.fresh) P →
      Steps (processes Serde.framed) P P' →
      Ensures (wallet False) .new (Wallet.new Serde.framed).run (fun o t => ∃ m,
        o = .returned (.ok m) ∧ t.clients = members P'.st.log ∧
        ∀ m₀, P.task .new = some (.pure (.opened (.ok m₀))) → m = m₀) P'.st.crash := by
  intro h
  obtain ⟨m, hm, -⟩ := new_fails.ensures (h _ _ opened_steps failed_steps)
  cases hm

end Vendimint.Federation
