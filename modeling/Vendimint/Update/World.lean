import Vendimint.Manager

/-! # Updates of the federation of a manager

The calls of `update_federation` by the application and the passes of `update_machine_configs` of the
syncer, any number of them at a time, on a wallet with its file of the default federation and the lock
on its directory. Any step may fail and any call may be dropped, the file is then left as it was or
cut short, and the process may end.

`writes` is the history of the configurations that were written to the documents of machines, `wrote`
that of the calls that wrote the default federation, the newest first, and `seen` is what each task has
read as the default federation.

* `effect_guar`: what a step of a task does to the others. -/

namespace Vendimint.Update

open Vendimint.Store Vendimint.Async

/-- The tasks: calls of `update_federation` and passes of `update_machine_configs`. -/
inductive TaskId
  | update (inviteCode : InviteCode) (n : ℕ)
  | pass (n : ℕ)
  deriving DecidableEq

/-- The wallet's directory, and what was written to the documents of machines. -/
structure State where
  default : Option Bytes
  lock : Option TaskId
  wrote : List TaskId
  seen : TaskId → Option InviteCode
  writes : List Bytes

namespace State

/-- No federation was ever set. -/
def fresh : State := ⟨none, none, [], fun _ => none, []⟩

/-- The task `i` drops the lock, if it holds it. -/
def release (s : State) (i : TaskId) : State :=
  { s with lock := if s.lock = some i then none else s.lock }

/-- The task `i` has written `b` to the file of the default federation. -/
def write (s : State) (i : TaskId) (b : Bytes) : State :=
  { s with default := some b, wrote := i :: s.wrote }

/-- The task `i` has read the default federation, or has just begun. -/
def see (s : State) (i : TaskId) (inviteOr : Option InviteCode) : State :=
  { s with seen := Function.update s.seen i inviteOr }

/-- The configuration `b` was written to a document. -/
def configure (s : State) (b : Bytes) : State := { s with writes := b :: s.writes }

end State

section Semantics
variable (J : Serde)

/-- What the operations of the task `i` do. -/
def effect (i : TaskId) : (op : Op) → State → op.Ret → State → Prop
  | .dataDirLock, s, _, s' => s.lock = none ∧ s' = { s with lock := some i }
  | .dataDirRelease, s, _, s' => s' = { s with lock := none }
  | .pathExists .defaultFederation, s, r, s' => s' = s ∧ r = s.default.isSome
  | .readFile .defaultFederation, s, r, s' =>
    (∃ b, r = .ok b ∧ s.default = some b ∧ s' = s.see i (J.invite.dec b)) ∨
      ((∃ e, r = .error e) ∧ s' = s)
  | .writeFile .defaultFederation b, s, r, s' =>
    (r = .ok () ∧ s' = s.write i b) ∨
      ((∃ e, r = .error e) ∧ (s' = s ∨ ∃ l, l <+: b ∧ s' = s.write i l))
  | .docSetBytes _ _ key value, s, _, s' =>
    s' = if key = MACHINE_CONFIG_KEY then s.configure value else s
  | _, s, _, s' => s' = s

/-- The operations of the wallet and of the documents. A task that is dropped may have done what it was
about to do. -/
def wallet : World TaskId Op Op.Ret State where
  exec := effect J
  cut i op s s' := ∃ t, (t = s ∨ ∃ r, effect J i op s r t) ∧ s' = t.release i

/-- What the tasks return. -/
inductive Result
  | updated (r : Except Error Unit)
  | passed

/-- The program of a task. -/
def program (secret : Mnemonic) : TaskId → Fut Result
  | .update inviteCode _ =>
    (Manager.updateFederation J secret inviteCode).run.bind fun r => .pure (.updated r)
  | .pass _ => (Manager.updateMachineConfigs J).bind fun _ => .pure .passed

/-- **The manager.** Calls of `update_federation` start only if there are `more`. -/
def manager (secret : Mnemonic) (more : Prop) : System TaskId Op Op.Ret Result State where
  toWorld := wallet J
  spawn i p s s' := ((∃ inviteCode n, i = .update inviteCode n) → more) ∧
    p = program J secret i ∧ s' = s.see i none
  env s s' dead := s' = { s with lock := none } ∧ ∀ i, dead i = true

end Semantics

/-! ### What a step does -/

section Discipline
variable (J : Serde)

/-- The file of the default federation is what the last call wrote to it, or a part of that. -/
def Inv (s : State) : Prop :=
  ∀ b, s.default = some b → ∃ inviteCode n older,
    s.wrote = .update inviteCode n :: older ∧ b <+: J.invite.enc inviteCode

/-- What a step of the task `i` may do. -/
structure Guar (i : TaskId) (s s' : State) : Prop where
  default : (s'.default = s.default ∧ s'.wrote = s.wrote) ∨ ∃ inviteCode n b,
    i = .update inviteCode n ∧ b <+: J.invite.enc inviteCode ∧ s'.default = some b ∧
      s'.wrote = i :: s.wrote
  others : ∀ j, j ≠ i → s'.seen j = s.seen j
  seen : s'.seen i = s.seen i ∨ ∃ b, s.default = some b ∧ s'.seen i = J.invite.dec b
  writes : s'.writes = s.writes ∨ ∃ inviteCode claimerPk, s.seen i = some inviteCode ∧
    s'.writes = J.config.enc ⟨inviteCode, claimerPk⟩ :: s.writes

/-- What a task may rely on: nobody changes what it has read, and what it has done. -/
structure Rely (i : TaskId) (s s' : State) : Prop where
  seen : s'.seen i = s.seen i
  wrote : s.wrote ⊆ s'.wrote

/-- When the task `i` may run an operation. -/
def Allowed (i : TaskId) : Op → State → Prop
  | .writeFile .defaultFederation b, _ =>
    ∃ inviteCode n, i = .update inviteCode n ∧ b = J.invite.enc inviteCode
  | .docSetBytes _ _ key value, s => key = MACHINE_CONFIG_KEY → ∃ inviteCode claimerPk,
    s.seen i = some inviteCode ∧ value = J.config.enc ⟨inviteCode, claimerPk⟩
  | _, _ => True

variable {J} {i : TaskId} {s s' s'' : State}

/-- Only the lock has changed. -/
theorem guar_lock (i : TaskId) (s : State) (l : Option TaskId) :
    Guar J i s { s with lock := l } :=
  ⟨Or.inl ⟨rfl, rfl⟩, fun _ _ => rfl, Or.inl rfl, Or.inl rfl⟩

/-- Dropping the lock changes nothing else. -/
theorem Guar.release (h : Guar J i s s') : Guar J i s (s'.release i) :=
  ⟨h.default, h.others, h.seen, h.writes⟩

theorem guar_see {b : Bytes} (hb : s.default = some b) : Guar J i s (s.see i (J.invite.dec b)) :=
  ⟨Or.inl ⟨rfl, rfl⟩, fun _ hj => Function.update_of_ne hj .., Or.inr ⟨b, hb, Function.update_self ..⟩,
    Or.inl rfl⟩

theorem guar_write {inviteCode : InviteCode} {n : ℕ} {l : Bytes}
    (hl : l <+: J.invite.enc inviteCode) :
    Guar J (.update inviteCode n) s (s.write (.update inviteCode n) l) :=
  ⟨Or.inr ⟨inviteCode, n, l, rfl, hl, rfl, rfl⟩, fun _ _ => rfl, Or.inl rfl, Or.inl rfl⟩

/-- **An operation that is allowed** does no more than `Guar` says. -/
theorem effect_guar {op : Op} (ha : Allowed J i op s) {r : op.Ret} (he : effect J i op s r s') :
    Guar J i s s' := by
  have hsame : s' = s → Guar J i s s' := by
    rintro rfl
    exact guar_lock i s' s'.lock
  unfold effect at he
  split at he
  · rw [he.2]
    exact guar_lock i s _
  · rw [he]
    exact guar_lock i s _
  · exact hsame he.1
  · obtain ⟨b, -, hb, rfl⟩ | ⟨-, he⟩ := he
    · exact guar_see hb
    · exact hsame he
  · obtain ⟨inviteCode, n, rfl, rfl⟩ := ha
    obtain ⟨-, rfl⟩ | ⟨-, he | ⟨l, hl, rfl⟩⟩ := he
    · exact guar_write List.prefix_rfl
    · exact hsame he
    · exact guar_write hl
  · split_ifs at he with hkey
    · obtain ⟨inviteCode, claimerPk, hseen, rfl⟩ := ha hkey
      subst he
      exact ⟨Or.inl ⟨rfl, rfl⟩, fun _ _ => rfl, Or.inl rfl,
        Or.inr ⟨inviteCode, claimerPk, hseen, rfl⟩⟩
    · exact hsame he
  · exact hsame he

/-- The file stays what was last written to it. -/
theorem Guar.inv (hg : Guar J i s s') (hi : Inv J s) : Inv J s' := by
  intro b hb
  rcases hg.default with ⟨hdefault, hwrote⟩ | ⟨inviteCode, n, l, rfl, hl, hdefault, hwrote⟩
  · rw [hdefault] at hb
    rw [hwrote]
    exact hi b hb
  · rw [hdefault, Option.some.injEq] at hb
    subst hb
    exact ⟨inviteCode, n, s.wrote, hwrote, hl⟩

theorem Rely.refl (i : TaskId) (s : State) : Rely i s s := ⟨rfl, List.Subset.refl _⟩

theorem Rely.trans (h : Rely i s s') (h' : Rely i s' s'') : Rely i s s'' :=
  ⟨h'.seen.trans h.seen, List.Subset.trans h.wrote h'.wrote⟩

theorem Guar.wrote (hg : Guar J i s s') : s.wrote ⊆ s'.wrote := by
  rcases hg.default with ⟨-, hwrote⟩ | ⟨_, _, _, _, _, _, hwrote⟩
  · rw [hwrote]
    exact List.Subset.refl _
  · rw [hwrote]
    exact List.subset_cons_self _ _

/-- What a task does is what the others rely on. -/
theorem Guar.rely {j : TaskId} (hij : i ≠ j) (hg : Guar J j s s') : Rely i s s' :=
  ⟨hg.others i hij, hg.wrote⟩

variable (J) in
/-- **The discipline of the manager.** -/
def discipline : Discipline TaskId State where
  inv := Inv J
  rely := Rely
  guar := Guar J
  rely_refl := Rely.refl
  rely_trans := Rely.trans
  compat hij _ _ hg := hg.rely hij

end Discipline

end Vendimint.Update
