import Vendimint.Update.World
import Vendimint.Iroh.Uses

/-! # The calls and passes of a manager

Every task of the manager keeps the discipline of updates: a call of `update_federation` that succeeds
has written its default federation, and a pass writes configurations for the federation that it has
read.

* `updateMachineConfigs_safe`, `updateFederation_safe`: the tasks.
* `keeps`: all tasks, as one discipline of the system. -/

namespace Vendimint.Update

open Vendimint.Store Vendimint.Async Vendimint.ManagerProtocol

/-! ### Plain operations -/

/-- The operations that change no more than the lock. -/
def Plain : Op → Prop
  | .readFile .defaultFederation => False
  | .writeFile .defaultFederation _ => False
  | .docSetBytes _ _ _ _ => False
  | _ => True

theorem allowed_of_plain {J : Serde} {op : Op} (hop : Plain op) (i : TaskId) (s : State) :
    Allowed J i op s := by
  unfold Allowed
  split
  · exact hop.elim
  · exact hop.elim
  · trivial

theorem lock_of_plain {J : Serde} {op : Op} (hop : Plain op) {i : TaskId} {s s' : State} {r : op.Ret}
    (he : effect J i op s r s') : ∃ l, s' = { s with lock := l } := by
  unfold effect at he
  split at he
  · exact ⟨some i, he.2⟩
  · exact ⟨none, he⟩
  · exact ⟨s.lock, he.1⟩
  · exact hop.elim
  · exact hop.elim
  · exact hop.elim
  · exact ⟨s.lock, he⟩

section Rules
variable {J : Serde} {i : TaskId} {s : State} {α : Type}

/-- An operation that is allowed. -/
theorem safe_op {op : Op} {k : op.Ret → Fut α} {R : α → State → Prop}
    (ha : ∀ t, Rely i s t → Allowed J i op t)
    (h : ∀ r t u, Rely i s t → Inv J t → Inv J u → effect J i op t r u →
      Safe (wallet J) (discipline J) i (k r) (Outcome.returns R) u) :
    Safe (wallet J) (discipline J) i (.await op k) (Outcome.returns R) s := by
  refine .act fun t ht hi => ⟨fun r u hu => ?_, fun u hu => ?_⟩
  · have hg := effect_guar (ha t ht) hu
    exact ⟨hg.inv hi, hg, h r t u ht hi (hg.inv hi) hu⟩
  · obtain ⟨v, hv | ⟨r, hv⟩, rfl⟩ := hu
    · subst hv
      have hg : Guar J i v v := guar_lock i v v.lock
      exact ⟨hg.release.inv hi, hg.release⟩
    · have hg := effect_guar (ha t ht) hv
      exact ⟨hg.release.inv hi, hg.release⟩

/-- A plain operation. -/
theorem safe_plain {op : Op} {k : op.Ret → Fut α} {R : α → State → Prop} (hop : Plain op)
    (h : ∀ r t, Rely i s t → Inv J t →
      Safe (wallet J) (discipline J) i (k r) (Outcome.returns R) t) :
    Safe (wallet J) (discipline J) i (.await op k) (Outcome.returns R) s := by
  refine safe_op (fun t _ => allowed_of_plain hop i t) fun r t u ht _ hiu hu => h r u ?_ hiu
  obtain ⟨l, rfl⟩ := lock_of_plain hop hu
  exact ht.trans ⟨rfl, List.Subset.refl _⟩

/-- A program of plain operations. -/
theorem safe_uses {p : Fut α} (h : p.Uses Plain) :
    Safe (wallet J) (discipline J) i p (Outcome.returns fun _ t => Rely i s t) s := by
  suffices hall : ∀ u, Rely i s u →
      Safe (wallet J) (discipline J) i p (Outcome.returns fun _ t => Rely i s t) u from
    hall s (.refl i s)
  induction p with
  | pure a => exact fun u hu t ht _ => hu.trans ht
  | panic => exact fun _ _ _ _ _ => trivial
  | await op k ih =>
    exact fun u hu => safe_plain h.1 fun r t ht _ => ih r (h.2 r) t (hu.trans ht)

end Rules

/-! ### Plain programs -/

theorem uses_buildClientFromInviteCode (secret : Mnemonic) (inviteCode : InviteCode) :
    (Wallet.buildClientFromInviteCode secret inviteCode).run.Uses Plain := by
  simp only [Wallet.buildClientFromInviteCode, Fallible.run_bind, Fallible.run_ite]
  refine Prog.Uses.andThen ⟨trivial, fun _ => trivial⟩ fun isInitialized => ?_
  refine Prog.Uses.andThen ⟨trivial, fun _ => trivial⟩ fun _ => ?_
  refine Prog.Uses.andThen ⟨trivial, fun _ => trivial⟩ fun _ => ?_
  split
  · exact ⟨trivial, fun _ => trivial⟩
  · exact Prog.Uses.andThen ⟨trivial, fun _ => trivial⟩ fun _ => ⟨trivial, fun _ => trivial⟩

theorem uses_joinFederation (secret : Mnemonic) (inviteCode : InviteCode) :
    (Wallet.joinFederation secret inviteCode).run.Uses Plain := by
  simp only [Wallet.joinFederation, Wallet.insertClient, Fallible.run_bind]
  refine Prog.Uses.andThen ⟨trivial, fun _ => trivial⟩ fun _ => ?_
  refine (uses_buildClientFromInviteCode secret inviteCode).andThen fun _ => ?_
  refine Prog.Uses.andThen ⟨trivial, fun _ => trivial⟩ fun _ => ?_
  refine Prog.Uses.andThen ⟨trivial, fun _ => trivial⟩ fun _ => ?_
  exact ⟨trivial, fun _ => ⟨trivial, fun _ => ⟨trivial, fun _ => trivial⟩⟩⟩

theorem uses_getLnv2ClaimPubkey (f : FederationId) : (Wallet.getLnv2ClaimPubkey f).Uses Plain := by
  rw [Wallet.getLnv2ClaimPubkey, Wallet.withClient_eq]
  refine ⟨trivial, fun _ => ⟨trivial, fun connected => ?_⟩⟩
  cases connected with
  | false => exact ⟨trivial, fun _ => trivial⟩
  | true => exact ⟨trivial, fun _ => ⟨trivial, fun _ => trivial⟩⟩

/-! ### Passes -/

section Tasks
variable {J : Serde} {i : TaskId} {s : State}

/-- What the task has read stays. -/
def Seen (i : TaskId) (inviteCode : InviteCode) (s : State) : Prop := s.seen i = some inviteCode

theorem Seen.stable {inviteCode : InviteCode} {t : State} (h : Seen i inviteCode s)
    (hr : Rely i s t) : Seen i inviteCode t := hr.seen.trans h

/-- **A configuration is set** for the federation that the task has read. -/
theorem setMachineConfig_safe {inviteCode : InviteCode} {claimerPk : PublicKey} (m : EndpointId)
    (hi : Inv J s) (hseen : Seen i inviteCode s) :
    Safe (wallet J) (discipline J) i (setMachineConfig J m ⟨inviteCode, claimerPk⟩).run
      (Outcome.returns fun _ t => Seen i inviteCode t) s := by
  have hend : ∀ {r : Except Error Unit} {t : State}, Seen i inviteCode t →
      Safe (wallet J) (discipline J) i (.pure r) (Outcome.returns fun _ t => Seen i inviteCode t) t :=
    fun ht => .returned fun u hu _ => ht.stable hu
  simp only [setMachineConfig, Fallible.run_bind, run_attempt, call_eq, Prog.await_bind,
    Prog.pure_bind]
  refine .bind_returns hi (safe_uses (uses_getMachine m trivial)) fun r t ht hst => ?_
  have hseent := hseen.stable hst
  rcases r with e | ticket
  · exact hend hseent
  simp only [Fallible.andThen_ok]
  refine .bind_returns ht (safe_uses (uses_openMachineDoc ticket trivial)) fun r u hu htu => ?_
  have hseenu := hseent.stable htu
  rcases r with e | machineDoc
  · exact hend hseenu
  simp only [Fallible.andThen_ok]
  refine safe_plain trivial fun r v huv _ => ?_
  have hseenv := hseenu.stable huv
  rcases r with e | author
  · exact hend hseenv
  simp only [Fallible.andThen_ok]
  refine safe_op (fun w hw _ => ⟨inviteCode, claimerPk, hseenv.stable hw, rfl⟩)
    fun r w x hw _ _ he => hend ?_
  rw [show x = w.configure _ from he]
  show w.seen i = some inviteCode
  exact hseenv.stable hw

/-- **The machines of a list are configured.** -/
theorem updateMachines_safe {inviteCode : InviteCode} {claimerPk : PublicKey} :
    ∀ (machines : List (EndpointId × DocTicket)) (s : State), Inv J s → Seen i inviteCode s →
    Safe (wallet J) (discipline J) i (Manager.updateMachines J ⟨inviteCode, claimerPk⟩ machines)
      (Outcome.returns fun _ _ => True) s
  | [], _, _, _ => fun _ _ _ => trivial
  | (m, _) :: machines, s, hi, hseen => by
    unfold Manager.updateMachines
    refine .bind_returns hi (safe_uses (uses_getMachineConfig m trivial (fun _ => trivial)
      (fun _ => trivial) fun _ => trivial)) fun r t ht hst => ?_
    have hseent := hseen.stable hst
    rcases r with e | cfg
    · exact updateMachines_safe machines t ht hseent
    have hset : Safe (wallet J) (discipline J) i
        ((setMachineConfig J m ⟨inviteCode, claimerPk⟩).run.bind fun _ =>
          Manager.updateMachines J ⟨inviteCode, claimerPk⟩ machines)
        (Outcome.returns fun _ _ => True) t :=
      .bind_returns ht (setMachineConfig_safe m ht hseent) fun _ u hu hseenu =>
        updateMachines_safe machines u hu hseenu
    rcases cfg with _ | c
    · exact hset
    · simp only
      split
      · exact hset
      · exact updateMachines_safe machines t ht hseent

/-- **The default federation is read.** -/
theorem getDefaultFederation_safe :
    Safe (wallet J) (discipline J) i (Wallet.getDefaultFederation J).run
      (Outcome.returns fun r t => ∀ inviteCode, r = .ok (some inviteCode) → Seen i inviteCode t)
      s := by
  have hend : ∀ {r : Except Error (Option InviteCode)} {t : State},
      (∀ inviteCode, r = .ok (some inviteCode) → Seen i inviteCode t) →
      Safe (wallet J) (discipline J) i (.await .dataDirRelease fun _ => .pure r) (Outcome.returns
        fun r t => ∀ inviteCode, r = .ok (some inviteCode) → Seen i inviteCode t) t :=
    fun h => safe_plain trivial fun _ u hu _ => .returned fun v hv _ inviteCode hr =>
      ((h inviteCode hr).stable hu).stable hv
  simp only [Wallet.getDefaultFederation, Fallible.run_bind, Fallible.run_ite, run_guarded,
    run_attempt, await_eq, Fallible.run_of, call_eq, Prog.await_bind, Prog.pure_bind,
    Fallible.andThen_ok]
  refine safe_plain trivial fun _ t _ _ => ?_
  refine safe_plain trivial fun exist u _ _ => ?_
  cases exist with
  | false => exact hend nofun
  | true =>
    refine safe_op (fun _ _ => trivial) fun r v w _ _ _ he => ?_
    obtain ⟨b, rfl, -, rfl⟩ | ⟨⟨e, rfl⟩, rfl⟩ := he
    · rcases hdec : J.invite.dec b with _ | inviteCode
      · simp only [Fallible.andThen_ok, hdec]
        exact hend nofun
      · simp only [Fallible.andThen_ok, hdec]
        refine hend fun inviteCode' h => ?_
        cases h
        exact Function.update_self ..
    · exact hend nofun

/-- **A pass.** -/
theorem updateMachineConfigs_safe (hi : Inv J s) :
    Safe (wallet J) (discipline J) i (Manager.updateMachineConfigs J)
      (Outcome.returns fun _ _ => True) s := by
  unfold Manager.updateMachineConfigs
  refine .bind_returns hi getDefaultFederation_safe fun r t ht hseen => ?_
  rcases r with e | _ | inviteCode
  · exact fun _ _ _ => trivial
  · exact fun _ _ _ => trivial
  have hseent := hseen inviteCode rfl
  refine .bind_returns ht (safe_uses (uses_getLnv2ClaimPubkey _)) fun claimerPkOr u hu htu => ?_
  have hseenu := hseent.stable htu
  rcases claimerPkOr with _ | claimerPk
  · exact fun _ _ _ => trivial
  refine .bind_returns hu (safe_uses (uses_listMachines trivial (fun _ => trivial)
    fun _ => trivial)) fun machinesOr v hv huv => ?_
  rcases machinesOr with e | machines
  · exact fun _ _ _ => trivial
  · exact updateMachines_safe machines v hv (hseenu.stable huv)

/-! ### Calls -/

/-- **The default federation is set**: the call has written it. -/
theorem setDefaultFederation_safe {secret : Mnemonic} {inviteCode : InviteCode} {n : ℕ} :
    Safe (wallet J) (discipline J) (.update inviteCode n)
      (Wallet.setDefaultFederation J secret inviteCode).run
      (Outcome.oks fun _ t => .update inviteCode n ∈ t.wrote) s := by
  have hwrite : ∀ (t : State), Safe (wallet J) (discipline J) (.update inviteCode n)
      (.await (.writeFile .defaultFederation (J.invite.enc inviteCode)) .pure)
      (Outcome.oks fun _ u => .update inviteCode n ∈ u.wrote) t := by
    intro t
    refine safe_op (fun _ _ => ⟨inviteCode, n, rfl, rfl⟩) fun r u v _ _ _ he => ?_
    refine .returned fun w hw _ a ha => hw.wrote ?_
    obtain ⟨-, rfl⟩ | ⟨⟨e, he⟩, -⟩ := he
    · exact List.mem_cons_self
    · rw [ha] at he
      cases he
  simp only [Wallet.setDefaultFederation, Fallible.run_bind, run_guarded, await_eq, Fallible.run_of,
    Prog.await_bind, Prog.pure_bind, Fallible.andThen_ok]
  refine safe_plain trivial fun _ t _ ht => ?_
  refine .bind_returns ht (R := fun r u => ∀ a, r = .ok a → .update inviteCode n ∈ u.wrote) ?_
    fun r u _ hr => ?_
  · simp only [Wallet.setDefaultLocked, Fallible.run_bind, Fallible.run_ite, run_attempt, await_eq,
      Fallible.run_of, call_eq, Prog.await_bind, Prog.pure_bind, Fallible.andThen_ok]
    refine safe_plain trivial fun isDir u _ hu => ?_
    split
    · exact hwrite u
    · refine .bind_returns hu (safe_uses (uses_joinFederation secret inviteCode)) fun r v _ _ => ?_
      rcases r with e | _
      · exact .failed
      · exact hwrite v
  · refine safe_plain trivial fun _ v huv _ => .returned fun w hvw _ a ha => ?_
    exact hvw.wrote (huv.wrote (hr a ha))

/-- **A call of `update_federation`** that succeeds has written its default federation. -/
theorem updateFederation_safe {secret : Mnemonic} {inviteCode : InviteCode} {n : ℕ}
    (hi : Inv J s) : Safe (wallet J) (discipline J) (.update inviteCode n)
      (Manager.updateFederation J secret inviteCode).run
      (Outcome.oks fun _ t => .update inviteCode n ∈ t.wrote) s := by
  simp only [Manager.updateFederation, Fallible.run_bind]
  refine .andThen hi setDefaultFederation_safe fun _ t ht hwrote => ?_
  have hpass := (updateMachineConfigs_safe (i := .update inviteCode n) ht).remember
    (fun s s' => s.wrote ⊆ s'.wrote) List.Subset.trans (fun (hr : Rely _ _ _) => hr.wrote)
    (fun _ (hg : Guar J _ _ _) => hg.wrote) (List.Subset.refl t.wrote)
  refine .bind_of ht hpass (fun _ u _ hu => ?_) (fun _ _ _ => trivial) fun _ _ _ => trivial
  exact .returned fun v hv _ _ _ => hv.wrote (hu.1 hwrote)

/-! ### All tasks -/

/-- What holds when a task has ended. -/
def Ends : TaskId → Outcome Result → State → Prop
  | .update inviteCode n => Outcome.returns fun r t => r = .updated (.ok ()) →
    .update inviteCode n ∈ t.wrote
  | .pass _ => Outcome.returns fun _ _ => True

/-- What a task has read when it begins. -/
theorem begin_kept (hi : Inv J s) :
    Inv J (s.see i none) ∧ ∀ j, j ≠ i → Rely j s (s.see i none) :=
  ⟨hi, fun _ hj => ⟨Function.update_of_ne hj .., List.Subset.refl _⟩⟩

variable (J) in
/-- **The tasks of a manager** keep the discipline of updates. -/
def keeps (secret : Mnemonic) (more : Prop) : RelyGuarantee (manager J secret more) where
  toDiscipline := discipline J
  post := Ends
  env_ok hi he := by
    obtain ⟨rfl, hdead⟩ := he
    exact ⟨hi, fun i hi => by rw [hdead i] at hi; cases hi⟩
  spawn_ok {i p s s'} hi hs := by
    obtain ⟨-, rfl, rfl⟩ := hs
    obtain ⟨hi', hr⟩ := begin_kept (i := i) hi
    refine ⟨hi', hr, ?_⟩
    cases i with
    | update inviteCode n =>
      refine .bind_returns hi' (R := fun (r : Except Error Unit) (t : State) => ∀ a, r = .ok a →
        TaskId.update inviteCode n ∈ t.wrote) (updateFederation_safe hi') fun r t _ hr => ?_
      refine .returned fun u hu _ hok => ?_
      obtain rfl : r = .ok () := by injection hok
      exact hu.wrote (hr () rfl)
    | pass n => exact .bind_returns hi' (updateMachineConfigs_safe hi') fun _ _ _ _ _ _ _ => trivial

end Tasks

/-- Every pool that is reached is good. -/
theorem good {J : Serde} {secret : Mnemonic} {more : Prop}
    {P : Pool TaskId Op Op.Ret Result State}
    (h : Steps (manager J secret more) (Pool.idle State.fresh) P) : Good (keeps J secret more) P :=
  good_steps (good_idle fun _ hb => by cases hb) h

end Vendimint.Update
