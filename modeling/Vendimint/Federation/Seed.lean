import Vendimint.Federation.Reopen

/-! # The mnemonic of a wallet

Whatever fails, in whichever process, the file of the mnemonic is written at most once.

* `exec_seed`, `cut_seed`: only an operation that writes the mnemonic changes its file.
* `mnemonic_persists`: **once there is a file it stays as it is**, and all starts that succeed return the
  same mnemonic. -/

namespace Vendimint.Federation

open Vendimint.Store Vendimint.Async

/-- The operation does not write the mnemonic. -/
def Sparing (op : Op) : Prop := ∀ b, op ≠ .writeFile .mnemonic b

section Steps
variable {J : Serde} {i : TaskId} {op : Op} {r : op.Ret} {s s' t : State TaskId}

theorem sparing_of_joining {op : Op} (h : Wallet.Joining op) : Sparing op := by
  rintro b rfl
  exact h

theorem effect_seed (hop : Sparing op) (h : effect i op s r s') : s'.mnemonicFile = s.mnemonicFile := by
  unfold effect at h
  split at h
  all_goals first
    | exact absurd rfl (hop _)
    | (obtain rfl := h; rfl)
    | (obtain ⟨rfl, -⟩ := h; rfl)
    | (obtain ⟨-, rfl⟩ := h; rfl)
    | (obtain ⟨rfl, -⟩ := h
       first | unfold State.makeDir | unfold State.takeClient
       split_ifs <;> rfl)

theorem damage_seed (hop : Sparing op) (h : damage op s s') : s'.mnemonicFile = s.mnemonicFile := by
  unfold damage at h
  split at h
  · obtain rfl | rfl := h
    · rfl
    · unfold State.makeDir
      split_ifs <;> rfl
  · obtain rfl | rfl | rfl := h <;> rfl
  · exact absurd rfl (hop _)
  · obtain rfl | ⟨l, -, rfl⟩ := h <;> rfl
  · obtain rfl := h
    rfl

/-- **An operation that does not write the mnemonic leaves its file**, also if it fails. -/
theorem exec_seed (hop : Sparing op) (h : (wallet True).exec i op s r s') :
    s'.mnemonicFile = s.mnemonicFile := by
  rcases h with h | ⟨-, -, h⟩
  · exact effect_seed hop h
  · exact damage_seed hop h

theorem cut_seed (hop : Sparing op) (h : (wallet True).cut i op s s') :
    s'.mnemonicFile = s.mnemonicFile := by
  obtain ⟨-, t, hd, rfl⟩ := h
  have ht : t.mnemonicFile = s.mnemonicFile := damage_seed hop hd
  exact ht

end Steps

/-- **The discipline.** Calls leave the file of the mnemonic; the start does not change it once it is
there. -/
def seeds : Discipline TaskId (State TaskId) where
  inv _ := True
  rely i s s' := i = .new → s'.mnemonicFile = s.mnemonicFile
  guar i s s' := (i ≠ .new → s'.mnemonicFile = s.mnemonicFile) ∧
    ∀ b, s.mnemonicFile = some b → s'.mnemonicFile = some b
  rely_refl _ _ _ := rfl
  rely_trans h h' hi := (h' hi).trans (h hi)
  compat hij _ _ h hi := h.1 fun hj => hij (hi.trans hj.symm)

section Tasks
variable {J : Serde} {i : TaskId} {α : Type} {s : State TaskId}

/-- An operation that does not write the mnemonic. -/
theorem safe_sparing {op : Op} {k : op.Ret → Fut α} {R : α → State TaskId → Prop} (hop : Sparing op)
    (h : ∀ r t u, seeds.rely i s t → (wallet True).exec i op t r u →
      u.mnemonicFile = t.mnemonicFile → Safe (wallet True) seeds i (k r) (Outcome.returns R) u) :
    Safe (wallet True) seeds i (.await op k) (Outcome.returns R) s := by
  refine .act fun t ht _ => ⟨fun r u hu => ?_, fun u hu => ?_⟩
  · have hsame := exec_seed hop hu
    exact ⟨trivial, ⟨fun _ => hsame, fun b hb => hsame.trans hb⟩, h r t u ht hu hsame⟩
  · have hsame := cut_seed hop hu
    exact ⟨trivial, fun _ => hsame, fun b hb => hsame.trans hb⟩

/-- Joining, leaving and connecting leave the file. -/
theorem safe_joining {p : Fut α} (hp : p.Uses Wallet.Joining) :
    Safe (wallet True) seeds i p (fun _ _ => True) s := by
  refine Safe.of_uses (fun op t r u hop _ hu => ?_) (fun op t u hop _ hu => ?_) hp
  · have hsame := exec_seed (sparing_of_joining hop) hu
    exact ⟨trivial, fun _ => hsame, fun b hb => hsame.trans hb⟩
  · have hsame := cut_seed (sparing_of_joining hop) hu
    exact ⟨trivial, fun _ => hsame, fun b hb => hsame.trans hb⟩

/-- The mnemonic is written only if there is no file. -/
theorem ensureMnemonic_seed :
    Safe (wallet True) seeds .new (Wallet.ensureMnemonic J).run (Outcome.returns fun _ _ => True) s := by
  simp only [Wallet.ensureMnemonic, Fallible.run_bind, Fallible.run_ite, run_attempt, await_eq,
    Fallible.run_of, call_eq, Prog.await_bind, Prog.pure_bind, Fallible.andThen_ok, Fallible.run_pure]
  refine safe_sparing (fun _ => by simp) fun r t u _ hu hsame => ?_
  rcases r with e | exist
  · exact .returned fun _ _ _ => trivial
  have hexist : exist = t.mnemonicFile.isSome := by
    rcases hu with hu | ⟨-, hr, -⟩
    · exact Except.ok.inj hu.2
    · exact absurd ⟨_, rfl⟩ hr
  cases exist with
  | true => exact .returned fun _ _ _ => trivial
  | false =>
    have hnone : u.mnemonicFile = none := by
      rw [hsame]
      rwa [eq_comm, Option.isSome_eq_false_iff, Option.isNone_iff_eq_none] at hexist
    refine safe_sparing (fun _ => by simp) fun mnemonic v w hv _ hw => ?_
    have hnone' : w.mnemonicFile = none := hw.trans ((hv rfl).trans hnone)
    refine .act fun x hx _ => ?_
    have hempty : x.mnemonicFile = none := (hx rfl).trans hnone'
    have hguar : ∀ y, seeds.guar .new x y := fun y =>
      ⟨fun hne => absurd rfl hne, fun b hb => by rw [hempty] at hb; cases hb⟩
    exact ⟨fun _ y _ => ⟨trivial, hguar y, .returned fun _ _ _ => trivial⟩,
      fun y _ => ⟨trivial, hguar y⟩⟩

/-- **A start that returns** has read its mnemonic from the file. -/
theorem new_seed :
    Safe (wallet True) seeds .new (Wallet.new J).run
      (Outcome.oks fun m t => ∃ b, t.mnemonicFile = some b ∧ J.mnemonic.dec b = some m) s := by
  simp only [Wallet.new, Fallible.run_bind, run_attempt, call_eq]
  have hmade : Safe (wallet True) seeds .new
      (Prog.await (.createDirAll .clientsDataDir) .pure : Fut (Except Error Unit))
      (Outcome.oks fun _ _ => True) s :=
    safe_sparing (fun _ => by simp) fun r t u _ _ _ => .returned fun _ _ _ _ _ => trivial
  refine .andThen trivial hmade fun _ t _ _ => ?_
  have hensure : Safe (wallet True) seeds .new (Wallet.ensureMnemonic J).run
      (Outcome.oks fun _ _ => True) t :=
    (ensureMnemonic_seed (J := J)).mono fun o _ _ _ => by
      rcases o with r | _ | _
      · exact fun _ _ => trivial
      · trivial
      · trivial
  refine .andThen trivial hensure fun _ u _ _ => ?_
  simp only [Prog.await_bind, Prog.pure_bind]
  refine safe_sparing (fun _ => by simp) fun r v w _ hw hsame => ?_
  rcases r with e | mnemonicString
  · exact .failed
  have hfile : w.mnemonicFile = some mnemonicString := by
    obtain ⟨rfl, hread⟩ := hw.resolve_right fun h => h.2.1 ⟨_, rfl⟩
    rcases hm : w.mnemonicFile with _ | b
    · rw [hm] at hread
      cases hread
    · rw [hm] at hread
      rw [Except.ok.inj hread]
  simp only [Fallible.andThen_ok]
  rcases hdec : J.mnemonic.dec mnemonicString with _ | mnemonic
  · exact .panicked
  -- The file stays as it is until the function returns.
  have hkeeps := (safe_joining (i := .new) (s := w)
    (Wallet.joining_connectToJoinedFederations mnemonic)).remember
    (fun t v : State TaskId =>
      t.mnemonicFile = some mnemonicString → v.mnemonicFile = some mnemonicString)
    (fun h h' ht => h' (h ht)) (fun h ht => (h rfl).trans ht)
    (fun {t v} _ (h : seeds.guar .new t v) => h.2 mnemonicString) id
  simp only [Fallible.run_unwrap_some, Prog.pure_bind, Fallible.andThen_ok, Fallible.run_pure]
  refine .bind_of trivial hkeeps (fun r v _ hv => ?_) (fun _ _ _ => trivial) fun _ _ _ => trivial
  rcases r with e | _
  · exact .failed
  · refine .returned fun x hx _ m hm => ⟨mnemonicString, (hx rfl).trans (hv.1 hfile), ?_⟩
    rw [hdec, Except.ok.inj hm]

end Tasks

section Runs
variable {J : Serde} {P P' : Pool TaskId Op Op.Ret Result (State TaskId)}

/-- The discipline holds of all processes, with every fault. -/
def seeding (J : Serde) : RelyGuarantee (processes J) where
  toDiscipline := seeds
  post _ := Outcome.returns fun r s => ∀ m, r = .opened (.ok m) →
    ∃ b, s.mnemonicFile = some b ∧ J.mnemonic.dec b = some m
  env_ok := by
    rintro s s' dead - ⟨rfl, hdead⟩
    exact ⟨trivial, fun _ _ _ => rfl⟩
  spawn_ok := by
    rintro i p s s' - ⟨rfl, hp⟩
    refine ⟨trivial, fun j _ _ => rfl, ?_⟩
    cases i with
    | new =>
      subst hp
      refine .bind_returns trivial (new_seed (J := J)) fun r t _ hr => .returned fun u hu _ m hm => ?_
      obtain ⟨b, hb, hdec⟩ := hr m (Result.opened.inj hm)
      exact ⟨b, (hu rfl).trans hb, hdec⟩
    | call n =>
      obtain ⟨secret, c, rfl⟩ := hp
      have hcall : (c.run J secret).Uses Wallet.Joining := by
        cases c with
        | setDefault invite => exact Wallet.joining_setDefaultFederation J secret invite
        | leave f => exact Wallet.joining_leaveFederation f
      refine .bind_of trivial (safe_joining hcall) (fun r t _ _ => ?_) (fun _ _ _ => trivial)
        fun _ _ _ => trivial
      exact .returned fun _ _ _ m hm => by cases hm

/-- What the file of the mnemonic holds stays, whatever happens. -/
theorem seed_kept (h : Good (seeding J) P) (h' : Steps (processes J) P P') {b : Bytes}
    (hb : P.st.mnemonicFile = some b) : P'.st.mnemonicFile = some b := by
  have hkept := h.along (T := fun s s' : State TaskId =>
    s.mnemonicFile = some b → s'.mnemonicFile = some b) (fun _ => id) (fun h h' hs => h' (h hs))
    (fun {i s s'} _ (hg : seeds.guar i s s') => hg.2 b) (fun _ hs => ?_) (fun _ he => ?_) h'
  · exact hkept hb
  · obtain ⟨rfl, -⟩ := hs
    exact id
  · obtain ⟨rfl, -⟩ := he
    exact id

/-- **The mnemonic is never replaced**: in all runs of all processes on a directory, whatever fails and
wherever they end, the file stays as it is once it is there, and whenever two starts have succeeded they
have returned the same mnemonic. -/
theorem mnemonic_persists {s : State TaskId} (h : Steps (processes J) (Pool.idle s) P)
    (h' : Steps (processes J) P P') :
    (∀ b, P.st.mnemonicFile = some b → P'.st.mnemonicFile = some b) ∧
      ∀ m m', P.task .new = some (.pure (.opened (.ok m))) →
        P'.task .new = some (.pure (.opened (.ok m'))) → m' = m := by
  have hgood : Good (seeding J) P := good_steps (good_idle trivial) h
  refine ⟨fun b => seed_kept hgood h', fun m m' hm hm' => ?_⟩
  obtain ⟨b, hb, hdec⟩ := hgood.returned hm m rfl
  obtain ⟨b', hb', hdec'⟩ := (good_steps hgood h').returned hm' m' rfl
  obtain rfl := Option.some.inj (hb'.symm.trans (seed_kept hgood h' hb))
  exact Option.some.inj (hdec'.symm.trans hdec)

end Runs

namespace FailedJoin

/-- A start after the wallet was opened on the empty directory, in another process. -/
theorem reopened_runs : Runs (processes Serde.framed).toWorld .new Alone (Wallet.new Serde.framed).run
    (opened : State TaskId) (.returned (.ok mnemonic)) opened := by
  refine runs_next (.createDirAll .clientsDataDir) (.ok ()) _ (Or.inl ⟨rfl, rfl⟩) ?_
  refine runs_next (.tryExists .mnemonic) (.ok true) _ (Or.inl ⟨rfl, rfl⟩) ?_
  refine runs_next (.readFile .mnemonic) (.ok (Serde.framed.mnemonic.enc mnemonic)) _
    (Or.inl ⟨rfl, rfl⟩) ?_
  refine runs_next .dataDirLock () _ (Or.inl ⟨rfl, rfl⟩) ?_
  refine runs_next (.readDir .clientsDataDir) (.ok []) _
    (Or.inl ⟨rfl, [], rfl, fun f => by simp [opened, State.fresh]⟩) ?_
  refine runs_next .clientsWrite () _ (Or.inl ⟨rfl, rfl⟩) ?_
  refine runs_next .clientsRelease () _ (Or.inl rfl) ?_
  refine runs_next .forceUpdateSend (.ok ()) _ (Or.inl ⟨rfl, rfl⟩) ?_
  refine runs_next .forceUpdateRecv (.ok ()) _ (Or.inl ⟨rfl, rfl⟩) ?_
  refine runs_next .dataDirRelease () opened (Or.inl rfl) ?_
  exact .returned _ _

/-- The process ends, and another one starts. -/
theorem reopened_steps :
    Steps (processes Serde.framed) ⟨opened, openedTasks⟩ ⟨opened, openedTasks⟩ := by
  have hcrash : Steps (processes Serde.framed) ⟨opened, openedTasks⟩ (Pool.idle opened) :=
    steps_of_crash ⟨rfl, fun _ => rfl⟩
  have hstart : Steps (processes Serde.framed) (Pool.idle opened) ⟨opened, openedTasks⟩ :=
    steps_of_return (Y := processes Serde.framed) (i := .new) ⟨rfl, rfl⟩ rfl
      (Runs.bind reopened_runs rfl (.returned _ _))
  exact hcrash.trans hstart

end FailedJoin

open FailedJoin in
/-- The wallet that was opened on the empty directory and opened again. -/
theorem mnemonic_persists_reopened : (∀ b, (opened : State TaskId).mnemonicFile = some b →
    (opened : State TaskId).mnemonicFile = some b) ∧ ∀ m m',
      openedTasks .new = some (.pure (.opened (.ok m))) →
        openedTasks .new = some (.pure (.opened (.ok m'))) → m' = m :=
  mnemonic_persists opened_steps reopened_steps

end Vendimint.Federation
