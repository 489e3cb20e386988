import Vendimint.Federation.World
import Vendimint.Wallet.Uses

/-! # Joining a federation

Histories of `setDefaultFederation` and `leaveFederation` on a running wallet, one call after another,
in which any operation may fail and any call may be dropped.

* `call_reaches`: what a call does to the directories and the clients.
* `setDefaultFederation_joins_iff`: **a call that succeeds has joined** iff no earlier call has made the
  directory of the federation without inserting its client, or taken its client out of the map
  without putting it back or deleting the directory.
* `failed_join_strands`: after a join that failed, the next call succeeds without a client. -/

namespace Vendimint.Federation

open Vendimint.Store Vendimint.Async

/-! ### Histories -/

/-- A call on a running wallet. -/
inductive Call
  | setDefault (invite : InviteCode)
  | leave (f : FederationId)

/-- The program of a call. -/
def Call.run (J : Serde) (secret : Mnemonic) : Call → Fut (Except Error Unit)
  | .setDefault invite => (Wallet.setDefaultFederation J secret invite).run
  | .leave f => (Wallet.leaveFederation f).run

/-- A wallet is opened on some directory, and calls are made one after another, each of which may end
in any way. The list has what each call did to directories and clients, the last call first. -/
inductive History (J : Serde) : Mnemonic → List (List Event) → State Unit → Prop
  | opened {s s' : State Unit} {secret : Mnemonic} :
      s.clients = ∅ →
      Runs (wallet True) () Alone (Wallet.new J).run s (.returned (.ok secret)) s' →
      History J secret [] s'
  | call {s s' : State Unit} {secret : Mnemonic} {calls : List (List Event)} {es : List Event}
      {o : Outcome (Except Error Unit)} (c : Call) :
      History J secret calls s → Runs (wallet True) () Alone (c.run J secret) s o s' →
      s'.log = es ++ s.log → History J secret (es :: calls) s'

/-- A call that has made the directory of `f` has inserted its client, and a call that has taken its
client out of the map has put it back or deleted the directory. -/
def Finished (f : FederationId) (es : List Event) : Prop :=
  (.made f ∈ es → .inserted f ∈ es) ∧ (.taken f ∈ es → .inserted f ∈ es ∨ .deleted f ∈ es)

/-! ### Directories and clients -/

/-- The directories, the clients and the history of a state. -/
structure Core where
  dirs : Finset FederationId
  clients : Finset FederationId
  log : List Event

def State.core (s : State Unit) : Core := ⟨s.dirs, s.clients, s.log⟩

/-- A directory was made, and its federation was perhaps joined. -/
def Opening (f : FederationId) (es : List Event) : Prop := es = [.made f] ∨ es = [.joined f, .made f]

theorem core_insertClient (s : State Unit) (f : FederationId) : (s.insertClient f).core =
    ⟨s.core.dirs, insert f s.core.clients, .inserted f :: s.core.log⟩ := rfl

theorem core_deleteDir (s : State Unit) (f : FederationId) : (s.deleteDir f).core =
    ⟨s.core.dirs.erase f, s.core.clients, .deleted f :: s.core.log⟩ := rfl

theorem core_takeClient {s : State Unit} {f : FederationId} (h : f ∈ s.core.clients) :
    (s.takeClient f).core =
      ⟨s.core.dirs, s.core.clients.erase f, .taken f :: s.core.log⟩ := by
  have h' : f ∈ s.clients := h
  rw [State.takeClient, if_pos h']
  rfl

theorem core_makeDir {s : State Unit} {f : FederationId} (h : f ∉ s.core.dirs) :
    (s.makeDir f).core = ⟨insert f s.core.dirs, s.core.clients, .made f :: s.core.log⟩ := by
  have h' : f ∉ s.dirs := h
  rw [State.makeDir, if_neg h']
  rfl

/-- What a call may have done. -/
inductive Effect (c : Core) : List Event → Core → Prop
  | none : Effect c [] c
  | opening {f : FederationId} (es : List Event) :
      f ∉ c.dirs → Opening f es →
      Effect c es ⟨insert f c.dirs, c.clients, es ++ c.log⟩
  | opened {f : FederationId} (es : List Event) :
      f ∉ c.dirs → Opening f es →
      Effect c (.inserted f :: es) ⟨insert f c.dirs, insert f c.clients, .inserted f :: es ++ c.log⟩
  | leaving {f : FederationId} :
      f ∈ c.clients → Effect c [.taken f] ⟨c.dirs, c.clients.erase f, .taken f :: c.log⟩
  | stayed {f : FederationId} :
      f ∈ c.clients →
      Effect c [.inserted f, .taken f]
        ⟨c.dirs, insert f (c.clients.erase f), .inserted f :: .taken f :: c.log⟩
  | left {f : FederationId} :
      f ∈ c.clients →
      Effect c [.deleted f, .taken f]
        ⟨c.dirs.erase f, c.clients.erase f, .deleted f :: .taken f :: c.log⟩

/-- A call may have led from `c` to the state `t`. -/
def Reached (c : Core) (t : State Unit) : Prop := ∃ es, Effect c es t.core

theorem Effect.reached {c c' : Core} {es : List Event} {t : State Unit} (h : Effect c es c')
    (ht : t.core = c') : Reached c t := ⟨es, ht ▸ h⟩

theorem Reached.of_core {c : Core} {t u : State Unit} (h : Reached c t) (htu : u.core = t.core) :
    Reached c u := by
  obtain ⟨es, hes⟩ := h
  exact hes.reached htu

/-- The directory of `f` is there, but not its client. -/
def Stray (c : Core) (f : FederationId) : Prop := f ∈ c.dirs ∧ f ∉ c.clients

theorem Effect.log {c c' : Core} {es : List Event} (h : Effect c es c') : c'.log = es ++ c.log := by
  cases h <;> rfl

theorem Effect.subset {c c' : Core} {es : List Event} (h : Effect c es c') (hc : c.clients ⊆ c.dirs) :
    c'.clients ⊆ c'.dirs := by
  cases h with
  | none => exact hc
  | opening es _ _ => exact hc.trans (Finset.subset_insert _ _)
  | opened es _ _ => exact Finset.insert_subset_insert _ hc
  | leaving _ => exact (Finset.erase_subset _ _).trans hc
  | stayed hf => exact Finset.insert_subset (hc hf) ((Finset.erase_subset _ _).trans hc)
  | left _ => exact Finset.erase_subset_erase _ hc

/-- **A directory is stray** after a call iff it was before, or the call did not finish. -/
theorem Effect.stray_iff {c c' : Core} {es : List Event} (h : Effect c es c')
    (hc : c.clients ⊆ c.dirs) (f : FederationId) :
    Stray c' f ↔ Stray c f ∨ ¬ Finished f es := by
  cases h with
  | none => simp [Finished]
  | @opening g es hg hes =>
    by_cases hf : f = g
    · subst hf
      have hstray : ¬ Stray c f := fun h => hg h.1
      have hclient : f ∉ c.clients := fun h => hg (hc h)
      rcases hes with rfl | rfl <;> simp [Stray, Finished, hg, hclient]
    · rcases hes with rfl | rfl <;> simp [Stray, Finished, hf]
  | @opened g es hg hes =>
    by_cases hf : f = g
    · subst hf
      rcases hes with rfl | rfl <;> simp [Stray, Finished, hg]
    · rcases hes with rfl | rfl <;> simp [Stray, Finished, hf]
  | @leaving g hg =>
    by_cases hf : f = g
    · subst hf
      simp [Stray, Finished, hc hg]
    · simp [Stray, Finished, hf]
  | @stayed g hg =>
    by_cases hf : f = g
    · subst hf
      simp [Stray, Finished, hg]
    · simp [Stray, Finished, hf]
  | @left g hg =>
    by_cases hf : f = g
    · subst hf
      simp [Stray, Finished, hg]
    · simp [Stray, Finished, hf]

/-! ### What each function does -/

/-- Operations that change neither directories nor clients. -/
def Quiet : Op → Prop
  | .dbOpen _ | .clientJoin _ _ | .clientsInsert _ | .clientsRemove _ | .removeDirAll _ => False
  | _ => True

section Functions
variable {α : Type} {s : State Unit} {c : Core} {J : Serde}

theorem quiet_effect {op : Op} (hop : Quiet op) {r : op.Ret} {t : State Unit}
    (h : effect () op s r t) : t.core = s.core := by
  unfold effect at h
  split at h
  all_goals first
    | exact hop.elim
    | (obtain rfl := h; rfl)
    | (obtain ⟨rfl, -⟩ := h; rfl)
    | (obtain ⟨-, rfl⟩ := h; rfl)

theorem quiet_damage {op : Op} (hop : Quiet op) {t : State Unit} (h : damage op s t) :
    t.core = s.core := by
  unfold damage at h
  split at h
  all_goals first
    | exact hop.elim
    | (obtain rfl := h; rfl)
    | (obtain rfl | ⟨-, -, rfl⟩ := h <;> rfl)

theorem quiet_exec {op : Op} (hop : Quiet op) {r : op.Ret} {t : State Unit}
    (h : (wallet True).exec () op s r t) : t.core = s.core := by
  rcases h with h | ⟨-, -, h⟩
  · exact quiet_effect hop h
  · exact quiet_damage hop h

theorem quiet_cut {op : Op} (hop : Quiet op) {t : State Unit} (h : (wallet True).cut () op s t) :
    t.core = s.core := by
  obtain ⟨-, u, hu, rfl⟩ := h
  have hcore := quiet_damage hop hu
  exact hcore

/-- A quiet operation. -/
theorem wp_quiet {op : Op} {k : op.Ret → Fut (Except Error α)} {R : α → State Unit → Prop}
    {P : State Unit → Prop} (hop : Quiet op) (hs : s.core = c) (hP : ∀ t, t.core = c → P t)
    (h : ∀ r t, (wallet True).exec () op s r t → t.core = c →
      Wp (wallet True) (k r) (Outcome.orStops R P) t) :
    Wp (wallet True) (.await op k) (Outcome.orStops R P) s :=
  wp_op (fun r t ht => h r t ht ((quiet_exec hop ht).trans hs))
    fun t ht => hP t ((quiet_cut hop ht).trans hs)

theorem buildClientFromInviteCode_opens {P : State Unit → Prop} (secret : Mnemonic)
    (inviteCode : InviteCode) (hs : s.core = c) (hP : ∀ t, t.core = c → P t) :
    Wp (wallet True) (Wallet.buildClientFromInviteCode secret inviteCode).run
      (Outcome.orStops (fun _ t => t.core = c ∨
        t.core = { c with log := .joined inviteCode.federationId :: c.log }) P) s := by
  simp only [Wallet.buildClientFromInviteCode, Fallible.run_bind, Fallible.run_ite, run_attempt,
    await_eq, Fallible.run_of, call_eq, Prog.await_bind, Prog.pure_bind]
  refine wp_quiet trivial hs hP fun initialized t _ ht => ?_
  refine wp_quiet trivial ht hP fun r t _ ht => ?_
  rcases r with e | _
  · exact wp_failed.mpr (hP t ht)
  refine wp_quiet trivial ht hP fun r t _ ht => ?_
  rcases r with e | _
  · exact wp_failed.mpr (hP t ht)
  cases initialized with
  | true =>
    refine wp_quiet trivial ht hP fun r t _ ht => ?_
    rcases r with e | _
    · exact wp_failed.mpr (hP t ht)
    · exact wp_succeeded.mpr (Or.inl ht)
  | false =>
    refine wp_quiet trivial ht hP fun r t _ ht => ?_
    rcases r with e | _
    · exact wp_failed.mpr (hP t ht)
    refine wp_op (fun r u hu => ?_) fun u hu => ?_
    · rcases hu with ⟨rfl, rfl⟩ | ⟨-, hr, rfl⟩
      · refine wp_succeeded.mpr (Or.inr ?_)
        rw [← ht]
        rfl
      · rcases r with e | _
        · exact wp_failed.mpr (hP _ ht)
        · exact absurd ⟨_, rfl⟩ hr
    · obtain ⟨-, v, rfl, rfl⟩ := hu
      exact hP _ ht

/-- After the clients have changed, the view is updated. -/
theorem forceUpdateView_quiet {R P : State Unit → Prop} (hs : s.core = c)
    (hP : ∀ t, t.core = c → P t) (hR : ∀ t, t.core = c → R t) :
    Wp (wallet True) (Wallet.forceUpdateView.bind fun _ => .pure (.ok ()))
      (Outcome.orStops (fun _ : Unit => R) P : Outcome (Except Error Unit) → _) s := by
  refine wp_quiet trivial hs hP fun _ t _ ht => ?_
  refine wp_quiet trivial ht hP fun _ t _ ht => ?_
  refine wp_quiet trivial ht hP fun _ t _ ht => ?_
  exact wp_succeeded.mpr (hR t ht)

/-- The client of `f` is inserted after its directory was made, and perhaps `f` joined. -/
theorem insertClient_opens {f : FederationId} {es : List Event} (hes : Opening f es)
    (hdir : f ∉ c.dirs) (hs : s.core = ⟨insert f c.dirs, c.clients, es ++ c.log⟩) :
    Wp (wallet True) (Wallet.insertClient f).run
      (Outcome.orStops (fun _ t => Reached c t ∧ f ∈ t.core.clients) (Reached c)) s := by
  simp only [Wallet.insertClient, Fallible.run_bind, Fallible.run_lift, await_eq, Fallible.run_of,
    Prog.await_bind, Prog.pure_bind, Fallible.andThen_ok]
  have hmade : ∀ t : State Unit, t.core = ⟨insert f c.dirs, c.clients, es ++ c.log⟩ → Reached c t :=
    fun t ht => (Effect.opening es hdir hes).reached ht
  have hopened : ∀ t : State Unit,
      t.core = ⟨insert f c.dirs, insert f c.clients, .inserted f :: es ++ c.log⟩ → Reached c t :=
    fun t ht => (Effect.opened es hdir hes).reached ht
  refine wp_quiet trivial hs hmade fun _ t _ ht => wp_op (fun r u hu => ?_) fun u hu => ?_
  · obtain rfl : u = t.insertClient f := hu.resolve_right fun h => h.2.1 trivial
    have hu : (t.insertClient f).core =
        ⟨insert f c.dirs, insert f c.clients, .inserted f :: es ++ c.log⟩ := by
      rw [core_insertClient, ht]
      rfl
    refine forceUpdateView_quiet hu hopened fun v hv => ⟨hopened v hv, ?_⟩
    rw [hv]
    exact Finset.mem_insert_self f _
  · obtain ⟨-, v, rfl, rfl⟩ := hu
    exact hmade _ ht

/-- A join of a federation without a directory. -/
theorem joinFederation_opens (secret : Mnemonic) (inviteCode : InviteCode) (hs : s.core = c)
    (hdir : inviteCode.federationId ∉ c.dirs) :
    Wp (wallet True) (Wallet.joinFederation secret inviteCode).run
      (Outcome.orStops (fun _ t => Reached c t ∧ inviteCode.federationId ∈ t.core.clients)
        (Reached c)) s := by
  simp only [Wallet.joinFederation, Fallible.run_bind, run_attempt, call_eq, Prog.await_bind,
    Prog.pure_bind]
  set f := inviteCode.federationId with hf
  have hnone : ∀ t : State Unit, t.core = c → Reached c t := fun t ht => Effect.none.reached ht
  have hmade : ∀ t : State Unit,
      t.core = ⟨insert f c.dirs, c.clients, [.made f] ++ c.log⟩ → Reached c t :=
    fun t ht => (Effect.opening _ hdir (Or.inl rfl)).reached ht
  have hmakeDir : (s.makeDir f).core = ⟨insert f c.dirs, c.clients, [.made f] ++ c.log⟩ := by
    subst hs
    exact core_makeDir hdir
  refine wp_op (fun r t ht => ?_) fun t ht => ?_
  · rcases ht with ⟨rfl, rfl⟩ | ⟨-, hr, ht⟩
    · refine wp_andThen (buildClientFromInviteCode_opens secret inviteCode hmakeDir hmade) ?_
      rintro _ u (hu | hu)
      · exact insertClient_opens (Or.inl rfl) hdir hu
      · exact insertClient_opens (Or.inr rfl) hdir hu
    · rcases r with e | _
      · rcases ht with rfl | rfl
        · exact wp_failed.mpr (hnone _ hs)
        · exact wp_failed.mpr (hmade _ hmakeDir)
      · exact absurd ⟨_, rfl⟩ hr
  · obtain ⟨-, u, rfl | rfl, rfl⟩ := ht
    · exact hnone _ hs
    · exact hmade _ hmakeDir

/-- A function under a guard that is released on every way out. -/
theorem wp_guarded {x : FutResult α} {op : Op} {R R' : α → State Unit → Prop}
    {P : State Unit → Prop} (hop : Quiet op) (hx : Wp (wallet True) x.run (Outcome.orStops R P) s)
    (hP : ∀ t u, P t → u.core = t.core → P u) (hRP : ∀ a t, R a t → P t)
    (hR : ∀ a t r u, R a t → (wallet True).exec () op t r u → R' a u) :
    Wp (wallet True) (guarded x op).run (Outcome.orStops R' P) s := by
  rw [run_guarded]
  refine wp_bind (hx.mono fun o t _ ho => ?_)
  have herror : ∀ e : Error, P t →
      Wp (wallet True) (.await op fun _ => .pure (.error e)) (Outcome.orStops R' P) t :=
    fun e ht => wp_op (fun _ u hu => wp_failed.mpr (hP t u ht (quiet_exec hop hu)))
      fun u hu => hP t u ht (quiet_cut hop hu)
  rcases o with (e | a) | _ | _
  · exact herror e ho
  · exact wp_op (fun _ u hu => wp_succeeded.mpr (hR a t _ u ho hu))
      fun u hu => hP t u (hRP a t ho) (quiet_cut hop hu)
  · exact ho
  · exact ho

/-- What a call to `setDefaultFederation` that succeeds leaves. -/
structure Joined (J : Serde) (inviteCode : InviteCode) (c : Core) (t : State Unit) : Prop where
  reached : Reached c t
  client : inviteCode.federationId ∈ t.clients ↔
    inviteCode.federationId ∈ c.clients ∨ inviteCode.federationId ∉ c.dirs
  default : t.defaultFile = some (J.invite.enc inviteCode)

theorem setDefaultLocked_joins (secret : Mnemonic) (inviteCode : InviteCode) (hs : s.core = c) :
    Wp (wallet True) (Wallet.setDefaultLocked J secret inviteCode).run
      (Outcome.orStops (fun _ => Joined J inviteCode c) (Reached c)) s := by
  simp only [Wallet.setDefaultLocked, Fallible.run_bind, Fallible.run_ite, run_attempt, await_eq,
    Fallible.run_of, call_eq, Prog.await_bind, Prog.pure_bind, Fallible.andThen_ok]
  have hnone : ∀ t : State Unit, t.core = c → Reached c t := fun t ht => Effect.none.reached ht
  have hwrite : ∀ t : State Unit, Reached c t →
      (inviteCode.federationId ∈ t.clients ↔
        inviteCode.federationId ∈ c.clients ∨ inviteCode.federationId ∉ c.dirs) →
      Wp (wallet True) (.await (.writeFile .defaultFederation (J.invite.enc inviteCode)) .pure)
        (Outcome.orStops (fun _ => Joined J inviteCode c) (Reached c)) t := by
    intro t ht hclient
    refine wp_op (fun r u hu => ?_) fun u hu => ht.of_core (quiet_cut (by trivial) hu)
    rcases hu with ⟨rfl, rfl⟩ | ⟨-, hr, hu⟩
    · exact wp_succeeded.mpr ⟨ht, hclient, rfl⟩
    · rcases r with e | _
      · exact wp_failed.mpr (ht.of_core (quiet_damage (by trivial) hu))
      · exact absurd ⟨_, rfl⟩ hr
  refine wp_quiet trivial hs hnone fun isDir t hdir ht => ?_
  obtain ⟨rfl, rfl⟩ := hdir.resolve_right fun h => h.2.1 trivial
  subst ht
  by_cases hdir : inviteCode.federationId ∈ t.dirs
  · rw [if_pos (decide_eq_true hdir)]
    exact hwrite t (hnone t rfl) (by simp [State.core, hdir])
  · rw [if_neg (by simpa using hdir)]
    refine wp_andThen (joinFederation_opens secret inviteCode rfl hdir) ?_
    rintro _ u ⟨hu, hclient⟩
    have hclient' : inviteCode.federationId ∈ u.clients := hclient
    exact hwrite u hu (by simp [State.core, hdir, hclient'])

theorem setDefaultFederation_joins (secret : Mnemonic) (inviteCode : InviteCode) (hs : s.core = c) :
    Wp (wallet True) (Wallet.setDefaultFederation J secret inviteCode).run
      (Outcome.orStops (fun _ t => Joined J inviteCode c t ∧ t.dirLock = none) (Reached c)) s := by
  simp only [Wallet.setDefaultFederation, Fallible.run_bind, await_eq, Fallible.run_of,
    Prog.await_bind, Prog.pure_bind, Fallible.andThen_ok]
  refine wp_quiet trivial hs (fun t ht => Effect.none.reached ht) fun _ t _ ht => ?_
  refine wp_guarded trivial (setDefaultLocked_joins secret inviteCode ht) (fun _ _ => Reached.of_core)
    (fun _ _ h => h.reached) ?_
  intro _ u _ v hu hv
  obtain rfl : v = { u with dirLock := none } := hv.resolve_right fun h => h.2.1 trivial
  exact ⟨⟨hu.reached, hu.client, hu.default⟩, rfl⟩

/-- The directory of a federation is deleted after its client was taken out of the map. -/
theorem removeFederationDir_leaves {f : FederationId} (hf : f ∈ c.clients)
    (hs : s.core = ⟨c.dirs, c.clients.erase f, .taken f :: c.log⟩) :
    Wp (wallet True) (Wallet.removeFederationDir f).run
      (Outcome.orStops (fun _ => Reached c) (Reached c)) s := by
  simp only [Wallet.removeFederationDir, Fallible.run_bind, Fallible.run_ite, run_attempt, await_eq,
    Fallible.run_of, call_eq, Prog.await_bind, Prog.pure_bind, Fallible.andThen_ok, Fallible.run_pure]
  have htaken : ∀ t : State Unit, t.core = ⟨c.dirs, c.clients.erase f, .taken f :: c.log⟩ →
      Reached c t := fun t ht => (Effect.leaving hf).reached ht
  have hdamage : ∀ {t u : State Unit}, t.core = ⟨c.dirs, c.clients.erase f, .taken f :: c.log⟩ →
      damage (.removeDirAll (.federationDir f)) t u → Reached c u := by
    rintro t u ht (rfl | rfl | rfl)
    · exact htaken u ht
    · exact htaken _ ht
    · refine (Effect.left hf).reached ?_
      rw [core_deleteDir, ht]
  refine wp_quiet trivial hs htaken fun isDir t _ ht => ?_
  split_ifs
  · refine wp_op (fun r u hu => ?_) fun u hu => ?_
    · rcases hu with ⟨rfl, rfl⟩ | ⟨-, hr, hu⟩
      · exact wp_succeeded.mpr (hdamage ht (Or.inr (Or.inr rfl)))
      · rcases r with e | _
        · exact wp_failed.mpr (hdamage ht hu)
        · exact absurd ⟨_, rfl⟩ hr
    · obtain ⟨-, v, hv, rfl⟩ := hu
      exact (hdamage ht hv).of_core rfl
  · exact wp_succeeded.mpr (htaken t ht)

theorem leaveClient_leaves {f : FederationId} (hf : f ∈ c.clients)
    (hs : s.core = ⟨c.dirs, c.clients.erase f, .taken f :: c.log⟩) :
    Wp (wallet True) (Wallet.leaveClient f).run
      (Outcome.orStops (fun _ => Reached c) (Reached c)) s := by
  simp only [Wallet.leaveClient, Fallible.run_bind, await_eq, Fallible.run_of, Prog.await_bind,
    Prog.pure_bind, Fallible.andThen_ok]
  have htaken : ∀ t : State Unit, t.core = ⟨c.dirs, c.clients.erase f, .taken f :: c.log⟩ →
      Reached c t := fun t ht => (Effect.leaving hf).reached ht
  refine wp_quiet trivial hs htaken fun balance t _ ht => ?_
  rcases balance with e | msats
  · refine wp_quiet trivial ht htaken fun _ u _ hu => ?_
    exact wp_panic.mpr (htaken u hu)
  simp only [Fallible.run_ite, Fallible.run_bind, Fallible.run_of, Prog.await_bind, Prog.pure_bind,
    Fallible.andThen_ok, Fallible.run_throw]
  split_ifs
  · refine wp_op (fun r u hu => ?_) fun u hu => ?_
    · obtain rfl : u = t.insertClient f := hu.resolve_right fun h => h.2.1 trivial
      refine wp_failed.mpr ((Effect.stayed hf).reached ?_)
      rw [core_insertClient, ht]
    · obtain ⟨-, v, rfl, rfl⟩ := hu
      exact htaken _ ht
  · refine wp_quiet trivial ht htaken fun _ t _ ht => ?_
    refine wp_quiet trivial ht htaken fun _ t _ ht => ?_
    refine wp_guarded trivial (removeFederationDir_leaves hf ht) (fun _ _ => Reached.of_core)
      (fun _ _ h => h) ?_
    exact fun _ u r v hu hv => hu.of_core (quiet_exec (by trivial) hv)

theorem leaveFederation_leaves (f : FederationId) (hs : s.core = c) :
    Wp (wallet True) (Wallet.leaveFederation f).run
      (Outcome.orStops (fun _ => Reached c) (Reached c)) s := by
  simp only [Wallet.leaveFederation, Fallible.run_bind, Fallible.run_ite, Fallible.run_lift, await_eq,
    Fallible.run_of, Prog.await_bind, Prog.pure_bind, Fallible.andThen_ok]
  have hnone : ∀ t : State Unit, t.core = c → Reached c t := fun t ht => Effect.none.reached ht
  refine wp_quiet trivial hs hnone fun _ t _ ht => wp_op (fun removed u hu => ?_) fun u hu => ?_
  · obtain ⟨rfl, rfl⟩ := hu.resolve_right fun h => h.2.1 trivial
    subst ht
    by_cases hf : f ∈ t.clients
    · rw [if_pos (decide_eq_true hf)]
      have htaken : (t.takeClient f).core =
          ⟨t.dirs, t.clients.erase f, .taken f :: t.log⟩ := core_takeClient hf
      rw [Prog.bind_assoc]
      refine wp_bind ((leaveClient_leaves (c := t.core) hf htaken).mono fun o u _ ho => ?_)
      rcases o with (e | _) | _ | _
      · refine wp_quiet trivial rfl (fun v hv => Reached.of_core ho hv) fun _ v _ hv => ?_
        exact wp_failed.mpr (Reached.of_core ho hv)
      · exact forceUpdateView_quiet rfl (fun v hv => Reached.of_core ho hv)
          fun v hv => Reached.of_core ho hv
      · exact ho
      · exact ho
    · rw [if_neg (by simpa using hf)]
      have htake : t.takeClient f = t := if_neg hf
      rw [htake]
      exact forceUpdateView_quiet rfl hnone hnone
  · obtain ⟨-, v, rfl, rfl⟩ := hu
    exact hnone _ ht

/-- **What a call does**, however it ends. -/
theorem call_reaches (secret : Mnemonic) (call : Call) {o : Outcome (Except Error Unit)}
    {t : State Unit} (h : Runs (wallet True) () Alone (call.run J secret) s o t) :
    Reached s.core t := by
  cases call with
  | setDefault invite =>
    have ho := h.wp (setDefaultFederation_joins secret invite rfl)
    rcases o with (e | _) | _ | _
    · exact ho
    · exact ho.1.reached
    · exact ho
    · exact ho
  | leave f =>
    have ho := h.wp (leaveFederation_leaves f rfl)
    rcases o with (e | _) | _ | _ <;> exact ho

/-! ### Opening a wallet -/

theorem buildClientFromFederationId_quiet (secret : Mnemonic) (f : FederationId) (hs : s.core = c) :
    Wp (wallet True) (Wallet.buildClientFromFederationId secret f).run
      (Outcome.orStops (fun _ t => t.core = c) fun _ => True) s := by
  simp only [Wallet.buildClientFromFederationId, Fallible.run_bind, Fallible.run_ite, run_attempt,
    await_eq, Fallible.run_of, call_eq, Prog.await_bind, Prog.pure_bind, Fallible.run_throw]
  refine wp_quiet trivial hs (fun _ _ => trivial) fun initialized t _ ht => ?_
  refine wp_quiet trivial ht (fun _ _ => trivial) fun r t _ ht => ?_
  rcases r with e | _
  · exact wp_failed.mpr trivial
  refine wp_quiet trivial ht (fun _ _ => trivial) fun r t _ ht => ?_
  rcases r with e | _
  · exact wp_failed.mpr trivial
  cases initialized with
  | true =>
    refine wp_quiet trivial ht (fun _ _ => trivial) fun r t _ ht => ?_
    rcases r with e | _
    · exact wp_failed.mpr trivial
    · exact wp_succeeded.mpr ht
  | false => exact wp_failed.mpr trivial

/-- Connecting to federations that have directories. -/
theorem connectTo_connects (secret : Mnemonic) :
    ∀ (l : List FederationId) {s : State Unit}, (∀ f ∈ l, f ∈ s.dirs) →
      Wp (wallet True) (Wallet.connectTo secret l).run
        (Outcome.orStops (fun _ t => t.dirs = s.dirs ∧ t.clients = s.clients ∪ l.toFinset)
          fun _ => True) s
  | [], s, _ => wp_succeeded.mpr ⟨rfl, by simp⟩
  | f :: l, s, hl => by
    simp only [Wallet.connectTo, Fallible.run_bind, Fallible.run_ite, run_attempt, await_eq,
      Fallible.run_of, call_eq, Prog.await_bind, Prog.pure_bind, Fallible.andThen_ok]
    have hl' : ∀ f ∈ l, f ∈ s.dirs := fun g hg => hl g (List.mem_cons_of_mem f hg)
    refine wp_op (fun connected t ht => ?_) fun _ _ => trivial
    obtain ⟨rfl, rfl⟩ := ht.resolve_right fun h => h.2.1 trivial
    by_cases hf : f ∈ t.clients
    · rw [if_pos (decide_eq_true hf)]
      refine (connectTo_connects secret l hl').mono fun o u _ hu => ?_
      rcases o with (e | _) | _ | _
      · trivial
      · refine ⟨hu.1, hu.2.trans ?_⟩
        rw [List.toFinset_cons, Finset.union_insert, Finset.insert_eq_of_mem]
        exact Finset.mem_union_left _ hf
      · trivial
      · trivial
    · rw [if_neg (by simpa using hf)]
      have hdir : t.makeDir f = t := if_pos (hl f (by simp))
      refine wp_op (fun r u hu => ?_) fun _ _ => trivial
      rcases r with e | _
      · exact wp_failed.mpr trivial
      obtain rfl : u = t := by
        rcases hu with ⟨rfl, -⟩ | ⟨-, -, rfl | rfl⟩
        exacts [hdir, rfl, hdir]
      refine wp_andThen (buildClientFromFederationId_quiet secret f rfl) fun _ v hv => ?_
      refine wp_op (fun _ w hw => ?_) fun _ _ => trivial
      obtain rfl : w = v.insertClient f := hw.resolve_right fun h => h.2.1 trivial
      have hdirs : v.dirs = u.dirs := congrArg Core.dirs hv
      have hclients : v.clients = u.clients := congrArg Core.clients hv
      refine (connectTo_connects secret l (s := v.insertClient f) (hdirs ▸ hl')).mono fun o x _ hx => ?_
      rcases o with (e | _) | _ | _
      · trivial
      · refine ⟨hx.1.trans hdirs, hx.2.trans ?_⟩
        rw [List.toFinset_cons, Finset.union_insert, ← Finset.insert_union, ← hclients]
        rfl
      · trivial
      · trivial

theorem ensureMnemonic_quiet (hs : s.core = c) :
    Wp (wallet True) (Wallet.ensureMnemonic J).run
      (Outcome.orStops (fun _ t => t.core = c) fun _ => True) s := by
  simp only [Wallet.ensureMnemonic, Fallible.run_bind, Fallible.run_ite, run_attempt, await_eq,
    Fallible.run_of, call_eq, Prog.await_bind, Prog.pure_bind, Fallible.andThen_ok, Fallible.run_pure]
  refine wp_quiet trivial hs (fun _ _ => trivial) fun r t _ ht => ?_
  rcases r with e | exist
  · exact wp_failed.mpr trivial
  cases exist with
  | true => exact wp_succeeded.mpr ht
  | false =>
    refine wp_quiet trivial ht (fun _ _ => trivial) fun mnemonic t _ ht => ?_
    refine wp_quiet trivial ht (fun _ _ => trivial) fun r t _ ht => ?_
    rcases r with e | _
    · exact wp_failed.mpr trivial
    · exact wp_succeeded.mpr ht

theorem connectToListed_connects (secret : Mnemonic) (hs : s.core.clients = ∅) :
    Wp (wallet True) (Wallet.connectToListed secret).run
      (Outcome.orStops (fun _ t => t.core.clients = t.core.dirs) fun _ => True) s := by
  simp only [Wallet.connectToListed, Fallible.run_bind, Fallible.run_lift, run_attempt, await_eq,
    Fallible.run_of, call_eq, Prog.await_bind, Prog.pure_bind]
  refine wp_op (fun r s₁ hs₁ => ?_) fun _ _ => trivial
  rcases r with e | readDir
  · exact wp_failed.mpr trivial
  obtain ⟨rfl, l, hl, hmem⟩ := hs₁.resolve_right fun h => h.2.1 ⟨_, rfl⟩
  obtain rfl := Except.ok.inj hl
  refine wp_quiet trivial rfl (fun _ _ => trivial) fun _ t _ ht => ?_
  have hdirs : t.dirs = s₁.dirs := congrArg Core.dirs ht
  have hclients : t.clients = ∅ := (congrArg Core.clients ht).trans hs
  rw [Prog.bind_assoc]
  refine wp_bind ((connectTo_connects secret _ (s := t) fun f hf => ?_).mono fun o u _ hu => ?_)
  · rw [hdirs, ← hmem]
    exact mem_filterMap_federationOfName.mp hf
  rcases o with (e | _) | _ | _
  · refine wp_quiet trivial rfl (fun _ _ => trivial) fun _ v _ _ => wp_failed.mpr trivial
  · have hu' : u.core.clients = u.core.dirs := by
      ext f
      show f ∈ u.clients ↔ f ∈ u.dirs
      rw [hu.1, hu.2, hclients, hdirs, Finset.empty_union, List.mem_toFinset,
        mem_filterMap_federationOfName, hmem]
    refine forceUpdateView_quiet rfl (fun _ _ => trivial) fun v hv => ?_
    rw [hv]
    exact hu'
  · trivial
  · trivial

/-- A wallet that was opened has the clients of its directories. -/
theorem new_connects (hs : s.clients = ∅) :
    Wp (wallet True) (Wallet.new J).run
      (Outcome.orStops (fun _ t => t.core.clients = t.core.dirs) fun _ => True) s := by
  simp only [Wallet.new, Wallet.connectToJoinedFederations, Fallible.run_bind, run_attempt, await_eq,
    Fallible.run_of, call_eq, Prog.await_bind, Prog.pure_bind, Fallible.andThen_ok, Fallible.run_pure]
  have hclients : ∀ {t : State Unit}, t.core = s.core → t.core.clients = ∅ :=
    fun ht => (congrArg Core.clients ht).trans hs
  refine wp_quiet trivial rfl (fun _ _ => trivial) fun r t _ ht => ?_
  rcases r with e | _
  · exact wp_failed.mpr trivial
  refine wp_andThen (ensureMnemonic_quiet ht) fun _ t ht => ?_
  refine wp_quiet trivial ht (fun _ _ => trivial) fun r t _ ht => ?_
  rcases r with e | mnemonicString
  · exact wp_failed.mpr trivial
  rcases hdec : J.mnemonic.dec mnemonicString with _ | mnemonic
  · simp only [Fallible.andThen_ok, hdec, Fallible.run_unwrap_none, Prog.panic_bind]
    exact wp_panic.mpr trivial
  simp only [Fallible.andThen_ok, hdec, Fallible.run_unwrap_some, Prog.pure_bind]
  refine wp_quiet trivial ht (fun _ _ => trivial) fun _ t _ ht => ?_
  refine wp_andThen (R := fun _ t => t.core.clients = t.core.dirs) ?_
    fun _ u hu => wp_succeeded.mpr hu
  refine wp_guarded trivial
    (connectToListed_connects mnemonic (hclients ht)) (fun _ _ _ _ => trivial)
    (fun _ _ _ => trivial) ?_
  intro _ u _ v hu hv
  rw [quiet_exec (by trivial) hv]
  exact hu

end Functions

/-! ### Whether a call has joined -/

section Histories
variable {J : Serde} {secret : Mnemonic} {calls : List (List Event)} {s s' : State Unit}

/-- In a history, a directory without a client is one that a call did not finish with. -/
theorem History.stray_iff (h : History J secret calls s) :
    s.core.clients ⊆ s.core.dirs ∧ ∀ f, Stray s.core f ↔ ∃ es ∈ calls, ¬ Finished f es := by
  induction h with
  | @opened s s' secret hs hr =>
    have heq : s'.core.clients = s'.core.dirs := hr.wp (new_connects hs)
    exact ⟨heq.le, fun f => by simp [Stray, heq]⟩
  | @call s s' secret calls es o c _ hr hlog ih =>
    obtain ⟨hsub, hstray⟩ := ih
    obtain ⟨es', hes⟩ := call_reaches secret c hr
    obtain rfl : es = es' := List.append_cancel_right (hlog.symm.trans hes.log)
    refine ⟨hes.subset hsub, fun f => ?_⟩
    rw [hes.stray_iff hsub, hstray, or_comm]
    simp

/-- The default invitation is read back. -/
theorem getDefaultFederation_ensures {inviteCode : InviteCode} (hlock : s.dirLock = none)
    (hs : s.defaultFile = some (J.invite.enc inviteCode)) :
    Ensures (wallet False) () (Wallet.getDefaultFederation J).run
      (fun o _ => o = .returned (.ok (some inviteCode))) s := by
  simp only [Wallet.getDefaultFederation, guarded, Fallible.run_bind, Fallible.run_ite, run_attempt,
    await_eq, Fallible.run_of, call_eq, Prog.await_bind, Prog.pure_bind, Fallible.andThen_ok]
  generalize hlocked : { s with dirLock := some () } = t
  have ht : t.defaultFile = some (J.invite.enc inviteCode) := hlocked ▸ hs
  refine ensures_next () t ⟨hlock, hlocked.symm⟩ (fun _ u hu => ⟨rfl, hu.2.trans hlocked⟩) ?_
  refine ensures_next true t ⟨rfl, by rw [ht]; rfl⟩ (fun r u hu => ?_) ?_
  · exact ⟨hu.2.trans (by rw [ht]; rfl), hu.1⟩
  refine ensures_next (.ok (J.invite.enc inviteCode)) t ⟨rfl, by rw [ht]; rfl⟩ (fun r u hu => ?_) ?_
  · exact ⟨hu.2.trans (by rw [ht]; rfl), hu.1⟩
  simp only [Fallible.andThen_ok, Format.decode_encode, run_fromSlice_some, Prog.pure_bind,
    Fallible.run_pure]
  exact ensures_next () _ rfl (fun _ u hu => ⟨rfl, hu⟩) rfl

/-- **A call that succeeds** has a client for its federation, and the default invitation is the one
that was given, iff every earlier call of the history has finished with that federation. -/
theorem setDefaultFederation_joins_iff {inviteCode : InviteCode} (h : History J secret calls s)
    (hr : Runs (wallet True) () Alone (Wallet.setDefaultFederation J secret inviteCode).run s
      (.returned (.ok ())) s') :
    (inviteCode.federationId ∈ s'.clients ∧
      Ensures (wallet False) () (Wallet.getDefaultFederation J).run
        (fun o _ => o = .returned (.ok (some inviteCode))) s') ↔
      ∀ es ∈ calls, Finished inviteCode.federationId es := by
  obtain ⟨hjoined, hlock⟩ := hr.wp (setDefaultFederation_joins secret inviteCode rfl)
  have hclient : inviteCode.federationId ∈ s'.clients ↔ ¬ Stray s.core inviteCode.federationId := by
    rw [hjoined.client, Stray]
    tauto
  rw [and_iff_left (getDefaultFederation_ensures hlock hjoined.default), hclient, h.stray_iff.2]
  simp

end Histories

/-! ### A join that fails -/

namespace FailedJoin

/-- A federation with its invitation, and the mnemonic of the wallet. -/
def fed : FederationId := ⟨.replicate 32 7⟩
def invite : InviteCode := ⟨fed, []⟩
def mnemonic : Mnemonic := ⟨.replicate 16 1⟩

section Runs
variable {ι : Type} [DecidableEq ι]

/-- The wallet was opened on the empty directory; then the federation could not be reached, after its
directory had been made; then the call was repeated. -/
def opened : State ι := { State.fresh with mnemonicFile := some (Serde.framed.mnemonic.enc mnemonic) }
def failed : State ι := { opened with dirs := {fed}, log := [.made fed] }
def repeated : State ι := { failed with defaultFile := some (Serde.framed.invite.enc invite) }

variable {i : ι} {F : Prop} {E : State ι → State ι → Prop}

omit [DecidableEq ι] in
/-- Opening the wallet, in any world in which operations may succeed. -/
theorem new_runs {W : World ι Op Op.Ret (State ι)}
    (hW : ∀ {op s r s'}, effect i op s r s' → op.Succeeds r → W.exec i op s r s') :
    Runs W i E (Wallet.new Serde.framed).run State.fresh (.returned (.ok mnemonic)) opened := by
  refine runs_next (.createDirAll .clientsDataDir) (.ok ()) _ (hW ⟨rfl, rfl⟩ ⟨_, rfl⟩) ?_
  refine runs_next (.tryExists .mnemonic) (.ok false) _ (hW ⟨rfl, rfl⟩ ⟨_, rfl⟩) ?_
  refine runs_next .mnemonicGenerate mnemonic State.fresh (hW rfl trivial) ?_
  refine runs_next (.writeFile .mnemonic (Serde.framed.mnemonic.enc mnemonic)) (.ok ()) opened
    (hW ⟨rfl, rfl⟩ ⟨_, rfl⟩) ?_
  refine runs_next (.readFile .mnemonic) (.ok (Serde.framed.mnemonic.enc mnemonic)) opened
    (hW ⟨rfl, rfl⟩ ⟨_, rfl⟩) ?_
  refine runs_next .dataDirLock () _ (hW ⟨rfl, rfl⟩ trivial) ?_
  refine runs_next (.readDir .clientsDataDir) (.ok []) _
    (hW ⟨rfl, [], rfl, fun f => by simp [opened, State.fresh]⟩ ⟨_, rfl⟩) ?_
  refine runs_next .clientsWrite () _ (hW ⟨rfl, rfl⟩ trivial) ?_
  refine runs_next .clientsRelease () _ (hW rfl trivial) ?_
  refine runs_next .forceUpdateSend (.ok ()) _ (hW ⟨rfl, rfl⟩ ⟨_, rfl⟩) ?_
  refine runs_next .forceUpdateRecv (.ok ()) _ (hW ⟨rfl, rfl⟩ ⟨_, rfl⟩) ?_
  refine runs_next .dataDirRelease () opened (hW rfl trivial) ?_
  exact .returned _ _

theorem setDefaultFederation_fails (hF : F) :
    Runs (wallet F) i E (Wallet.setDefaultFederation Serde.framed mnemonic invite).run opened
      (.returned (.error "unreachable")) failed := by
  refine runs_next .dataDirLock () _ (Or.inl ⟨rfl, rfl⟩) ?_
  refine runs_next (.isDir (.federationDir fed)) false _ (Or.inl ⟨rfl, rfl⟩) ?_
  refine runs_next (.dbOpen fed) (.ok ()) _ (Or.inl ⟨rfl, rfl⟩) ?_
  refine runs_next (.dbIsInitialized fed) false _ (Or.inl ⟨rfl, rfl⟩) ?_
  refine runs_next .clientBuilder (.ok ()) _ (Or.inl ⟨rfl, rfl⟩) ?_
  refine runs_next .clientConnectors (.ok ()) _ (Or.inl ⟨rfl, rfl⟩) ?_
  refine runs_next (.clientPreview invite) (.error "unreachable") _
    (Or.inr ⟨hF, (by rintro ⟨_, h⟩; cases h), rfl⟩) ?_
  refine runs_next .dataDirRelease () failed (Or.inl rfl) ?_
  exact .returned _ _

theorem setDefaultFederation_repeats :
    Runs (wallet F) i E (Wallet.setDefaultFederation Serde.framed mnemonic invite).run failed
      (.returned (.ok ())) repeated := by
  refine runs_next .dataDirLock () _ (Or.inl ⟨rfl, rfl⟩) ?_
  refine runs_next (.isDir (.federationDir fed)) true _ (Or.inl ⟨rfl, rfl⟩) ?_
  refine runs_next (.writeFile .defaultFederation (Serde.framed.invite.enc invite)) (.ok ()) _
    (Or.inl ⟨rfl, rfl⟩) ?_
  refine runs_next .dataDirRelease () repeated (Or.inl rfl) ?_
  exact .returned _ _

end Runs

theorem failed_history : History Serde.framed mnemonic [[.made fed]] failed := by
  have hopened : History Serde.framed mnemonic [] opened :=
    .opened rfl (new_runs fun h _ => Or.inl h)
  exact .call (.setDefault invite) hopened (setDefaultFederation_fails trivial) rfl

end FailedJoin

open FailedJoin in
/-- The call that failed had not finished with the federation. -/
theorem setDefaultFederation_joins_iff_repeated : ¬ ∀ es ∈ [[Event.made fed]], Finished fed es := by
  intro h
  have hr := setDefaultFederation_repeats (F := True) (i := ()) (E := Alone)
  exact absurd ((setDefaultFederation_joins_iff failed_history hr).mpr h).1 (Finset.notMem_empty _)

open FailedJoin in
/-- **A failed join**: the next call for the federation succeeds, and there is no client for it. -/
theorem failed_join_strands :
    ¬ ∀ (calls : List (List Event)) (s s' : State Unit) (inviteCode : InviteCode),
      History Serde.framed mnemonic calls s →
      Runs (wallet True) () Alone (Wallet.setDefaultFederation Serde.framed mnemonic inviteCode).run
        s (.returned (.ok ())) s' →
      inviteCode.federationId ∈ s'.clients ∧
        Ensures (wallet False) () (Wallet.getDefaultFederation Serde.framed).run
          (fun o _ => o = .returned (.ok (some inviteCode))) s' := by
  intro h
  have hr := setDefaultFederation_repeats (F := True) (i := ()) (E := Alone)
  exact absurd (h _ _ _ invite failed_history hr).1 (Finset.notMem_empty _)

end Vendimint.Federation
