import Vendimint.View.World
import Vendimint.Wallet.Uses

/-! # The view that a caller finds

* `forced_view_fresh`: when a call of `force_update_view` gets its reply from a task that is alive, the
  view held is a `get_current_state` of a read of the map that began after the caller had dropped its
  guard; and no two views published one after the other are equal.

The task rests on one fact: the view it has cached is the last one published, and this one is held. -/

namespace Vendimint.View

open Vendimint.Store Vendimint.Async

/-! ### The discipline -/

/-- The view held is one that a read has shown, and the first `m` reads are older than this one. -/
def ViewFrom (s : State) (m : ℕ) : Prop :=
  ∃ j, m ≤ j ∧ j < s.done ∧ Yields Wallet.getCurrentState (s.transcript j) s.view

/-- The invariant of the wallet. -/
structure Fresh (s : State) : Prop where
  released_le : ∀ n m, s.released n = some m → m ≤ s.reads
  queued : ∀ n ∈ s.queue, s.released n ≠ none
  replied : ∀ n ∈ s.replied, ∃ m, s.released n = some m ∧ ViewFrom s m
  held : ∀ v, s.published.head? = some v → s.view = v
  distinct : s.published.IsChain (· ≠ ·)

/-- The part of the state that only the task changes. -/
def State.own (s : State) : WalletView × List WalletView × List ℕ × ℕ × ℕ × (ℕ → Transcript) :=
  (s.view, s.published, s.replied, s.reads, s.done, s.transcript)

/-- Guards that were dropped stay so. -/
def Keeps (s s' : State) : Prop := ∀ n m, s.released n = some m → s'.released n = some m

theorem Keeps.refl (s : State) : Keeps s s := fun _ _ h => h

theorem Keeps.trans {s s' s'' : State} (h : Keeps s s') (h' : Keeps s' s'') : Keeps s s'' :=
  fun n m hn => h' n m (h n m hn)

/-- What a task relies on: only the task that updates the view changes what is its own. -/
def Rely : TaskId → State → State → Prop
  | .view, s, s' => Keeps s s' ∧ s'.own = s.own
  | .call _, s, s' => Keeps s s'

/-- What a task guarantees. -/
def Guar : TaskId → State → State → Prop
  | .view, s, s' => Keeps s s'
  | .call _, s, s' => Keeps s s' ∧ s'.own = s.own

/-- **The discipline of the tasks of a wallet.** -/
def discipline : Discipline TaskId State where
  inv := Fresh
  rely := Rely
  guar := Guar
  rely_refl i s := by
    cases i with
    | view => exact ⟨.refl s, rfl⟩
    | call n => exact .refl s
  rely_trans {i s s' s''} h h' := by
    cases i with
    | view => exact ⟨h.1.trans h'.1, h'.2.trans h.2⟩
    | call n => exact Keeps.trans h h'
  compat {i j s s'} hij _ _ h := by
    cases i with
    | view =>
      cases j with
      | view => exact absurd rfl hij
      | call n => exact h
    | call n =>
      cases j with
      | view => exact h
      | call m => exact h.1

theorem ViewFrom.of_own {s s' : State} {m : ℕ} (h : ViewFrom s m) (hown : s'.own = s.own) :
    ViewFrom s' m := by
  simp only [State.own, Prod.mk.injEq] at hown
  obtain ⟨hview, -, -, -, hdone, htranscript⟩ := hown
  unfold ViewFrom
  rw [hview, hdone, htranscript]
  exact h

/-- A step that leaves what is the task's own. -/
theorem Fresh.of_own {s s' : State} (h : Fresh s) (hown : s'.own = s.own) (hkeeps : Keeps s s')
    (hreleased : ∀ n m, s'.released n = some m → m ≤ s.reads)
    (hqueue : ∀ n ∈ s'.queue, s'.released n ≠ none) : Fresh s' := by
  have hown' := hown
  simp only [State.own, Prod.mk.injEq] at hown'
  obtain ⟨hview, hpublished, hreplied, hreads, -, -⟩ := hown'
  refine ⟨fun n m hm => hreads ▸ hreleased n m hm, hqueue, fun n hn => ?_, ?_, ?_⟩
  · obtain ⟨m, hm, hfrom⟩ := h.replied n (hreplied ▸ hn)
    exact ⟨m, hkeeps n m hm, hfrom.of_own hown⟩
  · rw [hpublished, hview]
    exact h.held
  · rw [hpublished]
    exact h.distinct

/-- The same, if no guard is dropped and no caller joins the queue. -/
theorem Fresh.frame {s s' : State} (h : Fresh s) (hown : s'.own = s.own)
    (hreleased : s'.released = s.released) (hqueue : s'.queue ⊆ s.queue) : Fresh s' :=
  h.of_own hown (fun _ _ hm => hreleased ▸ hm) (fun n m hm => h.released_le n m (hreleased ▸ hm))
    fun n hn => hreleased ▸ h.queued n (hqueue hn)

/-! ### The calls -/

section Calls
variable {n : ℕ} {op : Op} {r : op.Ret} {s s' : State} {α β : Type}

theorem keeps_dropGuard : Keeps s (s.dropGuard n) := by
  intro m k hk
  by_cases hm : m = n
  · subst hm
    simp [State.dropGuard, hk]
  · simpa [State.dropGuard, hm] using hk

theorem fresh_dropGuard (h : Fresh s) : Fresh (s.dropGuard n) := by
  refine h.of_own rfl keeps_dropGuard (fun m k hk => ?_) fun m hm hnone => ?_
  · by_cases hmn : m = n
    · subst hmn
      simp only [State.dropGuard, Function.update_self, Option.or_eq_some_iff, Option.some.injEq] at hk
      rcases hk with hk | ⟨-, rfl⟩
      · exact h.released_le m k hk
      · exact le_rfl
    · simp only [State.dropGuard, Function.update_of_ne hmn] at hk
      exact h.released_le m k hk
  · obtain ⟨k, hk⟩ := Option.ne_none_iff_exists'.mp (h.queued m hm)
    rw [keeps_dropGuard m k hk] at hnone
    cases hnone

/-- Only a call that has dropped its guard may ask for an update. -/
theorem call_exec (hop : op ≠ .forceUpdateSend) (h : Fresh s) (he : exec (.call n) op s r s') :
    Fresh s' ∧ Guar (.call n) s s' := by
  by_cases hrel : op = .clientsRelease
  · subst hrel
    rcases he with ⟨hi, -⟩ | ⟨m, -, rfl⟩
    · cases hi
    · exact ⟨fresh_dropGuard h, keeps_dropGuard, rfl⟩
  · have hsame : s'.own = s.own ∧ s'.released = s.released ∧ s'.queue = s.queue := by
      cases op
      case forceUpdateSend => exact absurd rfl hop
      case clientsRelease => exact absurd rfl hrel
      case dataDirLock => obtain ⟨-, m, -, rfl⟩ := he; exact ⟨rfl, rfl, rfl⟩
      case clientsRead => obtain ⟨-, hi, -⟩ := he; cases hi
      case clientsWrite => obtain ⟨-, -, m, -, rfl⟩ := he; exact ⟨rfl, rfl, rfl⟩
      case clientsContains => obtain ⟨rfl, -⟩ := he; exact ⟨rfl, rfl, rfl⟩
      case clientsRemove => obtain ⟨rfl, -⟩ := he; exact ⟨rfl, rfl, rfl⟩
      case clientsIter => obtain ⟨-, hi, -⟩ := he; cases hi
      case clientConfig => obtain ⟨hi, -⟩ := he; cases hi
      case clientBalance =>
        rcases he with ⟨hi, -⟩ | ⟨-, rfl⟩
        · cases hi
        · exact ⟨rfl, rfl, rfl⟩
      case forceUpdateRecv => obtain ⟨rfl, -⟩ := he; exact ⟨rfl, rfl, rfl⟩
      case forceUpdateWait => obtain ⟨hi, -⟩ := he; cases hi
      case forceUpdateReply => obtain ⟨hi, -⟩ := he; cases hi
      case viewSend => obtain ⟨hi, -⟩ := he; cases hi
      all_goals obtain rfl := he; exact ⟨rfl, rfl, rfl⟩
    obtain ⟨hown, hreleased, hqueue⟩ := hsame
    exact ⟨h.frame hown hreleased (hqueue ▸ List.Subset.refl _),
      fun m k hk => hreleased ▸ hk, hown⟩

theorem call_cut (h : Fresh s) (hc : operations.cut (.call n) op s s') :
    Fresh s' ∧ Guar (.call n) s s' := by
  obtain ⟨m, -, rfl⟩ := hc
  exact ⟨h.frame rfl rfl (List.Subset.refl _), .refl s, rfl⟩

/-- The part of a call is safe, wherever it starts. -/
def Kept (n : ℕ) (p : Fut α) : Prop :=
  ∀ s, Fresh s → Safe operations discipline (.call n) p (fun _ _ => True) s

theorem Kept.pure (a : α) : Kept n (.pure a) := fun _ _ _ _ _ => trivial

theorem Kept.panic : Kept n (.panic : Fut α) := fun _ _ _ _ _ => trivial

theorem Kept.await {k : op.Ret → Fut α} (hop : op ≠ .forceUpdateSend) (hk : ∀ r, Kept n (k r)) :
    Kept n (.await op k) := by
  intro s _ t _ hi
  refine ⟨fun r u hu => ?_, fun u hu => ?_⟩
  · obtain ⟨hiu, hg⟩ := call_exec hop hi hu
    exact ⟨hiu, hg, hk r u hiu⟩
  · obtain ⟨hiu, hg⟩ := call_cut hi hu
    exact ⟨hiu, hg, trivial⟩

theorem Kept.bind {p : Fut α} {f : α → Fut β} (h : Kept n p) (hf : ∀ a, Kept n (f a)) :
    Kept n (p.bind f) :=
  fun s hs => Safe.bind_of hs (h s hs) (fun a t ht _ => hf a t ht) (fun _ _ _ => trivial)
    fun _ _ _ => trivial

theorem Kept.andThen {p : Fut (Except Error α)} {f : α → Fut (Except Error β)} (h : Kept n p)
    (hf : ∀ a, Kept n (f a)) : Kept n (p.bind (Fallible.andThen f)) := by
  refine h.bind fun r => ?_
  cases r with
  | error e => exact .pure _
  | ok a => exact hf a

theorem Kept.uses {p : Fut α} (h : p.Uses (· ≠ .forceUpdateSend)) : Kept n p := by
  induction p with
  | pure a => exact .pure a
  | panic => exact .panic
  | await op k ih => exact .await h.1 fun r => ih r (h.2 r)

theorem Kept.connecting {p : Fut α} (h : p.Uses Wallet.Connecting) : Kept n p :=
  .uses (h.mono fun op hop heq => by rw [heq] at hop; exact hop)

/-- A call that asks for an update has dropped its guard. -/
theorem kept_forceUpdateView : Kept n Wallet.forceUpdateView := by
  intro s _ t _ hi
  refine ⟨fun r u hu => ?_, fun u hu => ⟨(call_cut hi hu).1, (call_cut hi hu).2, trivial⟩⟩
  have he : exec (.call n) .clientsRelease t r u := hu
  obtain ⟨hiu, hg⟩ := call_exec (by simp) hi he
  refine ⟨hiu, hg, ?_⟩
  have hdropped : ∃ m, u.released n = some m := by
    rcases he with ⟨hview, -⟩ | ⟨m, hm, rfl⟩
    · cases hview
    · cases hm
      rcases hold : t.released n with _ | m
      · exact ⟨t.reads, by simp [State.dropGuard, hold]⟩
      · exact ⟨m, by simp [State.dropGuard, hold]⟩
  obtain ⟨m, hm⟩ := hdropped
  intro v hv hiv
  have hmv : v.released n = some m := hv n m hm
  have hrest : Kept n (.await .forceUpdateRecv fun _ => .pure () : Fut Unit) :=
    .await (by simp) fun _ => .pure _
  refine ⟨fun r w hw => ?_, fun w hw => ⟨(call_cut hiv hw).1, (call_cut hiv hw).2, trivial⟩⟩
  have hw' : Fresh w ∧ Guar (.call n) v w := by
    rcases hw with ⟨-, -, -, i, hi, rfl⟩ | ⟨-, -, rfl⟩
    · cases hi
      refine ⟨hiv.of_own rfl (.refl v) hiv.released_le fun k hk => ?_, .refl v, rfl⟩
      rcases List.mem_append.mp hk with hk | hk
      · exact hiv.queued k hk
      · rw [List.mem_singleton.mp hk, hmv]
        exact Option.some_ne_none m
    · exact ⟨hiv, .refl _, rfl⟩
  exact ⟨hw'.1, hw'.2, hrest w hw'.1⟩

theorem kept_lift_forceUpdateView : Kept n (liftM Wallet.forceUpdateView : FutResult Unit).run :=
  .bind kept_forceUpdateView fun _ => .pure _

theorem kept_connectToJoinedFederations (secret : Mnemonic) :
    Kept n (Wallet.connectToJoinedFederations secret).run := by
  simp only [Wallet.connectToJoinedFederations, Wallet.connectToListed, Fallible.run_bind, run_guarded,
    run_attempt, await_eq, Fallible.run_of, call_eq, Prog.await_bind, Prog.pure_bind,
    Fallible.andThen_ok, Fallible.run_lift]
  refine .await (by simp) fun _ => .bind (.await (by simp) fun readDir => ?_)
    fun r => .await (by simp) fun _ => .pure r
  refine Kept.andThen (.pure readDir) fun l => .await (by simp) fun _ => ?_
  rw [Prog.bind_assoc]
  refine .bind (.connecting (Wallet.connecting_connectTo secret _)) fun r => ?_
  rcases r with e | _
  · exact .await (by simp) fun _ => .pure _
  · exact kept_lift_forceUpdateView

theorem kept_setDefaultFederation (J : Serde) (secret : Mnemonic) (inviteCode : InviteCode) :
    Kept n (Wallet.setDefaultFederation J secret inviteCode).run := by
  simp only [Wallet.setDefaultFederation, Wallet.setDefaultLocked, Wallet.joinFederation,
    Wallet.insertClient, Fallible.run_bind, Fallible.run_ite, run_guarded, run_attempt, await_eq,
    Fallible.run_of, call_eq, Prog.await_bind, Prog.pure_bind, Fallible.andThen_ok, Fallible.run_lift]
  refine .await (by simp) fun _ => .bind (.await (by simp) fun isDir => ?_)
    fun r => .await (by simp) fun _ => .pure r
  split
  · exact .await (by simp) fun r => .pure r
  · refine .andThen (.await (by simp) fun r => ?_) fun _ => .await (by simp) fun r => .pure r
    refine Kept.andThen (.pure r) fun _ => ?_
    refine .andThen (.connecting (Wallet.connecting_buildClientFromInviteCode secret _)) fun _ => ?_
    refine .await (by simp) fun _ => .await (by simp) fun _ => ?_
    exact kept_lift_forceUpdateView

theorem kept_leaveClient (f : FederationId) : Kept n (Wallet.leaveClient f).run := by
  simp only [Wallet.leaveClient, Fallible.run_bind, await_eq, Fallible.run_of, Prog.await_bind,
    Prog.pure_bind, Fallible.andThen_ok]
  refine .await (by simp) fun balance => ?_
  rcases balance with e | msats
  · exact .await (by simp) fun _ => .panic
  simp only [Wallet.removeFederationDir, Fallible.run_ite, Fallible.run_bind, run_guarded, run_attempt,
    Fallible.run_of, call_eq, Prog.await_bind, Prog.pure_bind, Fallible.andThen_ok, Fallible.run_throw,
    Fallible.run_pure]
  split
  · exact .await (by simp) fun _ => .pure _
  · refine .await (by simp) fun _ => .await (by simp) fun _ => .bind (.await (by simp) fun isDir => ?_)
      fun r => .await (by simp) fun _ => .pure r
    refine Kept.andThen (.pure (Except.ok isDir)) fun isDir => ?_
    split
    · exact .await (by simp) fun r => .pure r
    · exact .pure _

theorem kept_leaveFederation (f : FederationId) : Kept n (Wallet.leaveFederation f).run := by
  simp only [Wallet.leaveFederation, Fallible.run_bind, Fallible.run_ite, await_eq, Fallible.run_of,
    Prog.await_bind, Prog.pure_bind, Fallible.andThen_ok]
  refine .await (by simp) fun _ => .await (by simp) fun removed => ?_
  split
  · rw [Fallible.run_lift, Prog.bind_assoc]
    refine .bind (kept_leaveClient f) fun r => ?_
    rcases r with e | _
    · exact .await (by simp) fun _ => .pure _
    · exact kept_lift_forceUpdateView
  · exact kept_lift_forceUpdateView

theorem kept_program (J : Serde) (secret : Mnemonic) (c : Call) : Kept n (c.program J secret) := by
  cases c with
  | connectToJoinedFederations =>
    exact .bind (kept_connectToJoinedFederations secret) fun r => .pure _
  | setDefaultFederation inviteCode =>
    exact .bind (kept_setDefaultFederation J secret inviteCode) fun r => .pure _
  | leaveFederation federationId =>
    exact .bind (kept_leaveFederation federationId) fun r => .pure _

end Calls

/-! ### The task that updates the view -/

section View
variable {s s' t : State} {α : Type} {callerOr : Option ℕ} {lastStateOr : Option WalletView}

/-- Between two iterations: the view that the task has cached is the last one published. -/
def Cached (lastStateOr : Option WalletView) (s : State) : Prop :=
  s.reads = s.done ∧ s.published.head? = lastStateOr

/-- The caller had dropped its guard when the first `j` reads were over. -/
def Owed (callerOr : Option ℕ) (j : ℕ) (s : State) : Prop :=
  ∀ n, callerOr = some n → ∃ m, s.released n = some m ∧ m ≤ j

/-- The task has read the map and got the view `v`. -/
def Seen (v : WalletView) (callerOr : Option ℕ) (s : State) : Prop :=
  ∃ j, s.done = j + 1 ∧ Yields Wallet.getCurrentState (s.transcript j) v ∧ Owed callerOr j s

theorem Owed.stable {j : ℕ} (h : Owed callerOr j s) (hk : Keeps s s') : Owed callerOr j s' := by
  intro n hn
  obtain ⟨m, hm, hle⟩ := h n hn
  exact ⟨m, hk n m hm, hle⟩

theorem Cached.stable (h : Cached lastStateOr s) (hr : Rely .view s t) : Cached lastStateOr t := by
  have hown := hr.2
  simp only [State.own, Prod.mk.injEq] at hown
  obtain ⟨-, hpublished, -, hreads, hdone, -⟩ := hown
  exact ⟨by rw [hreads, hdone, h.1], by rw [hpublished, h.2]⟩

theorem Seen.stable {v : WalletView} (h : Seen v callerOr s) (hr : Rely .view s t) :
    Seen v callerOr t := by
  have hown := hr.2
  simp only [State.own, Prod.mk.injEq] at hown
  obtain ⟨-, -, -, -, hdone, htranscript⟩ := hown
  obtain ⟨j, hj, hyields, howed⟩ := h
  exact ⟨j, hdone.trans hj, by rwa [htranscript], howed.stable hr.1⟩

/-- The task has read the map before: what it finds is newer than what any caller asked for. -/
theorem Seen.viewFrom {v : WalletView} {m j : ℕ} (h : Seen v callerOr s) (hv : s.view = v)
    (hj : m ≤ j) (hd : j < s.done) : ViewFrom s m := by
  obtain ⟨k, hk, hyields, -⟩ := h
  exact ⟨k, by omega, by omega, hv ▸ hyields⟩

/-- A step of a read: older reads stay. -/
theorem ViewFrom.read {m : ℕ} (h : ViewFrom s m) (hview : s'.view = s.view) (hdone : s.done ≤ s'.done)
    (htranscript : ∀ j < s.done, s'.transcript j = s.transcript j) : ViewFrom s' m := by
  obtain ⟨j, hm, hj, hyields⟩ := h
  refine ⟨j, hm, by omega, ?_⟩
  rw [htranscript j hj, hview]
  exact hyields

theorem Fresh.read (h : Fresh s) (hreads : s.reads ≤ s'.reads) (hdone : s.done ≤ s'.done)
    (htranscript : ∀ j < s.done, s'.transcript j = s.transcript j)
    (hrest : s'.view = s.view ∧ s'.published = s.published ∧ s'.queue = s.queue ∧
      s'.replied = s.replied ∧ s'.released = s.released) : Fresh s' := by
  obtain ⟨hview, hpublished, hqueue, hreplied, hreleased⟩ := hrest
  refine ⟨fun n m hm => ?_, fun n hn => ?_, fun n hn => ?_, ?_, ?_⟩
  · have := h.released_le n m (hreleased ▸ hm)
    omega
  · rw [hreleased]
    exact h.queued n (hqueue ▸ hn)
  · obtain ⟨m, hm, hfrom⟩ := h.replied n (hreplied ▸ hn)
    exact ⟨m, hreleased ▸ hm, hfrom.read hview hdone htranscript⟩
  · rw [hpublished, hview]
    exact h.held
  · rw [hpublished]
    exact h.distinct

theorem transcript_update {j : ℕ} (hj : j < s.done) (l : Transcript) :
    Function.update s.transcript s.done l j = s.transcript j :=
  Function.update_of_ne (by omega) ..

theorem Fresh.beginRead (h : Fresh s) : Fresh s.beginRead :=
  h.read (by simp [State.beginRead]) le_rfl (fun _ hj => transcript_update hj []) ⟨rfl, rfl, rfl, rfl, rfl⟩

theorem Fresh.log (h : Fresh s) (x : Σ op : Op, op.Ret) : Fresh (s.log x) :=
  h.read le_rfl le_rfl (fun _ hj => transcript_update hj _) ⟨rfl, rfl, rfl, rfl, rfl⟩

theorem Fresh.die (h : Fresh s) : Fresh s.die := h.frame rfl rfl (List.Subset.refl _)

theorem Fresh.endRead (h : Fresh s) (hle : s.done ≤ s.reads) : Fresh s.endRead :=
  h.read le_rfl hle (fun _ _ => rfl) ⟨rfl, rfl, rfl, rfl, rfl⟩

/-- The view that the task has got replaces one that differs. -/
theorem Fresh.publish {v : WalletView} (h : Fresh s) (hseen : Seen v callerOr s)
    (hne : s.published.head? ≠ some v) : Fresh (s.publish v) := by
  refine ⟨h.released_le, h.queued, fun n hn => ?_, fun w hw => Option.some.inj hw, ?_⟩
  · obtain ⟨m, hm, j, hmj, hj, -⟩ := h.replied n hn
    have hseen' : Seen v callerOr (s.publish v) := hseen
    exact ⟨m, hm, hseen'.viewFrom rfl hmj hj⟩
  · rcases hp : s.published with _ | ⟨w, l⟩
    · simp [State.publish, hp]
    · have hdistinct := h.distinct
      rw [hp] at hdistinct hne
      simp only [State.publish, hp, List.isChain_cons_cons]
      exact ⟨fun hvw => hne (by simp [hvw]), hdistinct⟩

/-- A caller is answered when the view held is the one that the task has got. -/
theorem Fresh.answer {v : WalletView} {n : ℕ} (h : Fresh s) (hseen : Seen v (some n) s)
    (hv : s.view = v) : Fresh { s with replied := n :: s.replied } := by
  refine ⟨h.released_le, h.queued, fun k hk => ?_, h.held, h.distinct⟩
  rcases List.mem_cons.mp hk with rfl | hk
  · obtain ⟨j, hj, hyields, howed⟩ := hseen
    obtain ⟨m, hm, hle⟩ := howed k rfl
    have hlt : j < s.done := by omega
    exact ⟨m, hm, j, hle, hlt, hv ▸ hyields⟩
  · exact h.replied k hk

/-- While the task reads the map, it has got the answers `l`. -/
structure Reading (lastStateOr : Option WalletView) (callerOr : Option ℕ) (l : Transcript)
    (s : State) : Prop where
  reads : s.reads = s.done + 1
  transcript : s.transcript s.done = l
  last : s.published.head? = lastStateOr
  owed : Owed callerOr s.done s

theorem Reading.stable {l : Transcript} (h : Reading lastStateOr callerOr l s)
    (hr : Rely .view s t) : Reading lastStateOr callerOr l t := by
  have hown := hr.2
  simp only [State.own, Prod.mk.injEq] at hown
  obtain ⟨-, hpublished, -, hreads, hdone, htranscript⟩ := hown
  refine ⟨?_, ?_, ?_, ?_⟩
  · rw [hreads, hdone, h.reads]
  · rw [htranscript, hdone, h.transcript]
  · rw [hpublished, h.last]
  · rw [hdone]
    exact h.owed.stable hr.1

theorem Reading.log {l : Transcript} (h : Reading lastStateOr callerOr l s) (x : Σ op : Op, op.Ret) :
    Reading lastStateOr callerOr (l ++ [x]) (s.log x) :=
  ⟨h.reads, by simp [State.log, h.transcript], h.last, h.owed⟩

/-- The operations of a read of the map. -/
def Reads : Op → Prop
  | .clientsIter | .clientConfig _ | .clientBalance _ => True
  | _ => False

/-- What is asked is logged. -/
theorem log_of_reads {op : Op} {r : op.Ret} (hop : Reads op) (he : exec .view op s r s') :
    s' = s.log ⟨op, r⟩ ∨ s' = (s.log ⟨op, r⟩).die := by
  cases op
  case clientsIter => exact Or.inl he.2.2
  case clientConfig => exact Or.inl he.2
  case clientBalance =>
    rcases he with ⟨-, ⟨-, h⟩ | ⟨-, h⟩⟩ | ⟨⟨n, hn⟩, -⟩
    · exact Or.inl h
    · exact Or.inr h
    · cases hn
  all_goals exact hop.elim

/-- **A read of the map**: the transcript tells what its program returns. -/
theorem reads_safe {q : Fut α} (hq : q.Uses Reads) : ∀ {l : Transcript} {s : State},
    Reading lastStateOr callerOr l s →
      Safe operations discipline .view q (Outcome.returns fun a t =>
        ∃ l', Yields q l' a ∧ Reading lastStateOr callerOr (l ++ l') t) s := by
  induction q with
  | pure a =>
    intro l s h
    refine .returned fun t ht _ => ⟨[], .pure a, ?_⟩
    rw [List.append_nil]
    exact h.stable ht
  | panic => exact fun _ => .panicked
  | await op k ih =>
    intro l s h
    refine .act fun t ht hi => ⟨fun r u hu => ?_, fun u hu => ?_⟩
    · have ht' := (h.stable ht).log ⟨op, r⟩
      have hu' : Fresh u ∧ Keeps t u ∧ Reading lastStateOr callerOr (l ++ [⟨op, r⟩]) u := by
        rcases log_of_reads hq.1 hu with rfl | rfl
        · exact ⟨hi.log _, .refl _, ht'⟩
        · exact ⟨(hi.log _).die, .refl _, ⟨ht'.reads, ht'.transcript, ht'.last, ht'.owed⟩⟩
      refine ⟨hu'.1, hu'.2.1, (ih r (hq.2 r) hu'.2.2).mono fun o v _ ho => ?_⟩
      rcases o with a | _ | _
      · obtain ⟨l', hyields, hv⟩ := ho
        exact ⟨⟨op, r⟩ :: l', .await hyields, by simpa using hv⟩
      · trivial
      · trivial
    · obtain ⟨n, hn, -⟩ := hu
      cases hn

theorem reads_addViews : ∀ (l : List FederationId) (federations : List FederationView),
    (Wallet.addViews l federations).Uses Reads
  | [], _ => trivial
  | f :: l, federations => by
    refine ⟨trivial, fun name => ⟨trivial, fun balance => ?_⟩⟩
    rcases balance with e | msats
    · trivial
    · exact reads_addViews l _

theorem reads_getCurrentState : Wallet.getCurrentState.Uses Reads :=
  ⟨trivial, fun l => reads_addViews l []⟩

/-- The task answers the caller, if there is one, and goes on. -/
theorem reply_safe {v : WalletView} {p : Fut α} {Q : Outcome α → State → Prop} (hs : Fresh s)
    (hseen : Seen v callerOr s) (hc : Cached (some v) s)
    (hp : ∀ t, Fresh t → Cached (some v) t → Safe operations discipline .view p Q t) :
    Safe operations discipline .view ((Wallet.reply callerOr).bind fun _ => p) Q s := by
  rcases callerOr with _ | n
  · exact hp s hs hc
  · intro t ht hi
    refine ⟨fun r u hu => ?_, fun u hu => ?_⟩
    · obtain ⟨-, rfl⟩ := hu
      have hct := hc.stable ht
      have hi' := hi.answer (hseen.stable ht) (hi.held v hct.2)
      exact ⟨hi', .refl _, hp _ hi' hct⟩
    · obtain ⟨n, hn, -⟩ := hu
      cases hn

/-- The task publishes a view that differs from the one it has cached. -/
theorem send_safe {v : WalletView} {k : Except Error Unit → Fut Unit}
    (hseen : Seen v callerOr s) (hc : Cached lastStateOr s) (hne : lastStateOr ≠ some v)
    (hfail : ∀ e, k (.error e) = .pure ())
    (hk : ∀ t, Fresh t → Seen v callerOr t → Cached (some v) t →
      Safe operations discipline .view (k (.ok ())) (Outcome.returns fun _ _ => True) t) :
    Safe operations discipline .view (.await (.viewSend v) k) (Outcome.returns fun _ _ => True) s := by
  refine .act fun t ht hi => ⟨fun r u hu => ?_, fun u hu => ?_⟩
  · have hct := hc.stable ht
    have hseent := hseen.stable ht
    obtain ⟨-, ⟨rfl, rfl⟩ | ⟨⟨e, rfl⟩, rfl⟩⟩ := hu
    · have hpublish := hi.publish hseent (hct.2 ▸ hne)
      exact ⟨hpublish, .refl _, hk _ hpublish hseent ⟨hct.1, rfl⟩⟩
    · refine ⟨hi.die, .refl _, ?_⟩
      rw [hfail]
      exact .returned fun _ _ _ => trivial
  · obtain ⟨n, hn, -⟩ := hu
    cases hn

/-- **The task that updates the view is safe.** -/
theorem viewUpdateTask_safe (n : ℕ) : ∀ {lastStateOr : Option WalletView} {s : State}, Fresh s →
    Cached lastStateOr s →
      Safe operations discipline .view (Wallet.viewUpdateTask n lastStateOr)
        (Outcome.returns fun _ _ => True) s := by
  induction n with
  | zero => exact fun _ _ => .returned fun _ _ _ => trivial
  | succ n ih =>
    intro lastStateOr s hs hc
    rw [Wallet.viewUpdateTask]
    simp only [call_eq, Prog.bind_eq, Prog.await_bind, Prog.pure_bind]
    have hcut : ∀ {op t u} {P : Prop}, operations.cut .view op t u → P := by
      rintro op t u P ⟨n, hn, -⟩
      cases hn
    -- The caller that is taken from the queue had dropped its guard.
    refine .act fun t ht hi => ⟨fun callerOr u hu => ?_, fun u hu => hcut hu⟩
    have hct := hc.stable ht
    have hu' : Fresh u ∧ Keeps t u ∧ Cached lastStateOr u ∧ Owed callerOr u.done u := by
      obtain ⟨-, ⟨m, rest, hqueue, rfl, rfl⟩ | ⟨rfl, rfl⟩⟩ := hu
      · refine ⟨hi.frame rfl rfl ?_, .refl _, hct, fun k hk => ?_⟩
        · rw [hqueue]
          exact List.subset_cons_self m rest
        · obtain rfl := Option.some.inj hk
          obtain ⟨j, hj⟩ := Option.ne_none_iff_exists'.mp
            (hi.queued m (by rw [hqueue]; exact List.mem_cons_self))
          exact ⟨j, hj, hct.1 ▸ hi.released_le m j hj⟩
      · exact ⟨hi, .refl _, hct, fun k hk => by cases hk⟩
    obtain ⟨hiu, hku, hcu, howed⟩ := hu'
    refine ⟨hiu, hku, ?_⟩
    -- The read begins after that.
    refine .act fun v hv hiv => ⟨fun r w hw => ?_, fun w hw => hcut hw⟩
    obtain ⟨-, -, rfl⟩ := hw
    have hcv := hcu.stable hv
    have howed' : Owed callerOr v.done v := by
      have hdone : v.done = u.done := congrArg (fun o => o.2.2.2.2.1) hv.2
      rw [hdone]
      exact howed.stable hv.1
    have hreading : Reading lastStateOr callerOr [] v.beginRead :=
      ⟨by simp [State.beginRead, hcv.1], by simp [State.beginRead], hcv.2, howed'⟩
    refine ⟨hiv.beginRead, .refl _, ?_⟩
    refine .bind_returns hiv.beginRead (reads_safe reads_getCurrentState hreading) fun a b hib hb => ?_
    obtain ⟨l, hyields, hb⟩ := hb
    -- The read ends, and the view is compared with the one that is cached.
    refine .act fun x hx hix => ⟨fun r y hy => ?_, fun y hy => hcut hy⟩
    obtain ⟨-, rfl⟩ | ⟨m, hm, -⟩ := hy
    · have hbx := hb.stable hx
      have hend : Fresh x.endRead := hix.endRead (by rw [hbx.reads]; omega)
      have hseen : Seen a callerOr x.endRead :=
        ⟨x.done, hbx.reads, by rw [State.endRead, hbx.transcript]; exact hyields, hbx.owed⟩
      have hcx : Cached lastStateOr x.endRead := ⟨rfl, hbx.last⟩
      refine ⟨hend, .refl _, ?_⟩
      have hreply : ∀ t, Fresh t → Seen a callerOr t → Cached (some a) t →
          Safe operations discipline .view
            ((Wallet.reply callerOr).bind fun _ => Wallet.viewUpdateTask n (some a))
            (Outcome.returns fun _ _ => True) t :=
        fun t ht hseent hct => reply_safe ht hseent hct fun u hu hcu => ih hu hcu
      rcases lastStateOr with _ | last
      · exact send_safe hseen hcx (by simp) (fun _ => rfl) hreply
      by_cases hlast : a = last
      · subst hlast
        simp only [ne_eq, not_true_eq_false, decide_false, Bool.false_eq_true, if_false]
        exact hreply _ hend hseen hcx
      · simp only [ne_eq, hlast, not_false_eq_true, decide_true, if_true]
        exact send_safe hseen hcx (fun h => hlast (Option.some.inj h).symm) (fun _ => rfl) hreply
    · cases hm

end View

/-! ### Every wallet -/

section Wallets
variable {J : Serde} {secret : Mnemonic} {P : Pool TaskId Op Op.Ret Result State}

theorem fresh_fresh : Fresh .fresh :=
  ⟨fun _ _ h => (by cases h), fun _ h => (by cases h), fun _ h => (by cases h),
    fun _ h => (by cases h), .nil⟩

/-- **The discipline of a wallet.** -/
def relyGuarantee (J : Serde) (secret : Mnemonic) : RelyGuarantee (wallet J secret) where
  toDiscipline := discipline
  post _ _ _ := True
  env_ok {s s' dead} hi he := by
    rcases he with ⟨⟨balance, rfl⟩, -⟩ | ⟨rfl, hdead⟩
    · refine ⟨hi.frame rfl rfl (List.Subset.refl _), fun i _ => ?_⟩
      cases i with
      | view => exact ⟨.refl _, rfl⟩
      | call n => exact .refl _
    · refine ⟨hi.die, fun i hi => ?_⟩
      rw [hdead i] at hi
      cases hi
  spawn_ok {i p s s'} hi hs := by
    obtain ⟨n, c, rfl, rfl, -, rfl⟩ := hs
    have hi' : Fresh { s with begun := n :: s.begun } := hi.frame rfl rfl (List.Subset.refl _)
    refine ⟨hi', fun j _ => ?_, kept_program J secret c _ hi'⟩
    cases j with
    | view => exact ⟨.refl _, rfl⟩
    | call m => exact .refl _

theorem good_opened (iterations : ℕ) : Good (relyGuarantee J secret) (opened iterations) := by
  refine ⟨fresh_fresh, fun i p hp => ?_⟩
  simp only [opened] at hp
  split_ifs at hp with hi
  obtain rfl := hi
  obtain rfl := Option.some.inj hp
  exact .bind_of fresh_fresh (viewUpdateTask_safe iterations fresh_fresh ⟨rfl, rfl⟩)
    (fun _ _ _ _ _ _ _ => trivial) (fun _ _ _ => trivial) fun _ _ _ => trivial

/-- **A forced update is never stale**: when a call gets its reply while the task is alive, the view held
is one that a read has shown which began after the call had dropped its guard; and the task never
publishes the same view twice in a row. -/
theorem forced_view_fresh {iterations : ℕ} (h : Steps (wallet J secret) (opened iterations) P) :
    (∀ n k r s', P.task (.call n) = some (.await .forceUpdateRecv k) → P.st.alive = true →
      operations.exec (.call n) .forceUpdateRecv P.st r s' →
        ∃ m, s'.released n = some m ∧ ViewFrom s' m) ∧
    P.st.published.IsChain (· ≠ ·) := by
  have hfresh : Fresh P.st := (good_steps (good_opened iterations) h).1
  refine ⟨fun n k r s' _ halive he => ?_, hfresh.distinct⟩
  obtain ⟨rfl, ⟨-, m, hm, hreplied⟩ | ⟨-, hdead⟩⟩ := he
  · cases hm
    exact hfresh.replied n hreplied
  · rw [halive] at hdead
    cases hdead

end Wallets

namespace Joining

def federation : FederationId := ⟨.replicate 32 1⟩

def invitation : InviteCode := ⟨federation, []⟩

def secret : Mnemonic := ⟨.replicate 16 0⟩

/-- The view with the federation that was joined. -/
def view : WalletView := ⟨[⟨federation, none, 0⟩]⟩

/-- The call holds the lock on the directory. -/
def locked : State := { State.fresh with dataDir := some 0, begun := [0] }

/-- The call has inserted the client. -/
def joined : State := { locked with writer := some 0, clients := [federation] }

/-- The call has dropped its guard on the clients. -/
def inserted : State :=
  { locked with
    clients := [federation]
    released := Function.update locked.released 0 (some 0) }

/-- The task has published the view and answered the call. -/
def answered : State :=
  { inserted with
    view := view
    published := [view]
    reads := 1
    done := 1
    transcript := Function.update inserted.transcript 0
      [⟨.clientsIter, [federation]⟩, ⟨.clientConfig federation, none⟩,
        ⟨.clientBalance federation, .ok 0⟩]
    replied := [0] }

/-- The call, up to its wait for the reply. -/
theorem begins_call : ∃ k, Begins operations (.call 0)
    (Call.program .framed secret (.setDefaultFederation invitation)) { State.fresh with begun := [0] }
    (.await .forceUpdateRecv k) { inserted with queue := [0] } := by
  simp only [Call.program, Wallet.setDefaultFederation, Wallet.setDefaultLocked, Wallet.joinFederation,
    Wallet.buildClientFromInviteCode, Wallet.insertClient, Wallet.forceUpdateView, Fallible.run_bind,
    Fallible.run_ite, run_guarded, run_attempt, await_eq, Fallible.run_of, call_eq, Prog.await_bind,
    Prog.pure_bind, Prog.bind_eq, Fallible.andThen_ok, Fallible.run_lift]
  constructor
  refine begins_next .dataDirLock () locked ⟨rfl, 0, rfl, rfl⟩ ?_
  refine begins_next (.isDir _) false _ rfl ?_
  refine begins_next (.dbOpen _) (.ok ()) _ rfl ?_
  refine begins_next (.dbIsInitialized _) false _ rfl ?_
  refine begins_next .clientBuilder (.ok ()) _ rfl ?_
  refine begins_next .clientConnectors (.ok ()) _ rfl ?_
  refine begins_next (.clientPreview _) (.ok ()) _ rfl ?_
  refine begins_next (.clientJoin _ _) (.ok ()) _ rfl ?_
  refine begins_next .clientsWrite () { locked with writer := some 0 } ⟨rfl, rfl, 0, rfl, rfl⟩ ?_
  refine begins_next (.clientsInsert _) () joined rfl ?_
  refine begins_next .clientsRelease () inserted (Or.inr ⟨0, rfl, rfl⟩) ?_
  refine begins_next .forceUpdateSend (.ok ()) _ (Or.inl ⟨rfl, rfl, by decide, 0, rfl, rfl⟩) ?_
  exact .refl _ _

/-- The first iteration of the task. -/
theorem runs_view : Runs operations .view Alone
    ((Wallet.viewUpdateTask 1 none).bind fun _ => .pure Result.viewed)
    { inserted with queue := [0] } (.returned .viewed) answered := by
  simp only [Wallet.viewUpdateTask, Wallet.getCurrentState, call_eq, Prog.bind_eq, Prog.await_bind,
    Prog.pure_bind]
  refine runs_next .forceUpdateWait (some 0) inserted ⟨rfl, Or.inl ⟨0, [], rfl, rfl, rfl⟩⟩ ?_
  refine runs_next .clientsRead () inserted.beginRead ⟨rfl, rfl, rfl⟩ ?_
  refine runs_next .clientsIter [federation] _ ⟨.refl _, rfl, rfl⟩ ?_
  refine runs_next (.clientConfig federation) none _ ⟨rfl, rfl⟩ ?_
  refine runs_next (.clientBalance federation) (.ok 0) _ (Or.inl ⟨rfl, Or.inl ⟨rfl, rfl⟩⟩) ?_
  refine runs_next .clientsRelease () _ (Or.inl ⟨rfl, rfl⟩) ?_
  refine runs_next (.viewSend view) (.ok ()) _ ⟨rfl, Or.inl ⟨rfl, rfl⟩⟩ ?_
  refine runs_next (.forceUpdateReply 0) () answered ⟨rfl, ?_⟩ (.returned _ _)
  simp [answered, inserted, locked, State.beginRead, State.log, State.endRead, State.publish,
    State.fresh]

end Joining

open Joining in
/-- A federation is joined, and its caller finds it in the view. -/
theorem forced_view_fresh_joined : ∃ P : Pool TaskId Op Op.Ret Result State, P.st.view = view ∧
    (∃ m, P.st.released 0 = some m ∧ ViewFrom P.st m) ∧ P.st.published.IsChain (· ≠ ·) := by
  obtain ⟨k, hbegins⟩ := begins_call
  have hcall := steps_of_start (Y := wallet .framed secret) (i := .call 0) (s := .fresh)
    (f := (opened 1).task) ⟨0, _, rfl, rfl, by simp [State.fresh], rfl⟩ rfl hbegins
  have hview := steps_of_runs (Y := wallet .framed secret) runs_view
    (f := Function.update (opened 1).task (.call 0) (some (.await .forceUpdateRecv k))) rfl
  have hfresh := @forced_view_fresh .framed secret _ 1 (hcall.trans hview)
  exact ⟨_, rfl, hfresh.1 0 k (.ok ()) answered rfl rfl
    ⟨rfl, Or.inl ⟨rfl, 0, rfl, by simp [answered]⟩⟩, hfresh.2⟩

end Vendimint.View
