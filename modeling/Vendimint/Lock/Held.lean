import Vendimint.Async.Track
import Vendimint.Lock.World

/-! # What the tasks of a wallet hold

A task holds guards, and while it does it knows of some federations that they have a directory, or that
they are not in the map. `Held.next` is the discipline: which operations need which guards.

* `typed_program`: a call that starts with nothing keeps to it and ends with no guard.
* `typed_viewUpdateTask`: so does the task that updates the view. -/

namespace Vendimint.Lock

open Vendimint.Store Vendimint.Async
open Vendimint.View (TaskId capacity)

/-- The guards of a task, the federations that it knows to have a directory, and those that it knows
not to be in the map. -/
structure Held where
  dataDir : Bool
  clients : Option Mode
  present : List FederationId
  absent : List FederationId

/-- No guard. -/
def Held.nothing : Held := ⟨false, none, [], []⟩

/-- The operations on files and databases, other than those that make and remove directories. -/
def onDisk : Op → Bool
  | .pathExists _ | .readFile _ | .writeFile _ _ => true
  | .dbIsInitialized _ | .clientOpen _ _ | .clientJoin _ _ => true
  | _ => false

/-- The operations on clients of the map. -/
def onClients : Op → Bool
  | .clientsContains _ | .clientsIter | .clientConfig _ | .clientBalance _ | .clientShutdown _ => true
  | .clientOperationExists _ _ | .lnPublicKey _ | .lnRemoteReceive _ _ _ => true
  | .lnGetClaimableContracts _ _ _ | .lnRemoveClaimedContracts _ _ | .lnClaimContracts _ _ => true
  | .lnAwaitRemoteReceive _ _ | .mintTotalAmount _ | .mintSpendNotes _ _ => true
  | _ => false

/-- **The discipline**: what a task has after an operation, if it may do it.

The directory is used under the mutex, and the clients under their lock; a client is put into the map or
taken out under the lock for writing. A client is put in only if its federation has a directory, and a
directory is removed only if its federation has no client in the map. No task waits for a lock that it
holds, nor for the view while it holds the clients. The task that updates the view (`viewer`) asks neither
for the mutex nor for a view. -/
def Held.next (viewer : Bool) (h : Held) : (op : Op) → op.Ret → Option Held
  | .dataDirLock, _ => if viewer || h.dataDir then none else some { h with dataDir := true }
  | .dataDirRelease, _ =>
    some { h with dataDir := false, present := if h.clients.isSome then h.present else [] }
  | .clientsRead, _ => if h.clients.isSome then none else some { h with clients := some .read }
  | .clientsWrite, _ => if h.clients.isSome then none else some { h with clients := some .write }
  | .clientsRelease, _ =>
    some { h with clients := none, absent := [], present := if h.dataDir then h.present else [] }
  | .forceUpdateSend, _ => if viewer || h.clients.isSome then none else some h
  | .forceUpdateRecv, _ => if viewer || h.clients.isSome then none else some h
  | .forceUpdateWait, _ => if viewer then some h else none
  | .forceUpdateReply _, _ => if viewer then some h else none
  | .viewSend _, _ => if viewer then some h else none
  | .clientsInsert f, _ =>
    if h.clients = some .write ∧ f ∈ h.present then
      some { h with absent := h.absent.filter (· ≠ f) } else none
  | .clientsRemove f, removed =>
    if h.clients = some .write then
      some { h with absent := f :: h.absent, present := if removed then f :: h.present else h.present }
    else none
  | .isDir (.federationDir f), isDir =>
    if h.dataDir then some { h with present := if isDir then f :: h.present else h.present } else none
  | .readDir .clientsDataDir, .ok l =>
    if h.dataDir then some { h with present := l.filterMap Wallet.federationOfName ++ h.present }
    else none
  | .readDir .clientsDataDir, .error _ => if h.dataDir then some h else none
  | .dbOpen f, .ok _ => if h.dataDir then some { h with present := f :: h.present } else none
  | .dbOpen _, .error _ => if h.dataDir then some h else none
  | .removeDirAll (.federationDir f), _ =>
    if h.dataDir ∧ h.clients = some .write ∧ f ∈ h.absent then
      some { h with present := h.present.filter (· ≠ f) } else none
  | op, _ =>
    if (!onDisk op || h.dataDir) && (!onClients op || h.clients.isSome) then some h else none

/-- The program of a call keeps to the discipline from `h` on, and ends with these guards. -/
abbrev Typed {α : Type} (p : Fut α) (h : Held) (d : Bool) (c : Option Mode) : Prop :=
  p.Tracks (Held.next false) h fun _ h' => h'.dataDir = d ∧ h'.clients = c

/-- The program of a call keeps to the discipline, and what it has stays the same. -/
abbrev Steady {α : Type} (p : Fut α) (h : Held) : Prop :=
  p.Tracks (Held.next false) h fun _ h' => h' = h

section Calls
variable {α β : Type} {d : Bool} {c : Option Mode} {h : Held} {ps as : List FederationId}

theorem Typed.bind {p : Fut α} {f : α → Fut β} {d' : Bool} {c' : Option Mode} (hp : Typed p h d c)
    (hf : ∀ a ps as, Typed (f a) ⟨d, c, ps, as⟩ d' c') : Typed (p.bind f) h d' c' := by
  refine Prog.Tracks.bind hp fun a h₁ hh₁ => ?_
  obtain ⟨d₁, c₁, ps, as⟩ := h₁
  obtain ⟨rfl, rfl⟩ := hh₁
  exact hf a ps as

/-- A first part that leaves the same guards when it fails. -/
theorem Typed.andThen {p : Fut (Except Error α)} {f : α → Fut (Except Error β)} (hp : Typed p h d c)
    (hf : ∀ a ps as, Typed (f a) ⟨d, c, ps, as⟩ d c) :
    Typed (p.bind (Fallible.andThen f)) h d c := by
  refine Typed.bind hp fun r ps as => ?_
  cases r with
  | error e => exact ⟨rfl, rfl⟩
  | ok a => exact hf a ps as

/-- A first part that changes nothing. -/
theorem Steady.andThen {p : Fut (Except Error α)} {f : α → Fut (Except Error β)}
    {R : Except Error β → Held → Prop} (hp : Steady p h) (he : ∀ e, R (.error e) h)
    (hf : ∀ a, (f a).Tracks (Held.next false) h R) :
    (p.bind (Fallible.andThen f)).Tracks (Held.next false) h R := by
  refine Prog.Tracks.andThen hp (fun e h' hh => ?_) fun a h' hh => ?_
  · obtain rfl := hh
    exact he e
  · obtain rfl := hh
    exact hf a

theorem steady_call (op : Op) (hop : ∀ r, h.next false op r = some h) : Steady (call op) h :=
  .await hop fun _ => rfl

/-- An operation whose result says what the task has next. -/
theorem tracks_await {op : Op} {f : op.Ret → Fut (Except Error α)} {R : Except Error α → Held → Prop}
    (hf : ∀ r, ∃ h₁, h.next false op r = some h₁ ∧ (f r).Tracks (Held.next false) h₁ R) :
    ((await op).run.bind (Fallible.andThen f)).Tracks (Held.next false) h R := hf

theorem steady_await {op : Op} (hop : ∀ r, h.next false op r = some h) : Steady (await op).run h :=
  .await hop fun _ => rfl

/-! ### Joining and leaving -/

theorem typed_guarded {x : FutResult α} (hx : Typed x.run h true c) :
    Typed (guarded x .dataDirRelease).run h false c :=
  Typed.bind hx fun _ _ _ => .await (fun _ => rfl) fun _ => ⟨rfl, rfl⟩

theorem typed_locked {x : FutResult α} (hx : Typed x.run ⟨true, none, [], []⟩ true none) :
    Typed (do await .dataDirLock; guarded x .dataDirRelease : FutResult α).run .nothing false none :=
  .await (fun _ => rfl) fun _ => typed_guarded hx

theorem typed_ended {p : Fut α} (hp : Typed p .nothing false none) :
    Typed (ended p) .nothing false none :=
  Typed.bind hp fun _ _ _ => ⟨rfl, rfl⟩

theorem typed_forceUpdateView {m : Mode} :
    Typed Wallet.forceUpdateView ⟨d, some m, ps, as⟩ d none :=
  .await (fun _ => rfl) fun _ => .await (fun _ => rfl) fun _ => .await (fun _ => rfl) fun _ => ⟨rfl, rfl⟩

theorem typed_lift_forceUpdateView {m : Mode} :
    Typed (liftM Wallet.forceUpdateView : FutResult Unit).run ⟨d, some m, ps, as⟩ d none :=
  Typed.bind typed_forceUpdateView fun _ _ _ => ⟨rfl, rfl⟩

theorem steady_buildClientFromInviteCode (secret : Mnemonic) (inviteCode : InviteCode) :
    Steady (Wallet.buildClientFromInviteCode secret inviteCode).run ⟨true, c, ps, as⟩ := by
  simp only [Wallet.buildClientFromInviteCode, Fallible.run_bind, Fallible.run_ite]
  refine (steady_await fun _ => rfl).andThen (fun _ => rfl) fun isInitialized => ?_
  refine (steady_call .clientBuilder fun _ => rfl).andThen (fun _ => rfl) fun _ => ?_
  refine (steady_call .clientConnectors fun _ => rfl).andThen (fun _ => rfl) fun _ => ?_
  split
  · exact steady_call _ fun _ => rfl
  · exact (steady_call (.clientPreview _) fun _ => rfl).andThen (fun _ => rfl) fun _ =>
      steady_call _ fun _ => rfl

theorem steady_buildClientFromFederationId (secret : Mnemonic) (federationId : FederationId) :
    Steady (Wallet.buildClientFromFederationId secret federationId).run ⟨true, c, ps, as⟩ := by
  simp only [Wallet.buildClientFromFederationId, Fallible.run_bind, Fallible.run_ite]
  refine (steady_await fun _ => rfl).andThen (fun _ => rfl) fun isInitialized => ?_
  refine (steady_call .clientBuilder fun _ => rfl).andThen (fun _ => rfl) fun _ => ?_
  refine (steady_call .clientConnectors fun _ => rfl).andThen (fun _ => rfl) fun _ => ?_
  split
  · exact steady_call _ fun _ => rfl
  · exact rfl

/-- After the database of a federation has been opened, the federation has a directory. -/
theorem typed_dbOpen {federationId : FederationId} {f : Unit → Fut (Except Error α)}
    (hf : Typed (f ()) ⟨true, c, federationId :: ps, as⟩ true c) :
    Typed ((attempt (call (.dbOpen federationId))).run.bind (Fallible.andThen f))
      ⟨true, c, ps, as⟩ true c := by
  intro r
  cases r with
  | error e => exact ⟨_, rfl, rfl, rfl⟩
  | ok a => exact ⟨_, rfl, hf⟩

/-- A client is put into the map under the guard for writing. -/
theorem typed_insert {federationId : FederationId} {f : Unit → Fut (Except Error α)}
    {d' : Bool} {c' : Option Mode} (hmem : federationId ∈ ps)
    (hf : ∀ as, Typed (f ()) ⟨d, some .write, ps, as⟩ d' c') :
    Typed ((await (.clientsInsert federationId)).run.bind (Fallible.andThen f))
      ⟨d, some .write, ps, as⟩ d' c' :=
  .await (fun _ => if_pos ⟨rfl, hmem⟩) fun _ => hf _

/-- The federations to connect to have directories. -/
theorem typed_connectTo (secret : Mnemonic) : ∀ (federationIds ps as : List FederationId),
    federationIds ⊆ ps →
    Typed (Wallet.connectTo secret federationIds).run ⟨true, some .write, ps, as⟩ true (some .write)
  | [], _, _, _ => ⟨rfl, rfl⟩
  | federationId :: federationIds, ps, as, hsub => by
    obtain ⟨hmem, hsub⟩ := List.cons_subset.mp hsub
    simp only [Wallet.connectTo, Fallible.run_bind, Fallible.run_ite]
    refine (steady_await fun _ => rfl).andThen (fun _ => ⟨rfl, rfl⟩) fun connected => ?_
    split
    · exact typed_connectTo secret federationIds ps as hsub
    · refine typed_dbOpen ?_
      refine (steady_buildClientFromFederationId secret federationId).andThen
        (fun _ => ⟨rfl, rfl⟩) fun _ => ?_
      refine typed_insert List.mem_cons_self fun as => ?_
      exact typed_connectTo secret federationIds _ as (List.subset_cons_of_subset _ hsub)

theorem typed_connectToListed (secret : Mnemonic) :
    Typed (Wallet.connectToListed secret).run ⟨true, none, [], []⟩ true none := by
  simp only [Wallet.connectToListed, Fallible.run_bind]
  intro r
  cases r with
  | error e => exact ⟨_, rfl, rfl, rfl⟩
  | ok l =>
    refine ⟨_, rfl, .await (fun _ => rfl) fun _ => ?_⟩
    simp only [Fallible.andThen_ok, Fallible.run_lift, Prog.bind_assoc, Prog.pure_bind]
    refine (typed_connectTo secret _ _ _ (List.subset_append_left _ _)).bind fun r ps as => ?_
    cases r with
    | error e => exact .await (fun _ => rfl) fun _ => ⟨rfl, rfl⟩
    | ok a => exact typed_forceUpdateView.bind fun _ _ _ => ⟨rfl, rfl⟩

theorem typed_joinFederation (secret : Mnemonic) (inviteCode : InviteCode) :
    Typed (Wallet.joinFederation secret inviteCode).run ⟨true, none, ps, as⟩ true none := by
  simp only [Wallet.joinFederation, Wallet.insertClient, Fallible.run_bind]
  refine typed_dbOpen ?_
  refine (steady_buildClientFromInviteCode secret inviteCode).andThen (fun _ => ⟨rfl, rfl⟩) fun _ => ?_
  refine .await (fun _ => rfl) fun _ => ?_
  exact typed_insert List.mem_cons_self fun as => typed_lift_forceUpdateView

theorem typed_setDefaultLocked (J : Serde) (secret : Mnemonic) (inviteCode : InviteCode) :
    Typed (Wallet.setDefaultLocked J secret inviteCode).run ⟨true, none, [], []⟩ true none := by
  simp only [Wallet.setDefaultLocked, Fallible.run_bind, Fallible.run_ite]
  refine tracks_await fun isDir => ⟨_, rfl, ?_⟩
  split
  · exact .await (fun _ => rfl) fun _ => ⟨rfl, rfl⟩
  · exact (typed_joinFederation secret inviteCode).andThen fun _ _ _ =>
      .await (fun _ => rfl) fun _ => ⟨rfl, rfl⟩

theorem typed_getDefaultFederation (J : Serde) :
    Typed (Wallet.getDefaultFederation J).run .nothing false none := by
  refine typed_locked ?_
  simp only [Fallible.run_bind, Fallible.run_ite]
  refine (steady_await fun _ => rfl).andThen (fun _ => ⟨rfl, rfl⟩) fun exist => ?_
  split
  · refine (steady_call (.readFile _) fun _ => rfl).andThen (fun _ => ⟨rfl, rfl⟩) fun inviteStr => ?_
    cases J.invite.dec inviteStr with
    | none => exact ⟨rfl, rfl⟩
    | some inviteCode => exact ⟨rfl, rfl⟩
  · exact ⟨rfl, rfl⟩

/-- The directory that is removed is that of a federation that is not in the map. -/
theorem typed_removeFederationDir {federationId : FederationId} (hmem : federationId ∈ as) :
    Typed (Wallet.removeFederationDir federationId).run ⟨true, some .write, ps, as⟩ true
      (some .write) := by
  simp only [Wallet.removeFederationDir, Fallible.run_bind, Fallible.run_ite]
  refine tracks_await fun isDir => ⟨_, rfl, ?_⟩
  split
  · exact .await (fun _ => if_pos ⟨rfl, rfl, hmem⟩) fun _ => ⟨rfl, rfl⟩
  · exact ⟨rfl, rfl⟩

theorem typed_leaveClient {federationId : FederationId} (hps : federationId ∈ ps)
    (has : federationId ∈ as) :
    Typed (Wallet.leaveClient federationId).run ⟨false, some .write, ps, as⟩ false (some .write) := by
  simp only [Wallet.leaveClient, Fallible.run_bind]
  refine (steady_await fun _ => rfl).andThen (fun _ => ⟨rfl, rfl⟩) fun balance => ?_
  cases balance with
  | error e => exact .await (fun _ => rfl) fun _ => trivial
  | ok msats =>
    simp only [Fallible.run_ite]
    split
    · exact typed_insert hps fun as => ⟨rfl, rfl⟩
    · simp only [Fallible.run_bind]
      refine (steady_await fun _ => rfl).andThen (fun _ => ⟨rfl, rfl⟩) fun _ => ?_
      exact .await (fun _ => rfl) fun _ => typed_guarded (typed_removeFederationDir has)

theorem typed_leaveFederation (federationId : FederationId) :
    Typed (Wallet.leaveFederation federationId).run .nothing false none := by
  simp only [Wallet.leaveFederation, Fallible.run_bind, Fallible.run_ite]
  refine .await (fun _ => rfl) fun _ => tracks_await fun removed => ⟨_, rfl, ?_⟩
  cases removed with
  | false => exact typed_lift_forceUpdateView
  | true =>
    simp only [if_true, Fallible.run_lift, Prog.bind_assoc, Prog.pure_bind]
    refine (typed_leaveClient List.mem_cons_self List.mem_cons_self).bind fun r ps as => ?_
    cases r with
    | error e => exact .await (fun _ => rfl) fun _ => ⟨rfl, rfl⟩
    | ok a => exact typed_forceUpdateView.bind fun _ _ _ => ⟨rfl, rfl⟩

/-! ### Payments -/

theorem typed_withClient {federationId : FederationId} {p : Fut α}
    (hp : Steady p ⟨false, some .read, [], []⟩) :
    Typed (Wallet.withClient federationId p) .nothing false none := by
  rw [Wallet.withClient_eq]
  refine .await (fun _ => rfl) fun _ => .await (fun _ => rfl) fun connected => ?_
  split
  · refine Prog.Tracks.bind hp fun a h hh => ?_
    obtain rfl := hh
    exact .await (fun _ => rfl) fun _ => ⟨rfl, rfl⟩
  · exact .await (fun _ => rfl) fun _ => ⟨rfl, rfl⟩

/-- What is made of the answer of a client changes nothing. -/
theorem typed_answer {federationId : FederationId} {p : Fut α} {f : Option α → Fut β}
    (hp : Steady p ⟨false, some .read, [], []⟩) (hf : ∀ a, ∃ b, f a = .pure b) :
    Typed ((Wallet.withClient federationId p).bind f) .nothing false none := by
  refine (typed_withClient hp).bind fun a ps as => ?_
  obtain ⟨b, hb⟩ := hf a
  rw [hb]
  exact ⟨rfl, rfl⟩

theorem typed_result {federationId : FederationId} {p : Fut α} {f : Option α → FutResult β}
    (hp : Steady p ⟨false, some .read, [], []⟩) (hf : ∀ a, ∃ r, (f a).run = .pure r) :
    Typed ((liftM (Wallet.withClient federationId p) : FutResult (Option α)) >>= f).run .nothing false
      none := by
  simp only [Fallible.run_bind, Fallible.run_lift, Prog.bind_assoc]
  exact typed_answer hp hf

theorem steady_spendNotes (federationId : FederationId) :
    Steady (Wallet.spendNotes federationId) ⟨false, some .read, [], []⟩ := by
  refine .await (fun _ => rfl) fun ecashBalance => ?_
  simp only [Prog.bind_eq, Prog.pure_bind]
  split
  · exact rfl
  · refine .await (fun _ => rfl) fun r => ?_
    cases r with
    | error e => exact rfl
    | ok oobNotes => exact rfl

theorem steady_awaitOn (operationId : OperationId) : ∀ federationIds,
    Steady (Wallet.awaitOn operationId federationIds).run ⟨false, some .read, ps, as⟩
  | [] => rfl
  | federationId :: federationIds => by
    simp only [Wallet.awaitOn, Fallible.run_bind, Fallible.run_ite]
    refine (steady_await fun _ => rfl).andThen (fun _ => rfl) fun exist => ?_
    split
    · exact steady_call _ fun _ => rfl
    · exact steady_awaitOn operationId federationIds

theorem typed_awaitReceivePaymentFinalState (operationId : OperationId) :
    Typed (Wallet.awaitReceivePaymentFinalState operationId).run .nothing false none := by
  simp only [Wallet.awaitReceivePaymentFinalState, Fallible.run_bind, run_guarded]
  refine tracks_await fun _ => ⟨_, rfl, ?_⟩
  have hawait : Steady ((await .clientsIter).run.bind (Fallible.andThen fun federationIds =>
      (Wallet.awaitOn operationId federationIds).run)) ⟨false, some .read, [], []⟩ :=
    (steady_await fun _ => rfl).andThen (fun _ => rfl) fun federationIds =>
      steady_awaitOn operationId federationIds
  refine Prog.Tracks.bind hawait fun r h hh => ?_
  obtain rfl := hh
  exact .await (fun _ => rfl) fun _ => ⟨rfl, rfl⟩

theorem steady_addBalances : ∀ (federationIds : List FederationId) (balance : ℕ),
    Steady (Wallet.addBalances federationIds balance) ⟨false, some .read, ps, as⟩
  | [], _ => rfl
  | federationId :: federationIds, balance => by
    refine .await (fun _ => rfl) fun r => ?_
    cases r with
    | error e => exact .await (fun _ => rfl) fun _ => trivial
    | ok msats => exact steady_addBalances federationIds (balance + msats)

theorem typed_getLocalBalance : Typed Wallet.getLocalBalance .nothing false none := by
  refine .await (fun _ => rfl) fun _ => .await (fun _ => rfl) fun federationIds => ?_
  show Typed ((Wallet.addBalances federationIds 0).bind fun balance =>
    .await .clientsRelease fun _ => .pure balance) _ false none
  refine Prog.Tracks.bind (steady_addBalances federationIds 0) fun balance h hh => ?_
  obtain rfl := hh
  exact .await (fun _ => rfl) fun _ => ⟨rfl, rfl⟩

end Calls

/-- **A call keeps to the discipline**, and it ends with no guard. -/
theorem typed_program (J : Serde) (secret : Mnemonic) (c : Call) :
    Typed (c.program J secret) .nothing false none := by
  cases c with
  | setDefaultFederation inviteCode =>
    exact typed_ended (typed_locked (typed_setDefaultLocked J secret inviteCode))
  | getDefaultFederation => exact typed_ended (typed_getDefaultFederation J)
  | leaveFederation federationId => exact typed_ended (typed_leaveFederation federationId)
  | connectToJoinedFederations => exact typed_ended (typed_locked (typed_connectToListed secret))
  | getLnv2ClaimPubkey federationId => exact typed_ended (typed_withClient (steady_call _ fun _ => rfl))
  | receivePayment federationId claimerPk request =>
    refine typed_ended (typed_result (steady_call _ fun _ => rfl) fun a => ?_)
    rcases a with _ | _ | _ <;> exact ⟨_, rfl⟩
  | awaitReceivePaymentFinalState operationId =>
    exact typed_ended (typed_awaitReceivePaymentFinalState operationId)
  | getLocalBalance => exact typed_ended typed_getLocalBalance
  | sweepAllEcashNotes federationId =>
    refine typed_ended (typed_result (steady_spendNotes federationId) fun a => ?_)
    rcases a with _ | _ | _ <;> exact ⟨_, rfl⟩
  | getClaimableContracts federationId claimerPk limitOr =>
    exact typed_ended (typed_withClient (steady_call _ fun _ => rfl))
  | removeClaimedContracts federationId contractIds =>
    exact typed_ended (typed_answer (steady_call _ fun _ => rfl) fun _ => ⟨(), rfl⟩)
  | claimContracts federationId claimableContracts =>
    refine typed_ended (typed_result (steady_call _ fun _ => rfl) fun a => ?_)
    rcases a with _ | _ | _ <;> exact ⟨_, rfl⟩

/-! ### The task that updates the view -/

section View

/-- A part of the task that updates the view, which changes nothing that it has. -/
abbrev SteadyView {α : Type} (p : Fut α) (h : Held) : Prop :=
  p.Tracks (Held.next true) h fun _ h' => h' = h

theorem steady_addViews : ∀ (federationIds : List FederationId) (federations : List FederationView),
    SteadyView (Wallet.addViews federationIds federations) ⟨false, some .read, [], []⟩
  | [], _ => rfl
  | federationId :: federationIds, federations => by
    refine .await (fun _ => rfl) fun name => .await (fun _ => rfl) fun balance => ?_
    cases balance with
    | error e => trivial
    | ok msats => exact steady_addViews federationIds _

theorem steady_reply (callerOr : Option ℕ) : SteadyView (Wallet.reply callerOr) .nothing := by
  cases callerOr with
  | none => exact rfl
  | some caller => exact .await (fun _ => rfl) fun _ => rfl

/-- The task that updates the view keeps to the discipline. -/
theorem typed_viewUpdateTask : ∀ (n : ℕ) (lastStateOr : Option WalletView),
    (Wallet.viewUpdateTask n lastStateOr).Tracks (Held.next true) .nothing
      fun _ h => h.dataDir = false ∧ h.clients = none
  | 0, _ => ⟨rfl, rfl⟩
  | n + 1, lastStateOr => by
    rw [Wallet.viewUpdateTask]
    simp only [call_eq, Prog.bind_eq, Prog.await_bind, Prog.pure_bind]
    refine .await (fun _ => rfl) fun callerOr => .await (fun _ => rfl) fun _ => ?_
    have hread : SteadyView Wallet.getCurrentState ⟨false, some .read, [], []⟩ :=
      .await (fun _ => rfl) fun federationIds => steady_addViews federationIds []
    refine Prog.Tracks.bind hread fun currentState h hh => ?_
    obtain rfl := hh
    refine .await (fun _ => rfl) fun _ => ?_
    show Prog.Tracks _ _ Held.nothing _
    have hreply : ∀ lastStateOr, ((Wallet.reply callerOr).bind fun _ =>
        Wallet.viewUpdateTask n lastStateOr).Tracks (Held.next true) .nothing
          fun _ h => h.dataDir = false ∧ h.clients = none := fun lastStateOr => by
      refine Prog.Tracks.bind (steady_reply callerOr) fun _ h hh => ?_
      obtain rfl := hh
      exact typed_viewUpdateTask n lastStateOr
    split_ifs
    · refine .await (fun _ => rfl) fun r => ?_
      cases r with
      | error e => exact ⟨rfl, rfl⟩
      | ok a => exact hreply _
    · exact hreply _

end View

end Vendimint.Lock
