import Vendimint.Lock.Held
import Vendimint.Wallet.Uses

/-! # The discipline of the locks

* `no_data_race`: two tasks are never about to use the directory at the same time, nor is one about to
  change the map of clients while another is about to use it or its clients.
* `connected_dirs`: a federation with a client in the map has a directory.
* `not_holds_of_ended`: whoever has ended holds no lock. -/

namespace Vendimint.Lock

open Vendimint.Store Vendimint.Async
open Vendimint.View (TaskId capacity)

/-- **The invariant.** The locks exclude each other, and every client has its directory. -/
structure Consistent (s : State) : Prop where
  dataDir : ∀ i j, s.dataDir.Holds i → s.dataDir.Holds j → i = j
  clients : ∀ i m j m', (i, m) ∈ s.clients.held → (j, m') ∈ s.clients.held → m.Conflict m' → i = j
  dirs : s.connected ⊆ s.dirs

/-- The task `i` has the guards of `h`, and what it knows is so. -/
structure Agrees (i : TaskId) (s : State) (h : Held) : Prop where
  dataDir : s.dataDir.Holds i ↔ h.dataDir = true
  clients : ∀ m, (i, m) ∈ s.clients.held ↔ h.clients = some m
  present : ∀ f ∈ h.present, f ∈ s.dirs ∧ (h.dataDir = true ∨ h.clients ≠ none)
  absent : ∀ f ∈ h.absent, f ∉ s.connected ∧ h.clients ≠ none

/-- What the tasks of a wallet hold and know. -/
def tracking : Tracking TaskId Op Op.Ret Unit State Held where
  next i := Held.next (decide (i = .view))
  start := .nothing
  done _ h := h.dataDir = false ∧ h.clients = none
  inv := Consistent
  agrees := Agrees

section Agreement
variable {i j : TaskId} {s s' : State} {h h' : Held} {f : FederationId} {v : Bool}

theorem Mode.conflict_write (m : Mode) : m.Conflict .write := by cases m <;> trivial

theorem Agrees.holds_clients (ha : Agrees i s h) : s.clients.Holds i ↔ h.clients ≠ none := by
  rw [Option.ne_none_iff_exists']
  exact exists_congr ha.clients

/-- Whoever holds no guard agrees with nothing. -/
theorem agrees_nothing (hdir : ¬ s.dataDir.Holds i) (hclients : ¬ s.clients.Holds i) :
    Agrees i s .nothing := by
  refine ⟨?_, fun m => ?_, fun f hf => (by cases hf), fun f hf => (by cases hf)⟩
  · simpa [Held.nothing] using hdir
  · simpa [Held.nothing] using fun hm => hclients ⟨m, hm⟩

/-- What a task knows stays so while its guards keep others from changing it. -/
theorem Agrees.frame (ha : Agrees j s h) (hdir : s'.dataDir.Holds j ↔ s.dataDir.Holds j)
    (hclients : ∀ m, (j, m) ∈ s'.clients.held ↔ (j, m) ∈ s.clients.held)
    (hdirs : s.dataDir.Holds j ∨ s.clients.Holds j → s.dirs ⊆ s'.dirs)
    (hconnected : s.clients.Holds j → s'.connected ⊆ s.connected) : Agrees j s' h := by
  refine ⟨hdir.trans ha.dataDir, fun m => (hclients m).trans (ha.clients m), fun f hf => ?_,
    fun f hf => ?_⟩
  · obtain ⟨hmem, hguard⟩ := ha.present f hf
    have hholds := hguard.imp ha.dataDir.mpr ha.holds_clients.mpr
    exact ⟨hdirs hholds hmem, hguard⟩
  · obtain ⟨hmem, hguard⟩ := ha.absent f hf
    exact ⟨fun hf' => hmem (hconnected (ha.holds_clients.mpr hguard) hf'), hguard⟩

/-- A task that holds the clients for writing is alone with them. -/
theorem Consistent.alone (hs : Consistent s) (hi : (i, .write) ∈ s.clients.held)
    (hj : s.clients.Holds j) : j = i := by
  obtain ⟨m, hm⟩ := hj
  exact hs.clients j m i .write hm hi m.conflict_write

/-- **A step of the task `i` that leaves the locks.** It may remove a directory under both guards only,
and add a client under the one for writing only. -/
theorem frames_contents (hs : Consistent s) (hdir : s'.dataDir = s.dataDir)
    (hclients : s'.clients = s.clients)
    (hdirs : s.dirs ⊆ s'.dirs ∨ s.dataDir.Holds i ∧ (i, .write) ∈ s.clients.held)
    (hconnected : s'.connected ⊆ s.connected ∨ (i, .write) ∈ s.clients.held) :
    tracking.Frames i s s' := by
  intro j h hj ha
  refine ha.frame (by rw [hdir]) (fun m => by rw [hclients]) (fun hguard => ?_) fun hguard => ?_
  · rcases hdirs with hdirs | ⟨hi, hi'⟩
    · exact hdirs
    · rcases hguard with hguard | hguard
      · exact absurd (hs.dataDir j i hguard hi) hj
      · exact absurd (hs.alone hi' hguard) hj
  · rcases hconnected with hconnected | hi
    · exact hconnected
    · exact absurd (hs.alone hi hguard) hj

/-- A step of the task `i` on the locks. -/
theorem frames_locks (hdir : s.dataDir.Moved i s'.dataDir)
    (hclients : ∀ j m, j ≠ i → ((j, m) ∈ s'.clients.held ↔ (j, m) ∈ s.clients.held))
    (hdirs : s'.dirs = s.dirs) (hconnected : s'.connected = s.connected) :
    tracking.Frames i s s' := by
  intro j h hj ha
  refine ha.frame (hdir.others j hj) (fun m => hclients j m hj) (fun _ => ?_) fun _ => ?_
  · rw [hdirs]
  · rw [hconnected]

/-! ### Operations -/

/-- A step of the task `i` keeps the invariant and what the others know, and `i` knows `h` then. -/
structure Advances (i : TaskId) (s s' : State) (h : Held) : Prop where
  inv : Consistent s'
  agrees : Agrees i s' h
  frames : tracking.Frames i s s'

theorem advances_lock {L : FairLock TaskId Unit} (hs : Consistent s) (ha : Agrees i s h)
    (hL : FairLock.Grants Exclusive i () s.dataDir L) :
    Advances i s { s with dataDir := L } { h with dataDir := true } := by
  have hfree : ∀ j, ¬ s.dataDir.Holds j := fun j ⟨m, hm⟩ => hL.free_of hm trivial
  refine ⟨⟨fun j j' hj hj' => ?_, hs.clients, hs.dirs⟩, ⟨?_, ha.clients, fun f hf => ?_, ha.absent⟩,
    frames_locks hL.moved (fun _ _ _ => Iff.rfl) rfl rfl⟩
  · rcases hL.holds.mp hj with rfl | hj
    · rcases hL.holds.mp hj' with rfl | hj'
      · rfl
      · exact absurd hj' (hfree j')
    · exact absurd hj (hfree j)
  · simp [hL.holds]
  · exact ⟨(ha.present f hf).1, .inl rfl⟩

theorem advances_unlock (hs : Consistent s) (ha : Agrees i s h) :
    Advances i s { s with dataDir := s.dataDir.release i }
      { h with dataDir := false, present := if h.clients.isSome then h.present else [] } := by
  refine ⟨⟨fun j j' hj hj' => ?_, hs.clients, hs.dirs⟩, ⟨?_, ha.clients, fun f hf => ?_, ha.absent⟩,
    frames_locks FairLock.moved_release (fun _ _ _ => Iff.rfl) rfl rfl⟩
  · exact hs.dataDir j j' (FairLock.holds_release.mp hj).2 (FairLock.holds_release.mp hj').2
  · simp
  · split_ifs at hf with hsome
    · exact ⟨(ha.present f hf).1, .inr (Option.isSome_iff_ne_none.mp hsome)⟩
    · cases hf

theorem advances_take {m : Mode} {L : FairLock TaskId Mode} (hs : Consistent s) (ha : Agrees i s h)
    (hnone : h.clients = none) (hL : FairLock.Grants Mode.Conflict i m s.clients L) :
    Advances i s { s with clients := L } { h with clients := some m } := by
  have hfree : ∀ j m', (j, m') ∈ s.clients.held → ¬ m.Conflict m' := fun j m' hj => hL.free_of hj
  have hsymm : ∀ {m m' : Mode}, m.Conflict m' → m'.Conflict m := fun {m m'} hm => by
    cases m <;> cases m' <;> trivial
  have hmem : ∀ j m', (j, m') ∈ L.held ↔ (j = i ∧ m' = m) ∨ (j, m') ∈ s.clients.held := fun j m' => by
    rw [hL.mem_held, Prod.mk.injEq]
  refine ⟨⟨hs.dataDir, fun j mj j' mj' hj hj' hconflict => ?_, hs.dirs⟩,
    ⟨ha.dataDir, fun m' => ?_, fun f hf => ?_, fun f hf => ?_⟩,
    frames_locks (.refl i _) (fun j m' hj => ?_) rfl rfl⟩
  · rcases (hmem j mj).mp hj with ⟨rfl, rfl⟩ | hj
    · rcases (hmem j' mj').mp hj' with ⟨rfl, rfl⟩ | hj'
      · rfl
      · exact absurd hconflict (hfree j' mj' hj')
    · rcases (hmem j' mj').mp hj' with ⟨rfl, rfl⟩ | hj'
      · exact absurd (hsymm hconflict) (hfree j mj hj)
      · exact hs.clients j mj j' mj' hj hj' hconflict
  · rw [hmem, ha.clients, hnone]
    simp [eq_comm]
  · obtain ⟨hmem, hguard⟩ := ha.present f hf
    exact ⟨hmem, .inr (Option.some_ne_none m)⟩
  · exact absurd hnone (ha.absent f hf).2
  · rw [hmem]
    simp [hj]

theorem advances_drop (hs : Consistent s) (ha : Agrees i s h) :
    Advances i s { s with clients := s.clients.release i }
      { h with clients := none, absent := [], present := if h.dataDir then h.present else [] } := by
  refine ⟨⟨hs.dataDir, fun j m j' m' hj hj' => ?_, hs.dirs⟩,
    ⟨ha.dataDir, fun m => ?_, fun f hf => ?_, fun f hf => (by cases hf)⟩,
    frames_locks (.refl i _) (fun j m hj => ?_) rfl rfl⟩
  · exact hs.clients j m j' m' (FairLock.mem_held_release.mp hj).2 (FairLock.mem_held_release.mp hj').2
  · simp
  · split_ifs at hf with hdir
    · exact ⟨(ha.present f hf).1, .inl hdir⟩
    · cases hf
  · simp [hj]

/-- A step on the contents: what the task knows afterwards is so. -/
theorem advances_contents (hs : Consistent s) (ha : Agrees i s h) (hdir : s'.dataDir = s.dataDir)
    (hclients : s'.clients = s.clients)
    (hdirs : s.dirs ⊆ s'.dirs ∨ s.dataDir.Holds i ∧ (i, .write) ∈ s.clients.held)
    (hconnected : s'.connected ⊆ s.connected ∨ (i, .write) ∈ s.clients.held)
    (hsub : s'.connected ⊆ s'.dirs) (hsame : h'.dataDir = h.dataDir) (hsame' : h'.clients = h.clients)
    (hpresent : ∀ f ∈ h'.present, f ∈ s'.dirs ∧ (h.dataDir = true ∨ h.clients ≠ none))
    (habsent : ∀ f ∈ h'.absent, f ∉ s'.connected ∧ h.clients ≠ none) : Advances i s s' h' := by
  refine ⟨⟨?_, ?_, hsub⟩, ⟨?_, fun m => ?_, fun f hf => ?_, fun f hf => ?_⟩,
    frames_contents hs hdir hclients hdirs hconnected⟩
  · rw [hdir]
    exact hs.dataDir
  · rw [hclients]
    exact hs.clients
  · rw [hdir, hsame]
    exact ha.dataDir
  · rw [hclients, hsame']
    exact ha.clients m
  · rw [hsame, hsame']
    exact hpresent f hf
  · rw [hsame']
    exact habsent f hf

/-- An operation that changes none of what the tasks know. -/
theorem advances_same (hs : Consistent s) (ha : Agrees i s h) (hdir : s'.dataDir = s.dataDir)
    (hclients : s'.clients = s.clients) (hdirs : s'.dirs = s.dirs)
    (hconnected : s'.connected = s.connected) : Advances i s s' h := by
  refine advances_contents hs ha hdir hclients (.inl ?_) (.inl ?_) ?_ rfl rfl ?_ ?_
  · rw [hdirs]
  · rw [hconnected]
  · rw [hdirs, hconnected]
    exact hs.dirs
  · rw [hdirs]
    exact ha.present
  · rw [hconnected]
    exact ha.absent

/-- The task learns that some federations have directories. -/
theorem advances_learn {l : List FederationId} (hs : Consistent s) (ha : Agrees i s h)
    (hdir : h.dataDir = true) (hl : ∀ f ∈ l, f ∈ s.dirs) :
    Advances i s s { h with present := l ++ h.present } := by
  refine advances_contents hs ha rfl rfl (.inl subset_rfl) (.inl subset_rfl) hs.dirs rfl rfl
    (fun f hf => ?_) ha.absent
  rcases List.mem_append.mp hf with hf | hf
  · exact ⟨hl f hf, .inl hdir⟩
  · exact ha.present f hf

theorem advances_insert (hs : Consistent s) (ha : Agrees i s h) (hwrite : h.clients = some .write)
    (hmem : f ∈ h.present) : Advances i s { s with connected := insert f s.connected }
      { h with absent := h.absent.filter (· ≠ f) } := by
  have hdir := (ha.present f hmem).1
  refine advances_contents hs ha rfl rfl (.inl subset_rfl) (.inr ((ha.clients _).mpr hwrite)) ?_ rfl rfl
    ha.present fun g hg => ?_
  · exact Finset.insert_subset hdir hs.dirs
  · obtain ⟨hg, hne⟩ := List.mem_filter.mp hg
    have hne : g ≠ f := by simpa using hne
    obtain ⟨habsent, hguard⟩ := ha.absent g hg
    exact ⟨fun hmem => (Finset.mem_insert.mp hmem).elim hne habsent, hguard⟩

theorem advances_remove (hs : Consistent s) (ha : Agrees i s h) (hwrite : h.clients = some .write) :
    Advances i s { s with connected := s.connected.erase f }
      { h with
        absent := f :: h.absent
        present := if decide (f ∈ s.connected) then f :: h.present else h.present } := by
  have hguard : h.clients ≠ none := by rw [hwrite]; exact Option.some_ne_none _
  have herase := Finset.erase_subset f s.connected
  refine advances_contents hs ha rfl rfl (.inl subset_rfl) (.inl herase) (herase.trans hs.dirs) rfl rfl
    (fun g hg => ?_) fun g hg => ?_
  · split_ifs at hg with hf
    · rcases List.mem_cons.mp hg with rfl | hg
      · exact ⟨hs.dirs (of_decide_eq_true hf), .inr hguard⟩
      · exact ha.present g hg
    · exact ha.present g hg
  · rcases List.mem_cons.mp hg with rfl | hg
    · exact ⟨Finset.notMem_erase g s.connected, hguard⟩
    · exact ⟨fun hmem => (ha.absent g hg).1 (herase hmem), hguard⟩

theorem advances_makeDir (hs : Consistent s) (ha : Agrees i s h) (hdir : h.dataDir = true) :
    Advances i s (s.makeDir f) { h with present := f :: h.present } := by
  have hsub := Finset.subset_insert f s.dirs
  refine advances_contents hs ha rfl rfl (.inl hsub) (.inl subset_rfl) (hs.dirs.trans hsub) rfl rfl
    (fun g hg => ?_) ha.absent
  rcases List.mem_cons.mp hg with rfl | hg
  · exact ⟨Finset.mem_insert_self g s.dirs, .inl hdir⟩
  · exact ⟨hsub (ha.present g hg).1, (ha.present g hg).2⟩

theorem advances_removeDir (hs : Consistent s) (ha : Agrees i s h) (hdir : h.dataDir = true)
    (hwrite : h.clients = some .write) (hmem : f ∈ h.absent) :
    Advances i s (s.removeDir f) { h with present := h.present.filter (· ≠ f) } := by
  have hguards := And.intro (ha.dataDir.mpr hdir) ((ha.clients _).mpr hwrite)
  refine advances_contents hs ha rfl rfl (.inr hguards) (.inl subset_rfl) (fun g hg => ?_) rfl rfl
    (fun g hg => ?_) ha.absent
  · refine Finset.mem_erase.mpr ⟨fun heq => ?_, hs.dirs hg⟩
    exact (ha.absent f hmem).1 (heq ▸ hg)
  · obtain ⟨hg, hne⟩ := List.mem_filter.mp hg
    have hne : g ≠ f := by simpa using hne
    exact ⟨Finset.mem_erase.mpr ⟨hne, (ha.present g hg).1⟩, (ha.present g hg).2⟩

/-- Whoever knows more knows less. -/
theorem Advances.less (h₁ : Advances i s s' h) (hdir : h'.dataDir = h.dataDir)
    (hclients : h'.clients = h.clients) (hpresent : h'.present ⊆ h.present)
    (habsent : h'.absent ⊆ h.absent) : Advances i s s' h' := by
  refine ⟨h₁.inv, ⟨?_, fun m => ?_, fun f hf => ?_, fun f hf => ?_⟩, h₁.frames⟩
  · rw [hdir]
    exact h₁.agrees.dataDir
  · rw [hclients]
    exact h₁.agrees.clients m
  · rw [hdir, hclients]
    exact h₁.agrees.present f (hpresent hf)
  · rw [hclients]
    exact h₁.agrees.absent f (habsent hf)

theorem next_if {p : Prop} [Decidable p] (hn : (if p then some h else none) = some h') :
    p ∧ h' = h := by
  split_ifs at hn with hp
  exact ⟨hp, (Option.some.inj hn).symm⟩

theorem next_unless {p : Prop} [Decidable p] (hn : (if p then none else some h) = some h') :
    ¬ p ∧ h' = h := by
  split_ifs at hn with hp
  exact ⟨hp, (Option.some.inj hn).symm⟩

theorem next_unless_or {a b : Bool} (hn : (if a || b then none else some h) = some h') : b = false := by
  have hor := (next_unless hn).1
  rw [Bool.or_eq_true, not_or] at hor
  exact Bool.eq_false_iff.mpr hor.2

/-- **An operation of the task `i`.** -/
theorem advances_exec {op : Op} {r : op.Ret} (hs : Consistent s) (ha : Agrees i s h)
    (hn : h.next v op r = some h') (he : exec i op s r s') : Advances i s s' h' := by
  cases op
  case dataDirLock =>
    obtain ⟨L, hL, rfl⟩ := he
    obtain ⟨-, rfl⟩ := next_unless hn
    exact advances_lock hs ha hL
  case dataDirRelease =>
    obtain rfl := he
    obtain rfl := Option.some.inj hn
    exact advances_unlock hs ha
  case clientsRead =>
    obtain ⟨L, hL, rfl⟩ := he
    obtain ⟨hnone, rfl⟩ := next_unless hn
    exact advances_take hs ha (by simpa using hnone) hL
  case clientsWrite =>
    obtain ⟨L, hL, rfl⟩ := he
    obtain ⟨hnone, rfl⟩ := next_unless hn
    exact advances_take hs ha (by simpa using hnone) hL
  case clientsRelease =>
    obtain rfl := he
    obtain rfl := Option.some.inj hn
    exact advances_drop hs ha
  case clientsContains =>
    obtain ⟨rfl, -⟩ := he
    obtain ⟨-, rfl⟩ := next_if hn
    exact advances_same hs ha rfl rfl rfl rfl
  case clientsIter =>
    obtain ⟨rfl, -⟩ := he
    obtain ⟨-, rfl⟩ := next_if hn
    exact advances_same hs ha rfl rfl rfl rfl
  case clientsInsert f =>
    obtain rfl := he
    obtain ⟨⟨hwrite, hmem⟩, rfl⟩ := next_if hn
    exact advances_insert hs ha hwrite hmem
  case clientsRemove f =>
    obtain ⟨rfl, rfl⟩ := he
    obtain ⟨hwrite, rfl⟩ := next_if hn
    exact advances_remove hs ha hwrite
  case isDir p =>
    cases p
    case federationDir f =>
      obtain ⟨rfl, rfl⟩ := he
      obtain ⟨hdir, rfl⟩ := next_if hn
      by_cases hf : f ∈ s'.dirs
      · rw [if_pos (decide_eq_true hf)]
        exact advances_learn (l := [f]) hs ha hdir (by simpa using hf)
      · rw [if_neg (by simpa using hf)]
        exact advances_same hs ha rfl rfl rfl rfl
    all_goals
      obtain rfl := he
      simp only [Held.next] at hn
      obtain ⟨-, rfl⟩ := next_if hn
      exact advances_same hs ha rfl rfl rfl rfl
  case readDir p =>
    cases p
    case clientsDataDir =>
      obtain ⟨rfl, hl⟩ := he
      cases r with
      | error e =>
        obtain ⟨-, rfl⟩ := next_if hn
        exact advances_same hs ha rfl rfl rfl rfl
      | ok l =>
        obtain ⟨hdir, rfl⟩ := next_if hn
        exact advances_learn hs ha hdir fun f hf => (hl l rfl f).mp (mem_filterMap_federationOfName.mp hf)
    all_goals
      obtain rfl := he
      simp only [Held.next] at hn
      obtain ⟨-, rfl⟩ := next_if hn
      exact advances_same hs ha rfl rfl rfl rfl
  case dbOpen f =>
    cases r with
    | ok a =>
      obtain ⟨hdir, rfl⟩ := next_if hn
      obtain ⟨-, rfl⟩ | ⟨⟨e, he⟩, -⟩ := he
      · exact advances_makeDir hs ha hdir
      · cases he
    | error e =>
      obtain ⟨hdir, rfl⟩ := next_if hn
      obtain ⟨he, -⟩ | ⟨-, rfl | rfl⟩ := he
      · cases he
      · exact advances_same hs ha rfl rfl rfl rfl
      · exact (advances_makeDir hs ha hdir).less rfl rfl (List.subset_cons_self _ _)
          (List.Subset.refl _)
  case removeDirAll p =>
    cases p
    case federationDir f =>
      obtain ⟨⟨hdir, hwrite, hmem⟩, rfl⟩ := next_if hn
      have hless : h.present.filter (· ≠ f) ⊆ h.present := fun g hg => (List.mem_filter.mp hg).1
      obtain ⟨-, rfl⟩ | ⟨-, rfl | rfl⟩ := he
      · exact advances_removeDir hs ha hdir hwrite hmem
      · exact (advances_same hs ha rfl rfl rfl rfl).less rfl rfl hless (List.Subset.refl _)
      · exact advances_removeDir hs ha hdir hwrite hmem
    all_goals
      obtain rfl := he
      simp only [Held.next] at hn
      obtain ⟨-, rfl⟩ := next_if hn
      exact advances_same hs ha rfl rfl rfl rfl
  case forceUpdateSend =>
    obtain ⟨-, rfl⟩ := next_unless hn
    rcases he with ⟨-, -, -, n, -, rfl⟩ | ⟨-, -, rfl⟩ <;> exact advances_same hs ha rfl rfl rfl rfl
  case forceUpdateRecv =>
    obtain ⟨-, rfl⟩ := next_unless hn
    obtain ⟨rfl, -⟩ := he
    exact advances_same hs ha rfl rfl rfl rfl
  case forceUpdateWait =>
    obtain ⟨-, rfl⟩ := next_if hn
    obtain ⟨-, ⟨n, rest, -, -, rfl⟩ | ⟨-, rfl⟩⟩ := he <;> exact advances_same hs ha rfl rfl rfl rfl
  case forceUpdateReply =>
    obtain ⟨-, rfl⟩ := next_if hn
    obtain ⟨-, rfl⟩ := he
    exact advances_same hs ha rfl rfl rfl rfl
  case viewSend =>
    obtain ⟨-, rfl⟩ := next_if hn
    obtain ⟨-, ⟨-, rfl⟩ | ⟨-, rfl⟩⟩ := he <;> exact advances_same hs ha rfl rfl rfl rfl
  all_goals
    obtain rfl := he
    simp only [Held.next] at hn
    obtain ⟨-, rfl⟩ := next_if hn
    exact advances_same hs ha rfl rfl rfl rfl

/-- What is left of an operation at which the task `i` is dropped. -/
theorem advances_left {op : Op} {t : State} (hs : Consistent s) (ha : Agrees i s h)
    (hn : ∀ r, ∃ h', h.next v op r = some h') (hl : left op s t) : ∃ h', Advances i s t h' := by
  cases op
  case dbOpen f =>
    obtain ⟨h', hn⟩ := hn (.ok ())
    obtain ⟨hdir, -⟩ := next_if hn
    obtain rfl | rfl := hl
    · exact ⟨h, advances_same hs ha rfl rfl rfl rfl⟩
    · exact ⟨_, advances_makeDir hs ha hdir⟩
  case removeDirAll p =>
    cases p
    case federationDir f =>
      obtain ⟨h', hn⟩ := hn (.ok ())
      obtain ⟨⟨hdir, hwrite, hmem⟩, -⟩ := next_if hn
      obtain rfl | rfl := hl
      · exact ⟨h, advances_same hs ha rfl rfl rfl rfl⟩
      · exact ⟨_, advances_removeDir hs ha hdir hwrite hmem⟩
    all_goals
      obtain rfl := hl
      exact ⟨h, advances_same hs ha rfl rfl rfl rfl⟩
  all_goals
    obtain rfl := hl
    exact ⟨h, advances_same hs ha rfl rfl rfl rfl⟩

/-- A task that is gone has dropped its guards. -/
theorem advances_abandon (hs : Consistent s) (hdir : s'.dataDir = s.dataDir.leave i)
    (hclients : s'.clients = s.clients.leave i) (hdirs : s'.dirs = s.dirs)
    (hconnected : s'.connected = s.connected) : Advances i s s' .nothing := by
  refine ⟨⟨fun j j' hj hj' => ?_, fun j m j' m' hj hj' => ?_, ?_⟩, agrees_nothing ?_ ?_,
    frames_locks ?_ (fun j m hj => ?_) hdirs hconnected⟩
  · rw [hdir] at hj hj'
    exact hs.dataDir j j' (FairLock.holds_leave.mp hj).2 (FairLock.holds_leave.mp hj').2
  · rw [hclients] at hj hj'
    exact hs.clients j m j' m' (FairLock.mem_held_leave.mp hj).2 (FairLock.mem_held_leave.mp hj').2
  · rw [hdirs, hconnected]
    exact hs.dirs
  · simp [hdir]
  · simp [hclients]
  · rw [hdir]
    exact FairLock.moved_leave
  · simp [hclients, hj]

end Agreement

/-! ### Pools -/

section Wallets
variable {J : Serde} {secret : Mnemonic}

theorem consistent_dropped {s : State} (hs : Consistent s) : Consistent s.dropped :=
  ⟨fun _ _ hj => absurd hj FairLock.not_holds_free,
    fun _ _ _ _ hj => absurd hj FairLock.not_mem_held_free, hs.dirs⟩

theorem consistent_ask {i : TaskId} {op : Op} {s s' : State} (hs : Consistent s) (ha : ask i op s s') :
    Consistent s' := by
  cases op
  case dataDirLock => obtain ⟨-, rfl⟩ := ha; exact ⟨hs.dataDir, hs.clients, hs.dirs⟩
  case clientsRead => obtain ⟨-, rfl⟩ := ha; exact ⟨hs.dataDir, hs.clients, hs.dirs⟩
  case clientsWrite => obtain ⟨-, rfl⟩ := ha; exact ⟨hs.dataDir, hs.clients, hs.dirs⟩
  all_goals exact ha.elim

theorem Agrees.ask {i j : TaskId} {op : Op} {s s' : State} {h : Held} (hj : Agrees j s h)
    (ha : ask i op s s') : Agrees j s' h := by
  cases op
  case dataDirLock => obtain ⟨-, rfl⟩ := ha; exact ⟨hj.dataDir, hj.clients, hj.present, hj.absent⟩
  case clientsRead => obtain ⟨-, rfl⟩ := ha; exact ⟨hj.dataDir, hj.clients, hj.present, hj.absent⟩
  case clientsWrite => obtain ⟨-, rfl⟩ := ha; exact ⟨hj.dataDir, hj.clients, hj.present, hj.absent⟩
  all_goals exact ha.elim

/-- **Every step of a wallet keeps what its tasks know**, whoever asks and whoever is unwound. -/
theorem tracking_sound (J : Serde) (secret : Mnemonic) : tracking.Sound (wallet J secret).loose where
  run hs ha hn he :=
    have hadv := advances_exec hs ha hn he
    ⟨hadv.inv, hadv.agrees, hadv.frames⟩
  cut := by
    rintro i op h s s' hs ha hn ⟨n, t, -, hl, rfl⟩
    obtain ⟨h', hleft⟩ := advances_left hs ha hn hl
    have hadv : Advances i t (t.abandon i) .nothing := advances_abandon hleft.inv rfl rfl rfl rfl
    exact ⟨hadv.inv, hadv.agrees, hleft.frames.trans hadv.frames⟩
  spawn := by
    rintro i p s s' hs ha ⟨n, c, rfl, rfl, -, rfl⟩
    have hframes : tracking.Frames (.call n) s { s with begun := n :: s.begun } :=
      frames_contents hs rfl rfl (.inl subset_rfl) (.inl subset_rfl)
    refine ⟨⟨hs.dataDir, hs.clients, hs.dirs⟩, ?_, typed_program J secret c, hframes⟩
    exact ha.frame Iff.rfl (fun _ => Iff.rfl) (fun _ => subset_rfl) fun _ => subset_rfl
  env := by
    rintro s s' dead hs (⟨rfl, hdead⟩ | ⟨⟨i, op, ha⟩, hdead⟩ | ⟨i, rfl, hdead⟩)
    · refine ⟨consistent_dropped hs, fun j _ => ?_, fun j h hj => ?_⟩
      · exact agrees_nothing FairLock.not_holds_free FairLock.not_holds_free
      · cases (hdead j).symm.trans hj
    · exact ⟨consistent_ask hs ha, fun j hj => (by cases (hdead j).symm.trans hj),
        fun _ _ _ hj => hj.ask ha⟩
    · have hadv : Advances i s (s.unwind i) .nothing := advances_abandon hs rfl rfl rfl rfl
      refine ⟨hadv.inv, fun j hj => ?_, fun j h hj ha => ?_⟩
      · obtain rfl := of_decide_eq_true ((hdead j).symm.trans hj)
        exact hadv.agrees
      · have hne := of_decide_eq_false ((hdead j).symm.trans hj)
        exact hadv.frames j h hne ha

theorem known_opened (iterations : ℕ) (connected others : Finset FederationId) :
    tracking.Known (opened iterations connected others) := by
  have hfree : ∀ i, Agrees i (State.idle connected others) .nothing := fun i =>
    agrees_nothing FairLock.not_holds_free FairLock.not_holds_free
  refine ⟨⟨fun _ _ hj => absurd hj FairLock.not_holds_free,
    fun _ _ _ _ hj => absurd hj FairLock.not_mem_held_free, Finset.subset_union_left⟩, fun i => ?_⟩
  show tracking.Follows _ i (if i = .view then some (Wallet.viewUpdateTask iterations none) else none)
  split_ifs with hi
  · subst hi
    exact ⟨.nothing, hfree _, typed_viewUpdateTask iterations none⟩
  · exact hfree i

/-- **In every run of a wallet the tasks have the guards that they need.** -/
theorem known_moves {G : Tasks → TaskId → Op → Prop} {iterations : ℕ}
    {connected others : Finset FederationId} {P : Tasks}
    (h : Moves (wallet J secret) G (opened iterations connected others) P) : tracking.Known P :=
  Tracking.known_steps (tracking_sound J secret) (known_opened iterations connected others)
    (steps_of_moves h)

end Wallets

/-! ### A leave and a join -/

namespace Leaving

def federation : FederationId := ⟨.replicate 32 1⟩

def invitation : InviteCode := ⟨⟨.replicate 32 2⟩, []⟩

def other : FederationId := ⟨.replicate 32 3⟩

def secret : Mnemonic := ⟨.replicate 16 0⟩

/-- The call `n` holds the lock on the clients, and is about to remove the client from the map. -/
def removing (s : State) (n : ℕ) : State := { s with clients := ⟨[(.call n, .write)], []⟩ }

/-- It has removed the client from the map. -/
def removed (s : State) (n : ℕ) : State :=
  { removing s n with connected := s.connected.erase federation }

/-- The call `n` holds the mutex, and is about to make the directory of the other federation. -/
def opening (s : State) (n : ℕ) : State := { s with dataDir := ⟨[(.call n, ())], []⟩ }

/-- It has made the directory. -/
def joined (s : State) (n : ℕ) : State :=
  { opening s n with dirs := insert invitation.federationId s.dirs }

/-- The call `n` leaves the federation: it is about to remove the client, and then to ask for the
mutex. -/
theorem begins_leave {s : State} {n : ℕ} (hs : federation ∈ s.connected) : ∃ k k' k'',
    (Call.leaveFederation federation).program .framed secret = .await .clientsWrite k ∧
    Begins operations (.call n) (.await .clientsWrite k)
      { s with clients := ⟨[], [(.call n, .write)]⟩ } (.await (.clientsRemove federation) k')
      (removing s n) ∧
    Begins operations (.call n) (.await (.clientsRemove federation) k') (removing s n)
      (.await .dataDirLock k'') (removed s n) := by
  apply Exists.intro
  apply Exists.intro
  apply Exists.intro
  refine ⟨rfl, ?_, ?_⟩
  · refine begins_next .clientsWrite () (removing s n) ⟨_, ⟨[], rfl, by simp, rfl⟩, rfl⟩ ?_
    exact .refl _ _
  · refine begins_next (.clientsRemove federation) true (removed s n)
      ⟨rfl, (decide_eq_true hs).symm⟩ ?_
    refine begins_next (.clientBalance federation) (.ok 0) _ rfl ?_
    refine begins_next (.clientShutdown federation) () _ rfl ?_
    exact .refl _ _

/-- The call `n` joins a federation: it is about to make the directory, and then to ask for the lock on
the clients. -/
theorem begins_join {s : State} {n : ℕ} (hs : invitation.federationId ∉ s.dirs) : ∃ k k' k'',
    (Call.setDefaultFederation invitation).program .framed secret = .await .dataDirLock k ∧
    Begins operations (.call n) (.await .dataDirLock k)
      { s with dataDir := ⟨[], [(.call n, ())]⟩ } (.await (.dbOpen invitation.federationId) k')
      (opening s n) ∧
    Begins operations (.call n) (.await (.dbOpen invitation.federationId) k') (opening s n)
      (.await .clientsWrite k'') (joined s n) := by
  apply Exists.intro
  apply Exists.intro
  apply Exists.intro
  refine ⟨rfl, ?_, ?_⟩
  · refine begins_next .dataDirLock () (opening s n) ⟨_, ⟨[], rfl, by simp, rfl⟩, rfl⟩ ?_
    refine begins_next (.isDir _) false _ ⟨rfl, (decide_eq_false hs).symm⟩ ?_
    exact .refl _ _
  · refine begins_next (.dbOpen _) (.ok ()) (joined s n) (.inl ⟨rfl, rfl⟩) ?_
    refine begins_next (.dbIsInitialized _) false _ rfl ?_
    refine begins_next .clientBuilder (.ok ()) _ rfl ?_
    refine begins_next .clientConnectors (.ok ()) _ rfl ?_
    refine begins_next (.clientPreview _) (.ok ()) _ rfl ?_
    refine begins_next (.clientJoin _ _) (.ok ()) _ rfl ?_
    exact .refl _ _

/-- The wallet has two federations. -/
def start : Tasks := opened 1 {federation, other} ∅

/-- The call `0` has started. -/
def started : State := { start.st with begun := [0] }

/-- The call `0` leaves the federation, and the call `1` has started. -/
def leaving : State := { removed started 0 with begun := [1, 0] }

theorem mem_started : federation ∈ started.connected := by simp [started, start, opened, State.idle]

theorem not_mem_start : invitation.federationId ∉ start.st.dirs := by
  have hne : invitation.federationId ≠ federation := by decide
  have hne' : invitation.federationId ≠ other := by decide
  simp [start, opened, State.idle, hne, hne']

theorem not_mem_leaving : invitation.federationId ∉ leaving.dirs := not_mem_start

/-- The call `0` leaves the federation and the call `1` joins one, up to what `q₀` and `q₁` are left. -/
theorem moves_both {k₀ : Op.clientsWrite.Ret → Fut Unit} {k₁ : Op.dataDirLock.Ret → Fut Unit}
    {q₀ q₁ : Fut Unit} {s s' : State}
    (hp₀ : (Call.leaveFederation federation).program .framed secret = .await .clientsWrite k₀)
    (hp₁ : (Call.setDefaultFederation invitation).program .framed secret = .await .dataDirLock k₁)
    (hfree : s.dataDir = .free) (hbegun : s.begun = [0])
    (h₀ : Begins operations (.call 0) (.await .clientsWrite k₀)
      { started with clients := ⟨[], [(.call 0, .write)]⟩ } q₀ s)
    (h₁ : Begins operations (.call 1) (.await .dataDirLock k₁)
      { s with dataDir := ⟨[], [(.call 1, ())]⟩, begun := [1, 0] } q₁ s') :
    Moves (wallet .framed secret) (fun _ _ _ => True) start
      ⟨s', Function.update (Function.update start.task (.call 0) (some q₀)) (.call 1) (some q₁)⟩ := by
  have hs₀ : (wallet .framed secret).spawn (.call 0) (.await .clientsWrite k₀) start.st started :=
    ⟨0, .leaveFederation federation, rfl, hp₀.symm, List.not_mem_nil, rfl⟩
  have ha₀ : (wallet .framed secret).ask (.call 0) .clientsWrite started
      { started with clients := started.clients.ask (.call 0) .write } := ⟨List.not_mem_nil, rfl⟩
  have hleave := moves_of_start (G := fun _ _ _ => True) hs₀ (f := start.task) rfl ha₀ trivial h₀
  have hs₁ : (wallet .framed secret).spawn (.call 1) (.await .dataDirLock k₁) s
      { s with begun := [1, 0] } :=
    ⟨1, .setDefaultFederation invitation, rfl, hp₁.symm, by simp [hbegun], by rw [hbegun]⟩
  have ha₁ : (wallet .framed secret).ask (.call 1) .dataDirLock { s with begun := [1, 0] }
      { s with dataDir := ⟨[], [(.call 1, ())]⟩, begun := [1, 0] } := by
    refine ⟨?_, ?_⟩
    · simp [hfree, FairLock.waiting, FairLock.free]
    · simp [hfree, FairLock.ask, FairLock.free]
  exact hleave.trans (moves_of_start hs₁ rfl ha₁ trivial h₁)

end Leaving

/-! ### Races -/

/-- The operations on the directory of the wallet. -/
def OnDirectory : Op → Prop
  | .isDir (.federationDir _) | .readDir .clientsDataDir | .dbOpen _ => True
  | .removeDirAll (.federationDir _) => True
  | op => onDisk op = true

/-- The operations that change the map of clients. -/
def ChangesMap : Op → Prop
  | .clientsInsert _ | .clientsRemove _ => True
  | _ => False

/-- The operations on the map of clients and on its clients. -/
def OnMap (op : Op) : Prop := ChangesMap op ∨ onClients op = true

section Races
variable {J : Serde} {secret : Mnemonic} {P : Tasks} {i j : TaskId} {op op' : Op}
  {k : op.Ret → Fut Unit} {k' : op'.Ret → Fut Unit} {h h' : Held} {r : op.Ret} {v : Bool}

theorem nonempty_ret (op : Op) : Nonempty op.Ret := by
  cases op
  all_goals first
    | exact ⟨()⟩
    | exact ⟨true⟩
    | exact ⟨0⟩
    | exact ⟨[]⟩
    | exact ⟨none⟩
    | exact ⟨.error ""⟩
    | exact ⟨.replicate 32 0⟩
    | exact ⟨⟨.replicate 33 0⟩⟩
    | exact ⟨⟨.replicate 16 0⟩⟩

theorem next_onDirectory (hop : OnDirectory op) (hn : h.next v op r = some h') : h.dataDir = true := by
  cases op
  case isDir p =>
    cases p
    case federationDir f => exact (next_if hn).1
    all_goals cases hop
  case readDir p =>
    cases p
    case clientsDataDir => cases r <;> exact (next_if hn).1
    all_goals cases hop
  case dbOpen f => cases r <;> exact (next_if hn).1
  case removeDirAll p =>
    cases p
    case federationDir f => exact (next_if hn).1.1
    all_goals cases hop
  case pathExists => simpa [onDisk, onClients] using (next_if hn).1
  case readFile => simpa [onDisk, onClients] using (next_if hn).1
  case writeFile => simpa [onDisk, onClients] using (next_if hn).1
  case dbIsInitialized => simpa [onDisk, onClients] using (next_if hn).1
  case clientOpen => simpa [onDisk, onClients] using (next_if hn).1
  case clientJoin => simpa [onDisk, onClients] using (next_if hn).1
  all_goals cases hop

theorem next_changesMap (hop : ChangesMap op) (hn : h.next v op r = some h') :
    h.clients = some .write := by
  cases op
  case clientsInsert f => exact (next_if hn).1.1
  case clientsRemove f => exact (next_if hn).1
  all_goals exact hop.elim

theorem next_onMap (hop : OnMap op) (hn : h.next v op r = some h') : h.clients ≠ none := by
  rcases hop with hop | hop
  · rw [next_changesMap hop hn]
    exact Option.some_ne_none _
  · have hnext : h.next v op r = if (!onDisk op || h.dataDir) && (!onClients op || h.clients.isSome)
        then some h else none := by
      cases op
      all_goals first
        | rfl
        | cases hop
    rw [hnext] at hn
    have hsome : h.clients.isSome = true := by
      have hcond := (next_if hn).1
      simp only [hop, Bool.not_true, Bool.false_or, Bool.and_eq_true] at hcond
      exact hcond.2
    exact Option.isSome_iff_ne_none.mp hsome

/-- What a task that is about to do an operation has. -/
theorem ready_of_known (hP : tracking.Known P) (hi : P.task i = some (.await op k)) :
    ∃ h h' r, Agrees i P.st h ∧ h.next (decide (i = .view)) op r = some h' := by
  obtain ⟨h, hagrees, htracks⟩ := hP.of_task hi
  obtain ⟨r⟩ := nonempty_ret op
  obtain ⟨h', hn, -⟩ := htracks r
  exact ⟨h, h', r, hagrees, hn⟩

/-- **No data races**: of two different tasks, not both are about to use the directory, nor is one about
to change the map of clients while the other is about to use it. -/
theorem no_data_race {G : Tasks → TaskId → Op → Prop} {iterations : ℕ}
    {connected others : Finset FederationId}
    (h : Moves (wallet J secret) G (opened iterations connected others) P) (hij : i ≠ j)
    (hi : P.task i = some (.await op k)) (hj : P.task j = some (.await op' k')) :
    ¬ (OnDirectory op ∧ OnDirectory op') ∧ ¬ (ChangesMap op ∧ OnMap op') := by
  have hP := known_moves h
  obtain ⟨hi₀, hi₁, r, hagrees, hn⟩ := ready_of_known hP hi
  obtain ⟨hj₀, hj₁, r', hagrees', hn'⟩ := ready_of_known hP hj
  refine ⟨fun ⟨hop, hop'⟩ => hij ?_, fun ⟨hop, hop'⟩ => hij ?_⟩
  · have hdir := hagrees.dataDir.mpr (next_onDirectory hop hn)
    have hdir' := hagrees'.dataDir.mpr (next_onDirectory hop' hn')
    exact hP.inv.dataDir i j hdir hdir'
  · have hwrite := (hagrees.clients _).mpr (next_changesMap hop hn)
    have hholds := hagrees'.holds_clients.mpr (next_onMap hop' hn')
    exact (hP.inv.alone hwrite hholds).symm

open Leaving in
/-- While a call is about to remove a client from the map, another one is about to make a directory. -/
theorem no_data_race_joining : ∃ (P : Tasks) (k : Bool → Fut Unit)
    (k' : Except Error Unit → Fut Unit),
    P.task (.call 0) = some (.await (.clientsRemove federation) k) ∧
      P.task (.call 1) = some (.await (.dbOpen invitation.federationId) k') ∧
      ¬ (OnDirectory (.clientsRemove federation) ∧ OnDirectory (.dbOpen invitation.federationId)) ∧
      ¬ (ChangesMap (.clientsRemove federation) ∧ OnMap (.dbOpen invitation.federationId)) := by
  obtain ⟨k₀, k, -, hp₀, hremoving, -⟩ := @begins_leave started 0 mem_started
  obtain ⟨k₁, k', -, hp₁, hopening, -⟩ :=
    @begins_join { removing started 0 with begun := [1, 0] } 1 not_mem_start
  have h := moves_both hp₀ hp₁ rfl rfl hremoving hopening
  have hne : TaskId.call 0 ≠ .call 1 := by decide
  refine ⟨⟨opening { removing started 0 with begun := [1, 0] } 1,
    Function.update (Function.update start.task (.call 0)
      (some (.await (.clientsRemove federation) k))) (.call 1)
      (some (.await (.dbOpen invitation.federationId) k'))⟩, k, k', rfl, rfl, ?_⟩
  exact no_data_race h hne rfl rfl

/-- **Every client has its directory**, in every state that a wallet reaches. -/
theorem connected_dirs {G : Tasks → TaskId → Op → Prop} {iterations : ℕ}
    {connected others : Finset FederationId}
    (h : Moves (wallet J secret) G (opened iterations connected others) P) :
    P.st.connected ⊆ P.st.dirs := (known_moves h).inv.dirs

open Leaving in
/-- While a call leaves a federation, another one has made the directory of the one it joins. -/
theorem connected_dirs_joining : ∃ P : Tasks,
    P.st.clients.Holds (.call 0) ∧ P.st.dataDir.Holds (.call 1) ∧ federation ∉ P.st.connected ∧
      invitation.federationId ∈ P.st.dirs ∧ other ∈ P.st.connected ∧ P.st.connected ⊆ P.st.dirs := by
  obtain ⟨k₀, _, _, hp₀, hremoving, hleft⟩ := @begins_leave started 0 mem_started
  obtain ⟨k₁, _, _, hp₁, hopening, hjoin⟩ := @begins_join leaving 1 not_mem_leaving
  have h := moves_both hp₀ hp₁ rfl rfl (hremoving.trans hleft) (hopening.trans hjoin)
  have hne : other ≠ federation := by decide
  refine ⟨_, ?_, ?_, ?_, ?_, ?_, connected_dirs h⟩
  · simp [joined, opening, leaving, removed, removing, FairLock.Holds]
  · simp [joined, opening, FairLock.Holds]
  · simp [joined, opening, leaving, removed]
  · simp [joined]
  · simp [joined, opening, leaving, removed, removing, started, start, opened, State.idle, hne]

/-- A task that has returned or is gone holds no lock. -/
theorem not_holds_of_ended (hP : tracking.Known P)
    (hi : P.task i = none ∨ P.task i = some (.pure ())) :
    ¬ P.st.dataDir.Holds i ∧ ¬ P.st.clients.Holds i := by
  have hnone : ∃ h, Agrees i P.st h ∧ h.dataDir = false ∧ h.clients = none := by
    rcases hi with hi | hi
    · exact ⟨.nothing, hP.of_gone hi, rfl, rfl⟩
    · exact hP.of_task hi
  obtain ⟨h, hagrees, hdir, hclients⟩ := hnone
  rw [hagrees.dataDir, hagrees.holds_clients, hdir, hclients]
  simp

end Races

end Vendimint.Lock
