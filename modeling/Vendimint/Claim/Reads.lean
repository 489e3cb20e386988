import Vendimint.Async.Track
import Vendimint.Claim.Owner
import Vendimint.Iroh.Uses

/-! # What starts have read

Up to some state a start may have missed the owner file of its machine; from there on every start reads
it.

* `Reading`: whether a start has read the owner, and what it has read.
* `owned_of_sent`: a machine that has sent something since then is owned by the manager it sent to, over
  crashes and restarts. -/

namespace Vendimint.Claim

open Vendimint.Store Vendimint.Async

/-- How far a start is: it has not read the owner, or has read that it is `owner`. -/
inductive Reading
  | begun
  | read (owner : Option EndpointId)
  deriving DecidableEq

/-- What the task `i` has read after an operation. A start takes the owner that it has read, and writes
none. -/
def Reading.next (J : Serde) (i : TaskId) (h : Reading) : (op : Op) → op.Ret → Option Reading
  | .readFile .managerPublicKey, r => some (.read (MachineProtocol.ownerOf J r))
  | .routerSpawn _ owner, _ =>
    match i with
    | .start _ => if h = .read owner then some h else none
    | _ => some h
  | .ownerSet _, _ | .writeFile .managerPublicKey _, _ =>
    match i with
    | .start _ => none
    | _ => some h
  | _, _ => some h

/-- The same, where a start may miss the owner file. -/
def Setting.forgetful (Z : Setting) : Setting := { Z with known := False }

/-- If the machine of `c` has sent something, a start that has read another owner than the manager is
none of its present ones. -/
def Reading.Agrees (Z : Setting) (c : ConnId) (i : TaskId) (s : State) : Reading → Prop
  | .begun => True
  | .read owner => i = .start c.machine → (s.host c.machine).running = false →
    s.toManager c ≠ .empty → Owned Z s c.machine c.manager → owner = some c.manager

/-- What the starts have read, while `c` is served. -/
def readings (Z : Setting) (c : ConnId) : Tracking TaskId Op Op.Ret Result State Reading where
  next := Reading.next Z.serde
  start := .begun
  done _ _ := True
  inv s := s.toManager c ≠ .empty → Owned Z s c.machine c.manager
  agrees := Reading.Agrees Z c

/-- The same, if nothing is known of the past. -/
def pastReadings (J : Serde) : Tracking TaskId Op Op.Ret Result State Reading where
  next := Reading.next J
  start := .begun
  done _ _ := True
  inv _ := True
  agrees _ _ _ := True

/-! ### Programs -/

section Programs
variable {J : Serde} {i : TaskId} {h : Reading} {m : EndpointId}

theorem reading_next (hi : ∀ m, i ≠ .start m) (op : Op) (r : op.Ret) :
    ∃ h', Reading.next J i h op r = some h' := by
  unfold Reading.next
  split
  · exact ⟨_, rfl⟩
  · split
    · exact absurd rfl (hi _)
    · exact ⟨_, rfl⟩
  · split
    · exact absurd rfl (hi _)
    · exact ⟨_, rfl⟩
  · split
    · exact absurd rfl (hi _)
    · exact ⟨_, rfl⟩
  · exact ⟨_, rfl⟩

theorem reading_starting (op : Op) (hop : Starting op) (r : op.Ret) :
    Reading.next J i h op r = some h := by
  unfold Starting at hop
  split at hop
  all_goals first
    | rfl
    | exact hop.elim

/-- A start takes the owner that it has read. -/
theorem tracks_reading : ∀ i : TaskId,
    (program J i).Tracks (Reading.next J i) .begun fun _ _ => True
  | .start m => by
    refine Prog.Tracks.bind (Q := fun _ _ => True) ?_ fun _ _ _ => trivial
    simp only [MachineProtocol.new, Fallible.run_bind]
    refine .andThen (Prog.Tracks.of_uses reading_starting SharedProtocol.uses_new)
      (fun _ _ _ => trivial) ?_
    rintro secretKey h rfl
    simp only [await_eq, Fallible.run_of, Prog.await_bind, Prog.pure_bind]
    intro r
    exact ⟨_, rfl, fun _ => ⟨_, if_pos rfl, trivial⟩⟩
  | .accept _ => .of_total (fun _ => reading_next fun _ h => by cases h) _
  | .claim _ => .of_total (fun _ => reading_next fun _ h => by cases h) _
  | .query _ _ => .of_total (fun _ => reading_next fun _ h => by cases h) _
  | .list _ _ => .of_total (fun _ => reading_next fun _ h => by cases h) _

end Programs

/-! ### Steps -/

section Steps
variable {Z : Setting} {sure : ConnId → Prop} {c : ConnId} {i : TaskId} {s s' : State}
  {P P' : Pool TaskId Op Op.Ret Result State}

/-- Whatever a step does, it does where less is known. -/
theorem effect_forgetful {op : Op} {r : op.Ret} (he : effect Z i op s r s') :
    effect Z.forgetful i op s r s' := by
  cases op with
  | readFile p =>
    cases p with
    | managerPublicKey => exact ⟨he.1, he.2.1, nofun⟩
    | machineDocTicket n => cases n <;> exact he
    | _ => exact he
  | writeFile p b =>
    cases p with
    | machineDocTicket n => cases n <;> exact he
    | _ => exact he
  | isFile p =>
    cases p with
    | machineDocTicket n => cases n <;> exact he
    | _ => exact he
  | readDir p => cases p <;> exact he
  | _ => exact he

theorem claims_forgetful : (claims Z sure).toWorld.Within (claims Z.forgetful sure).toWorld :=
  ⟨fun h => ⟨effect_forgetful h.1, h.2⟩, id⟩

theorem steps_forgetful (h : Steps (claims Z sure) P P') : Steps (claims Z.forgetful sure) P P' :=
  steps_within claims_forgetful id id h

/-- A machine that does not run is changed by its start only. -/
theorem Guards.host_stopped (hi : Inv Z s) (hg : Guards Z i s s') {m : EndpointId}
    (him : i ≠ .start m) (hrun : (s.host m).running = false) : s'.host m = s.host m := by
  rcases hg.host m with h | h | ⟨-, h⟩ | ⟨h, -⟩
  · exact h
  · rw [((hi.hosts m).locked i h).2] at hrun
    cases hrun
  · rw [h] at hrun
    cases hrun
  · exact absurd h him

/-- What the other tasks have read stays. -/
theorem frames_reading (hi : Inv Z.forgetful s) (hg : Guards Z.forgetful i s s') :
    (readings Z c).Frames i s s' := by
  intro j h hji hagrees
  cases h with
  | begun => trivial
  | read owner =>
    rintro rfl hrun' hsent' howned'
    have hrun : (s.host c.machine).running = false := by
      cases h : (s.host c.machine).running with
      | false => rfl
      | true =>
        rw [hg.running _ h] at hrun'
        cases hrun'
    have hhost := hg.host_stopped hi (m := c.machine) (Ne.symm hji) hrun
    have hsent : s'.toManager c = s.toManager c := by
      by_contra hne
      rw [(hg.grants c hne).1] at hrun'
      cases hrun'
    rw [hsent] at hsent'
    exact hagrees rfl hrun hsent' (howned'.congr (by rw [hhost]) (by rw [hhost]) (by rw [hhost]))

/-- The operations that change the owner of a machine. -/
def Owning : Op → Prop
  | .ownerSet _ | .writeFile .managerPublicKey _ | .routerSpawn _ _ => True
  | _ => False

theorem owning_iff {op : Op} : Owning op ↔ (∃ M, op = .ownerSet M) ∨
    (∃ b, op = .writeFile .managerPublicKey b) ∨
    ∃ secretKey owner, op = .routerSpawn secretKey owner := by
  constructor
  · intro hop
    unfold Owning at hop
    split at hop
    · exact Or.inl ⟨_, rfl⟩
    · exact Or.inr (Or.inl ⟨_, rfl⟩)
    · exact Or.inr (Or.inr ⟨_, _, rfl⟩)
    · exact hop.elim
  · rintro (⟨M, rfl⟩ | ⟨b, rfl⟩ | ⟨secretKey, owner, rfl⟩) <;> trivial

/-- The other operations but one read nothing. -/
theorem next_of_not_owning {J : Serde} {h : Reading} {op : Op} (hop : ¬ Owning op)
    (hread : op ≠ .readFile .managerPublicKey) (r : op.Ret) : Reading.next J i h op r = some h := by
  unfold Reading.next
  split
  · exact absurd rfl hread
  · exact absurd trivial hop
  · exact absurd trivial hop
  · exact absurd trivial hop
  · rfl

/-- The machine `m` has the same owner, in memory and in its file, and runs as before. -/
structure SameOwner (m : EndpointId) (s s' : State) : Prop where
  ownerFile : (s'.host m).ownerFile = (s.host m).ownerFile
  owner : (s'.host m).owner = (s.host m).owner
  running : (s'.host m).running = (s.host m).running

theorem sameOwner_of_host {m : EndpointId} (h : s'.host = s.host) : SameOwner m s s' :=
  ⟨by rw [h], by rw [h], by rw [h]⟩

theorem sameOwner_setHost {m m' : EndpointId} {x : Host} (hfile : x.ownerFile = (s.host m').ownerFile)
    (howner : x.owner = (s.host m').owner) (hrun : x.running = (s.host m').running) :
    SameOwner m s (s.setHost m' x) := by
  by_cases hm : m = m'
  · subst hm
    exact ⟨by rw [State.setHost_self, hfile], by rw [State.setHost_self, howner],
      by rw [State.setHost_self, hrun]⟩
  · have hhost := State.setHost_of_ne s m' m x hm
    exact ⟨by rw [hhost], by rw [hhost], by rw [hhost]⟩

/-- The other operations do not. -/
theorem sameOwner_of_effect {op : Op} {r : op.Ret} {m : EndpointId} (hop : ¬ Owning op)
    (he : effect Z i op s r s') : SameOwner m s s' := by
  unfold effect at he
  split at he
  · obtain ⟨-, -, rfl⟩ := he
    exact sameOwner_setHost rfl rfl rfl
  · subst he
    exact sameOwner_setHost rfl rfl rfl
  · exact absurd trivial hop
  · rcases he with ⟨-, rfl⟩ | ⟨-, rfl⟩
    · exact sameOwner_of_host (State.request_host s i)
    · exact sameOwner_of_host rfl
  · rcases he with ⟨-, rfl⟩ | ⟨-, rfl⟩
    · exact sameOwner_of_host (State.answer_host s i)
    · exact sameOwner_of_host rfl
  · exact sameOwner_of_host (by rw [he.1])
  · rcases he with ⟨-, rfl⟩ | ⟨-, p, -, rfl⟩ <;> exact sameOwner_of_host (State.outgoing_host s i _)
  · rcases he with ⟨-, rfl⟩ | ⟨-, rfl⟩
    · exact sameOwner_of_host (State.outgoing_host s i _)
    · exact sameOwner_of_host rfl
  · exact sameOwner_of_host (by rw [he.1])
  · exact sameOwner_of_host (by rw [he.1])
  · rcases he.2 with ⟨-, rfl⟩ | ⟨-, rfl⟩
    · exact sameOwner_of_host rfl
    · exact sameOwner_setHost rfl rfl rfl
  · exact sameOwner_of_host (by rw [he.1])
  · rcases he with ⟨-, rfl⟩ | ⟨-, rfl⟩
    · exact sameOwner_setHost rfl rfl rfl
    · exact sameOwner_of_host rfl
  · exact absurd trivial hop
  · rcases he with ⟨-, rfl⟩ | ⟨-, rfl⟩
    · exact sameOwner_of_host (State.putTicket_host ..)
    · exact sameOwner_of_host rfl
  · exact absurd trivial hop
  · exact sameOwner_of_host (by rw [he.1])
  · exact sameOwner_of_host (by rw [he.1])
  · exact sameOwner_of_host (by rw [he.1])
  · exact sameOwner_of_host (by rw [he])

/-- **A step keeps the owner** of a machine that has sent something. -/
theorem owned_reading (hg : Guards Z.forgetful i s s') {op : Op} {r : op.Ret} {h h' : Reading}
    (hinv : (readings Z c).inv s) (hagrees : h.Agrees Z c i s)
    (hnext : Reading.next Z.serde i h op r = some h') (he : effect Z i op s r s') :
    (readings Z c).inv s' := by
  intro hsent'
  by_cases hsame : s'.toManager c = s.toManager c
  · rw [hsame] at hsent'
    have howned : Owned Z s c.machine c.manager := hinv hsent'
    rcases hg.owned c.machine c.manager howned with hkept | ⟨rfl, hrun⟩
    · exact hkept
    -- A start of the machine, which takes what it has read.
    by_cases hop : Owning op
    · obtain ⟨M, rfl⟩ | ⟨b, rfl⟩ | ⟨secretKey, owner, rfl⟩ := owning_iff.mp hop
      · cases hnext
      · cases hnext
      · obtain ⟨rfl, -⟩ := Option.ite_none_right_eq_some.mp hnext
        obtain rfl := hagrees rfl hrun hsent' howned
        have hs' : s' = s.run c.machine (some c.manager) := he
        subst hs'
        refine ⟨?_, fun _ => ?_⟩
        · rw [State.run, State.setHost_self]
          exact howned.1
        · rw [State.run, State.setHost_self]
    · have hkept : SameOwner c.machine s s' := sameOwner_of_effect hop he
      exact howned.congr hkept.ownerFile hkept.owner hkept.running
  · exact (hg.grants c hsame).2

/-- What a task has read, after an operation. -/
theorem agrees_reading (hg : Guards Z.forgetful i s s') (hk : Z.known) {op : Op} {r : op.Ret}
    {h h' : Reading} (hagrees : h.Agrees Z c i s)
    (hnext : Reading.next Z.serde i h op r = some h') (he : effect Z i op s r s') :
    h'.Agrees Z c i s' := by
  cases h' with
  | begun => trivial
  | read owner =>
    rintro rfl hrun' hsent' howned'
    by_cases hop : Owning op
    · obtain ⟨M, rfl⟩ | ⟨b, rfl⟩ | ⟨secretKey, owner, rfl⟩ := owning_iff.mp hop
      · cases hnext
      · cases hnext
      · -- The machine runs now.
        obtain rfl : s' = s.run c.machine _ := he
        rw [State.run, State.setHost_self] at hrun'
        cases hrun'
    have hsame : SameOwner c.machine s s' := sameOwner_of_effect hop he
    have hrun : (s.host c.machine).running = false := hsame.running.symm.trans hrun'
    have hsent : s'.toManager c = s.toManager c := hg.toManager c (by simp)
    rw [hsent] at hsent'
    have howned : Owned Z s c.machine c.manager :=
      howned'.congr hsame.ownerFile.symm hsame.owner.symm hsame.running.symm
    by_cases hread : op = .readFile .managerPublicKey
    · subst hread
      obtain rfl := Reading.read.inj (Option.some.inj hnext)
      have hfile : (s.host (TaskId.start c.machine).device).ownerFile =
          some (Z.serde.endpointId.enc c.manager) := howned.1
      obtain ⟨b, rfl⟩ := he.2.2 hk (by rw [hfile]; exact Option.some_ne_none _)
      obtain rfl := Option.some.inj (hfile.symm.trans (he.2.1 b rfl))
      exact ownerOf_ok c.manager
    · rw [next_of_not_owning hop hread] at hnext
      obtain rfl := Option.some.inj hnext
      exact hagrees rfl hrun hsent' howned

/-- What is left by a call that is dropped. -/
theorem sameOwner_of_dropped {op : Op} {m : EndpointId} (hd : dropped i op s s') : SameOwner m s s' := by
  have hrelease : ∀ t : State, SameOwner m t (t.release i) := by
    intro t
    unfold State.release
    split_ifs
    · exact sameOwner_setHost rfl rfl rfl
    · exact sameOwner_of_host rfl
  obtain ⟨-, -, ⟨-, rfl⟩ | ⟨-, rfl | ⟨b, -, rfl⟩⟩⟩ := hd
  · exact sameOwner_of_host rfl
  · exact hrelease s
  · have hwrite : SameOwner m s (s.writeTicket i.device b) := sameOwner_setHost rfl rfl rfl
    have hrel := hrelease (s.writeTicket i.device b)
    exact ⟨hrel.ownerFile.trans hwrite.ownerFile, hrel.owner.trans hwrite.owner,
      hrel.running.trans hwrite.running⟩

/-- The steps of tasks that meet their guarantees keep what starts have read. -/
theorem readings_sound (hk : Z.known) : (readings Z c).Sound
    ((claims Z sure).given (fun i _ s _ s' => Inv Z.forgetful s ∧ Guards Z.forgetful i s s')
      fun i _ s s' => Inv Z.forgetful s ∧ Guards Z.forgetful i s s') where
  run hinv hagrees hnext he :=
    ⟨owned_reading he.2.2 hinv hagrees hnext he.1.1, agrees_reading he.2.2 hk hagrees hnext he.1.1,
      frames_reading he.2.1 he.2.2⟩
  cut {i op h s s'} hinv _ _ hc := by
    obtain ⟨hd, hi, hg⟩ := hc
    refine ⟨fun hsent' => ?_, trivial, frames_reading hi hg⟩
    have hsame : SameOwner c.machine s s' := sameOwner_of_dropped hd
    by_cases hsent : s'.toManager c = s.toManager c
    · rw [hsent] at hsent'
      have howned : Owned Z s c.machine c.manager := hinv hsent'
      exact howned.congr hsame.ownerFile hsame.owner hsame.running
    · exact (hg.grants c hsent).2
  spawn {i p s s'} hinv _ hs := by
    obtain ⟨-, rfl, rfl⟩ := hs
    refine ⟨hinv, trivial, tracks_reading i, fun j h _ ha => ?_⟩
    cases h with
    | begun => trivial
    | read owner => exact ha
  env {s s' dead} hinv he := by
    obtain ⟨d, rfl, hdead⟩ := he
    have hother : ∀ {m}, m ≠ d → (s.crash d).host m = s.host m := fun hm =>
      State.setHost_of_ne s d _ _ hm
    refine ⟨fun hsent => ?_, fun _ _ => trivial, fun i h hi hagrees => ?_⟩
    · have howned : Owned Z s c.machine c.manager := hinv hsent
      by_cases hm : c.machine = d
      · subst hm
        refine ⟨?_, fun hrun => ?_⟩
        · rw [State.crash, State.setHost_self]
          exact howned.1
        · rw [State.crash, State.setHost_self] at hrun
          cases hrun
      · exact howned.congr (by rw [hother hm]) (by rw [hother hm]) (by rw [hother hm])
    · cases h with
      | begun => trivial
      | read owner =>
        rintro rfl hrun hsent howned
        have hm : c.machine ≠ d := by
          rw [hdead, decide_eq_false_iff_not] at hi
          exact hi
        rw [hother hm] at hrun
        exact hagrees rfl hrun hsent
          (howned.congr (by rw [hother hm]) (by rw [hother hm]) (by rw [hother hm]))

theorem pastReadings_sound : (pastReadings Z.serde).Sound (claims Z sure) where
  run _ _ _ _ := ⟨trivial, trivial, fun _ _ _ _ => trivial⟩
  cut _ _ _ _ := ⟨trivial, trivial, fun _ _ _ _ => trivial⟩
  spawn {i _ _ _} _ _ hs := by
    obtain ⟨-, rfl, -⟩ := hs
    exact ⟨trivial, trivial, tracks_reading i, fun _ _ _ _ => trivial⟩
  env _ _ := ⟨trivial, fun _ _ => trivial, fun _ _ _ _ => trivial⟩

/-- **A machine is owned by the manager that it sends something to**, if from before then on every start
reads its owner. -/
theorem owned_of_sent (hk : Z.known) {sure' : ConnId → Prop}
    (h : Steps (claims Z.forgetful sure') (Pool.idle State.fresh) P) (hc : .accept c ∉ P.st.begun)
    (hg : Good (keeps Z.forgetful sure) P) (h' : Steps (claims Z sure) P P')
    (hsent : P'.st.toManager c ≠ .empty) : Owned Z P'.st c.machine c.manager := by
  have hunsent : P.st.toManager c = .empty := (hg.1.unbegun c).1 hc
  have hpast : (pastReadings Z.serde).Known P := by
    refine Tracking.known_steps (pastReadings_sound (Z := Z.forgetful)) ⟨trivial, fun i => ?_⟩ h
    trivial
  have hknown : (readings Z c).Known P := by
    refine ⟨fun hsent => absurd hunsent hsent, fun i => ?_⟩
    have hi := hpast.follows i
    rcases hp : P.task i with _ | p
    · trivial
    · rw [hp] at hi
      obtain ⟨x, -, htracks⟩ := hi
      refine ⟨x, ?_, htracks⟩
      cases x with
      | begun => trivial
      | read owner => exact fun _ _ hsent => absurd hunsent hsent
  have hsteps := hg.steps_given claims_forgetful id id h'
  exact (Tracking.known_steps (readings_sound hk) hknown hsteps).inv hsent

end Steps

end Vendimint.Claim
