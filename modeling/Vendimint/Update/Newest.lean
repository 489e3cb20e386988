import Vendimint.Update.Passes

/-! # The newest federation

* `newest_federation_kept`: after a call of `update_federation` has returned, no configuration for
  another federation is written, if no call for another federation is under way or has written the
  default federation since, and no task under way has read another one.
* `stale_pass_writes`: a pass that has read the default federation before writes the old one. -/

namespace Vendimint.Update

open Vendimint.Store Vendimint.Async

section Newest
variable {J : Serde} {secret : Mnemonic} {more : Prop} {f : FederationId} {i : TaskId}
  {P P' : Pool TaskId Op Op.Ret Result State}

/-- The task is not a call for another federation than `f`. -/
def TaskId.For (f : FederationId) (i : TaskId) : Prop :=
  ∀ inviteCode n, i = .update inviteCode n → inviteCode.federationId = f

/-- The tasks under way are no calls for another federation than `f`, and have read no other. -/
structure Steady (P : Pool TaskId Op Op.Ret Result State) (f : FederationId) : Prop where
  calls : ∀ (i : TaskId) (op : Op) (k : op.Ret → Fut Result), P.task i = some (.await op k) →
    i.For f
  reads : ∀ (i : TaskId) (op : Op) (k : op.Ret → Fut Result) (inviteCode : InviteCode),
    P.task i = some (.await op k) → P.st.seen i = some inviteCode → inviteCode.federationId = f

/-- The calls that have written the default federation after `i` did are for `f`. -/
def LastFor (s : State) (f : FederationId) (i : TaskId) : Prop :=
  ∀ newer older, s.wrote = newer ++ i :: older → i ∉ newer → ∀ j ∈ newer, j.For f

/-- The default federation is `f`. -/
def Default (s : State) (f : FederationId) : Prop := ∀ j older, s.wrote = j :: older → j.For f

/-- An invitation that is cut short is not one for another federation. -/
def Whole (J : Serde) : Prop :=
  ∀ inviteCode inviteCode' l, l <+: J.invite.enc inviteCode → J.invite.dec l = some inviteCode' →
    inviteCode'.federationId = inviteCode.federationId

theorem default_of_last {inviteCode : InviteCode} {n : ℕ} {s : State}
    (hwrote : .update inviteCode n ∈ s.wrote)
    (h : LastFor s inviteCode.federationId (.update inviteCode n)) :
    Default s inviteCode.federationId := by
  obtain ⟨newer, older, heq, hnot⟩ := List.eq_append_cons_of_mem hwrote
  intro j older' hj
  rw [heq] at hj
  rcases newer with _ | ⟨j', newer⟩
  · obtain ⟨rfl, -⟩ := List.cons.inj hj
    rintro inviteCode' n' h'
    cases h'
    rfl
  · obtain ⟨rfl, -⟩ := List.cons.inj hj
    exact h _ _ heq hnot j' List.mem_cons_self

/-- What is read as the default federation is the default federation. -/
theorem Default.read {s : State} (hdefault : Default s f) (hi : Inv J s) (hwhole : Whole J) {b : Bytes}
    (hb : s.default = some b) {inviteCode : InviteCode} (hd : J.invite.dec b = some inviteCode) :
    inviteCode.federationId = f := by
  obtain ⟨inviteCode', n, older, hwrote, hprefix⟩ := hi b hb
  exact (hwhole inviteCode' inviteCode b hprefix hd).trans (hdefault _ _ hwrote _ _ rfl)

/-- The configuration is for the federation `f`. -/
def ConfigFor (J : Serde) (f : FederationId) (b : Bytes) : Prop :=
  ∃ config, b = J.config.enc config ∧ config.federationInviteCode.federationId = f

/-- **A step of a task** under way, where all is for `f`. -/
theorem Guar.steady {s s' : State} (hg : Guar J i s s') (hi : Inv J s) (hwhole : Whole J)
    (hdefault : Default s f) (hcall : i.For f)
    (hread : ∀ inviteCode, s.seen i = some inviteCode → inviteCode.federationId = f) :
    Default s' f ∧
    (∀ inviteCode, s'.seen i = some inviteCode → inviteCode.federationId = f) ∧
    ∃ new, s'.writes = new ++ s.writes ∧ ∀ b ∈ new, ConfigFor J f b := by
  refine ⟨?_, fun inviteCode hseen => ?_, ?_⟩
  · intro j older hj
    rcases hg.default with ⟨-, hwrote⟩ | ⟨_, _, _, _, _, _, hwrote⟩
    · exact hdefault j older (hwrote ▸ hj)
    · rw [hwrote] at hj
      obtain ⟨rfl, -⟩ := List.cons.inj hj
      exact hcall
  · rcases hg.seen with h | ⟨b, hb, h⟩
    · exact hread inviteCode (h ▸ hseen)
    · exact hdefault.read hi hwhole hb (h ▸ hseen)
  · rcases hg.writes with h | ⟨inviteCode, claimerPk, hseen, h⟩
    · exact ⟨[], h, nofun⟩
    · refine ⟨[_], h, fun b hb => ?_⟩
      obtain rfl := List.mem_singleton.mp hb
      exact ⟨_, rfl, hread inviteCode hseen⟩

/-- All is for `f`, and so is what was written after `base`. -/
structure Settled (J : Serde) (f : FederationId) (base : List Bytes)
    (P : Pool TaskId Op Op.Ret Result State) : Prop where
  default : Default P.st f
  steady : Steady P f
  writes : ∃ new, P.st.writes = new ++ base ∧ ∀ b ∈ new, ConfigFor J f b

/-- A step of the task `i`, which goes on as `p` or is gone. -/
theorem Settled.of_guar {base : List Bytes} (h : Settled J f base P) (hi : Inv J P.st)
    (hwhole : Whole J) {op : Op} {k : op.Ret → Fut Result} {s' : State} {p : Option (Fut Result)}
    (hk : P.task i = some (.await op k)) (hg : Guar J i P.st s') :
    Settled J f base ⟨s', Function.update P.task i p⟩ := by
  have hcall := h.steady.calls i op k hk
  obtain ⟨hdefault, hread, new, hnew, hfor⟩ := hg.steady hi hwhole h.default hcall
    fun inviteCode => h.steady.reads i op k inviteCode hk
  refine ⟨hdefault, ⟨fun j op' k' hj => ?_, fun j op' k' inviteCode hj hseen => ?_⟩, ?_⟩
  · by_cases hij : j = i
    · exact hij ▸ hcall
    · exact h.steady.calls j op' k' ((Function.update_of_ne hij ..).symm.trans hj)
  · by_cases hij : j = i
    · subst hij
      exact hread inviteCode hseen
    · refine h.steady.reads j op' k' inviteCode ((Function.update_of_ne hij ..).symm.trans hj) ?_
      exact (hg.others j hij).symm.trans hseen
  · obtain ⟨old, hold, hfor'⟩ := h.writes
    refine ⟨new ++ old, ?_, fun b hb => ?_⟩
    · show s'.writes = _
      rw [hnew, hold, List.append_assoc]
    · exact (List.mem_append.mp hb).elim (hfor b) (hfor' b)

/-- **One step**, without a new call. -/
theorem settled_step {base : List Bytes} (hg : Good (keeps J secret False) P) (hwhole : Whole J)
    (h : Settled J f base P) (hs : Step (manager J secret False) P P') : Settled J f base P' := by
  cases hs with
  | run hk he => exact h.of_guar hg.1 hwhole hk (hg.guar hk he)
  | @abort i op k s' hk hc =>
    exact h.of_guar hg.1 hwhole hk
      ((hg.2 i _ hk P.st ((keeps J secret False).rely_refl i _) hg.1).2 s' hc).2.1
  | @spawn i p s' _ hs =>
    obtain ⟨hmore, -, rfl⟩ := hs
    have hfor : i.For f := fun inviteCode n hi => (hmore ⟨inviteCode, n, hi⟩).elim
    refine ⟨h.default, ⟨fun j op' k' hj => ?_, fun j op' k' inviteCode hj hseen => ?_⟩, h.writes⟩
    · by_cases hij : j = i
      · exact hij ▸ hfor
      · exact h.steady.calls j op' k' ((Function.update_of_ne hij ..).symm.trans hj)
    · by_cases hij : j = i
      · subst hij
        rw [show (P.st.see j none).seen j = none from Function.update_self ..] at hseen
        cases hseen
      · refine h.steady.reads j op' k' inviteCode ((Function.update_of_ne hij ..).symm.trans hj) ?_
        exact (Function.update_of_ne hij ..).symm.trans hseen
  | env he =>
    obtain ⟨rfl, hdead⟩ := he
    refine ⟨h.default, ⟨fun j _ _ hj => ?_, fun j _ _ _ hj => ?_⟩, h.writes⟩ <;>
      simp [hdead j] at hj

theorem settled_steps {base : List Bytes} (hg : Good (keeps J secret False) P) (hwhole : Whole J)
    (h : Settled J f base P) (hs : Steps (manager J secret False) P P') :
    Settled J f base P' := by
  induction hs with
  | refl => exact h
  | tail hsteps hstep ih => exact settled_step (good_steps hg hsteps) hwhole ih hstep

/-- **The newest federation is kept**, if no call for another federation and no pass that has read
another one is under way when the call returns. -/
theorem newest_federation_kept (hwhole : Whole J)
    (h : Steps (manager J secret True) (Pool.idle State.fresh) P) {inviteCode : InviteCode} {n : ℕ}
    (hreturned : P.task (.update inviteCode n) = some (.pure (.updated (.ok ()))))
    (hlast : LastFor P.st inviteCode.federationId (.update inviteCode n))
    (hsteady : Steady P inviteCode.federationId)
    (h' : Steps (manager J secret False) P P') :
    ∃ new, P'.st.writes = new ++ P.st.writes ∧
      ∀ b ∈ new, ConfigFor J inviteCode.federationId b := by
  have hg := good h
  have hwrote : .update inviteCode n ∈ P.st.wrote := hg.returned hreturned rfl
  exact (settled_steps hg hwhole ⟨default_of_last hwrote hlast, hsteady, [], rfl, nofun⟩ h').writes

end Newest

/-! ### A stale pass -/

section Runs
variable {J : Serde} {secret : Mnemonic} {i : TaskId} {s : State} {inviteCode : InviteCode}
  {claimerPk : PublicKey} {machines : List (EndpointId × DocTicket)}

/-- The federation was joined before, and becomes the default. -/
theorem runs_setDefaultFederation (hlock : s.lock = none) : Runs (wallet J) i Alone
    (Wallet.setDefaultFederation J secret inviteCode).run s (.returned (.ok ()))
    (s.write i (J.invite.enc inviteCode)) := by
  refine runs_next .dataDirLock () { s with lock := some i } ⟨hlock, rfl⟩ ?_
  refine runs_next (.isDir _) true _ rfl ?_
  refine runs_next (.writeFile .defaultFederation (J.invite.enc inviteCode)) (.ok ()) _
    (Or.inl ⟨rfl, rfl⟩) ?_
  refine runs_next .dataDirRelease () (s.write i (J.invite.enc inviteCode)) ?_ (.returned _ _)
  show s.write i _ = { s.write i _ with lock := none }
  rw [← hlock]
  rfl

theorem runs_getDefaultFederation (hlock : s.lock = none)
    (hdefault : s.default = some (J.invite.enc inviteCode)) : Runs (wallet J) i Alone
    (Wallet.getDefaultFederation J).run s (.returned (.ok (some inviteCode)))
    (s.see i (some inviteCode)) := by
  simp only [Wallet.getDefaultFederation, Fallible.run_bind, Fallible.run_ite, run_guarded,
    run_attempt, await_eq, Fallible.run_of, call_eq, Prog.await_bind, Prog.pure_bind,
    Fallible.andThen_ok]
  refine runs_next .dataDirLock () { s with lock := some i } ⟨hlock, rfl⟩ ?_
  refine runs_next (.pathExists .defaultFederation) true _ ⟨rfl, by rw [hdefault]; rfl⟩ ?_
  have hread : effect J i (.readFile .defaultFederation) { s with lock := some i }
      (.ok (J.invite.enc inviteCode)) ({ s with lock := some i }.see i (some inviteCode)) :=
    Or.inl ⟨_, rfl, hdefault, by rw [Format.decode_encode]⟩
  refine runs_next (.readFile .defaultFederation) (.ok (J.invite.enc inviteCode)) _ hread ?_
  simp only [Fallible.andThen_ok, Format.decode_encode]
  refine runs_next .dataDirRelease () (s.see i (some inviteCode)) ?_ (.returned _ _)
  show s.see i _ = { s.see i _ with lock := none }
  rw [← hlock]
  rfl

/-- A pass up to the machines that it goes through. -/
theorem begins_updateMachineConfigs (hlock : s.lock = none)
    (hdefault : s.default = some (J.invite.enc inviteCode))
    (hlist : Runs (wallet J) i Alone (ManagerProtocol.listMachines J).run
      (s.see i (some inviteCode)) (.returned (.ok machines)) (s.see i (some inviteCode))) :
    Begins (wallet J) i (Manager.updateMachineConfigs J) s
      (Manager.updateMachines J ⟨inviteCode, claimerPk⟩ machines) (s.see i (some inviteCode)) := by
  unfold Manager.updateMachineConfigs
  refine begins_of_runs (runs_getDefaultFederation hlock hdefault) rfl ?_
  refine begins_of_runs (b := some claimerPk) ?_ rfl (begins_of_runs hlist rfl (.refl _ _))
  rw [Wallet.getLnv2ClaimPubkey, Wallet.withClient_eq]
  refine runs_next .clientsRead () _ rfl ?_
  refine runs_next (.clientsContains _) true _ rfl ?_
  refine runs_next (.lnPublicKey _) claimerPk _ rfl ?_
  exact runs_next .clientsRelease () _ rfl (.returned _ _)

theorem runs_getMachine {m : EndpointId} {t : DocTicket} : Runs (wallet J) i Alone
    (ManagerProtocol.getMachine J m).run s (.returned (.ok t)) s := by
  simp only [ManagerProtocol.getMachine, Fallible.run_bind, run_attempt, call_eq,
    Prog.await_bind, Prog.pure_bind]
  refine runs_next (.readFile (.machineDocTicket (.endpoint m))) (.ok (J.ticket.enc t)) s rfl ?_
  simp only [Fallible.andThen_ok, Format.decode_encode]
  exact .returned _ _

theorem runs_openMachineDoc {t : DocTicket} : Runs (wallet J) i Alone
    (ManagerProtocol.openMachineDoc t).run s (.returned (.ok t.capability.id)) s :=
  runs_next (.docsOpen t.capability.id) (.ok (some t.capability.id)) s rfl (.returned _ _)

/-- A machine without a configuration. -/
theorem runs_getMachineConfig_none {m : EndpointId} (t : DocTicket) : Runs (wallet J) i Alone
    (ManagerProtocol.getMachineConfig J m).run s (.returned (.ok none)) s := by
  simp only [ManagerProtocol.getMachineConfig, Fallible.run_bind]
  refine Runs.bind (runs_getMachine (t := t)) rfl (Runs.bind runs_openMachineDoc rfl ?_)
  exact runs_next (.docGetOne _ _) (.ok none) s rfl (.returned _ _)

/-- A machine with the configuration `c`. -/
theorem runs_getMachineConfig_some {m : EndpointId} (t : DocTicket) (c : MachineConfig) :
    Runs (wallet J) i Alone (ManagerProtocol.getMachineConfig J m).run s
      (.returned (.ok (some c))) s := by
  simp only [ManagerProtocol.getMachineConfig, Fallible.run_bind]
  refine Runs.bind (runs_getMachine (t := t)) rfl (Runs.bind runs_openMachineDoc rfl ?_)
  refine runs_next (.docGetOne _ _)
    (.ok (some ⟨.manager, MACHINE_CONFIG_KEY, 1, J.config.enc c⟩)) s rfl ?_
  simp only [Fallible.andThen_ok, Fallible.run_bind, run_attempt, call_eq, Prog.await_bind,
    Prog.pure_bind]
  refine runs_next (.blobsGetBytes _) (.ok (J.config.enc c)) s rfl ?_
  simp only [Fallible.andThen_ok, Format.decode_encode, run_fromSlice_some, Prog.pure_bind]
  exact .returned _ _

/-- A pass over one machine, whose configuration is none or for another federation. -/
theorem runs_updateMachines {m : EndpointId} {t : DocTicket} {configOr : Option MachineConfig}
    (hconfig : Runs (wallet J) i Alone (ManagerProtocol.getMachineConfig J m).run s
      (.returned (.ok configOr)) s)
    (hother : ∀ c, configOr = some c →
      c.federationInviteCode.federationId ≠ inviteCode.federationId) : Runs (wallet J) i Alone
    (Manager.updateMachines J ⟨inviteCode, claimerPk⟩ [(m, t)]) s (.returned ())
    (s.configure (J.config.enc ⟨inviteCode, claimerPk⟩)) := by
  have hset : Runs (wallet J) i Alone
      (ManagerProtocol.setMachineConfig J m ⟨inviteCode, claimerPk⟩).run s (.returned (.ok ()))
      (s.configure (J.config.enc ⟨inviteCode, claimerPk⟩)) := by
    simp only [ManagerProtocol.setMachineConfig, Fallible.run_bind]
    refine Runs.bind (runs_getMachine (t := t)) rfl (Runs.bind runs_openMachineDoc rfl ?_)
    refine runs_next .authorDefault (.ok .manager) s rfl ?_
    exact runs_next (.docSetBytes _ _ MACHINE_CONFIG_KEY _) (.ok ()) _ rfl (.returned _ _)
  refine Runs.bind hconfig rfl ?_
  rcases configOr with _ | c
  · exact Runs.bind hset rfl (.returned () _)
  · simp only [hother c rfl, ne_eq, not_false_eq_true, decide_true, if_true]
    exact Runs.bind hset rfl (.returned () _)

/-- A call that sets the federation, with the machines that it goes through. -/
theorem runs_update (claimerPk : PublicKey) {n : ℕ} {s' : State} (hlock : s.lock = none)
    (hlist : ∀ t, Runs (wallet J) (.update inviteCode n) Alone (ManagerProtocol.listMachines J).run t
      (.returned (.ok machines)) t)
    (hupdate : Runs (wallet J) (.update inviteCode n) Alone
      (Manager.updateMachines J ⟨inviteCode, claimerPk⟩ machines)
      ((s.write (.update inviteCode n) (J.invite.enc inviteCode)).see (.update inviteCode n)
        (some inviteCode)) (.returned ()) s') :
    Runs (wallet J) (.update inviteCode n) Alone (program J secret (.update inviteCode n)) s
      (.returned (.updated (.ok ()))) s' := by
  simp only [program, Manager.updateFederation, Fallible.run_bind]
  refine Runs.bind (Runs.bind (runs_setDefaultFederation hlock) rfl ?_) rfl (.returned _ _)
  refine Runs.bind (a := ()) ?_ rfl (.returned _ _)
  exact (begins_updateMachineConfigs (s := s.write (.update inviteCode n) (J.invite.enc inviteCode))
    hlock rfl (hlist _)).runs hupdate

theorem runs_listMachines_nil (s : State) : Runs (wallet J) i Alone
    (ManagerProtocol.listMachines J).run s (.returned (.ok [])) s :=
  runs_next (.readDir .machineDocTicketsDir) (.ok []) s rfl (.returned _ _)

theorem runs_listMachines_one (m : EndpointId) (t : DocTicket) (s : State) : Runs (wallet J) i Alone
    (ManagerProtocol.listMachines J).run s (.returned (.ok [(m, t)])) s := by
  simp only [ManagerProtocol.listMachines, Fallible.run_bind, run_attempt, call_eq, Prog.await_bind,
    Prog.pure_bind]
  refine runs_next (.readDir .machineDocTicketsDir) (.ok [.endpoint m]) s rfl ?_
  simp only [ManagerProtocol.machinesOf, Fallible.run_bind, Fallible.run_ite, run_attempt, call_eq,
    Prog.await_bind, Prog.pure_bind, ManagerProtocol.endpointOfName, Fallible.run_unwrap_some,
    Fallible.andThen_ok]
  refine runs_next (.isFile (.machineDocTicket (.endpoint m))) (.ok true) s rfl ?_
  refine runs_next (.readFile (.machineDocTicket (.endpoint m))) (.ok (J.ticket.enc t)) s rfl ?_
  simp only [Fallible.andThen_ok, Format.decode_encode]
  exact .returned _ _

end Runs

/-- An invitation starts with its federation. -/
theorem whole_framed : Whole Serde.framed := by
  intro inviteCode inviteCode' l hl hd
  rcases hf : BytesN.ofBytes 32 (l.take 32) with _ | f
  · simp [Serde.framed, Serde.inviteOfBytes, Serde.split, hf] at hd
  · have hbytes := BytesN.bytes_of_ofBytes hf
    have htake : l.take 32 <+: inviteCode.federationId.hash.bytes ++ inviteCode.peers :=
      (List.take_prefix 32 l).trans hl
    have hlength : (l.take 32).length = inviteCode.federationId.hash.bytes.length := by
      rw [← hbytes, f.length_eq, inviteCode.federationId.hash.length_eq]
    have heq := (List.prefix_of_prefix_length_le htake (List.prefix_append _ _)
      hlength.le).eq_of_length hlength
    rw [heq, BytesN.ofBytes_bytes, Option.some.injEq] at hf
    simp only [Serde.framed, Serde.inviteOfBytes, Serde.split, heq, BytesN.ofBytes_bytes] at hd
    have hempty : BytesN.ofBytes 0 (List.take 0 (List.drop 32 l)) = some ⟨[], rfl⟩ := rfl
    rw [hempty] at hd
    obtain rfl := Option.some.inj hd
    rfl

namespace StalePass

def oldInvite : InviteCode := ⟨⟨.replicate 32 1⟩, []⟩

def newInvite : InviteCode := ⟨⟨.replicate 32 2⟩, []⟩

def machine : EndpointId := ⟨.replicate 32 3⟩

def ticket : DocTicket := ⟨.write ⟨.replicate 32 4⟩⟩

def claimerPk : PublicKey := ⟨.replicate 33 5⟩

def secret : Mnemonic := ⟨.replicate 16 6⟩

/-- The old federation was set, before there was a machine. -/
def initial : State :=
  ((State.fresh.see (.update oldInvite 0) none).write (.update oldInvite 0)
    (Serde.framed.invite.enc oldInvite)).see (.update oldInvite 0) (some oldInvite)

/-- A pass has read the old federation. -/
def reading : State := (initial.see (.pass 0) none).see (.pass 0) (some oldInvite)

/-- The new federation was set, and the machine was configured for it. -/
def updated : State :=
  (((reading.see (.update newInvite 0) none).write (.update newInvite 0)
    (Serde.framed.invite.enc newInvite)).see (.update newInvite 0) (some newInvite)).configure
      (Serde.framed.config.enc ⟨newInvite, claimerPk⟩)

/-- What is left of the pass. -/
def rest : Fut Result :=
  (Manager.updateMachines Serde.framed ⟨oldInvite, claimerPk⟩ [(machine, ticket)]).bind
    fun _ => .pure .passed

end StalePass

open StalePass in
/-- A call that has returned, and a pass after it. -/
theorem newest_federation_kept_pass :
    ∃ P P' : Pool TaskId Op Op.Ret Result State,
      Steps (manager Serde.framed secret True) (Pool.idle State.fresh) P ∧
      Steps (manager Serde.framed secret False) P P' ∧
      P'.st.writes = [Serde.framed.config.enc ⟨oldInvite, claimerPk⟩] ∧
      ∃ new, P'.st.writes = new ++ P.st.writes ∧
        ∀ b ∈ new, ConfigFor Serde.framed oldInvite.federationId b := by
  have hset := steps_of_return (Y := manager Serde.framed secret True) (i := .update oldInvite 0)
    (s := State.fresh) (f := fun _ => none) (t := initial) ⟨fun _ => trivial, rfl, rfl⟩ rfl
    (runs_update claimerPk rfl runs_listMachines_nil (.returned () _))
  have hpass := steps_of_return (Y := manager Serde.framed secret False) (i := .pass 0)
    (s := initial) (t := reading.configure (Serde.framed.config.enc ⟨oldInvite, claimerPk⟩))
    (f := Function.update (fun _ => none) (.update oldInvite 0) (some (.pure (.updated (.ok ())))))
    (a := .passed) ⟨fun h => by simp at h, rfl, rfl⟩ rfl
    (((begins_updateMachineConfigs (J := Serde.framed) (i := .pass 0)
      (s := initial.see (.pass 0) none) rfl rfl (runs_listMachines_one machine ticket _)).bind _).runs
      (Runs.bind (runs_updateMachines (runs_getMachineConfig_none ticket) nofun) rfl
        (.returned _ _)))
  refine ⟨_, _, hset, hpass, rfl, newest_federation_kept (n := 0) whole_framed hset rfl ?_ ?_ hpass⟩
  · intro newer older hwrote hnot j hj
    rcases newer with _ | ⟨j', newer⟩
    · cases hj
    · obtain ⟨rfl, -⟩ := List.cons.inj hwrote
      exact absurd List.mem_cons_self hnot
  · have hdone : ∀ (i : TaskId) (op : Op) (k : op.Ret → Fut Result),
        Function.update (fun _ : TaskId => none) (.update oldInvite 0)
          (some (Prog.pure (.updated (.ok ())))) i ≠ some (.await op k) := by
      intro i op k hi
      by_cases h : i = .update oldInvite 0
      · subst h
        rw [Function.update_self] at hi
        cases hi
      · rw [Function.update_of_ne h] at hi
        cases hi
    exact ⟨fun i op k hi => absurd hi (hdone i op k), fun i op k _ hi => absurd hi (hdone i op k)⟩

open StalePass in
/-- **A stale pass** writes a configuration for the old federation. -/
theorem stale_pass_writes : ¬ ∀ (P P' : Pool TaskId Op Op.Ret Result State)
    (inviteCode : InviteCode) (n : ℕ),
    Steps (manager Serde.framed secret True) (Pool.idle State.fresh) P →
    P.task (.update inviteCode n) = some (.pure (.updated (.ok ()))) →
    Steps (manager Serde.framed secret False) P P' →
    ∃ new, P'.st.writes = new ++ P.st.writes ∧
      ∀ b ∈ new, ConfigFor Serde.framed inviteCode.federationId b := by
  intro h
  have hset := steps_of_return (Y := manager Serde.framed secret True) (i := .update oldInvite 0)
    (s := State.fresh) (f := fun _ => none) (t := initial) ⟨fun _ => trivial, rfl, rfl⟩ rfl
    (runs_update claimerPk rfl runs_listMachines_nil (.returned () _))
  have hpass := steps_of_start (Y := manager Serde.framed secret True) (i := .pass 0)
    (s := initial) (t := reading) (q := rest)
    (f := Function.update (fun _ => none) (.update oldInvite 0) (some (.pure (.updated (.ok ())))))
    ⟨fun _ => trivial, rfl, rfl⟩ rfl
    ((begins_updateMachineConfigs (J := Serde.framed) (i := .pass 0)
      (s := initial.see (.pass 0) none) rfl rfl (runs_listMachines_one machine ticket _)).bind _)
  have hnew := steps_of_return (Y := manager Serde.framed secret True) (i := .update newInvite 0)
    (s := reading) (t := updated) (f := Function.update (Function.update (fun _ => none)
      (.update oldInvite 0) (some (.pure (.updated (.ok ()))))) (.pass 0) (some rest))
    ⟨fun _ => trivial, rfl, rfl⟩ rfl
    (runs_update claimerPk rfl (runs_listMachines_one machine ticket)
      (runs_updateMachines (runs_getMachineConfig_none ticket) nofun))
  -- The pass goes on, and finds the new configuration.
  have hother : newInvite.federationId ≠ oldInvite.federationId := by decide
  have hrest := steps_of_runs (Y := manager Serde.framed secret False) (i := .pass 0) (p := rest)
    (s := updated) (Runs.bind (runs_updateMachines
      (runs_getMachineConfig_some ticket ⟨newInvite, claimerPk⟩)
      fun c hc => Option.some.inj hc ▸ hother) rfl (.returned _ _))
    (f := Function.update (Function.update (Function.update (fun _ => none)
      (.update oldInvite 0) (some (.pure (.updated (.ok ()))))) (.pass 0) (some rest))
        (.update newInvite 0) (some (.pure (.updated (.ok ()))))) rfl
  obtain ⟨new, hnew, hfor⟩ := h _ _ newInvite 0 ((hset.trans hpass).trans hnew) rfl hrest
  have hsingle : new = [Serde.framed.config.enc ⟨oldInvite, claimerPk⟩] :=
    (List.append_cancel_right (show [_] ++ _ = new ++ _ from hnew)).symm
  obtain ⟨config, hconfig, hfed⟩ := hfor _ (hsingle ▸ List.mem_singleton_self _)
  rw [← Serde.framed.config.enc_injective hconfig] at hfed
  exact absurd hfed (by decide)

end Vendimint.Update
