import Vendimint.Claim.Completion

/-! # The owner of a machine

* `one_owner`: if every start reads the owner file, an owner that a machine records, in memory or in its
  file, is its owner from then on, over restarts too, and a connection from another manager does nothing
  but take and drop the lock.
* `owner_forgotten`: a start that cannot read the file gives the machine to the next manager. -/

namespace Vendimint.Claim

open Vendimint.Store Vendimint.Async

/-- The machine `m` records the owner `M`, in memory or in its file. -/
def Records (Z : Setting) (s : State) (m M : EndpointId) : Prop :=
  (s.host m).owner = some M ∨ (s.host m).ownerFile = some (Z.serde.endpointId.enc M)

section Owner
variable {Z : Setting} {sure : ConnId → Prop} {s : State} {m M : EndpointId}
  {P P' : Pool TaskId Op Op.Ret Result State}

/-- An owner that is recorded is in the file. -/
theorem Records.ownerFile (h : Records Z s m M) (hi : Inv Z s) :
    (s.host m).ownerFile = some (Z.serde.endpointId.enc M) :=
  h.elim ((hi.hosts m).owner M) id

/-- The owner in memory is the one in the file. -/
theorem Inv.owner_eq (hi : Inv Z s) {M' : EndpointId} (hM' : (s.host m).owner = some M')
    (hfile : (s.host m).ownerFile = some (Z.serde.endpointId.enc M)) : M' = M := by
  have h := (hi.hosts m).owner M' hM'
  rw [hfile, Option.some.injEq] at h
  exact (Z.serde.endpointId.enc_injective h).symm

/-- A machine with an owner has a document. -/
theorem Records.ticketFile (h : Records Z s m M) (hi : Inv Z s) :
    ∃ t, (s.host m).ticketFile = some (Z.serde.ticket.enc t) := by
  have hfile := h.ownerFile hi
  obtain ⟨b, hb⟩ := Option.ne_none_iff_exists'.mp
    ((hi.hosts m).shared (by rw [hfile]; exact Option.some_ne_none _))
  obtain ⟨t, rfl⟩ := (hi.hosts m).ticketFile b hb
  exact ⟨t, hb⟩

/-- On a running machine whose lock is free, the owner of the file is in memory. -/
theorem Inv.owner_of_free (hi : Inv Z s) (hk : Z.known)
    (hfile : (s.host m).ownerFile = some (Z.serde.endpointId.enc M))
    (hrun : (s.host m).running = true) (hlock : (s.host m).lock = none) :
    (s.host m).owner = some M := by
  have hsync := (hi.hosts m).synced hk hrun hlock
  rcases howner : (s.host m).owner with _ | M'
  · rw [howner, hfile] at hsync
    cases hsync
  · rw [hi.owner_eq howner hfile]

/-- **One owner for life**, if every start of a machine reads the owner file that is there. -/
theorem one_owner (hk : Z.known) (h : Steps (claims Z sure) (Pool.idle State.fresh) P)
    (h' : Steps (claims Z sure) P P') (hM : Records Z P.st m M) :
    (P'.st.host m).ownerFile = some (Z.serde.endpointId.enc M) ∧
    (∀ M', (P'.st.host m).owner = some M' → M' = M) ∧
    ((P'.st.host m).running = true → (P'.st.host m).lock = none → (P'.st.host m).owner = some M) ∧
    ((P.st.host m).owner = some M → (P'.st.host m).running = true →
      (P'.st.host m).owner = some M) ∧
    ∀ (c : ConnId) (op : Op) (k : op.Ret → Fut Result) (r : op.Ret) (s' : State),
      P'.task (.accept c) = some (.await op k) → c.machine = m → c.manager ≠ M →
      (claims Z sure).exec (.accept c) op P'.st r s' → ∃ l, s' = P'.st.setLock m l := by
  have hi := (good h).1
  have hgood' := good (h.trans h')
  have hmono := (mono_steps (good h) h').hosts m
  have hfile := hM.ownerFile hi
  have hfile' := hmono.ownerFile hk _ hfile
  refine ⟨hfile', fun M' hM' => hgood'.1.owner_eq hM' hfile', hgood'.1.owner_of_free hk hfile',
    fun howner hrun => ?_, fun c op k r s' hc hm hne he => ?_⟩
  · obtain ⟨M', hM'⟩ := Option.ne_none_iff_exists'.mp (hmono.owner hk
      (by rw [hfile]; exact Option.some_ne_none _) (fun _ => by rw [howner]; exact Option.some_ne_none M)
      hrun)
    rw [hM', hgood'.1.owner_eq hM' hfile']
  · subst hm
    exact (hgood'.guar hc he).foreign hk c M rfl hfile' (Ne.symm hne)

end Owner

/-! ### Restarts -/

section Restart
variable {P : Pool TaskId Op Op.Ret Result State} {m : EndpointId} {r : Except Error Bytes}

/-- What a restart of the machine `m` leaves. -/
structure Restarted (Z : Setting) (m : EndpointId) (r : Except Error Bytes)
    (P P' : Pool TaskId Op Op.Ret Result State) : Prop where
  host : P'.st.host m = { P.st.host m with
    owner := MachineProtocol.ownerOf Z.serde r, lock := none, running := true }
  toMachine : P'.st.toMachine = P.st.toMachine
  toManager : P'.st.toManager = P.st.toManager
  begun : ∀ i, i ∉ P.st.begun → i ≠ .start m → i ∉ P'.st.begun
  task : ∀ i, P.task i = none → i ≠ .start m → P'.task i = none

/-- **A machine can restart**, with the owner that it reads. -/
theorem exists_restarted (Z : Setting) (sure : ConnId → Prop)
    (hread : ∀ b, r = .ok b → (P.st.host m).ownerFile = some b)
    (hknown : Z.known → (P.st.host m).ownerFile ≠ none → ∃ b, r = .ok b) :
    ∃ Q P', Step (claims Z sure) P Q ∧ (Q.st.host m).running = false ∧
      Steps (claims Z sure) Q P' ∧ Restarted Z m r P P' := by
  have hcrash : Step (claims Z sure) P ⟨P.st.crash m,
      fun i => if decide (i.device = m) then none else P.task i⟩ := .env ⟨m, rfl, fun _ => rfl⟩
  have hself : (P.st.crash m).host m =
      { P.st.host m with owner := none, lock := none, running := false } := State.setHost_self ..
  have hstopped : ((P.st.crash m).host m).running = false := by rw [hself]
  have hmay : MayBegin (.start m) (P.st.crash m) := hstopped
  obtain ⟨key, hstart⟩ := runs_start Z sure (s := (P.st.crash m).begin (.start m)) (m := m) r
    (fun b hb => by simpa [hself] using hread b hb) fun hk hne => hknown hk (by simpa [hself] using hne)
  have hsteps := steps_of_return (Y := claims Z sure) (i := .start m) (s := P.st.crash m)
    (f := fun i => if decide (i.device = m) then none else P.task i) ⟨hmay, rfl, rfl⟩
    (by simp [TaskId.device]) hstart
  refine ⟨_, _, hcrash, hstopped, hsteps, ?_, rfl, rfl, fun i hi hne hmem => ?_, fun i hi hne => ?_⟩
  · simp [State.run, hself]
  · exact (List.mem_cons.mp hmem).elim hne hi
  · simp [Function.update_of_ne hne, hi]

end Restart

namespace FirstClaim

/-- A machine that was claimed cannot read its owner when it restarts, and another manager claims it. -/
theorem taken (Z : Setting) (hk : ¬ Z.known) :
    ∃ P P' : Pool TaskId Op Op.Ret Result State,
      Steps (claims Z fun _ => False) (Pool.idle State.fresh) P ∧
      (P.st.host machine).owner = some manager ∧
      Steps (claims Z fun _ => False) P P' ∧ (P'.st.host machine).owner = some stranger := by
  obtain ⟨P, hsteps, -, -, howner⟩ := claimed Z
  obtain ⟨Q, P₁, hcrash, -, hstart, hrestarted⟩ := exists_restarted Z (fun _ => False) (P := P)
    (m := machine) (r := .error notFound) nofun fun h => absurd h hk
  have hi := (good hsteps).1
  obtain ⟨n, haccept, hclaim, -⟩ := exists_unbegun P.st.begun machine stranger
  have hhost := hrestarted.host
  have hM : Records Z P.st machine manager := Or.inl howner
  have hticket : ∃ t, (P₁.st.host machine).ticketFile = some (Z.serde.ticket.enc t) := by
    rw [hhost]
    exact hM.ticketFile hi
  have hnone : (P₁.st.host machine).owner = none := by
    rw [hhost]
    rfl
  obtain ⟨s', hclaimed, hserved⟩ := claim_completes Z (fun _ => False) (c := ⟨machine, stranger, n⟩)
    (s := P₁.st) (f := P₁.task) (fun _ h => by cases hnone.symm.trans h) (by rw [hhost]) (by rw [hhost])
    (Or.inl hnone) (Or.inl hticket) (hrestarted.begun _ hclaim nofun) (hrestarted.begun _ haccept nofun)
    (by rw [hrestarted.toMachine]; exact (hi.unbegun _).2 hclaim)
    (by rw [hrestarted.toManager]; exact (hi.unbegun _).1 haccept)
    (hrestarted.task _ (task_of_unbegun hsteps hclaim) nofun)
    (hrestarted.task _ (task_of_unbegun hsteps haccept) nofun)
  exact ⟨P, _, hsteps, howner, (Relation.ReflTransGen.single hcrash).trans (hstart.trans hclaimed),
    hserved.owner⟩

end FirstClaim

open FirstClaim in
/-- **An owner may be forgotten**, by a start that cannot read its file. -/
theorem owner_forgotten : ¬ ∀ (P P' : Pool TaskId Op Op.Ret Result State) (m M M' : EndpointId),
    Steps (claims (.framed False True) fun _ => False) (Pool.idle State.fresh) P →
    Records (.framed False True) P.st m M →
    Steps (claims (.framed False True) fun _ => False) P P' →
    (P'.st.host m).owner = some M' → M' = M := by
  intro h
  obtain ⟨P, P', hsteps, howner, hsteps', howner'⟩ :=
    taken (.framed False True) id
  have heq := h P P' machine manager stranger hsteps (Or.inl howner) hsteps' howner'
  exact absurd heq (by decide)

open FirstClaim in
/-- A machine that was claimed restarts, and a stranger connects. -/
theorem one_owner_claimed :
    ∃ (P Q P' : Pool TaskId Op Op.Ret Result State) (n : ℕ) (k : Op.ownerLock.Ret → Fut Result)
      (r : Op.ownerLock.Ret) (s' : State),
      Steps (claims (.framed True True) fun _ => False) (Pool.idle State.fresh) P ∧
      (P.st.host machine).owner = some manager ∧
      Steps (claims (.framed True True) fun _ => False) P Q ∧
      (Q.st.host machine).running = false ∧
      Steps (claims (.framed True True) fun _ => False) Q P' ∧
      (P'.st.host machine).owner = some manager ∧
      P'.task (.accept ⟨machine, stranger, n⟩) = some (.await .ownerLock k) ∧
      (claims (.framed True True) fun _ => False).exec
        (.accept ⟨machine, stranger, n⟩) .ownerLock P'.st r s' ∧
      ∃ l, s' = P'.st.setLock machine l := by
  obtain ⟨P, hsteps, -, -, howner⟩ := claimed (.framed True True)
  have hfile := ((good hsteps).1.hosts machine).owner manager howner
  obtain ⟨Q, P₁, hcrash, hstopped, hstart, hrestarted⟩ := exists_restarted
    (.framed True True) (fun _ => False) (P := P) (m := machine)
    (r := .ok (Serde.framed.endpointId.enc manager)) (fun b hb => by cases hb; exact hfile)
    fun _ _ => ⟨_, rfl⟩
  obtain ⟨n, hn, -⟩ := exists_unbegun P.st.begun machine stranger
  have hhost := hrestarted.host
  -- The connection of the stranger begins.
  have hmay : MayBegin (.accept ⟨machine, stranger, n⟩) P₁.st :=
    ⟨congrArg Host.running hhost, hrestarted.begun _ hn nofun⟩
  have hspawn : Step (claims (.framed True True) fun _ => False) P₁
      ⟨P₁.st.begin (.accept ⟨machine, stranger, n⟩), Function.update P₁.task
        (.accept ⟨machine, stranger, n⟩)
        (some (program Serde.framed (.accept ⟨machine, stranger, n⟩)))⟩ :=
    .spawn (hrestarted.task _ (task_of_unbegun hsteps hn) nofun) ⟨hmay, rfl, rfl⟩
  obtain ⟨k, hk⟩ : ∃ k, program Serde.framed (.accept ⟨machine, stranger, n⟩) = .await .ownerLock k :=
    ⟨_, rfl⟩
  have hexec : (claims (.framed True True) fun _ => False).exec
      (.accept ⟨machine, stranger, n⟩) .ownerLock (P₁.st.begin (.accept ⟨machine, stranger, n⟩))
      (P₁.st.host machine).owner ((P₁.st.begin (.accept ⟨machine, stranger, n⟩)).setLock machine
        (some (.accept ⟨machine, stranger, n⟩))) :=
    ⟨⟨⟨congrArg Host.running hhost, congrArg Host.lock hhost, fun _ _ h => absurd trivial h⟩, rfl, rfl⟩,
      fun h => h.elim⟩
  have htask : (Function.update P₁.task (.accept ⟨machine, stranger, n⟩)
      (some (program Serde.framed (.accept ⟨machine, stranger, n⟩))))
      (.accept ⟨machine, stranger, n⟩) = some (.await .ownerLock k) := by
    rw [Function.update_self, hk]
  have hall := one_owner trivial hsteps
    ((Relation.ReflTransGen.single hcrash).trans (hstart.tail hspawn)) (Or.inl howner)
  refine ⟨P, Q, _, n, k, _, _, hsteps, howner, .single hcrash, hstopped, hstart.tail hspawn,
    hall.2.2.1 (congrArg Host.running hhost) (congrArg Host.lock hhost), htask, hexec, ?_⟩
  exact hall.2.2.2.2 _ _ _ _ _ htask rfl (show stranger ≠ manager by decide) hexec

end Vendimint.Claim
