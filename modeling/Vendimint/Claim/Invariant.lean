import Vendimint.Claim.World

/-! # The invariant of claims

`Inv` ties together the owner in memory, the owner file and the document ticket of each machine
(`HostOk`), the answers of the operators, what was sent on each connection, and the ticket files of
the managers. `Guards` says what a step of a task does to the others, and `Relies` what a task may
rely on: files only grow, a machine is changed by the holder of its lock, and a connection from a
stranger changes nothing. Where a start may miss the owner file, an owner stays as long as the process
runs (`Owned`); that its file stays too is known only if the owner is `known` to every start.

* `exec_kept`, `cut_kept`, `crash_kept`, `begin_kept`: every step keeps `Inv`. -/

namespace Vendimint.Claim

open Vendimint.Store Vendimint.Async

/-! ### The invariant -/

section Invariant
variable (Z : Setting)

/-- Both operators have answered `true` on one connection between `m` and `M`. -/
def Agreed (s : State) (m M : EndpointId) : Prop :=
  ∃ c : ConnId, c.machine = m ∧ c.manager = M ∧ c ∈ s.answers ∧ c ∈ s.managerAnswers

/-- The ticket `t` is for the document of the machine `m`, and was granted to `M`. -/
structure Granted (s : State) (m M : EndpointId) (t : DocTicket) : Prop where
  owner : Z.known → (s.host m).ownerFile = some (Z.serde.endpointId.enc M)
  write : ∃ d, t.capability = .write d
  doc : Z.readable → ∃ t', (s.host m).ticketFile = some (Z.serde.ticket.enc t') ∧
    t.capability.id = t'.capability.id
  agreed : Z.honest → Agreed s m M

/-- The owner `M` of the machine `m` is in its file, and in memory while the machine runs. -/
def Owned (s : State) (m M : EndpointId) : Prop :=
  (s.host m).ownerFile = some (Z.serde.endpointId.enc M) ∧
    ((s.host m).running = true → (s.host m).owner = some M)

/-- The machine `m` has no owner in memory, nor in its file, if it would know it. -/
def Unowned (m : EndpointId) (s : State) : Prop :=
  (s.host m).owner = none ∧ (Z.known → (s.host m).ownerFile = none)

/-- A machine, after the answers `A` of its operator and `B` of the operators of managers. -/
structure HostOk (A B : List ConnId) (m : EndpointId) (h : Host) : Prop where
  ownerFile : ∀ b, h.ownerFile = some b → ∃ M, b = Z.serde.endpointId.enc M
  owner : ∀ M, h.owner = some M → h.ownerFile = some (Z.serde.endpointId.enc M)
  synced : Z.known → h.running = true → h.lock = none →
    h.ownerFile = h.owner.map Z.serde.endpointId.enc
  locked : ∀ i, h.lock = some i → i.device = m ∧ h.running = true
  ticketFile : ∀ b, h.ticketFile = some b → ∃ t, b = Z.serde.ticket.enc t
  shared : h.ownerFile ≠ none → h.ticketFile ≠ none
  agreed : Z.honest → ∀ M, h.ownerFile = some (Z.serde.endpointId.enc M) →
    ∃ c : ConnId, c.machine = m ∧ c.manager = M ∧ c ∈ A ∧ c ∈ B

/-- **The invariant.** -/
structure Inv (s : State) : Prop where
  hosts : ∀ m, HostOk Z s.answers s.managerAnswers m (s.host m)
  pinged : ∀ c, (s.toMachine c).sent ≠ [] → c ∈ s.managerAnswers
  unbegun : ∀ c, (.accept c ∉ s.begun → s.toManager c = .empty) ∧
    (.claim c ∉ s.begun → s.toMachine c = .empty)
  sent : ∀ c, s.toManager c ≠ .empty → ∃ t, Granted Z s c.machine c.manager t ∧
    (s.toManager c).sent <+: Z.serde.ticket.enc t ∧
    ((s.toManager c).finished = true → (s.toManager c).sent = Z.serde.ticket.enc t)
  tickets : Z.honest → ∀ M m b, s.tickets M m = some b →
    ∃ t, b = Z.serde.ticket.enc t ∧ Granted Z s m M t

/-- The files of a machine stay, and so does an owner that is in memory. -/
structure HostMono (h h' : Host) : Prop where
  ownerFile : Z.known → ∀ b, h.ownerFile = some b → h'.ownerFile = some b
  owner : Z.known → h.ownerFile ≠ none → (h.running = true → h.owner ≠ none) →
    h'.running = true → h'.owner ≠ none
  ticketFile : Z.readable → ∀ b, h.ticketFile = some b → h'.ticketFile = some b

/-- What every step keeps. -/
structure Mono (s s' : State) : Prop where
  hosts : ∀ m, HostMono Z (s.host m) (s'.host m)
  answers : s.answers ⊆ s'.answers
  managerAnswers : s.managerAnswers ⊆ s'.managerAnswers
  tickets : ∀ M m, s.tickets M m ≠ none → s'.tickets M m ≠ none
  begun : s.begun ⊆ s'.begun
  sent : ∀ c, s.toManager c ≠ .empty → s'.toManager c ≠ .empty

/-- What a step of the task `i` does to the others. -/
structure Guards (i : TaskId) (s s' : State) : Prop where
  mono : Mono Z s s'
  host : ∀ m, s'.host m = s.host m ∨ (s.host m).lock = some i ∨
    ((s.host m).lock = none ∧ (s.host m).running = true) ∨
    (i = .start m ∧ (s.host m).running = false)
  toManager : ∀ c, i ≠ .accept c → s'.toManager c = s.toManager c
  tickets : ∀ M m, s'.tickets M m ≠ s.tickets M m → ∃ c, i = .claim c ∧ c.machine = m ∧ c.manager = M
  running : ∀ m, (s.host m).running = true → (s'.host m).running = true
  owned : ∀ m M, Owned Z s m M →
    Owned Z s' m M ∨ (i = .start m ∧ (s.host m).running = false)
  grants : ∀ c, s'.toManager c ≠ s.toManager c →
    (s'.host c.machine).running = true ∧ Owned Z s' c.machine c.manager
  foreign : Z.known → ∀ c M, i = .accept c →
    (s.host c.machine).ownerFile = some (Z.serde.endpointId.enc M) → M ≠ c.manager →
    ∃ l, s' = s.setLock c.machine l
  asks : ∀ c, i = .accept c → ¬ Z.again → ¬ Unowned Z c.machine s →
    s'.requests = s.requests ∧ s'.answers = s.answers

/-- What the task `i` may rely on. -/
structure Relies (i : TaskId) (s s' : State) : Prop where
  mono : Mono Z s s'
  held : ∀ m, (s.host m).lock = some i → s'.host m = s.host m
  start : ∀ m, i = .start m → (s.host m).running = false → s'.host m = s.host m
  owned : ∀ M, (s.host i.device).running = true → Owned Z s i.device M →
    (s'.host i.device).running = true ∧ Owned Z s' i.device M
  toManager : ∀ c, i = .accept c → s'.toManager c = s.toManager c

/-- The machine of the task `i` is not a stranger's. -/
structure Mine (i : TaskId) (s : State) : Prop where
  owner : ∀ c M, i = .accept c → (s.host c.machine).owner = some M → M = c.manager
  file : Z.known → ∀ c M, i = .accept c →
    (s.host c.machine).ownerFile = some (Z.serde.endpointId.enc M) → M = c.manager

/-- The owner in memory is the owner in the file. -/
def Synced (m : EndpointId) (s : State) : Prop :=
  Z.known → (s.host m).ownerFile = (s.host m).owner.map Z.serde.endpointId.enc

/-- When the task `i` may run an operation. -/
def Allowed (i : TaskId) : Op → State → Prop
  | .ownerUnlock, s => (s.host i.device).lock = some i ∧ Synced Z i.device s
  | .docsOpen _, s => (s.host i.device).lock = some i ∧ Synced Z i.device s
  | .ownerSet M, s =>
    (s.host i.device).lock = some i ∧ Mine Z i s ∧
      (s.host i.device).ownerFile = some (Z.serde.endpointId.enc M)
  | .claimRequestSend _, s =>
    Mine Z i s ∧ ∀ c, i = .accept c → Z.again ∨ Unowned Z c.machine s
  | .answer, s =>
    Mine Z i s ∧ ∀ c, i = .accept c → Z.again ∨ Unowned Z c.machine s
  | .writeAll b, s =>
    (∀ c, i = .accept c → .accept c ∈ s.begun ∧ s.toManager c = .empty ∧
      (s.host c.machine).running = true ∧ Owned Z s c.machine c.manager ∧
      ∃ t, Granted Z s c.machine c.manager t ∧ b = Z.serde.ticket.enc t) ∧
    ∀ c, i = .claim c → .claim c ∈ s.begun ∧ c ∈ s.managerAnswers
  | .finish, s =>
    (∀ c, i = .accept c → (s.host c.machine).running = true ∧ Owned Z s c.machine c.manager ∧
      ∃ t, Granted Z s c.machine c.manager t ∧ (s.toManager c).sent = Z.serde.ticket.enc t) ∧
    ∀ c, i = .claim c → .claim c ∈ s.begun ∧ c ∈ s.managerAnswers
  | .writeFile .docTicket b, s =>
    (s.host i.device).lock = some i ∧ Mine Z i s ∧
      (Z.readable → (s.host i.device).ticketFile = none) ∧ ∃ t, b = Z.serde.ticket.enc t
  | .writeFile .managerPublicKey b, s =>
    (s.host i.device).lock = some i ∧ Mine Z i s ∧ (s.host i.device).ticketFile ≠ none ∧
      ∃ c, i = .accept c ∧ b = Z.serde.endpointId.enc c.manager ∧ c ∈ s.answers ∧
        (Z.honest → c ∈ s.managerAnswers)
  | .writeFile (.machineDocTicket (.endpoint m)) b, s =>
    ∃ c, i = .claim c ∧ m = c.machine ∧
      (Z.honest → ∃ t, b = Z.serde.ticket.enc t ∧ Granted Z s m c.manager t)
  | .routerSpawn _ owner, s =>
    ∃ m, i = .start m ∧ (s.host m).running = false ∧
      (∀ M, owner = some M → (s.host m).ownerFile = some (Z.serde.endpointId.enc M)) ∧
      (Z.known → (s.host m).ownerFile = owner.map Z.serde.endpointId.enc)
  | _, _ => True

end Invariant

/-! ### What is kept -/

section Mono
variable {Z : Setting} {s s' s'' : State} {m M : EndpointId} {h h' : Host} {t : DocTicket}

theorem HostMono.refl (h : Host) : HostMono Z h h :=
  ⟨fun _ _ hb => hb, fun _ _ ho => ho, fun _ _ hb => hb⟩

theorem HostMono.file_ne_none (hm : HostMono Z h h') (hk : Z.known) (hf : h.ownerFile ≠ none) :
    h'.ownerFile ≠ none := by
  obtain ⟨b, hb⟩ := Option.ne_none_iff_exists'.mp hf
  rw [hm.ownerFile hk b hb]
  exact Option.some_ne_none b

theorem HostMono.trans {h'' : Host} (h₁ : HostMono Z h h') (h₂ : HostMono Z h' h'') :
    HostMono Z h h'' :=
  ⟨fun hk b hb => h₂.ownerFile hk b (h₁.ownerFile hk b hb),
    fun hk hf ho => h₂.owner hk (h₁.file_ne_none hk hf) (h₁.owner hk hf ho),
    fun hr b hb => h₂.ticketFile hr b (h₁.ticketFile hr b hb)⟩

theorem Mono.refl (s : State) : Mono Z s s :=
  ⟨fun m => .refl (s.host m), List.Subset.refl _, List.Subset.refl _, fun _ _ h => h,
    List.Subset.refl _, fun _ h => h⟩

theorem Mono.trans (h₁ : Mono Z s s') (h₂ : Mono Z s' s'') : Mono Z s s'' :=
  ⟨fun m => (h₁.hosts m).trans (h₂.hosts m), List.Subset.trans h₁.answers h₂.answers,
    List.Subset.trans h₁.managerAnswers h₂.managerAnswers,
    fun M m h => h₂.tickets M m (h₁.tickets M m h), List.Subset.trans h₁.begun h₂.begun,
    fun c h => h₂.sent c (h₁.sent c h)⟩

theorem mono_setHost (hm : HostMono Z (s.host m) h) : Mono Z s (s.setHost m h) := by
  refine ⟨fun m' => ?_, List.Subset.refl _, List.Subset.refl _, fun _ _ h => h,
    List.Subset.refl _, fun _ h => h⟩
  by_cases hne : m' = m
  · subst hne
    rw [State.setHost_self]
    exact hm
  · rw [State.setHost_of_ne s m m' h hne]
    exact .refl _

theorem Agreed.mono (ha : Agreed s m M) (hm : Mono Z s s') : Agreed s' m M := by
  obtain ⟨c, hcm, hcM, hA, hB⟩ := ha
  exact ⟨c, hcm, hcM, hm.answers hA, hm.managerAnswers hB⟩

theorem Granted.mono (hg : Granted Z s m M t) (hm : Mono Z s s') : Granted Z s' m M t := by
  refine ⟨fun hk => (hm.hosts m).ownerFile hk _ (hg.owner hk), hg.write, fun hr => ?_,
    fun hh => (hg.agreed hh).mono hm⟩
  obtain ⟨t', ht', hid⟩ := hg.doc hr
  exact ⟨t', (hm.hosts m).ticketFile hr _ ht', hid⟩

/-- What a machine that runs has in memory is in its file. -/
theorem HostOk.owned {A B : List ConnId} (hok : HostOk Z A B m (s.host m))
    (hM : (s.host m).owner = some M) : Owned Z s m M := ⟨hok.owner M hM, fun _ => hM⟩

/-- The owner of a machine does not depend on the lock, nor on the ticket. -/
theorem Owned.congr (ho : Owned Z s m M) (hfile : (s'.host m).ownerFile = (s.host m).ownerFile)
    (howner : (s'.host m).owner = (s.host m).owner)
    (hrun : (s'.host m).running = (s.host m).running) : Owned Z s' m M :=
  ⟨hfile.trans ho.1, fun h => howner.trans (ho.2 (hrun.symm.trans h))⟩

theorem HostOk.answers {A A' B B' : List ConnId} (hok : HostOk Z A B m h) (hA : A ⊆ A')
    (hB : B ⊆ B') : HostOk Z A' B' m h := by
  refine ⟨hok.ownerFile, hok.owner, hok.synced, hok.locked, hok.ticketFile, hok.shared, ?_⟩
  intro hh M hM
  obtain ⟨c, hc, hcM, h1, h2⟩ := hok.agreed hh M hM
  exact ⟨c, hc, hcM, hA h1, hB h2⟩

/-- A machine changes and its files stay. -/
theorem Inv.setHost (hi : Inv Z s) (hok : HostOk Z s.answers s.managerAnswers m h)
    (hm : HostMono Z (s.host m) h) : Inv Z (s.setHost m h) := by
  have hmono : Mono Z s (s.setHost m h) := mono_setHost hm
  refine ⟨fun m' => ?_, hi.pinged, hi.unbegun, fun c hc => ?_, fun hh M m' b hb => ?_⟩
  · by_cases hne : m' = m
    · subst hne
      rw [State.setHost_self]
      exact hok
    · rw [State.setHost_of_ne s m m' h hne]
      exact hi.hosts m'
  · obtain ⟨t, ht, hsent⟩ := hi.sent c hc
    exact ⟨t, ht.mono hmono, hsent⟩
  · obtain ⟨t, hb', ht⟩ := hi.tickets hh M m' b hb
    exact ⟨t, hb', ht.mono hmono⟩

end Mono

end Vendimint.Claim
