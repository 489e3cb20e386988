import Vendimint.Async.Pool
import Vendimint.Iroh.Uses

/-! # The ticket directory of a manager

A manager has a directory with one ticket file per machine that it has claimed, and a store of
documents. Any number of its claims, listings and other operations run at a time. A claim imports the
document of a ticket and then writes the ticket to a file: the file is first made empty and is then
filled, and it stays as it is when the write fails or the process ends. Operations may fail at any
point. A document is in the store once an import of it has returned.

`writing` says of each claim what it is writing, from its import on, and `target` what the last write
that touched a file is to make of it: a file that is not its target lacks bytes. `opened` is the
history of the documents that were opened, with whether they were in the store.

* `exec_kept`, `cut_kept`, `env_kept`: every step keeps `Kept`. -/

namespace Vendimint.Tickets

open Vendimint.Store Vendimint.Async Vendimint.ManagerProtocol

/-- The tasks: the claims of each machine, the calls of `list_machines`, and all other calls. -/
inductive TaskId
  | claim (machineId : EndpointId) (n : ℕ)
  | list (n : ℕ)
  | use (n : ℕ)
  deriving DecidableEq

/-- The ticket directory and the document store. -/
structure State where
  files : FileName → Option Bytes
  docs : List NamespaceId
  writing : TaskId → Option (FileName × Bytes)
  target : FileName → Bytes
  opened : List (NamespaceId × Bool)

namespace State

/-- No machine is claimed. -/
def fresh : State := ⟨fun _ => none, [], fun _ => none, fun _ => [], []⟩

/-- The file `n`, which is to become `c`, has the contents `p`. -/
def fill (s : State) (n : FileName) (c p : Bytes) : State :=
  { s with
    files := Function.update s.files n (some p)
    target := Function.update s.target n c }

/-- The claim `i` is not writing. -/
def stopped (s : State) (i : TaskId) : State := { s with writing := Function.update s.writing i none }

/-- The claim `i` has imported a document and goes on to write its ticket. -/
def importing (J : Serde) (s : State) (i : TaskId) (ticket : DocTicket) : State :=
  match i with
  | .claim machineId _ =>
    { s with writing := Function.update s.writing i (some (.endpoint machineId, J.ticket.enc ticket)) }
  | _ => s

/-- The document `d` is in the store. -/
def store (s : State) (d : NamespaceId) : State := { s with docs := d :: s.docs }

/-- The document `d` was opened, if it was in the store. -/
def opening (s : State) (d : NamespaceId) : State :=
  { s with opened := (d, decide (d ∈ s.docs)) :: s.opened }

/-- Every file that is there has all bytes of the last write that touched it. -/
def Filled (s : State) (n : FileName) : Prop := ∀ b, s.files n = some b → b = s.target n

end State

section Semantics
variable (J : Serde) (sound calm : Prop)

/-- What the operations of the task `i` do. If `sound`, no import of a document that is not in the
store fails; if `calm`, no listing reads a file that lacks bytes. -/
def effect (i : TaskId) : (op : Op) → State → op.Ret → State → Prop
  | .docsImport ticket, s, r, s' =>
    (r = .ok () ∧ s' = (s.store ticket.capability.id).importing J i ticket) ∨
      (¬ Op.Succeeds (.docsImport ticket) r ∧ (sound → ticket.capability.id ∈ s.docs) ∧
        s' = s.importing J i ticket)
  | .writeFile (.machineDocTicket n) c, s, r, s' =>
    (r = .ok () ∧ s' = (s.fill n c c).stopped i) ∨
      (¬ Op.Succeeds (.writeFile (.machineDocTicket n) c) r ∧
        (s' = s.stopped i ∨ ∃ p, p <+: c ∧ s' = (s.fill n c p).stopped i))
  | .readDir .machineDocTicketsDir, s, r, s' => s' = s ∧ ∀ l, r = .ok l → ∀ n ∈ l, s.files n ≠ none
  | .isFile (.machineDocTicket n), s, r, s' => s' = s ∧ ∀ b, r = .ok b → b = (s.files n).isSome
  | .readFile (.machineDocTicket n), s, r, s' =>
    s' = s ∧ (∀ b, r = .ok b → s.files n = some b) ∧ (calm → ∀ k, i = .list k → s.Filled n)
  | .docsOpen d, s, r, s' =>
    s' = s.opening d ∧ ∀ o, r = .ok o → o = if d ∈ s.docs then some d else none
  | _, s, _, s' => s' = s

/-- What is left when the task `i` is dropped at an operation. -/
def dropped (i : TaskId) : Op → State → State → Prop
  | .writeFile (.machineDocTicket n) c, s, s' =>
    s' = s.stopped i ∨ ∃ p, p <+: c ∧ s' = (s.fill n c p).stopped i
  | _, s, s' => s' = s.stopped i

/-- A write that is under way has filled a part of its file. -/
def Fills (s s' : State) : Prop :=
  ∃ i n c p, s.writing i = some (n, c) ∧ p <+: c ∧ s' = s.fill n c p

/-- The process ends, and another one starts. -/
def Restarts (s s' : State) : Prop := s' = { s with writing := fun _ => none }

/-- **The operations on the ticket directory.** -/
def directory : World TaskId Op Op.Ret State where
  exec := effect J sound calm
  cut := dropped

/-! ### The invariant -/

/-- Contents of a ticket file: a ticket, whose document is in the store if imports are sound. -/
def Stored (docs : List NamespaceId) (n : FileName) (c : Bytes) : Prop :=
  (∃ m, n = .endpoint m) ∧ ∃ t, c = J.ticket.enc t ∧ (sound → t.capability.id ∈ docs)

/-- **The invariant.** A file is a part of a ticket, and so is what is being written. -/
structure Kept (s : State) : Prop where
  files : ∀ n b, s.files n = some b → Stored J sound s.docs n (s.target n) ∧ b <+: s.target n
  writing : ∀ i n c, s.writing i = some (n, c) → Stored J sound s.docs n c
  opened : sound → ∀ x ∈ s.opened, x.2 = true

/-- When a task may run an operation. -/
def Allowed : Op → State → Prop
  | .writeFile (.machineDocTicket n) c, s => Stored J sound s.docs n c
  | .docsOpen d, s => sound → d ∈ s.docs
  | _, _ => True

end Semantics

/-- No document leaves the store. -/
def Grows (s s' : State) : Prop := s.docs ⊆ s'.docs

theorem Grows.refl (s : State) : Grows s s := List.Subset.refl _

section Steps
variable {J : Serde} {sound calm : Prop} {i : TaskId} {s s' : State}

@[simp] theorem State.fill_docs (n : FileName) (c p : Bytes) : (s.fill n c p).docs = s.docs := rfl

@[simp] theorem State.stopped_docs : (s.stopped i).docs = s.docs := rfl

@[simp] theorem State.importing_docs (t : DocTicket) : (s.importing J i t).docs = s.docs := by
  unfold State.importing
  split <;> rfl

theorem Stored.mono {docs docs' : List NamespaceId} {n : FileName} {c : Bytes}
    (h : Stored J sound docs n c) (hsub : docs ⊆ docs') : Stored J sound docs' n c := by
  obtain ⟨hn, t, hc, ht⟩ := h
  exact ⟨hn, t, hc, fun hs => hsub (ht hs)⟩

theorem kept_fresh : Kept J sound State.fresh := by
  refine ⟨?_, ?_, ?_⟩
  · intro n b hb
    cases hb
  · intro i n c hc
    cases hc
  · intro _ x hx
    cases hx

/-- A write that fills a part of its file. -/
theorem Kept.fill (h : Kept J sound s) {n : FileName} {c p : Bytes} (hc : Stored J sound s.docs n c)
    (hp : p <+: c) : Kept J sound (s.fill n c p) := by
  refine ⟨fun n' b hb => ?_, h.writing, h.opened⟩
  unfold State.fill at hb ⊢
  by_cases hn : n' = n
  · subst hn
    simp only [Function.update_self, Option.some.injEq] at hb ⊢
    subst hb
    exact ⟨hc, hp⟩
  · simp only [Function.update_of_ne hn] at hb ⊢
    exact h.files n' b hb

theorem Kept.stopped (h : Kept J sound s) (i : TaskId) : Kept J sound (s.stopped i) := by
  refine ⟨h.files, fun j n c hj => ?_, h.opened⟩
  unfold State.stopped at hj
  by_cases hji : j = i
  · subst hji
    simp at hj
  · simp only [Function.update_of_ne hji] at hj
    exact h.writing j n c hj

theorem Kept.store (h : Kept J sound s) (d : NamespaceId) : Kept J sound (s.store d) := by
  have hsub : s.docs ⊆ d :: s.docs := List.subset_cons_self d s.docs
  refine ⟨fun n b hb => ?_, fun i n c hc => (h.writing i n c hc).mono hsub, h.opened⟩
  obtain ⟨h1, h2⟩ := h.files n b hb
  exact ⟨h1.mono hsub, h2⟩

/-- A claim goes on to write a ticket whose document is in the store. -/
theorem Kept.importing (h : Kept J sound s) (i : TaskId) {t : DocTicket}
    (ht : sound → t.capability.id ∈ s.docs) : Kept J sound (s.importing J i t) := by
  unfold State.importing
  split
  · next machineId k =>
    refine ⟨h.files, fun j n c hj => ?_, h.opened⟩
    by_cases hji : j = .claim machineId k
    · subst hji
      simp only [Function.update_self, Option.some.injEq, Prod.mk.injEq] at hj
      obtain ⟨rfl, rfl⟩ := hj
      exact ⟨⟨machineId, rfl⟩, t, rfl, ht⟩
    · simp only [Function.update_of_ne hji] at hj
      exact h.writing j n c hj
  · exact h

/-- **An operation keeps the invariant.** -/
theorem exec_kept (h : Kept J sound s) {op : Op} (ha : Allowed J sound op s) {r : op.Ret}
    (he : effect J sound calm i op s r s') : Kept J sound s' ∧ Grows s s' := by
  unfold effect at he
  split at he
  · rcases he with ⟨-, rfl⟩ | ⟨-, ht, rfl⟩
    · refine ⟨(h.store _).importing i fun _ => List.mem_cons_self, ?_⟩
      rw [Grows, State.importing_docs]
      exact List.subset_cons_self _ _
    · refine ⟨h.importing i ht, ?_⟩
      rw [Grows, State.importing_docs]
      exact List.Subset.refl _
  · rcases he with ⟨-, rfl⟩ | ⟨-, rfl | ⟨p, hp, rfl⟩⟩
    · exact ⟨(h.fill ha List.prefix_rfl).stopped i, Grows.refl s⟩
    · exact ⟨h.stopped i, Grows.refl s⟩
    · exact ⟨(h.fill ha hp).stopped i, Grows.refl s⟩
  · obtain ⟨rfl, -⟩ := he
    exact ⟨h, Grows.refl _⟩
  · obtain ⟨rfl, -⟩ := he
    exact ⟨h, Grows.refl _⟩
  · obtain ⟨rfl, -⟩ := he
    exact ⟨h, Grows.refl _⟩
  · obtain ⟨rfl, -⟩ := he
    refine ⟨⟨h.files, h.writing, fun hs x hx => ?_⟩, Grows.refl s⟩
    rcases List.mem_cons.mp hx with rfl | hx
    · exact decide_eq_true (ha hs)
    · exact h.opened hs x hx
  · subst he
    exact ⟨h, Grows.refl _⟩

/-- **A task that is dropped keeps the invariant.** -/
theorem cut_kept (h : Kept J sound s) {op : Op} (ha : Allowed J sound op s)
    (hc : dropped i op s s') : Kept J sound s' ∧ Grows s s' := by
  unfold dropped at hc
  split at hc
  · rcases hc with rfl | ⟨p, hp, rfl⟩
    · exact ⟨h.stopped i, Grows.refl s⟩
    · exact ⟨(h.fill ha hp).stopped i, Grows.refl s⟩
  · subst hc
    exact ⟨h.stopped i, Grows.refl s⟩

/-- **The environment keeps the invariant.** -/
theorem env_kept (h : Kept J sound s) (he : Fills s s' ∨ Restarts s s') :
    Kept J sound s' ∧ Grows s s' := by
  rcases he with ⟨i, n, c, p, hi, hp, rfl⟩ | he
  · exact ⟨h.fill (h.writing i n c hi) hp, Grows.refl s⟩
  · subst he
    exact ⟨⟨h.files, fun _ _ _ hc => (by cases hc), h.opened⟩, Grows.refl s⟩

/-- **What is read of a file that has all bytes** is a ticket. -/
theorem Kept.dec_of_filled (h : Kept J sound s) {n : FileName} {b : Bytes} (hb : s.files n = some b)
    (hf : s.Filled n) : ∃ t, J.ticket.dec b = some t := by
  obtain ⟨⟨-, t, ht, -⟩, -⟩ := h.files n b hb
  exact ⟨t, by rw [hf b hb, ht, Format.decode_encode]⟩

/-- The document of a ticket that is read from a file is in the store. -/
theorem Kept.stored (h : Kept J sound s) {n : FileName} {b : Bytes} (hb : s.files n = some b)
    {t : DocTicket} (ht : J.ticket.dec b = some t) (hs : sound) : t.capability.id ∈ s.docs := by
  obtain ⟨⟨-, t', ht', hd⟩, hp⟩ := h.files n b hb
  rw [ht'] at hp
  obtain ⟨-, rfl⟩ := J.ticket.eq_of_prefix hp ht
  exact hd hs

end Steps

/-- The discipline of the ticket directory. -/
def discipline (J : Serde) (sound : Prop) : Discipline TaskId State where
  inv := Kept J sound
  rely _ := Grows
  guar _ := Grows
  rely_refl _ := Grows.refl
  rely_trans h h' := List.Subset.trans h h'
  compat _ _ _ h := h

end Vendimint.Tickets
