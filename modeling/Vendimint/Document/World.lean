import Vendimint.Store.Query
import Vendimint.Iroh.Uses

/-! # The documents of one device

`Device` is what a machine or a manager has of the documents it shares: the tickets in its files and
its replicas. `world` says what its operations do. A query is answered from the replica; a write is
stamped with the next reading of the device's clock, which is any function, and may fail; files are
read as they were written, and the document of a machine is the one its ticket names.

A program of which every operation is in `Reads P` sees the records under the keys of `P` only
(`returns_congr_of_agree`), and one of which every operation is in `Writes H` writes only records of
`H` (`moves_of_writes`). -/

namespace Vendimint.Document

open Vendimint.Store Vendimint.Async Vendimint.ManagerProtocol

/-- The ticket files of a manager, one per claimed machine. -/
structure Tickets where
  names : List EndpointId
  file : EndpointId → Option Bytes
  nodup : names.Nodup
  mem_names : ∀ m, m ∈ names ↔ (file m).isSome

/-- A device: the ticket of a machine for its document, the tickets of a manager for the documents of
its machines, the replicas, and the number of writes so far. -/
structure Device where
  docTicket : DocTicket
  tickets : Tickets
  docs : NamespaceId → Option (Replica AuthorId)
  writes : ℕ

/-- What a device depends on besides its state: encodings, the order of the authors, the readings of
its clock, and the order in which it iterates over a hash map. -/
structure Setting where
  serde : Serde
  ranking : Ranking AuthorId
  clock : ℕ → ℕ
  order : List EndpointId → List EndpointId
  order_perm : ∀ l, (order l).Perm l

/-- The contents of a ticket file. -/
def Tickets.read (T : Tickets) (m : EndpointId) : Except Error Bytes :=
  match T.file m with
  | some b => .ok b
  | none => .error notFound

/-- A replica of a document becomes `R`. -/
def Device.set (s : Device) (d : NamespaceId) (R : Replica AuthorId) : Device :=
  { s with docs := Function.update s.docs d (some R) }

@[simp] theorem Device.set_docTicket (s : Device) (d : NamespaceId) (R : Replica AuthorId) :
    (s.set d R).docTicket = s.docTicket := rfl

@[simp] theorem Device.set_tickets (s : Device) (d : NamespaceId) (R : Replica AuthorId) :
    (s.set d R).tickets = s.tickets := rfl

@[simp] theorem Device.set_docs (s : Device) (d : NamespaceId) (R : Replica AuthorId) :
    (s.set d R).docs = Function.update s.docs d (some R) := rfl

/-- A write of `v` at `k` by `a`, stamped with the next reading of the clock. -/
def Device.Put (Z : Setting) (s : Device) (d : NamespaceId) (a : AuthorId) (k v : Bytes)
    (s' : Device) : Prop :=
  ∃ R R', s.docs d = some R ∧ R.put ⟨a, k, Z.clock s.writes, v⟩ = some R' ∧
    s' = Device.set { s with writes := s.writes + 1 } d R'

/-- What reading a file may answer. -/
def Device.FileReads (Z : Setting) (s : Device) : Path → Except Error Bytes → Prop
  | .docTicket, r => r = .ok (Z.serde.ticket.enc s.docTicket)
  | .machineDocTicket (.endpoint m), r => r = s.tickets.read m
  | _, _ => True

/-- What listing a directory may answer: the ticket files in any order. -/
def Device.DirReads (s : Device) (p : Path) (r : Except Error (List FileName)) : Prop :=
  p = .machineDocTicketsDir →
    ∃ l : List EndpointId, l.Perm s.tickets.names ∧ r = .ok (l.map .endpoint)

/-- The operations of the device of `self`. -/
def exec (Z : Setting) (self : AuthorId) : (op : Op) → Device → op.Ret → Device → Prop
  | .createDirAll _, s, r, s' => s' = s ∧ r = .ok ()
  | .readFile p, s, r, s' => s' = s ∧ s.FileReads Z p r
  | .readDir p, s, r, s' => s' = s ∧ s.DirReads p r
  | .isFile _, s, r, s' => s' = s ∧ r = .ok true
  | .docsOpen id, s, r, s' =>
    s' = s ∧ if (s.docs id).isSome then r = .ok (some id) else r = .ok none ∨ ∃ e, r = .error e
  | .authorDefault, s, r, s' => s' = s ∧ r = .ok self
  | .docGetOne d k, s, r, s' =>
    s' = s ∧ ∀ R, s.docs d = some R → r = .ok (R.value Z.ranking k)
  | .docGetMany d p, s, r, s' =>
    s' = s ∧ ∀ R, s.docs d = some R → ∃ l : List (Entry AuthorId),
      l.Perm (R.matching Z.ranking p) ∧ r = .ok (l.map .ok)
  | .blobsGetBytes hash, s, r, s' => s' = s ∧ r = .ok hash
  | .docSetBytes d a k v, s, r, s' =>
    v ≠ [] ∧ s.Put Z d a k v s' ∧ r = .ok () ∨ s' = s ∧ ∃ e, r = .error e
  | .docDel d a k, s, r, s' => s.Put Z d a k [] s' ∧ r = .ok () ∨ s' = s ∧ ∃ e, r = .error e
  | .hashOrder keys, s, r, s' => s' = s ∧ r = Z.order keys
  | _, s, _, s' => s' = s

/-- A document of which there is a replica is opened. -/
theorem exec_docsOpen {Z : Setting} {self : AuthorId} {d : NamespaceId} {s s' : Device}
    {r : (Op.docsOpen d).Ret} (h : s.docs d ≠ none) :
    exec Z self (.docsOpen d) s r s' ↔ s' = s ∧ r = .ok (some d) := by
  rw [exec, if_pos (Option.isSome_iff_ne_none.mpr h)]

/-- What may be left of an operation at which a task is dropped. -/
def cut (Z : Setting) : Op → Device → Device → Prop
  | .docSetBytes d a k v, s, s' => s' = s ∨ v ≠ [] ∧ s.Put Z d a k v s'
  | .docDel d a k, s, s' => s' = s ∨ s.Put Z d a k [] s'
  | _, s, s' => s' = s

/-- **The device of `self`.** -/
def world (Z : Setting) (self : AuthorId) : World Unit Op Op.Ret Device where
  exec _ op s r s' := exec Z self op s r s'
  cut _ op s s' := cut Z op s s'

/-! ### The device's view of a document -/

/-- Whose replica of a machine's document is used. -/
inductive Access
  | machine
  | manager (machineId : EndpointId)

namespace Access

def author : Access → AuthorId
  | machine => .machine
  | manager _ => .manager

def device : Access → KvEntryAuthor
  | machine => .machine
  | manager _ => .manager

variable (J : Serde)

/-- Opening the document. -/
def openDoc : Access → FutResult NamespaceId
  | machine => MachineProtocol.getOrCreateMachineDoc J
  | manager m => do
    let machineDocTicket ← getMachine J m
    openMachineDoc machineDocTicket

def getKvValue : Access → Bytes → FutResult (Option KvEntry)
  | machine => MachineProtocol.getKvValue J
  | manager m => ManagerProtocol.getKvValue J m

def setKvValue : Access → Bytes → Bytes → FutResult Unit
  | machine => MachineProtocol.setKvValue J
  | manager m => ManagerProtocol.setKvValue J m

def getKvEntries : Access → FutResult (List KvEntry)
  | machine => MachineProtocol.getKvEntries J
  | manager m => ManagerProtocol.getKvEntries J m

def getMachineConfig : Access → FutResult (Option MachineConfig)
  | machine => MachineProtocol.getMachineConfig J
  | manager m => ManagerProtocol.getMachineConfig J m

/-- The ticket that the device has for the document. -/
def ticket (s : Device) : Access → Option DocTicket
  | machine => some s.docTicket
  | manager m => (s.tickets.file m).bind J.ticket.dec

/-- The device opens the document `d`, of which its replica is `R`. -/
def Opens (x : Access) (s : Device) (d : NamespaceId) (R : Replica AuthorId) : Prop :=
  ∃ t, x.ticket J s = some t ∧ t.capability.id = d ∧ s.docs d = some R

/-- What follows the opening of a document is the same on both devices. -/
theorem getKvValue_eq (x : Access) (key : Bytes) :
    (x.getKvValue J key).run = (x.openDoc J).run.bind (Fallible.andThen fun doc =>
      (do
        let entryOr ← attempt (call (.docGetOne doc (KV_PREFIX ++ key)))
        match entryOr with
        | none => return none
        | some entry => return some (← KvEntry.fromIrohEntry entry x.device) :
          FutResult (Option KvEntry)).run) := by
  cases x with
  | machine => rfl
  | manager m => rw [openDoc, Fallible.run_bind, Fallible.andThen_assoc]; rfl

theorem setKvValue_eq (x : Access) (key value : Bytes) :
    (x.setKvValue J key value).run = (x.openDoc J).run.bind (Fallible.andThen fun doc =>
      (do
        let author ← attempt (call .authorDefault)
        attempt (call (.docSetBytes doc author (KV_PREFIX ++ key) value)) : FutResult Unit).run) := by
  cases x with
  | machine => rfl
  | manager m => rw [openDoc, Fallible.run_bind, Fallible.andThen_assoc]; rfl

theorem getKvEntries_eq (x : Access) :
    (x.getKvEntries J).run = (x.openDoc J).run.bind (Fallible.andThen fun doc =>
      (do
        let entryStream ← attempt (call (.docGetMany doc KV_PREFIX))
        MachineProtocol.kvEntriesOf x.device entryStream [] : FutResult (List KvEntry)).run) := by
  cases x with
  | machine => rfl
  | manager m => rw [openDoc, Fallible.run_bind, Fallible.andThen_assoc]; rfl

theorem getMachineConfig_eq (x : Access) :
    (x.getMachineConfig J).run = (x.openDoc J).run.bind (Fallible.andThen fun doc =>
      (do
        let entryOr ← attempt (call (.docGetOne doc MACHINE_CONFIG_KEY))
        match entryOr with
        | none => return none
        | some entry =>
          let bytes ← attempt (call (.blobsGetBytes entry.content))
          return some (← fromSlice (J.config.dec bytes)) : FutResult (Option MachineConfig)).run) := by
  cases x with
  | machine => rfl
  | manager m => rw [openDoc, Fallible.run_bind, Fallible.andThen_assoc]; rfl

end Access

/-! ### Programs that open documents -/

/-- The operation neither queries nor writes a document. -/
def Plain : Op → Prop
  | .docGetOne _ _ => False
  | .docGetMany _ _ => False
  | .docSetBytes _ _ _ _ => False
  | .docDel _ _ _ => False
  | _ => True

theorem uses_openDoc (J : Serde) (x : Access) : (x.openDoc J).run.Uses Plain := by
  cases x with
  | machine =>
    rw [Access.openDoc, MachineProtocol.getOrCreateMachineDoc, Fallible.run_bind]
    refine Prog.Uses.andThen ⟨trivial, fun _ => trivial⟩ fun _ => ?_
    rw [Fallible.run_bind]
    refine Prog.Uses.andThen ⟨trivial, fun _ => trivial⟩ fun b => ?_
    rcases MachineProtocol.ticketOf J b with _ | t
    · simp only [Fallible.run_bind]
      refine Prog.Uses.andThen ⟨trivial, fun _ => trivial⟩ fun d => ?_
      refine Prog.Uses.andThen ⟨trivial, fun _ => trivial⟩ fun t => ?_
      exact Prog.Uses.andThen ⟨trivial, fun _ => trivial⟩ fun _ => trivial
    · exact uses_openMachineDoc t trivial
  | manager m =>
    rw [Access.openDoc, Fallible.run_bind]
    exact (uses_getMachine m trivial).andThen fun t => uses_openMachineDoc t trivial

/-! ### Programs that read -/

/-- The operation sees the records under the keys of `P` only, and writes none. -/
def Reads (P : Bytes → Prop) : Op → Prop
  | .docGetOne _ k => P k
  | .docGetMany _ p => ∀ k, p <+: k → P k
  | .docSetBytes _ _ _ _ => False
  | .docDel _ _ _ => False
  | _ => True

/-- The same tickets, and the same records under the keys of `P`. -/
def Device.AgreeOn (P : Bytes → Prop) (s t : Device) : Prop :=
  s.docTicket = t.docTicket ∧ s.tickets = t.tickets ∧
    ∀ d, Option.Rel (Replica.AgreeOn P) (s.docs d) (t.docs d)

theorem Device.AgreeOn.symm {P : Bytes → Prop} {s t : Device} (h : s.AgreeOn P t) : t.AgreeOn P s := by
  obtain ⟨h1, h2, h3⟩ := h
  refine ⟨h1.symm, h2.symm, fun d => ?_⟩
  have hd := h3 d
  generalize s.docs d = x, t.docs d = y at hd
  cases hd with
  | none => exact .none
  | some h => exact .some h.symm

section Programs
variable {Z : Setting} {self : AuthorId} {P : Bytes → Prop} {s s' t : Device}

theorem Plain.reads {op : Op} (h : Plain op) : Reads P op := by
  cases op
  case docGetOne => exact h.elim
  case docGetMany => exact h.elim
  case docSetBytes => exact h.elim
  case docDel => exact h.elim
  all_goals trivial

/-- A read leaves the state. -/
theorem eq_of_reads {op : Op} {r : op.Ret} (h : Reads P op) (he : exec Z self op s r s') : s' = s := by
  cases op
  case docSetBytes => exact h.elim
  case docDel => exact h.elim
  all_goals first | exact he | exact he.1

/-- A read answers the same in states that agree on what it sees. -/
theorem exec_of_agree {op : Op} {r : op.Ret} (h : Reads P op) (hB : s.AgreeOn P t)
    (he : exec Z self op s r s) : exec Z self op t r t := by
  obtain ⟨h1, h2, h3⟩ := hB
  cases op
  case docSetBytes => exact h.elim
  case docDel => exact h.elim
  case readFile p =>
    refine ⟨rfl, ?_⟩
    have hr := he.2
    unfold Device.FileReads at hr ⊢
    rwa [← h1, ← h2]
  case readDir p =>
    refine ⟨rfl, ?_⟩
    have hr := he.2
    unfold Device.DirReads at hr ⊢
    rwa [← h2]
  case docsOpen id =>
    refine ⟨rfl, ?_⟩
    have hr := he.2
    have hd := h3 id
    generalize s.docs id = x, t.docs id = y at hd hr ⊢
    cases hd <;> exact hr
  case docGetOne d k =>
    refine ⟨rfl, fun R' hR' => ?_⟩
    have hd := h3 d
    rw [hR'] at hd
    generalize hx : s.docs d = x at hd
    cases hd with
    | some hag => rw [he.2 _ hx, hag.value h]
  case docGetMany d p =>
    refine ⟨rfl, fun R' hR' => ?_⟩
    have hd := h3 d
    rw [hR'] at hd
    generalize hx : s.docs d = x at hd
    cases hd with
    | some hag =>
      obtain ⟨l, hl, hr⟩ := he.2 _ hx
      exact ⟨l, hl.trans (hag.matching h), hr⟩
  all_goals first | exact ⟨rfl, he.2⟩ | rfl

/-- **A program that reads returns the same in states that agree on what it sees.** -/
theorem returns_congr_of_agree {α : Type} {p : Fut α} (h : p.Uses (Reads P)) (hB : s.AgreeOn P t)
    (a : α) : Returns (world Z self) () p s a ↔ Returns (world Z self) () p t a := by
  refine returns_congr (fun h => h.symm) (fun op s r s' t hop hst he => ?_) h hB a
  obtain rfl := eq_of_reads hop he
  exact ⟨t, exec_of_agree hop hst he, hst⟩

/-! ### Programs that write -/

/-- What the operation writes is in `H`. -/
def Writes (H : Entry AuthorId → Prop) : Op → Prop
  | .docSetBytes _ a k v => ∀ t, H ⟨a, k, t, v⟩
  | .docDel _ a k => ∀ t, H ⟨a, k, t, []⟩
  | _ => True

theorem Plain.writes {H : Entry AuthorId → Prop} {op : Op} (h : Plain op) : Writes H op := by
  cases op
  case docSetBytes => exact h.elim
  case docDel => exact h.elim
  all_goals trivial

/-- The same tickets, and in each document some more records of `H`. -/
def Device.Moves (H : Entry AuthorId → Prop) (s t : Device) : Prop :=
  s.docTicket = t.docTicket ∧ s.tickets = t.tickets ∧
    ∀ d, Option.Rel (Replica.Receives H) (s.docs d) (t.docs d)

variable {H : Entry AuthorId → Prop}

theorem Device.Moves.refl (H : Entry AuthorId → Prop) (s : Device) : s.Moves H s := by
  refine ⟨rfl, rfl, fun d => ?_⟩
  rcases s.docs d with _ | R
  · exact .none
  · exact .some .refl

theorem Device.Moves.trans (h : s.Moves H s') (h' : s'.Moves H t) : s.Moves H t := by
  refine ⟨h.1.trans h'.1, h.2.1.trans h'.2.1, fun d => ?_⟩
  have h1 := h.2.2 d
  have h2 := h'.2.2 d
  generalize s.docs d = x, s'.docs d = y, t.docs d = z at h1 h2
  cases h1 with
  | none => exact h2
  | some h1 =>
    cases h2 with
    | some h2 => exact .some (h1.trans h2)

theorem Device.moves_set {d : NamespaceId} {R R' : Replica AuthorId} (hd : s.docs d = some R)
    (hR : R.Receives H R') : s.Moves H (s.set d R') := by
  refine ⟨rfl, rfl, fun d' => ?_⟩
  rw [set_docs]
  by_cases h : d' = d
  · subst h
    rw [Function.update_self, hd]
    exact .some hR
  · rw [Function.update_of_ne h]
    exact (Moves.refl H s).2.2 d'

theorem Device.Put.moves {d : NamespaceId} {a : AuthorId} {k v : Bytes} (h : s.Put Z d a k v s')
    (hH : ∀ t, H ⟨a, k, t, v⟩) : s.Moves H s' := by
  obtain ⟨R, R', hR, hput, rfl⟩ := h
  have hs : (Device.mk s.docTicket s.tickets s.docs (s.writes + 1)).docs d = some R := hR
  exact moves_set hs (Replica.receives_put (hH _) hput)

theorem moves_of_exec {op : Op} {r : op.Ret} (h : Writes H op) (he : exec Z self op s r s') :
    s.Moves H s' := by
  by_cases hop : Reads (fun _ => True) op
  · rw [eq_of_reads hop he]
    exact .refl H s
  · cases op
    case docSetBytes =>
      rcases he with ⟨-, hput, -⟩ | ⟨rfl, -⟩
      · exact hput.moves h
      · exact .refl H _
    case docDel =>
      rcases he with ⟨hput, -⟩ | ⟨rfl, -⟩
      · exact hput.moves h
      · exact .refl H _
    all_goals exact absurd (by simp [Reads]) hop

theorem moves_of_cut {op : Op} (h : Writes H op) (hc : cut Z op s s') : s.Moves H s' := by
  unfold cut at hc
  split at hc
  · rcases hc with rfl | ⟨-, hput⟩
    · exact .refl H _
    · exact hput.moves h
  · rcases hc with rfl | hput
    · exact .refl H _
    · exact hput.moves h
  · rw [hc]
    exact .refl H s

/-- **A program writes what its operations write.** -/
theorem moves_of_writes {α : Type} {p : Fut α} {o : Outcome α} (h : p.Uses (Writes H))
    (hr : Runs (world Z self) () Alone p s o s') : s.Moves H s' :=
  hr.keeps (fun _ _ _ _ hop hs he => hs.trans (moves_of_exec hop he))
    (fun _ _ _ hop hs hc => hs.trans (moves_of_cut hop hc)) h (.refl H s)

/-- A device on which records of `H` arrive keeps the records under keys apart from those of `H`. -/
theorem Device.Moves.agreeOn (h : s.Moves H s') (hP : ∀ e, H e → ∀ k, P k → ¬ e.key <+: k) :
    s.AgreeOn P s' := by
  refine ⟨h.1, h.2.1, fun d => ?_⟩
  have hd := h.2.2 d
  generalize s.docs d = x, s'.docs d = y at hd
  cases hd with
  | none => exact .none
  | some h => exact .some (h.agreeOn hP)

end Programs

/-! ### A device with one document -/

/-- Encodings by framed bytes, and a clock that counts from `start`. -/
def Setting.counting (start : ℕ) : Setting where
  serde := .framed
  ranking := ⟨fun a => match a with | .machine => 0 | .manager => 1, fun a b h => by
    cases a <;> cases b <;> first | rfl | cases h⟩
  clock n := start + n
  order := id
  order_perm l := List.Perm.refl l

/-- The tickets of a manager of one machine. -/
def Tickets.single (J : Serde) (m : EndpointId) (t : DocTicket) : Tickets where
  names := [m]
  file m' := if m' = m then some (J.ticket.enc t) else none
  nodup := List.nodup_singleton m
  mem_names m' := by by_cases h : m' = m <;> simp [h]

/-- A device with the replica `R` of the document `d` of the machine `m`. -/
def Device.single (J : Serde) (m : EndpointId) (d : NamespaceId) (R : Replica AuthorId) : Device where
  docTicket := ⟨.write d⟩
  tickets := .single J m ⟨.write d⟩
  docs := Function.update (fun _ => none) d (some R)
  writes := 0

@[simp] theorem Device.single_docs (J : Serde) (m : EndpointId) (d : NamespaceId)
    (R : Replica AuthorId) : (Device.single J m d R).docs d = some R := by
  simp [Device.single]

theorem Device.eq_of_single_docs {J : Serde} {m : EndpointId} {d d' : NamespaceId}
    {R R' : Replica AuthorId} (h : (Device.single J m d R).docs d' = some R') : d' = d ∧ R' = R := by
  by_cases hd : d' = d
  · subst hd
    rw [single_docs, Option.some.injEq] at h
    exact ⟨rfl, h.symm⟩
  · simp [Device.single, hd] at h

theorem Device.single_read (J : Serde) (m : EndpointId) (d : NamespaceId) (R : Replica AuthorId) :
    (Device.single J m d R).tickets.read m = .ok (J.ticket.enc ⟨.write d⟩) := by
  rw [Tickets.read, Device.single, Tickets.single]
  simp

theorem Access.single_opens (x : Access) (J : Serde) {m : EndpointId}
    (hx : x = .machine ∨ x = .manager m) (d : NamespaceId) (R : Replica AuthorId) :
    x.Opens J (Device.single J m d R) d R := by
  refine ⟨⟨.write d⟩, ?_, rfl, Device.single_docs J m d R⟩
  rcases hx with rfl | rfl
  · rfl
  · simp [ticket, Device.single, Tickets.single]

end Vendimint.Document
