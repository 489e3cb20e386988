import Vendimint.Identity.Tasks

/-! # The identity of a machine persists

* `identity_persists`: while files that hold complete values are read, and no write to one is cut short,
  and no two tasks create a document at once, no step replaces a secret key, an owner or a ticket that is
  completely stored, or uses another one.
* `one_document`: while no two tasks create a document at once, all calls use the document of the ticket
  in the file.
* `key_replaced`, `two_documents`: otherwise a key is replaced, and calls use two documents. -/

namespace Vendimint.Identity

open Vendimint.Store Vendimint.Async

section Persist
variable {J : Serde} {s s' : State} {P P' : Pool TaskId Op Op.Ret Result State}

theorem inv_initial (files : Path → Option Bytes) (docs : List NamespaceId) :
    Inv J (.initial files docs) :=
  ⟨fun _ h => (by cases h), fun h => (by cases h), Or.inl rfl, fun _ h => by rcases h with h | h <;> cases h⟩

theorem inv_crash (hi : Inv J s) : Inv J s.crash :=
  ⟨fun _ h => (by cases h), fun h => (by cases h), Or.inl rfl, hi.one⟩

/-- **The discipline of a machine.** -/
def relyGuarantee (J : Serde) : RelyGuarantee (calmMachine J) where
  toDiscipline := discipline J
  post _ := Outcome.returns fun _ _ => True
  env_ok {s s' dead} hi he := by
    rcases he with ⟨-, rfl, -⟩ | ⟨-, rfl, hdead⟩
    · exact ⟨⟨hi.lock, hi.synced, hi.creating, hi.one⟩, fun i _ => ⟨List.Subset.refl _, fun _ h => h,
        fun _ _ h h' => ⟨h, h', rfl, rfl⟩, fun h => h, fun h => h, fun _ h => ⟨h, rfl, rfl⟩, fun h => h⟩⟩
    · refine ⟨inv_crash hi, fun i hi => ?_⟩
      rw [hdead i] at hi
      cases hi
  spawn_ok {i p s s'} hi hs := by
    obtain ⟨hnew, ⟨n, rfl, hstarter, hrun, rfl, rfl⟩ | ⟨n, c, rfl, hrun, rfl, rfl⟩⟩ := hs
    · have hi' : Inv J { s with starter := some n, begun := .start n :: s.begun } :=
        ⟨fun j hj => List.mem_cons_of_mem _ (hi.lock j hj), hi.synced, hi.creating, hi.one⟩
      refine ⟨hi', fun j _ => ⟨List.subset_cons_self _ _, fun _ h => h, fun m _ hm _ => ?_, fun h => h,
        fun h => h, fun _ h => ⟨h, rfl, rfl⟩, fun h => h⟩, starting_safe ⟨⟨n, rfl, rfl⟩, hrun⟩ hi'⟩
      rw [hstarter] at hm
      cases hm
    · have hi' : Inv J { s with begun := .call n :: s.begun } :=
        ⟨fun j hj => List.mem_cons_of_mem _ (hi.lock j hj), hi.synced, hi.creating, hi.one⟩
      refine ⟨hi', fun j _ => ⟨List.subset_cons_self _ _, fun _ h => h,
        fun _ _ h h' => ⟨h, h', rfl, rfl⟩, fun h => h, fun h => h, fun _ h => ⟨h, rfl, rfl⟩, fun h => h⟩,
        program_safe c ⟨⟨⟨n, rfl⟩, hrun, List.mem_cons_self⟩, fun _ hlock => ?_,
          fun w hw => by cases hw⟩ hi'⟩
      exact hnew (hi.lock _ hlock)

theorem good {files : Path → Option Bytes} {docs : List NamespaceId}
    (h : Steps (calmMachine J) (Pool.idle (.initial files docs)) P) : Good (relyGuarantee J) P :=
  good_steps (good_idle (inv_initial files docs)) h

/-- **The identity of a machine persists** over every run on which, whenever a file that holds a complete
value is read, it can be read, whenever a write to such a file fails or is cut short, the file is left
as it was, and whenever a task reads the ticket, no other one is on its way to create a document: no
step replaces what is completely stored or uses anything else. -/
theorem identity_persists {files : Path → Option Bytes} {docs : List NamespaceId}
    (h : Steps ((machine J).given (Calm J) (CalmCut J)) (Pool.idle (.initial files docs)) P)
    (hstep : Step ((machine J).given (Calm J) (CalmCut J)) P P') : Faithful J P.st P'.st := by
  have hgood := good h
  cases hstep with
  | run hi he => exact (hgood.guar hi he).faithful
  | @abort i op k s' hi hc =>
    exact ((hgood.2 i _ hi P.st (.refl J i P.st) hgood.1).2 s' hc).2.1.faithful
  | @spawn i p s' hi hs =>
    obtain ⟨-, ⟨n, -, -, hrun, -, rfl⟩ | ⟨n, c, -, -, -, rfl⟩⟩ := hs
    · exact ⟨fun _ h => ⟨h, rfl, Or.inl rfl⟩, fun _ h => ⟨h, fun _ h1 => by rw [hrun] at h1; cases h1⟩,
        fun _ h => ⟨h, rfl, Or.inl rfl⟩⟩
    · exact ⟨fun _ h => ⟨h, rfl, Or.inl rfl⟩, fun _ h => ⟨h, fun h0 h1 => by rw [h0] at h1; cases h1⟩,
        fun _ h => ⟨h, rfl, Or.inl rfl⟩⟩
  | env he =>
    rcases he with ⟨-, rfl, -⟩ | ⟨-, rfl, -⟩
    · exact ⟨fun _ h => ⟨h, rfl, Or.inl rfl⟩, fun _ h => ⟨h, fun h0 h1 => by rw [h0] at h1; cases h1⟩,
        fun _ h => ⟨h, rfl, Or.inl rfl⟩⟩
    · exact ⟨fun _ h => ⟨h, rfl, Or.inl rfl⟩, fun _ h => ⟨h, fun _ h1 => by cases h1⟩,
        fun _ h => ⟨h, rfl, Or.inl rfl⟩⟩

/-! ### One document -/

/-- **All calls use one document**: the one that the ticket in the file names. -/
def OneDoc (J : Serde) (s : State) : Prop := ∀ d, d ∈ s.returned ∨ d ∈ s.used → Stored J s d

theorem files_of_whole {p : Path} (h : Whole J s p) : s.files p ≠ none := by
  intro hnone
  cases p
  case secretKey => exact h (by simp [storedKey, hnone])
  case managerPublicKey => exact h (by simp [storedOwner, hnone])
  case docTicket => exact h (by simp [storedTicket, hnone])
  all_goals exact h

/-- Where no operation on files fails, the condition is met. -/
theorem calm_of_smooth {i : TaskId} {op : Op} {r : op.Ret} (h : Smooth i op s r s') (ha : Apart op s) :
    Calm J i op s r s' := by
  refine ⟨ha, ?_⟩
  cases op
  case readFile p => exact fun hwhole => h.2 (files_of_whole hwhole)
  case writeFile p b =>
    rintro - ⟨e, rfl⟩
    obtain ⟨a, ha⟩ := h.1 trivial
    cases ha
  all_goals trivial

/-- **All users of a machine agree on one document** in every run on which every operation on files and
documents succeeds and, whenever a task reads the ticket, no other one is on its way to create a
document. -/
theorem one_document {files : Path → Option Bytes} {docs : List NamespaceId}
    (h : Steps ((machine J).given (fun i op s r s' => Smooth i op s r s' ∧ Apart op s) SmoothCut)
      (Pool.idle (.initial files docs)) P) : OneDoc J P.st := by
  have hcalm : Steps (calmMachine J) (Pool.idle (.initial files docs)) P :=
    steps_given (fun h => calm_of_smooth h.1 h.2) (fun h p _ => by rw [h]) h
  exact (good hcalm).1.one

end Persist

/-! ### Runs that do not meet the condition -/

namespace Twice

def key : BytesN 32 := .replicate 32 1

def other : BytesN 32 := .replicate 32 2

/-- The directory of a machine that has run before. -/
def files (p : Path) : Option Bytes := if p = .secretKey then some key.bytes else none

theorem storedKey_files {s : State} (h : s.files = files) : storedKey s = some ⟨key⟩ := by
  simp [storedKey, h, files]

/-- The state in which the machine starts. -/
def begun : State := { State.initial files [] with starter := some 0, begun := [.start 0] }

/-- The state in which it has used its key. -/
def bound : State := { begun with keys := [⟨key⟩] }

/-- The state in which it runs. -/
def started : State := { bound with running := true }

/-- The state in which another key has been generated. -/
def generated : State := { begun with generated := [⟨other⟩] }

/-- The start of the machine, up to its first use of the key. -/
theorem begins_start {G : TaskId → (op : Op) → State → op.Ret → State → Prop}
    {C : TaskId → Op → State → State → Prop}
    (hG : G (.start 0) (.readFile .secretKey) begun (.ok key.bytes) begun) :
    ∃ k, Begins ((machine .framed).given G C).toWorld (.start 0) (starting .framed) begun
      (.await (.endpointBind ⟨key⟩) k) begun := by
  simp only [starting, MachineProtocol.new, SharedProtocol.new, SharedProtocol.loadSecretKey,
    Fallible.run_bind, run_attempt, await_eq, Fallible.run_of, call_eq, Prog.await_bind, Prog.pure_bind,
    Fallible.andThen_ok]
  constructor
  refine begins_next (.readFile .secretKey) (.ok key.bytes) begun
    ⟨⟨rfl, fun b hb => (by cases hb; rfl), rfl⟩, hG⟩ ?_
  exact .refl _ _

/-- The read of the key fails, and a new one is about to be written. -/
theorem begins_fault : ∃ k, Begins (machine .framed).toWorld (.start 0) (starting .framed) begun
    (.await (.writeFile .secretKey other.bytes) k) { begun with generated := [⟨other⟩] } := by
  simp only [starting, MachineProtocol.new, SharedProtocol.new, SharedProtocol.loadSecretKey,
    Fallible.run_bind, run_attempt, await_eq, Fallible.run_of, call_eq, Prog.await_bind, Prog.pure_bind,
    Fallible.andThen_ok]
  constructor
  refine begins_next (.readFile .secretKey) (.error "Input/output error") begun
    ⟨rfl, fun b hb => (by cases hb), rfl⟩ ?_
  refine begins_next .fillBytes other generated ⟨rfl, rfl⟩ ?_
  refine begins_next (.createDirAll .storageDir) (.ok ()) _ ⟨rfl, rfl⟩ ?_
  exact .refl _ _

end Twice

open Twice in
/-- A machine is started on the directory of one that has run before, and uses its key. -/
theorem identity_persists_started : ∃ P P' : Pool TaskId Op Op.Ret Result State,
    Step ((machine .framed).given (Calm .framed) (CalmCut .framed)) P P' ∧
      storedKey P.st = some ⟨key⟩ ∧ P'.st.keys = [⟨key⟩] ∧ Faithful .framed P.st P'.st := by
  obtain ⟨k, hbegins⟩ := @begins_start (Calm .framed) (CalmCut .framed)
    ⟨fun h => (by cases h), fun _ => ⟨_, rfl⟩⟩
  have he : ((machine .framed).given (Calm .framed) (CalmCut .framed)).exec (.start 0)
      (.endpointBind ⟨key⟩) begun (.ok ()) bound :=
    ⟨⟨rfl, rfl⟩, fun h => (by cases h), trivial⟩
  obtain ⟨P, P', hsteps, hstep, hP, hP'⟩ := step_of_start
    (Y := (machine .framed).given (Calm .framed) (CalmCut .framed)) (s := .initial files [])
    (f := fun _ => none)
    ⟨by simp [State.initial], Or.inl ⟨0, rfl, rfl, rfl, rfl, rfl⟩⟩ rfl hbegins he
  exact ⟨P, P', hstep, storedKey_files (by rw [hP]; rfl), by rw [hP']; rfl,
    identity_persists hsteps hstep⟩

open Twice in
/-- **A key is replaced**: the file cannot be read for a moment, and the machine gets a new identity. -/
theorem key_replaced : ¬ ∀ (J : Serde) (files : Path → Option Bytes) (docs : List NamespaceId)
    (P P' : Pool TaskId Op Op.Ret Result State), Steps (machine J) (Pool.idle (.initial files docs)) P →
      Step (machine J) P P' → Faithful J P.st P'.st := by
  intro h
  obtain ⟨k, hbegins⟩ := begins_fault
  have he : (machine .framed).exec (.start 0) (.writeFile .secretKey other.bytes) generated (.ok ())
      (generated.write .secretKey other.bytes) := ⟨rfl, Or.inl ⟨rfl, rfl⟩⟩
  obtain ⟨P, P', hsteps, hstep, hP, hP'⟩ := step_of_start (Y := machine .framed)
    (s := .initial files []) (f := fun _ => none)
    ⟨by simp [State.initial], Or.inl ⟨0, rfl, rfl, rfl, rfl, rfl⟩⟩ rfl hbegins he
  have hkept := ((h .framed files [] P P' hsteps hstep).key ⟨key⟩
    (storedKey_files (by rw [hP]; rfl))).1
  have hnew : storedKey P'.st = some ⟨other⟩ := by simp [hP', storedKey]
  exact absurd (hkept.symm.trans hnew) (by decide)

namespace Twice

/-- A machine on which every operation on files and documents succeeds, and the tasks that create a
document are apart if `B`. -/
def relaxed (B : Prop) : System TaskId Op Op.Ret Result State :=
  (machine .framed).given (fun i op s r s' => Smooth i op s r s' ∧ (B → Apart op s)) SmoothCut

variable {B : Prop} {s : State}

/-- A step of an operation other than a read of the ticket. -/
theorem relaxed_exec {i : TaskId} {op : Op} {r : op.Ret} {s' : State}
    (h : (machine .framed).exec i op s r s')
    (hr : Smooth i op s r s') (hop : op ≠ .readFile .docTicket) : (relaxed B).exec i op s r s' :=
  ⟨h, hr, fun _ h => absurd h hop⟩

/-- The start of the machine. -/
theorem runs_start : Runs (relaxed B).toWorld (.start 0) Alone (starting .framed) begun
    (.returned (.started (.ok (⟨key⟩, none)))) started := by
  simp only [starting, MachineProtocol.new, SharedProtocol.new, SharedProtocol.loadSecretKey,
    Fallible.run_bind, run_attempt, await_eq, Fallible.run_of, call_eq, Prog.await_bind, Prog.pure_bind,
    Fallible.andThen_ok]
  refine runs_next (.readFile .secretKey) (.ok key.bytes) begun
    (relaxed_exec ⟨rfl, fun b hb => (by cases hb; rfl), rfl⟩ ⟨fun h => h.elim, fun _ => ⟨_, rfl⟩⟩
      (by simp)) ?_
  refine runs_next (.endpointBind ⟨key⟩) (.ok ()) bound
    (relaxed_exec ⟨rfl, rfl⟩ ⟨fun h => h.elim, trivial⟩ (by simp)) ?_
  refine runs_next (.createDirAll _) (.ok ()) _
    (relaxed_exec ⟨rfl, rfl⟩ ⟨fun _ => ⟨_, rfl⟩, trivial⟩ (by simp)) ?_
  refine runs_next (.createDirAll _) (.ok ()) _
    (relaxed_exec ⟨rfl, rfl⟩ ⟨fun _ => ⟨_, rfl⟩, trivial⟩ (by simp)) ?_
  refine runs_next .blobsLoad (.ok ()) _
    (relaxed_exec ⟨rfl, rfl⟩ ⟨fun h => h.elim, trivial⟩ (by simp)) ?_
  refine runs_next .docsSpawn (.ok ()) _
    (relaxed_exec ⟨rfl, rfl⟩ ⟨fun h => h.elim, trivial⟩ (by simp)) ?_
  refine runs_next (.readFile .managerPublicKey) (.error notFound) _
    (relaxed_exec ⟨rfl, fun b hb => (by cases hb), rfl⟩ ⟨fun h => h.elim, fun h => absurd rfl h⟩
      (by simp)) ?_
  exact runs_next (.routerSpawn _ _) () started
    (relaxed_exec ⟨rfl, rfl⟩ ⟨fun h => h.elim, trivial⟩ (by simp)) (.returned _ _)

/-- The call `n` has found no ticket. -/
def found (n : ℕ) (s : State) : State := { s with creating := .call n :: s.creating }

/-- The call `n` has created the document `d`. -/
def created (n : ℕ) (d : NamespaceId) (s : State) : State :=
  { s.settle (.call n) with
    docs := d :: s.docs
    files := Function.update s.files .docTicket (some (Serde.framed.ticket.enc ⟨.write d⟩))
    returned := d :: s.returned }

/-- The call `n` has written a value to the document. -/
def valued (n : ℕ) (d : NamespaceId) (s : State) : State :=
  { created n d s with used := d :: s.used }

/-- What is left of `get_or_create_machine_doc` if it has found no ticket. -/
def create : FutResult NamespaceId := do
  let newDoc ← attempt (call .docsCreate)
  let newDocTicket ← attempt (call (.docShare newDoc))
  attempt (call (.writeFile .docTicket (Serde.framed.ticket.enc newDocTicket)))
  return newDoc

/-- What follows in a call that writes a value. -/
def put (doc : NamespaceId) : FutResult Unit := do
  let author ← attempt (call .authorDefault)
  attempt (call (.docSetBytes doc author (KV_PREFIX ++ []) []))

/-- What is left of a call that writes a value and has found no ticket. -/
def creation : Fut Result :=
  (create.run.bind (Fallible.andThen fun doc => (put doc).run)).bind fun r => .pure (.written r)

/-- A call that writes a value, up to its read of the ticket. -/
theorem begins_setKvValue {n : ℕ} (hh : s.halted = false) (hfile : s.files .docTicket = none)
    (hB : B → s.creating = []) : Begins (relaxed B).toWorld (.call n)
      (Call.program .framed (.setKvValue [] [])) s creation (found n s) := by
  simp only [Call.program, MachineProtocol.setKvValue, MachineProtocol.getOrCreateMachineDoc,
    Fallible.run_bind, run_attempt, await_eq, Fallible.run_of, call_eq, Prog.await_bind, Prog.pure_bind,
    Fallible.andThen_ok]
  refine begins_next (.createDirAll _) (.ok ()) s
    (relaxed_exec ⟨hh, rfl⟩ ⟨fun _ => ⟨_, rfl⟩, trivial⟩ (by simp)) ?_
  refine begins_next (.readFile .docTicket) (.error notFound) (found n s)
    ⟨⟨hh, fun b hb => (by cases hb), rfl⟩, ⟨fun h => h.elim, fun h => absurd hfile h⟩,
      fun hb _ => hB hb⟩ ?_
  exact .refl _ _

/-- The rest of the call. -/
theorem runs_creation {n : ℕ} {d : NamespaceId} (hh : s.halted = false) (hd : d ∉ s.docs) :
    Runs (relaxed B).toWorld (.call n) Alone creation s (.returned (.written (.ok ())))
      (valued n d s) := by
  simp only [creation, create, put, Fallible.run_bind, run_attempt, Fallible.run_pure, call_eq,
    Prog.await_bind, Prog.pure_bind]
  refine runs_next .docsCreate (.ok d) { s with docs := d :: s.docs }
    (relaxed_exec ⟨hh, Or.inl ⟨d, hd, rfl, rfl⟩⟩ ⟨fun _ => ⟨_, rfl⟩, trivial⟩ (by simp)) ?_
  refine runs_next (.docShare d) (.ok ⟨.write d⟩) { s with docs := d :: s.docs }
    (relaxed_exec ⟨hh, Or.inl ⟨⟨_, rfl, rfl⟩, rfl⟩⟩ ⟨fun _ => ⟨_, rfl⟩, trivial⟩ (by simp)) ?_
  refine runs_next (.writeFile .docTicket _) (.ok ()) (created n d s)
    (relaxed_exec ⟨hh, Or.inl ⟨rfl, ?_⟩⟩ ⟨fun _ => ⟨_, rfl⟩, trivial⟩ (by simp)) ?_
  · rw [docOf, Serde.framed.ticket.dec_enc]
    rfl
  refine runs_next .authorDefault (.ok .machine) (created n d s)
    (relaxed_exec ⟨hh, rfl⟩ ⟨fun _ => ⟨_, rfl⟩, trivial⟩ (by simp)) ?_
  exact runs_next (.docSetBytes d _ _ _) (.ok ()) (valued n d s)
    (relaxed_exec ⟨hh, rfl⟩ ⟨fun _ => ⟨_, rfl⟩, trivial⟩ (by simp)) (.returned _ _)

/-- The tasks on a machine that has started. -/
def tasks : TaskId → Option (Fut Result) :=
  Function.update (fun _ => none) (.start 0) (some (.pure (.started (.ok (⟨key⟩, none)))))

theorem steps_started : Steps (relaxed B) (Pool.idle (.initial files [])) ⟨started, tasks⟩ := by
  have hs : (relaxed B).spawn (.start 0) (starting .framed) (.initial files []) begun :=
    ⟨by simp [State.initial], Or.inl ⟨0, rfl, rfl, rfl, rfl, rfl⟩⟩
  exact steps_of_return hs rfl runs_start

/-- A call begins on a machine that runs, and finds no ticket. -/
theorem steps_found {f : TaskId → Option (Fut Result)} {n : ℕ} (hf : f (.call n) = none)
    (hn : .call n ∉ s.begun) (hrun : s.running = true) (hh : s.halted = false)
    (hfile : s.files .docTicket = none) (hB : B → s.creating = []) :
    Steps (relaxed B) ⟨s, f⟩
      ⟨found n { s with begun := .call n :: s.begun }, Function.update f (.call n) (some creation)⟩ := by
  have hs : (relaxed B).spawn (.call n) (Call.program .framed (.setKvValue [] [])) s
      { s with begun := .call n :: s.begun } := ⟨hn, Or.inr ⟨n, _, rfl, hrun, rfl, rfl⟩⟩
  exact steps_of_start hs hf (begins_setKvValue hh hfile hB)

/-- It creates the document. -/
theorem steps_created {f : TaskId → Option (Fut Result)} {n : ℕ} {d : NamespaceId}
    (hf : f (.call n) = some creation) (hh : s.halted = false) (hd : d ∉ s.docs) :
    Steps (relaxed B) ⟨s, f⟩
      ⟨valued n d s, Function.update f (.call n) (some (.pure (.written (.ok ()))))⟩ :=
  steps_of_runs (runs_creation hh hd) hf

def doc (b : UInt8) : NamespaceId := ⟨.replicate 32 b⟩

end Twice

open Twice in
/-- A value is written to the document of a machine. -/
theorem one_document_written : ∃ P : Pool TaskId Op Op.Ret Result State,
    P.st.used = [doc 0] ∧ OneDoc .framed P.st := by
  have hfound := steps_started.trans
    (@steps_found True started tasks 0 rfl (by decide) rfl rfl rfl fun _ => rfl)
  have hsteps := hfound.trans (steps_created (n := 0) (d := doc 0) rfl rfl List.not_mem_nil)
  refine ⟨_, ?_, one_document (steps_given (fun h => ⟨h.1, h.2 trivial⟩) id hsteps)⟩
  rfl

open Twice in
/-- **Two documents**: two calls find no ticket, and the document of the first one is lost. -/
theorem two_documents : ¬ ∀ (J : Serde) (files : Path → Option Bytes) (docs : List NamespaceId)
    (P : Pool TaskId Op Op.Ret Result State),
      Steps ((machine J).given Smooth SmoothCut) (Pool.idle (.initial files docs)) P →
        OneDoc J P.st := by
  intro h
  have hfirst := steps_started.trans
    (@steps_found False started tasks 0 rfl (by decide) rfl rfl rfl fun h => h.elim)
  have hsecond := hfirst.trans (steps_found (n := 1) rfl (by decide) rfl rfl rfl fun h => h.elim)
  have hcreated := hsecond.trans (steps_created (n := 0) (d := doc 0) rfl rfl (by decide))
  have hsteps := hcreated.trans (steps_created (n := 1) (d := doc 1) rfl rfl (by decide))
  have hone := h .framed files [] _ (steps_given (fun h => h.1) id hsteps)
  obtain ⟨t, ht, hd⟩ := hone (doc 0) (Or.inl (by decide))
  have hlast : some t = some ⟨.write (doc 1)⟩ := ht.symm.trans (Serde.framed.ticket.dec_enc _)
  rw [Option.some.inj hlast] at hd
  exact absurd hd (by decide)

end Vendimint.Identity
