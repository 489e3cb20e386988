import Vendimint.Tickets.Tasks

/-! # Listing the machines

`list_machines` unwraps what it reads from each ticket file, while claims write these files.

* `listings_never_panic`: **no listing panics**, in runs in which no listing reads a file that lacks
  bytes of the last write that touched it.
* `listing_panics`: a listing panics that reads a file which a claim has made empty. -/

namespace Vendimint.Tickets

open Vendimint.Store Vendimint.Async Vendimint.ManagerProtocol

/-! ### A claim and a listing -/

namespace OneClaim

def machineId : EndpointId := ⟨.replicate 32 1⟩

def doc : NamespaceId := ⟨.replicate 32 2⟩

def ticket : DocTicket := ⟨.write doc⟩

def contents : Bytes := Serde.framed.ticket.enc ticket

def self : TaskId := .claim machineId 0

/-- The document is imported and the ticket is to be written. -/
def imported : State := (State.fresh.store doc).importing Serde.framed self ticket

/-- The file is empty. -/
def emptied : State := imported.fill (.endpoint machineId) contents []

/-- The ticket is written. -/
def stored : State := (imported.fill (.endpoint machineId) contents contents).stopped self

section Runs
variable (sound calm : Prop)

/-- The claim up to the write of the ticket. -/
theorem begins_import : ∃ q, Begins (directory Serde.framed sound calm) self
    (claim Serde.framed machineId) State.fresh q imported := by
  constructor
  apply begins_next .answer (some true) State.fresh rfl
  apply begins_next .openBi (.ok ()) State.fresh rfl
  apply begins_next (.writeAll PING_MAGIC_BYTES) (.ok ()) State.fresh rfl
  apply begins_next .finish (.ok ()) State.fresh rfl
  apply begins_next .stopped (.ok ()) State.fresh rfl
  apply begins_next (.readToEnd (1024 * 1024)) (.ok contents) State.fresh rfl
  apply begins_next (.docsImport ticket) (.ok ()) imported (Or.inl ⟨rfl, rfl⟩)
  exact .refl _ _

/-- The whole claim. -/
theorem runs_claim : Runs (directory Serde.framed sound calm) self Alone
    (claim Serde.framed machineId) State.fresh (.returned .claimed) stored := by
  refine runs_next .answer (some true) State.fresh rfl ?_
  refine runs_next .openBi (.ok ()) State.fresh rfl ?_
  refine runs_next (.writeAll PING_MAGIC_BYTES) (.ok ()) State.fresh rfl ?_
  refine runs_next .finish (.ok ()) State.fresh rfl ?_
  refine runs_next .stopped (.ok ()) State.fresh rfl ?_
  refine runs_next (.readToEnd (1024 * 1024)) (.ok contents) State.fresh rfl ?_
  refine runs_next (.docsImport ticket) (.ok ()) imported (Or.inl ⟨rfl, rfl⟩) ?_
  refine runs_next (.writeFile (.machineDocTicket (.endpoint machineId)) contents) (.ok ()) stored
    (Or.inl ⟨rfl, rfl⟩) ?_
  refine runs_next .sendShutdown (.ok ()) stored rfl ?_
  refine runs_next (.close "done") () stored rfl ?_
  exact .returned _ _

/-- A listing that finds the file empty. -/
theorem runs_listing_emptied : Runs (directory Serde.framed sound False) (.list 0) Alone
    (listing Serde.framed) emptied .panicked emptied := by
  have hfile : emptied.files (.endpoint machineId) = some [] := rfl
  refine runs_next (.readDir .machineDocTicketsDir) (.ok [.endpoint machineId]) emptied
    ⟨rfl, fun l hl n hn => ?_⟩ ?_
  · cases hl
    rw [List.mem_singleton.mp hn, hfile]
    exact Option.some_ne_none _
  refine runs_next (.isFile (.machineDocTicket (.endpoint machineId))) (.ok true) emptied
    ⟨rfl, fun b hb => ?_⟩ ?_
  · cases hb
    rw [hfile]
    rfl
  refine runs_next (.readFile (.machineDocTicket (.endpoint machineId))) (.ok []) emptied
    ⟨rfl, fun b hb => ?_, nofun⟩ ?_
  · cases hb
    exact hfile
  exact .panicked _

/-- A listing that finds the ticket. -/
theorem runs_listing_stored : Runs (directory Serde.framed sound calm) (.list 0) Alone
    (listing Serde.framed) stored (.returned (.listed (.ok [(machineId, ticket)]))) stored := by
  have hfile : stored.files (.endpoint machineId) = some contents := rfl
  refine runs_next (.readDir .machineDocTicketsDir) (.ok [.endpoint machineId]) stored
    ⟨rfl, fun l hl n hn => ?_⟩ ?_
  · cases hl
    rw [List.mem_singleton.mp hn, hfile]
    exact Option.some_ne_none _
  refine runs_next (.isFile (.machineDocTicket (.endpoint machineId))) (.ok true) stored
    ⟨rfl, fun b hb => ?_⟩ ?_
  · cases hb
    rw [hfile]
    rfl
  refine runs_next (.readFile (.machineDocTicket (.endpoint machineId))) (.ok contents) stored
    ⟨rfl, fun b hb => ?_, fun _ _ _ b hb => ?_⟩ ?_
  · cases hb
    exact hfile
  · rw [hfile, Option.some.injEq] at hb
    exact hb.symm
  exact .returned _ _

end Runs

end OneClaim

/-- **No listing panics**, in runs in which no listing reads a file that lacks bytes. -/
theorem listings_never_panic {J : Serde} {P : Pool TaskId Op Op.Ret Result State}
    (h : Steps (manager J False True) (Pool.idle State.fresh) P) (n : ℕ) :
    P.task (.list n) ≠ some .panic := by
  intro hp
  have hgood := good h
  have hend : Ends True (.list n) .panicked P.st :=
    hgood.2 (.list n) .panic hp P.st (Grows.refl _) hgood.1
  exact hend trivial rfl

open OneClaim in
/-- A listing after a claim. -/
theorem listings_never_panic_stored :
    ∃ P : Pool TaskId Op Op.Ret Result State,
      Steps (manager Serde.framed False True) (Pool.idle State.fresh) P ∧
      P.task (.list 0) = some (.pure (.listed (.ok [(machineId, ticket)]))) ∧
      P.task (.list 0) ≠ some .panic := by
  have hclaim := steps_of_return (Y := manager Serde.framed False True) (i := self)
    (f := fun _ => none) ⟨rfl, rfl⟩ rfl (runs_claim False True)
  have hlist := steps_of_return (Y := manager Serde.framed False True) (i := .list 0)
    (f := Function.update (fun _ => none) self (some (.pure .claimed))) ⟨rfl, rfl⟩ rfl
    (runs_listing_stored False True)
  have hsteps := hclaim.trans hlist
  exact ⟨_, hsteps, rfl, listings_never_panic hsteps 0⟩

open OneClaim in
/-- **A listing panics** while a claim has made a file empty to write a ticket to it. -/
theorem listing_panics :
    ¬ ∀ (P : Pool TaskId Op Op.Ret Result State) (n : ℕ),
      Steps (manager Serde.framed False False) (Pool.idle State.fresh) P →
      P.task (.list n) ≠ some .panic := by
  intro h
  obtain ⟨q, hq⟩ := begins_import False False
  have hclaim := steps_of_start (Y := manager Serde.framed False False) (i := self)
    (f := fun _ => none) ⟨rfl, rfl⟩ rfl hq
  have hfill : Steps (manager Serde.framed False False)
      ⟨imported, Function.update (fun _ => none) self (some q)⟩
      ⟨emptied, Function.update (fun _ => none) self (some q)⟩ :=
    steps_of_env (Or.inl ⟨⟨self, _, contents, [], rfl, List.nil_prefix, rfl⟩, fun _ => rfl⟩)
  have hlist := steps_of_task (Y := manager Serde.framed False False) (i := .list 0)
    (f := Function.update (fun _ => none) self (some q)) ⟨rfl, rfl⟩ rfl
    (runs_listing_emptied False)
  exact h _ 0 ((hclaim.trans hfill).trans hlist) rfl

end Vendimint.Tickets
