import Vendimint.Tickets.Listing

/-! # The documents of listed machines

Every function on a claimed machine opens the document that its ticket names and unwraps the result.

* `listed_documents_stored`: **the document of every ticket file is in the store**, and every document
  that was opened was there, in runs in which no import of a document that is not in the store fails.
* `listed_document_missing`: after an import that failed the ticket is written all the same. -/

namespace Vendimint.Tickets

open Vendimint.Store Vendimint.Async Vendimint.ManagerProtocol

/-- **The document of every ticket file is in the store**, and so is every document that is opened. -/
theorem listed_documents_stored {J : Serde} {P : Pool TaskId Op Op.Ret Result State}
    (h : Steps (manager J True False) (Pool.idle State.fresh) P) :
    (∀ m b t, P.st.files (.endpoint m) = some b → J.ticket.dec b = some t →
      t.capability.id ∈ P.st.docs) ∧ ∀ x ∈ P.st.opened, x.2 = true := by
  have hkept : Kept J True P.st := (good h).1
  exact ⟨fun m b t hb ht => hkept.stored hb ht trivial, hkept.opened trivial⟩

/-! ### A claim and what is done on the machine -/

namespace OneClaim

/-- The import has failed and the ticket is to be written. -/
def unimported : State := State.fresh.importing Serde.framed self ticket

/-- The ticket is written and its document is missing. -/
def stranded : State := (unimported.fill (.endpoint machineId) contents contents).stopped self

/-- A claim whose import fails. -/
theorem runs_claim_stranded (calm : Prop) : Runs (directory Serde.framed False calm) self Alone
    (claim Serde.framed machineId) State.fresh (.returned .claimed) stranded := by
  refine runs_next .answer (some true) State.fresh rfl ?_
  refine runs_next .openBi (.ok ()) State.fresh rfl ?_
  refine runs_next (.writeAll PING_MAGIC_BYTES) (.ok ()) State.fresh rfl ?_
  refine runs_next .finish (.ok ()) State.fresh rfl ?_
  refine runs_next .stopped (.ok ()) State.fresh rfl ?_
  refine runs_next (.readToEnd (1024 * 1024)) (.ok contents) State.fresh rfl ?_
  refine runs_next (.docsImport ticket) (.error "import failed") unimported
    (Or.inr ⟨nofun, nofun, rfl⟩) ?_
  refine runs_next (.writeFile (.machineDocTicket (.endpoint machineId)) contents) (.ok ()) stranded
    (Or.inl ⟨rfl, rfl⟩) ?_
  refine runs_next .sendShutdown (.ok ()) stranded rfl ?_
  refine runs_next (.close "done") () stranded rfl ?_
  exact .returned _ _

/-- A call of `get_machine_config` on the machine, up to the configuration, of which there is none. -/
theorem runs_getMachineConfig (sound calm : Prop) : Runs (directory Serde.framed sound calm) (.use 0)
    Alone (Use.task Serde.framed (.getMachineConfig machineId)) stored (.returned .used)
    (stored.opening doc) := by
  have hfile : stored.files (.endpoint machineId) = some contents := rfl
  refine runs_next (.readFile (.machineDocTicket (.endpoint machineId))) (.ok contents) stored
    ⟨rfl, fun b hb => ?_, fun _ _ => nofun⟩ ?_
  · cases hb
    exact hfile
  refine runs_next (.docsOpen doc) (.ok (some doc)) (stored.opening doc) ⟨rfl, fun o ho => ?_⟩ ?_
  · cases ho
    rfl
  refine runs_next (.docGetOne doc MACHINE_CONFIG_KEY) (.ok none) (stored.opening doc) rfl ?_
  exact .returned _ _

end OneClaim

open OneClaim in
/-- A claim and a call on the machine. -/
theorem listed_documents_stored_opened :
    ∃ P : Pool TaskId Op Op.Ret Result State,
      Steps (manager Serde.framed True False) (Pool.idle State.fresh) P ∧
      P.st.files (.endpoint machineId) = some contents ∧
      doc ∈ P.st.docs ∧ (doc, true) ∈ P.st.opened ∧ ∀ x ∈ P.st.opened, x.2 = true := by
  have hclaim := steps_of_return (Y := manager Serde.framed True False) (i := self)
    (f := fun _ => none) ⟨rfl, rfl⟩ rfl (runs_claim True False)
  have huse := steps_of_return (Y := manager Serde.framed True False) (i := .use 0)
    (f := Function.update (fun _ => none) self (some (.pure .claimed)))
    ⟨rfl, .getMachineConfig machineId, rfl⟩ rfl (runs_getMachineConfig True False)
  have hsteps := hclaim.trans huse
  obtain ⟨hstored, hopened⟩ := listed_documents_stored hsteps
  exact ⟨_, hsteps, rfl, hstored machineId contents ticket rfl (by decide), List.mem_cons_self,
    hopened⟩

open OneClaim in
/-- **A listed machine is not usable** after a claim whose import failed: its document is not in the
store. -/
theorem listed_document_missing :
    ¬ ∀ P : Pool TaskId Op Op.Ret Result State,
      Steps (manager Serde.framed False False) (Pool.idle State.fresh) P →
      ∀ m b t, P.st.files (.endpoint m) = some b → Serde.framed.ticket.dec b = some t →
        t.capability.id ∈ P.st.docs := by
  intro h
  have hclaim := steps_of_return (Y := manager Serde.framed False False) (i := self)
    (f := fun _ => none) ⟨rfl, rfl⟩ rfl (runs_claim_stranded False)
  have hdoc := h _ hclaim machineId contents ticket rfl (by decide)
  cases hdoc

end Vendimint.Tickets
