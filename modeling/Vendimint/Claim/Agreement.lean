import Vendimint.Claim.Owner

/-! # Agreement of the two sides of a claim

* `claim_agreement`: a machine records a manager, and a manager lists a machine, only after both
  operators have answered `true` on one connection between them; what is listed is owned by the
  manager, unless a start of the machine has missed its owner file, with a ticket for the document of
  the machine. -/

namespace Vendimint.Claim

open Vendimint.Store Vendimint.Async

section Agreement
variable {Z : Setting} {sure : ConnId → Prop} {s : State} {m M : EndpointId} {t : DocTicket}
  {P : Pool TaskId Op Op.Ret Result State}

/-- The manager `M` lists the machine `m`: a call of `list_machines` has returned it. -/
def Lists (P : Pool TaskId Op Op.Ret Result State) (M m : EndpointId) (t : DocTicket) : Prop :=
  ∃ n machines, P.task (.list M n) = some (.pure (.listed (.ok machines))) ∧ (m, t) ∈ machines

theorem Records.agreed (hM : Records Z s m M) (hi : Inv Z s) (hh : Z.honest) : Agreed s m M :=
  (hi.hosts m).agreed hh M (hM.ownerFile hi)

/-- What a manager lists was granted to it. -/
theorem Lists.granted (hl : Lists P M m t) (hg : Good (keeps Z sure) P) (hh : Z.honest) :
    Granted Z P.st m M t := by
  obtain ⟨n, machines, hn, hmem⟩ := hl
  exact hg.returned hn machines rfl hh (m, t) hmem

/-- **Agreement.** Over restarts, what is listed is owned if every start reads the owner file that it
finds. -/
theorem claim_agreement (hh : Z.honest) (hr : Z.readable)
    (h : Steps (claims Z sure) (Pool.idle State.fresh) P) (m M : EndpointId) :
    (Records Z P.st m M → Agreed P.st m M) ∧
    (∀ t, Lists P M m t → (Z.known → Records Z P.st m M) ∧
      ∃ t', (P.st.host m).ticketFile = some (Z.serde.ticket.enc t') ∧
        t.capability.id = t'.capability.id) ∧
    ((∀ c : ConnId, c.machine = m → c.manager = M →
        c ∉ P.st.answers ∨ c ∉ P.st.managerAnswers) →
      ¬ Records Z P.st m M ∧ P.st.tickets M m = none ∧ ∀ t, ¬ Lists P M m t) := by
  have hg := good h
  have hagreed : Records Z P.st m M → Agreed P.st m M := fun hM => hM.agreed hg.1 hh
  have hlists : ∀ t, Lists P M m t → Granted Z P.st m M t := fun t hl => hl.granted hg hh
  refine ⟨hagreed, fun t hl => ⟨fun hk => Or.inr ((hlists t hl).owner hk), (hlists t hl).doc hr⟩,
    fun hno => ?_⟩
  have hnot : ¬ Agreed P.st m M := by
    rintro ⟨c, hcm, hcM, hA, hB⟩
    exact (hno c hcm hcM).elim (fun h => h hA) fun h => h hB
  refine ⟨fun hM => hnot (hagreed hM), ?_, fun t hl => hnot ((hlists t hl).agreed hh)⟩
  by_contra hticket
  obtain ⟨b, hb⟩ := Option.ne_none_iff_exists'.mp hticket
  obtain ⟨t, -, hgranted⟩ := hg.1.tickets hh M m b hb
  exact hnot (hgranted.agreed hh)

end Agreement

open FirstClaim in
/-- A machine that was claimed, and the connection on which both operators answered `true`. -/
theorem claim_agreement_claimed :
    ∃ P : Pool TaskId Op Op.Ret Result State,
      Steps (claims (.framed True True) fun _ => False) (Pool.idle State.fresh) P ∧
      Agreed P.st machine manager := by
  obtain ⟨P, hsteps, -, -, howner⟩ := claimed (.framed True True)
  exact ⟨P, hsteps, (claim_agreement trivial trivial hsteps machine manager).1 (Or.inl howner)⟩

end Vendimint.Claim
