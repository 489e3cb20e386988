import Vendimint.Identity.Steps
import Vendimint.Iroh.Uses

/-! # The tasks of a machine are faithful

* `getOrCreateMachineDoc_safe`: the document that is returned is the one of the ticket in the file.
* `accept_safe`: the claim handler writes the owner that is in the file, if there is one.
* `program_safe`, `starting_safe`: every call, and the start of the machine. -/

namespace Vendimint.Identity

open Vendimint.Store Vendimint.Async

section Tasks
variable {J : Serde} {i : TaskId} {o : Option (Option EndpointId)} {s t : State} {op : Op} {α : Type}

/-! ### Steps on the document -/

/-- Operations that change nothing. -/
def Quiet (J : Serde) (op : Op) : Prop :=
  (∀ i s r s', effect J i op s r s' → s' = s) ∧ ∀ p b, op ≠ .writeFile p b

theorem docStep_refl (hi : Inv J s) : DocStep J i s s :=
  ⟨rfl, rfl, ⟨rfl, rfl, rfl, rfl, rfl, rfl⟩, fun _ _ h => h, fun _ h => ⟨h, rfl, Or.inl rfl⟩,
    hi.creating, hi.one⟩

theorem docStep_used {l : List NamespaceId} (hi : Inv J s) (hl : ∀ d ∈ l, Stored J s d) :
    DocStep J i s { s with used := l ++ s.used } := by
  refine ⟨rfl, rfl, ⟨rfl, rfl, rfl, rfl, rfl, rfl⟩, fun _ _ h => h, fun _ h => ⟨h, rfl, Or.inl rfl⟩,
    hi.creating, fun d hd => ?_⟩
  rcases hd with hd | hd
  · exact hi.one d (Or.inl hd)
  · rcases List.mem_append.mp hd with hd | hd
    · exact hl d hd
    · exact hi.one d (Or.inr hd)

theorem creating_settle (hi : Inv J s) :
    (s.settle i).creating = [] ∨ (∃ j, (s.settle i).creating = [j]) ∧ storedTicket J s = none := by
  rcases hi.creating with hc | ⟨⟨j, hc⟩, hnone⟩
  · left
    simp [State.settle, hc]
  · by_cases hj : j = i
    · left
      simp [State.settle, hc, hj]
    · right
      exact ⟨⟨j, by simp [State.settle, hc, hj]⟩, hnone⟩

theorem others_settle {j : TaskId} (hj : j ≠ i) (h : j ∈ s.creating) : j ∈ (s.settle i).creating := by
  simp [State.settle, h, hj]

/-- The task gives up, and what is left of its write does not change what is stored. -/
theorem docStep_settle (hi : Inv J s) (h : Same J (s.settle i) t) : DocStep J i s t := by
  obtain ⟨hkey, howner, hticket, files, rfl⟩ := h
  refine ⟨hkey, howner, ⟨rfl, rfl, rfl, rfl, rfl, rfl⟩, fun _ => others_settle,
    fun t ht => ⟨hticket.trans ht, rfl, Or.inl rfl⟩, ?_, fun d hd => ?_⟩
  · rw [hticket]
    exact creating_settle hi
  · obtain ⟨t, ht, hd⟩ := hi.one d hd
    exact ⟨t, hticket.trans ht, hd⟩

/-- While the task is on its way to create a document, it is the only one, and no ticket is stored. -/
theorem Inv.alone (hi : Inv J s) (h : i ∈ s.creating) :
    s.creating = [i] ∧ storedTicket J s = none := by
  rcases hi.creating with hc | ⟨⟨j, hc⟩, hnone⟩
  · rw [hc] at h
    cases h
  · rw [hc, List.mem_singleton] at h
    exact ⟨h ▸ hc, hnone⟩

/-- The ticket of the new document is stored. -/
theorem docStep_store {ticket : DocTicket} (hi : Inv J s) (h : i ∈ s.creating) :
    DocStep J i s { s.settle i with
      files := Function.update s.files .docTicket (some (J.ticket.enc ticket))
      returned := docOf J (J.ticket.enc ticket) ++ s.returned } := by
  obtain ⟨hc, hnone⟩ := hi.alone h
  have hempty : ∀ d, ¬ (d ∈ s.returned ∨ d ∈ s.used) := by
    intro d hd
    obtain ⟨t, ht, -⟩ := hi.one d hd
    rw [hnone] at ht
    cases ht
  refine ⟨rfl, rfl, ⟨rfl, rfl, rfl, rfl, rfl, rfl⟩, fun _ => others_settle, fun t ht => ?_, Or.inl ?_,
    fun d hd => ?_⟩
  · rw [hnone] at ht
    cases ht
  · simp [State.settle, hc]
  · refine ⟨ticket, by simp [storedTicket], ?_⟩
    rcases hd with hd | hd
    · rcases List.mem_append.mp hd with hd | hd
      · simpa [docOf, eq_comm] using hd
      · exact absurd (Or.inl hd) (hempty d)
    · exact absurd (Or.inr hd) (hempty d)

/-! ### Rules for calls -/

/-- An operation of a call that changes nothing. -/
theorem safe_quiet {k : op.Ret → Fut α} {R : α → State → Prop} (ha : Active J i o s)
    (hop : Quiet J op) (h : ∀ r t, Relies J i s t → Active J i o t → Inv J t → effect J i op t r t →
      Safe (calmMachine J).toWorld (discipline J) i (k r) (Outcome.returns R) t) :
    Safe (calmMachine J).toWorld (discipline J) i (.await op k) (Outcome.returns R) s := by
  refine safe_doc ha (fun p b hp => absurd hp (hop.2 p b)) fun r t u ht hat hi he hc => ?_
  obtain rfl := hop.1 i t r u he
  exact ⟨docStep_refl hi, fun hau _ => h r u ht hau hi he⟩

/-- An operation on documents, each of which is the one of the machine. -/
theorem safe_use {k : op.Ret → Fut α} {R : α → State → Prop} {l : List NamespaceId}
    (ha : Active J i o s) (hl : ∀ d ∈ l, Stored J s d)
    (heffect : ∀ t r u, effect J i op t r u → u = { t with used := l ++ t.used })
    (hop : ∀ p b, op ≠ .writeFile p b)
    (h : ∀ r t, Active J i o t → Inv J t →
      Safe (calmMachine J).toWorld (discipline J) i (k r) (Outcome.returns R) t) :
    Safe (calmMachine J).toWorld (discipline J) i (.await op k) (Outcome.returns R) s := by
  refine safe_doc ha (fun p b hp => absurd hp (hop p b)) fun r t u ht hat hi he hc => ?_
  obtain rfl := heffect t r u he
  exact ⟨docStep_used hi fun d hd => ht.doc d (hl d hd), fun hau hiu => h r _ hau hiu⟩

/-! ### The document of the machine -/

/-- What a call knows when it has asked for the document. -/
def Documented (J : Serde) (i : TaskId) (o : Option (Option EndpointId))
    (r : Except Error NamespaceId) (s : State) : Prop :=
  Active J i o s ∧ ∀ d, r = .ok d → Stored J s d

theorem safe_failed {e : Error} (ha : Active J i o s) :
    Safe (calmMachine J).toWorld (discipline J) i (.pure (.error e))
      (Outcome.returns (Documented J i o)) s :=
  .returned fun t ht _ => ⟨ha.stable ht, fun d hd => by cases hd⟩

/-- Opening the document of the ticket in the file. -/
theorem docsOpen_safe {d : NamespaceId} (ha : Active J i o s) (hd : Stored J s d) :
    Safe (calmMachine J).toWorld (discipline J) i
      (.await (.docsOpen d) (Fallible.andThen fun docOr => (Fallible.unwrap docOr).run))
      (Outcome.returns (Documented J i o)) s := by
  refine safe_step (fun t ht => (ha.stable ht).role) (fun p b hp => (by cases hp))
    fun r t u ht hi he hc => ?_
  have hat := ha.stable ht
  have hdt := ht.doc d hd
  rcases he with ⟨-, rfl, rfl⟩ | ⟨-, rfl, rfl⟩ | ⟨⟨e, rfl⟩, rfl⟩
  · have hstep : DocStep J i t { t with returned := d :: t.returned } := by
      refine ⟨rfl, rfl, ⟨rfl, rfl, rfl, rfl, rfl, rfl⟩, fun _ _ h => h, fun t' ht' => ?_,
        hi.creating, fun d' hd' => ?_⟩
      · obtain ⟨t'', ht'', rfl⟩ := hdt
        rw [ht', Option.some.injEq] at ht''
        exact ⟨ht', rfl, Or.inr (by rw [ht''])⟩
      · rcases hd' with hd' | hd'
        · rcases List.mem_cons.mp hd' with rfl | hd'
          · exact hdt
          · exact hi.one d' (Or.inl hd')
        · exact hi.one d' (Or.inr hd')
    obtain ⟨hiu, hg, hau⟩ := kept_doc hi hat hstep
    refine ⟨⟨hiu, hg⟩, fun _ => .returned fun v hv _ => ⟨hau.stable hv, fun d' hd' => ?_⟩⟩
    cases hd'
    exact hv.doc d (hg.faithful.stored hdt)
  · refine ⟨?_, fun _ => .panicked⟩
    rcases o with _ | w
    · have hfree : t.release i = t := by simp [State.release, hat.free rfl]
      rw [hfree]
      exact kept_same hi hat.role (.refl J t)
    · obtain ⟨hlock, howner, hsynced⟩ := hat.held w rfl
      refine kept_lock hi hat.toCalled ⟨rfl, rfl, ⟨rfl, rfl, rfl, rfl, rfl, rfl, rfl, rfl⟩, fun _ h => h,
        Or.inr hlock, Or.inr ⟨by simp [State.release, hlock], fun M hM => ?_⟩⟩
      exact howner.trans (hsynced M hM)
  · exact ⟨kept_same hi hat.role (.refl J _), fun _ => safe_failed hat⟩

/-- Creating a document, by the only task that has found no ticket. -/
theorem docsCreate_safe (ha : Active J i o s) (hc : i ∈ s.creating) :
    Safe (calmMachine J).toWorld (discipline J) i
      (.await .docsCreate (Fallible.andThen fun newDoc =>
        .await (.docShare newDoc) (Fallible.andThen fun newDocTicket =>
          .await (.writeFile .docTicket (J.ticket.enc newDocTicket))
            (Fallible.andThen fun _ => .pure (.ok newDoc)))))
      (Outcome.returns (Documented J i o)) s := by
  refine safe_doc ha (fun p b hp => (by cases hp)) fun r t u ht hat hi he _ => ?_
  have hct := ht.creating hc
  rcases he with ⟨newDoc, -, rfl, rfl⟩ | ⟨⟨e, rfl⟩, rfl⟩
  · refine ⟨⟨rfl, rfl, ⟨rfl, rfl, rfl, rfl, rfl, rfl⟩, fun _ _ h => h, fun t' ht' => ?_, hi.creating,
      hi.one⟩, fun hau _ => ?_⟩
    · rw [(hi.alone hct).2] at ht'
      cases ht'
    refine safe_doc hau (fun p b hp => (by cases hp)) fun r v w hv hav hiv he _ => ?_
    have hcv := hv.creating hct
    rcases he with ⟨⟨newDocTicket, rfl, hid⟩, rfl⟩ | ⟨⟨e, rfl⟩, rfl⟩
    · refine ⟨docStep_refl hiv, fun haw _ => ?_⟩
      refine safe_doc haw (fun p b hp => ?_) fun r x y hx hax hix he hcalm => ?_
      · cases hp
        exact ⟨newDocTicket, rfl⟩
      have hcx := hx.creating hcv
      rcases he with ⟨rfl, rfl⟩ | ⟨⟨e, rfl⟩, hshort⟩
      · refine ⟨docStep_store hix hcx, fun hay _ => .returned fun z hz _ => ⟨hay.stable hz, ?_⟩⟩
        intro d hd
        cases hd
        exact hz.doc _ ⟨newDocTicket, by simp [storedTicket], hid⟩
      · have hnone := (hix.alone hcx).2
        have hw : Writes J .docTicket (J.ticket.enc newDocTicket) := ⟨newDocTicket, rfl⟩
        have hsame := same_of_short hw hshort fun hwhole => absurd hnone hwhole
        exact ⟨docStep_settle hix hsame, fun hay _ => safe_failed hay⟩
    · exact ⟨docStep_settle hiv (.refl J _), fun haw _ => safe_failed haw⟩
  · exact ⟨docStep_settle hi (.refl J _), fun hau _ => safe_failed hau⟩

/-- **The document of the machine** is the one of the ticket in the file. -/
theorem getOrCreateMachineDoc_safe (ha : Active J i o s) :
    Safe (calmMachine J).toWorld (discipline J) i (MachineProtocol.getOrCreateMachineDoc J).run
      (Outcome.returns (Documented J i o)) s := by
  simp only [MachineProtocol.getOrCreateMachineDoc, Fallible.run_bind, run_attempt, await_eq,
    Fallible.run_of, call_eq, Prog.await_bind, Prog.pure_bind, Fallible.andThen_ok]
  refine safe_quiet ha ⟨fun _ _ _ _ h => h, fun p b hp => by cases hp⟩ fun r t _ hat _ _ => ?_
  rcases r with e | _
  · exact safe_failed hat
  refine safe_doc hat (fun p b hp => (by cases hp)) fun r u v hu hau hi he hcalm => ?_
  obtain ⟨hread, rfl⟩ := he
  rcases hticket : MachineProtocol.ticketOf J r with _ | docTicket
  · -- No other task has found this, and there is no ticket.
    have hempty : u.creating = [] := hcalm.1 rfl
    have hnone : storedTicket J u = none := by
      by_contra hne
      obtain ⟨b, rfl⟩ := hcalm.2 hne
      unfold storedTicket at hne
      rw [hread b rfl] at hne
      exact hne hticket
    rw [if_pos rfl]
    refine ⟨⟨rfl, rfl, ⟨rfl, rfl, rfl, rfl, rfl, rfl⟩, fun j _ hj => List.mem_cons_of_mem i hj,
      fun _ h => ⟨h, rfl, Or.inl rfl⟩, Or.inr ⟨⟨i, by rw [hempty]⟩, hnone⟩, hi.one⟩, fun hav _ => ?_⟩
    exact docsCreate_safe hav List.mem_cons_self
  · have hstored : storedTicket J u = some docTicket := by
      rcases r with e | b
      · cases hticket
      · unfold storedTicket
        rw [hread b rfl]
        exact hticket
    rw [if_neg (Option.some_ne_none docTicket)]
    exact ⟨docStep_refl hi, fun hav _ => docsOpen_safe hav ⟨docTicket, hstored, rfl⟩⟩

/-! ### Calls on the document -/

/-- A program of operations that change nothing. -/
theorem safe_uses {p : Fut α} (h : p.Uses (Quiet J)) : ∀ {s : State}, Active J i o s →
    Safe (calmMachine J).toWorld (discipline J) i p (Outcome.returns fun _ t => Active J i o t) s := by
  induction p with
  | pure a => exact fun ha => .returned fun t ht _ => ha.stable ht
  | panic => exact fun _ => .panicked
  | await op k ih => exact fun ha => safe_quiet ha h.1 fun r t _ hat _ _ => ih r (h.2 r) hat

/-- A call that asks for the document, and goes on with it. -/
theorem withDoc_safe {β : Type} {f : NamespaceId → Fut (Except Error β)} (ha : Active J i o s)
    (hi : Inv J s) (hf : ∀ d t, Active J i o t → Stored J t d → Inv J t →
      Safe (calmMachine J).toWorld (discipline J) i (f d) (Outcome.returns fun _ u => Active J i o u) t) :
    Safe (calmMachine J).toWorld (discipline J) i
      ((MachineProtocol.getOrCreateMachineDoc J).run.bind (Fallible.andThen f))
      (Outcome.returns fun _ u => Active J i o u) s := by
  refine .bind_returns hi (getOrCreateMachineDoc_safe ha) fun r t hit ht => ?_
  rcases r with e | d
  · exact .returned fun u hu _ => ht.1.stable hu
  · exact hf d t ht.1 (ht.2 d rfl) hit

theorem quiet_blobs (h : Bytes) : Quiet J (.blobsGetBytes h) :=
  ⟨fun _ _ _ _ h => h, fun p b hp => by cases hp⟩

theorem quiet_author : Quiet J .authorDefault := ⟨fun _ _ _ _ h => h, fun p b hp => by cases hp⟩

/-- An operation on the document of the machine, then operations that change nothing. -/
theorem onDoc_safe {d : NamespaceId} {k : op.Ret → Fut α} (ha : Active J i o s) (hd : Stored J s d)
    (heffect : ∀ t r u, effect J i op t r u → u = { t with used := d :: t.used })
    (hop : ∀ p b, op ≠ .writeFile p b) (hk : ∀ r, (k r).Uses (Quiet J)) :
    Safe (calmMachine J).toWorld (discipline J) i (.await op k)
      (Outcome.returns fun _ u => Active J i o u) s := by
  refine @safe_use J i o s op _ k _ [d] ha (fun d' hd' => ?_) heffect hop
    fun r u hau _ => safe_uses (hk r) hau
  rw [List.mem_singleton.mp hd']
  exact hd

theorem getMachineConfig_safe (ha : Active J i o s) (hi : Inv J s) :
    Safe (calmMachine J).toWorld (discipline J) i (MachineProtocol.getMachineConfig J).run
      (Outcome.returns fun _ u => Active J i o u) s := by
  simp only [MachineProtocol.getMachineConfig, Fallible.run_bind, run_attempt, call_eq]
  refine withDoc_safe ha hi fun d t hat hd _ => ?_
  refine onDoc_safe hat hd (fun _ _ _ h => h) (fun p b hp => (by cases hp)) fun r => ?_
  rcases r with e | _ | entry
  · trivial
  · trivial
  simp only [Prog.pure_bind, Fallible.andThen_ok, Fallible.run_bind, run_attempt]
  refine Prog.Uses.andThen ⟨quiet_blobs _, fun _ => trivial⟩ fun b => ?_
  exact (uses_fromSlice _).andThen fun _ => trivial

theorem getKvValue_safe (key : Bytes) (ha : Active J i o s) (hi : Inv J s) :
    Safe (calmMachine J).toWorld (discipline J) i (MachineProtocol.getKvValue J key).run
      (Outcome.returns fun _ u => Active J i o u) s := by
  simp only [MachineProtocol.getKvValue, Fallible.run_bind, run_attempt, call_eq]
  refine withDoc_safe ha hi fun d t hat hd _ => ?_
  refine onDoc_safe hat hd (fun _ _ _ h => h) (fun p b hp => (by cases hp)) fun r => ?_
  rcases r with e | _ | entry
  · trivial
  · trivial
  simp only [Prog.pure_bind, Fallible.andThen_ok, Fallible.run_bind]
  exact (uses_fromIrohEntry entry .machine (quiet_blobs _) quiet_author).andThen fun _ => trivial

theorem getKvEntries_safe (ha : Active J i o s) (hi : Inv J s) :
    Safe (calmMachine J).toWorld (discipline J) i (MachineProtocol.getKvEntries J).run
      (Outcome.returns fun _ u => Active J i o u) s := by
  simp only [MachineProtocol.getKvEntries, Fallible.run_bind, run_attempt, call_eq]
  refine withDoc_safe ha hi fun d t hat hd _ => ?_
  refine onDoc_safe hat hd (fun _ _ _ h => h) (fun p b hp => (by cases hp)) fun r => ?_
  rcases r with e | stream
  · trivial
  · exact uses_kvEntriesOf .machine quiet_blobs quiet_author stream []

/-- An entry is written by the default author. -/
theorem setBytes_safe {d : NamespaceId} (key value : Bytes) (ha : Active J i o s) (hd : Stored J s d) :
    Safe (calmMachine J).toWorld (discipline J) i
      (.await .authorDefault (Fallible.andThen fun author =>
        .await (.docSetBytes d author key value) .pure))
      (Outcome.returns fun _ u => Active J i o u) s := by
  refine safe_quiet ha quiet_author fun r t ht hat _ _ => ?_
  rcases r with e | author
  · exact .returned fun u hu _ => hat.stable hu
  · exact onDoc_safe hat (ht.doc d hd) (fun _ _ _ h => h) (fun p b hp => (by cases hp))
      fun _ => trivial

theorem setKvValue_safe (key value : Bytes) (ha : Active J i o s) (hi : Inv J s) :
    Safe (calmMachine J).toWorld (discipline J) i (MachineProtocol.setKvValue J key value).run
      (Outcome.returns fun _ u => Active J i o u) s := by
  simp only [MachineProtocol.setKvValue, Fallible.run_bind, run_attempt, call_eq]
  exact withDoc_safe ha hi fun d t hat hd _ => setBytes_safe _ value hat hd

theorem writePaymentToMachineDoc_safe (f : FederationId) (c : ClaimableContract) (ha : Active J i o s)
    (hi : Inv J s) : Safe (calmMachine J).toWorld (discipline J) i
      (MachineProtocol.writePaymentToMachineDoc J f c).run
      (Outcome.returns fun _ u => Active J i o u) s := by
  simp only [MachineProtocol.writePaymentToMachineDoc, Fallible.run_bind, run_attempt, call_eq]
  exact withDoc_safe ha hi fun d t hat hd _ => setBytes_safe _ _ hat hd

/-! ### The lock on the owner -/

/-- Taking the lock. -/
theorem lock_safe {k : Option EndpointId → Fut α} {R : α → State → Prop} (ha : Active J i none s)
    (h : ∀ w t, Active J i (some w) t → Inv J t →
      Safe (calmMachine J).toWorld (discipline J) i (k w) (Outcome.returns R) t) :
    Safe (calmMachine J).toWorld (discipline J) i (.await .ownerLock k) (Outcome.returns R) s := by
  refine safe_step (fun t ht => (ha.stable ht).role) (fun p b hp => (by cases hp))
    fun r t u ht hi he _ => ?_
  have hat := ha.stable ht
  obtain ⟨hfree, rfl, rfl⟩ := he
  refine ⟨kept_lock hi hat.toCalled ⟨rfl, rfl, ⟨rfl, rfl, rfl, rfl, rfl, rfl, rfl, rfl⟩, fun _ h => h,
    Or.inl hfree, Or.inl rfl⟩, fun hiu => h _ _ ⟨⟨hat.call, hat.running, hat.begun⟩,
      fun h => (by cases h), fun w hw => ?_⟩ hiu⟩
  cases hw
  exact ⟨rfl, rfl, hi.synced hat.running hfree⟩

/-- Dropping the lock. -/
theorem unlock_safe {k : Unit → Fut α} {R : α → State → Prop} {w : Option EndpointId}
    (ha : Active J i (some w) s)
    (h : ∀ t u, Relies J i s t → Active J i none u → (∀ d, Stored J t d → Stored J u d) →
      Safe (calmMachine J).toWorld (discipline J) i (k ()) (Outcome.returns R) u) :
    Safe (calmMachine J).toWorld (discipline J) i (.await .ownerUnlock k) (Outcome.returns R) s := by
  refine safe_step (fun t ht => (ha.stable ht).role) (fun p b hp => (by cases hp))
    fun _ t u ht hi he _ => ?_
  have hat := ha.stable ht
  obtain rfl := he
  obtain ⟨hlock, howner, hsynced⟩ := hat.held w rfl
  refine ⟨kept_lock hi hat.toCalled ⟨rfl, rfl, ⟨rfl, rfl, rfl, rfl, rfl, rfl, rfl, rfl⟩, fun _ h => h,
    Or.inr hlock, Or.inr ⟨rfl, fun M hM => howner.trans (hsynced M hM)⟩⟩, fun _ => ?_⟩
  refine h t _ ht ⟨⟨hat.call, hat.running, hat.begun⟩, fun _ => ?_, fun w hw => by cases hw⟩
    fun _ hd => hd
  exact fun h => by cases h

theorem getMachineState_safe (ha : Active J i none s) :
    Safe (calmMachine J).toWorld (discipline J) i (MachineProtocol.getMachineState J).run
      (Outcome.returns fun _ _ => True) s := by
  simp only [MachineProtocol.getMachineState, Fallible.run_bind, Fallible.run_ite, run_guarded, await_eq,
    Fallible.run_of, Prog.await_bind, Prog.pure_bind, Fallible.andThen_ok]
  refine lock_safe ha fun w t hat hit => ?_
  have hend : ∀ {r : Except Error MachineState} {u : State}, Active J i (some w) u →
      Safe (calmMachine J).toWorld (discipline J) i (.await .ownerUnlock fun _ => .pure r)
        (Outcome.returns fun _ _ => True) u :=
    fun hau => unlock_safe hau fun _ _ _ _ _ => .returned fun _ _ _ => trivial
  split_ifs
  · rw [Prog.bind_assoc]
    refine .bind_returns hit (getMachineConfig_safe hat hit) fun r u _ hau => ?_
    rcases r with e | config
    · exact hend hau
    · exact hend hau
  · exact hend hat

/-! ### The claim handler -/

theorem Active.same (ha : Active J i o s) (h : Same J s t) : Active J i o t := by
  obtain ⟨-, howner, -, files, rfl⟩ := h
  exact ⟨⟨ha.call, ha.running, ha.begun⟩, ha.free, fun w hw => by rw [howner]; exact ha.held w hw⟩

/-- What the claim handler knows when it is about to drop the lock. -/
def Accepted (J : Serde) (i : TaskId) (r : Except Error (Option DocTicket)) (s : State) : Prop :=
  (∃ w, Active J i (some w) s) ∧ ∀ ticket, r = .ok (some ticket) → Stored J s ticket.capability.id

theorem safe_rejected {r : Except Error (Option DocTicket)} {w : Option EndpointId}
    (ha : Active J i (some w) s) (hr : ∀ ticket, r ≠ .ok (some ticket)) :
    Safe (calmMachine J).toWorld (discipline J) i (.pure r) (Outcome.returns (Accepted J i)) s :=
  .returned fun _ ht _ => ⟨⟨w, ha.stable ht⟩, fun ticket h => absurd h (hr ticket)⟩

/-- The handler has written the owner to the file, and is about to set it in memory. -/
structure Committed (J : Serde) (i : TaskId) (manager : EndpointId) (s : State) : Prop
    extends Called i s where
  lock : s.lock = some i
  owner : storedOwner J s = some manager

variable {manager : EndpointId} {ticket : DocTicket} {w : Option EndpointId}

theorem Committed.stable (h : Committed J i manager s) (hr : Relies J i s t) :
    Committed J i manager t := by
  obtain ⟨hlock, -, howner⟩ := hr.held h.running h.lock
  exact ⟨h.toCalled.stable hr, hlock, howner.trans h.owner⟩

theorem ownerSet_safe (hs : Committed J i manager s) (hd : Stored J s ticket.capability.id) :
    Safe (calmMachine J).toWorld (discipline J) i
      (.await (.ownerSet manager) fun _ => .pure (.ok (some ticket)))
      (Outcome.returns (Accepted J i)) s := by
  refine safe_step (fun t ht => (hs.stable ht).role) (fun p b hp => (by cases hp))
    fun _ t u ht hi he _ => ?_
  have hst := hs.stable ht
  obtain rfl := he
  have hau : Active J i (some (some manager)) { t with owner := some manager } := by
    refine ⟨⟨hst.call, hst.running, hst.begun⟩, fun h => (by cases h), fun w hw => ?_⟩
    cases hw
    exact ⟨hst.lock, rfl, fun M hM => hst.owner.symm.trans hM⟩
  refine ⟨kept_lock hi hst.toCalled ⟨rfl, rfl, ⟨rfl, rfl, rfl, rfl, rfl, rfl, rfl, rfl⟩, fun _ h => h,
    Or.inr hst.lock, Or.inl hst.lock⟩, fun _ => .returned fun v hv _ =>
      ⟨⟨_, hau.stable hv⟩, fun ticket' h => ?_⟩⟩
  cases h
  exact hv.doc _ (ht.doc _ hd)

/-- **The owner is written to the file**, which holds no other one. -/
theorem commit_safe (ha : Active J i (some w) s) (hw : w = none ∨ w = some manager)
    (hd : Stored J s ticket.capability.id) :
    Safe (calmMachine J).toWorld (discipline J) i
      (.await (.writeFile .managerPublicKey (J.endpointId.enc manager)) (Fallible.andThen fun _ =>
        .await (.ownerSet manager) fun _ => .pure (.ok (some ticket))))
      (Outcome.returns (Accepted J i)) s := by
  refine safe_step (fun t ht => (ha.stable ht).role) (fun p b hp => ?_) fun r t u ht hi he hcalm => ?_
  · cases hp
    exact ⟨manager, rfl⟩
  have hat := ha.stable ht
  obtain ⟨hlock, howner, hsynced⟩ := hat.held w rfl
  rcases he with ⟨rfl, rfl⟩ | ⟨⟨e, rfl⟩, hshort⟩
  · have hstored : storedOwner J (t.write .managerPublicKey (J.endpointId.enc manager)) =
        some manager := by simp [storedOwner]
    refine ⟨kept_lock hi hat.toCalled ⟨rfl, rfl, ⟨rfl, rfl, rfl, rfl, rfl, rfl, rfl, rfl⟩, fun M hM => ?_,
      Or.inr hlock, Or.inl hlock⟩, fun hiu => ?_⟩
    · have hMw := hsynced M hM
      rcases hw with rfl | rfl
      · cases hMw
      · rw [hstored, hMw]
    · exact ownerSet_safe ⟨⟨hat.call, hat.running, hat.begun⟩, hlock, hstored⟩ (ht.doc _ hd)
  · have hw' : Writes J .managerPublicKey (J.endpointId.enc manager) := ⟨manager, rfl⟩
    have hsame := same_of_short hw' hshort fun hwhole => hcalm.2 hwhole ⟨e, rfl⟩
    exact ⟨kept_same hi hat.role hsame, fun _ => safe_rejected (hat.same hsame) fun _ h => by cases h⟩

/-- **The part of the handler that holds the lock.** -/
theorem acceptClaim_safe (ha : Active J i (some w) s) (hw : w = none ∨ w = some manager) :
    Safe (calmMachine J).toWorld (discipline J) i (MachineProtocol.acceptClaim J manager).run
      (Outcome.returns (Accepted J i)) s := by
  simp only [MachineProtocol.acceptClaim, Fallible.run_bind, Fallible.run_ite, run_attempt, await_eq,
    Fallible.run_of, call_eq, Prog.await_bind, Prog.pure_bind, Fallible.andThen_ok, Fallible.run_throw,
    Fallible.run_pure]
  refine safe_quiet ha ⟨fun _ _ _ _ h => h, fun p b hp => by cases hp⟩ fun km t _ ha _ _ => ?_
  refine safe_quiet ha ⟨fun _ _ _ _ h => h, fun p b hp => by cases hp⟩ fun r t _ ha _ _ => ?_
  rcases r with e | _
  · exact safe_rejected ha fun _ h => by cases h
  refine safe_quiet ha ⟨fun _ _ _ _ h => h, fun p b hp => by cases hp⟩ fun answer t _ ha _ _ => ?_
  split_ifs
  · refine safe_quiet ha ⟨fun _ _ _ _ h => h, fun p b hp => by cases hp⟩ fun r t _ ha _ _ => ?_
    rcases r with e | _
    · exact safe_rejected ha fun _ h => by cases h
    refine safe_quiet ha ⟨fun _ _ _ _ h => h, fun p b hp => by cases hp⟩ fun r t _ ha hi _ => ?_
    rcases r with e | ping
    · exact safe_rejected ha fun _ h => by cases h
    simp only [Fallible.andThen_ok]
    split_ifs
    · exact safe_rejected ha fun _ h => by cases h
    refine .bind_returns hi (getOrCreateMachineDoc_safe ha) fun r u _ hu => ?_
    rcases r with e | doc
    · exact safe_rejected hu.1 fun _ h => by cases h
    refine safe_doc hu.1 (fun p b hp => (by cases hp)) fun r v x hv hav hiv he _ => ?_
    have hd := hv.doc doc (hu.2 doc rfl)
    rcases he with ⟨⟨ticket, rfl, rfl⟩, rfl⟩ | ⟨⟨e, rfl⟩, rfl⟩
    · exact ⟨docStep_refl hiv, fun hax _ => commit_safe hax hw hd⟩
    · exact ⟨docStep_settle hiv (.refl J _), fun hax _ => safe_rejected hax fun _ h => by cases h⟩
  · refine safe_quiet ha ⟨fun _ _ _ _ h => h, fun p b hp => by cases hp⟩ fun r t _ ha _ _ => ?_
    exact safe_rejected ha fun _ h => by cases h

/-- The ticket goes to the manager. -/
theorem sendTicket_safe (ha : Active J i none s) (hd : Stored J s ticket.capability.id) :
    Safe (calmMachine J).toWorld (discipline J) i (MachineProtocol.sendTicket J ticket).run
      (Outcome.returns fun _ _ => True) s := by
  simp only [MachineProtocol.sendTicket, Fallible.run_bind, run_attempt, call_eq]
  refine @safe_use J i none s _ _ _ _ (docOf J (J.ticket.enc ticket)) ha (fun d hd' => ?_)
    (fun _ _ _ h => h) (fun p b hp => (by cases hp)) fun r t hat _ => ?_
  · rw [docOf, J.ticket.dec_enc] at hd'
    rw [List.mem_singleton.mp hd']
    exact hd
  · have hquiet : Quiet J .finish ∧ Quiet J .stopped ∧ Quiet J .sendShutdown ∧
        Quiet J (.close "finished") :=
      ⟨⟨fun _ _ _ _ h => h, fun p b hp => by cases hp⟩, ⟨fun _ _ _ _ h => h, fun p b hp => by cases hp⟩,
        ⟨fun _ _ _ _ h => h, fun p b hp => by cases hp⟩, fun _ _ _ _ h => h, fun p b hp => by cases hp⟩
    obtain ⟨hfinish, hstopped, hshutdown, hclose⟩ := hquiet
    refine Safe.mono (safe_uses ?_ hat) fun o _ _ _ => (by cases o <;> trivial)
    rcases r with e | _
    · trivial
    simp only [Prog.pure_bind, Fallible.andThen_ok]
    refine Prog.Uses.andThen ⟨hfinish, fun _ => trivial⟩ fun _ => ?_
    refine Prog.Uses.andThen ⟨hstopped, fun _ => trivial⟩ fun _ => ?_
    refine Prog.Uses.andThen ⟨hshutdown, fun _ => trivial⟩ fun _ => ?_
    exact ⟨hclose, fun _ => trivial⟩

/-- **The claim handler.** -/
theorem accept_safe (manager : EndpointId) (ha : Active J i none s) :
    Safe (calmMachine J).toWorld (discipline J) i (MachineProtocol.accept J manager).run
      (Outcome.returns fun _ _ => True) s := by
  simp only [MachineProtocol.accept, Fallible.run_bind, Fallible.run_ite, run_guarded, await_eq,
    Fallible.run_of, Prog.await_bind, Prog.pure_bind, Fallible.andThen_ok]
  refine lock_safe ha fun w t hat hit => ?_
  have hclose : Quiet J (.close "already_claimed") :=
    ⟨fun _ _ _ _ h => h, fun p b hp => by cases hp⟩
  split_ifs with hother
  · refine safe_quiet hat hclose fun _ u _ hau _ _ => ?_
    exact unlock_safe hau fun _ _ _ _ _ => .returned fun _ _ _ => trivial
  · have hw : w = none ∨ w = some manager := by
      rcases w with _ | M
      · exact Or.inl rfl
      · simp only [MachineProtocol.claimedByOther, Option.any_some, decide_eq_true_eq, not_not] at hother
        exact Or.inr (by rw [hother])
    rw [Prog.bind_assoc]
    refine .bind_returns hit (acceptClaim_safe hat hw) fun r u _ hu => ?_
    obtain ⟨⟨w', hau⟩, hticket⟩ := hu
    refine unlock_safe hau fun v x hv hax hkeep => ?_
    rcases r with e | ticketOr
    · exact .returned fun _ _ _ => trivial
    rcases ticketOr with _ | ticket
    · exact .returned fun _ _ _ => trivial
    · exact sendTicket_safe hax (hkeep _ (hv.doc _ (hticket ticket rfl)))

/-- **Every call is safe.** -/
theorem program_safe (c : Call) (ha : Active J i none s) (hi : Inv J s) :
    Safe (calmMachine J).toWorld (discipline J) i (c.program J) (Outcome.returns fun _ _ => True) s := by
  have hend : ∀ {β : Type} {p : Fut β} {f : β → Result} {R : β → State → Prop},
      Safe (calmMachine J).toWorld (discipline J) i p (Outcome.returns R) s →
      Safe (calmMachine J).toWorld (discipline J) i (p.bind fun r => .pure (f r))
        (Outcome.returns fun _ _ => True) s :=
    fun h => .bind_returns hi h fun _ _ _ _ => .returned fun _ _ _ => trivial
  cases c with
  | accept manager => exact hend (accept_safe manager ha)
  | getMachineState => exact hend (getMachineState_safe ha)
  | getMachineConfig => exact hend (getMachineConfig_safe ha hi)
  | writePaymentToMachineDoc f c => exact hend (writePaymentToMachineDoc_safe f c ha hi)
  | getKvValue key => exact hend (getKvValue_safe key ha hi)
  | setKvValue key value => exact hend (setKvValue_safe key value ha hi)
  | getKvEntries => exact hend (getKvEntries_safe ha hi)

/-! ### The start of the machine -/

/-- The task is the start of a machine that does not run yet. -/
structure Starting (i : TaskId) (s : State) : Prop where
  start : ∃ n, i = .start n ∧ s.starter = some n
  running : s.running = false

theorem Starting.role (h : Starting i s) : Role i s := by
  obtain ⟨n, rfl, hn⟩ := h.start
  refine ⟨fun m hm => ?_, fun m hm => by cases hm⟩
  cases hm
  exact ⟨hn, h.running⟩

theorem Starting.stable (h : Starting i s) (hr : Relies J i s t) :
    Starting i t ∧ storedKey t = storedKey s ∧ storedOwner J t = storedOwner J s := by
  obtain ⟨n, hn, hstart⟩ := h.start
  obtain ⟨hstart', hrunning, hkey, howner⟩ := hr.started n hn hstart h.running
  exact ⟨⟨⟨n, hn, hstart'⟩, hrunning⟩, hkey, howner⟩

/-- A step of the start. -/
structure StartStep (J : Serde) (s s' : State) : Prop where
  owner : storedOwner J s' = storedOwner J s
  ticket : storedTicket J s' = storedTicket J s
  rest : s'.begun = s.begun ∧ s'.lock = s.lock ∧ s'.creating = s.creating ∧ s'.docs = s.docs ∧
    s'.returned = s.returned ∧ s'.used = s.used
  key : ∀ k, storedKey s = some k → storedKey s' = some k ∧ s'.generated = s.generated ∧
    (s'.keys = s.keys ∨ s'.keys = k :: s.keys)
  synced : s'.running = true → ∀ M, storedOwner J s = some M → s'.owner = some M

theorem kept_start (hi : Inv J s) (hs : Starting i s) (h : StartStep J s t) :
    Inv J t ∧ Guards J i s t := by
  obtain ⟨hbegun, hlock, hcreating, hdocs, hreturned, hused⟩ := h.rest
  refine ⟨⟨fun j hj => ?_, fun hrun _ M hM => h.synced hrun M (h.owner ▸ hM), ?_, fun d hd => ?_⟩,
    ⟨⟨h.key, fun M hM => ?_, fun t' ht' => ?_⟩, ?_, fun n hn => ?_, fun n hn => ?_⟩⟩
  · rw [hbegun]
    exact hi.lock j (hlock ▸ hj)
  · rw [hcreating, h.ticket]
    exact hi.creating
  · rw [hreturned, hused] at hd
    unfold Stored
    rw [h.ticket]
    exact hi.one d hd
  · exact ⟨h.owner.trans hM, fun _ hrun => h.synced hrun M hM⟩
  · exact ⟨h.ticket.trans ht', hdocs, Or.inl hreturned⟩
  · rw [hbegun]
    exact List.Subset.refl _
  · obtain ⟨m, rfl, hm⟩ := hs.start
    cases hn
    exact ⟨hm, hs.running, hlock, hcreating⟩
  · obtain ⟨m, rfl, hm⟩ := hs.start
    cases hn

/-- An operation of the start. -/
theorem safe_start {k : op.Ret → Fut α} {R : α → State → Prop} (hs : Starting i s)
    (hwrites : ∀ p b, op = .writeFile p b → Writes J p b)
    (h : ∀ r t u, Starting i t → storedKey t = storedKey s → storedOwner J t = storedOwner J s →
      effect J i op t r u → Calm J i op t r u → StartStep J t u ∧
        Safe (calmMachine J).toWorld (discipline J) i (k r) (Outcome.returns R) u) :
    Safe (calmMachine J).toWorld (discipline J) i (.await op k) (Outcome.returns R) s := by
  refine safe_step (fun t ht => (hs.stable ht).1.role) hwrites fun r t u ht hi he hc => ?_
  obtain ⟨hst, hkey, howner⟩ := hs.stable ht
  obtain ⟨hstep, hk⟩ := h r t u hst hkey howner he hc
  exact ⟨kept_start hi hst hstep, fun _ => hk⟩

theorem startStep_same (hs : Starting i s) (h : Same J s t) : StartStep J s t := by
  obtain ⟨hkey, howner, hticket, files, rfl⟩ := h
  refine ⟨howner, hticket, ⟨rfl, rfl, rfl, rfl, rfl, rfl⟩, fun k hk => ⟨hkey.trans hk, rfl, Or.inl rfl⟩,
    fun hrun => ?_⟩
  rw [hs.running] at hrun
  cases hrun

/-- An operation of the start that changes nothing. -/
theorem safe_idle {k : op.Ret → Fut α} {R : α → State → Prop} (hs : Starting i s) (hop : Quiet J op)
    (h : ∀ r t, Starting i t → storedKey t = storedKey s →
      Safe (calmMachine J).toWorld (discipline J) i (k r) (Outcome.returns R) t) :
    Safe (calmMachine J).toWorld (discipline J) i (.await op k) (Outcome.returns R) s := by
  refine safe_start hs (fun p b hp => absurd hp (hop.2 p b)) fun r t u hst hkey _ he _ => ?_
  obtain rfl := hop.1 i t r u he
  exact ⟨startStep_same hst (.refl J _), h r _ hst hkey⟩

/-- What the start knows of the key it has loaded. -/
def Loaded (i : TaskId) (r : Except Error SecretKey) (s : State) : Prop :=
  Starting i s ∧ ∀ k, r = .ok k → storedKey s = some k

theorem Loaded.stable {r : Except Error SecretKey} (h : Loaded i r s) (hr : Relies J i s t) :
    Loaded i r t := by
  obtain ⟨hst, hkey, -⟩ := h.1.stable hr
  exact ⟨hst, fun k hk => hkey.trans (h.2 k hk)⟩

theorem quiet_createDirAll (p : Path) : Quiet J (.createDirAll p) :=
  ⟨fun _ _ _ _ h => h, fun p b hp => by cases hp⟩

/-- **The secret key is the one that is stored**, from then on if there was none. -/
theorem loadSecretKey_safe (hs : Starting i s) :
    Safe (calmMachine J).toWorld (discipline J) i SharedProtocol.loadSecretKey.run
      (Outcome.returns (Loaded i)) s := by
  have hfail : ∀ {e : Error} {t : State}, Starting i t →
      Safe (calmMachine J).toWorld (discipline J) i (.pure (.error e)) (Outcome.returns (Loaded i)) t :=
    fun ht => .returned fun u hu _ => ⟨(ht.stable hu).1, fun k hk => by cases hk⟩
  simp only [SharedProtocol.loadSecretKey, Fallible.run_bind, await_eq, Fallible.run_of,
    Prog.await_bind, Prog.pure_bind, Fallible.andThen_ok]
  refine safe_start hs (fun p b hp => (by cases hp)) fun r t u hst hkey _ he hc => ?_
  obtain ⟨hread, rfl⟩ := he
  refine ⟨startStep_same hst (.refl J _), ?_⟩
  rcases r with e | keyBytes
  · -- The file is absent, and the key is generated.
    have hnone : storedKey u = none := by
      by_contra hne
      obtain ⟨b, hb⟩ := hc.2 hne
      cases hb
    simp only [Fallible.run_bind, run_attempt, Fallible.run_of, call_eq, Prog.await_bind,
      Prog.pure_bind, Fallible.andThen_ok, Fallible.run_pure]
    refine safe_start hst (fun p b hp => (by cases hp)) fun keyBytes v w hsv hkv _ he _ => ?_
    obtain rfl := he
    have hnv : storedKey v = none := hkv.trans hnone
    refine ⟨⟨rfl, rfl, ⟨rfl, rfl, rfl, rfl, rfl, rfl⟩, fun k hk => ?_, fun hrun => ?_⟩, ?_⟩
    · rw [hnv] at hk
      cases hk
    · rw [hsv.running] at hrun
      cases hrun
    have hsw : Starting i { v with generated := ⟨keyBytes⟩ :: v.generated } := ⟨hsv.start, hsv.running⟩
    refine safe_idle hsw (quiet_createDirAll _) fun r x hsx hkx => ?_
    rcases r with e | _
    · exact hfail hsx
    refine safe_start hsx (fun p b hp => ?_) fun r y z hsy hky _ he hcalm => ?_
    · cases hp
      exact keyBytes.length_eq
    have hny : storedKey y = none := (hky.trans hkx).trans hnv
    rcases he with ⟨rfl, rfl⟩ | ⟨⟨e, rfl⟩, hshort⟩
    · have hstored : storedKey (y.write .secretKey keyBytes.bytes) = some ⟨keyBytes⟩ := by
        simp [storedKey]
      have hloaded : Loaded i (.ok ⟨keyBytes⟩) (y.write .secretKey keyBytes.bytes) := by
        refine ⟨⟨hsy.start, hsy.running⟩, fun k hk => ?_⟩
        cases hk
        exact hstored
      refine ⟨⟨rfl, rfl, ⟨rfl, rfl, rfl, rfl, rfl, rfl⟩, fun k hk => ?_, fun hrun => ?_⟩,
        .returned fun v hv _ => hloaded.stable hv⟩
      · rw [hny] at hk
        cases hk
      · have hrun' : y.running = true := hrun
        rw [hsy.running] at hrun'
        cases hrun'
    · have hw : Writes J .secretKey keyBytes.bytes := keyBytes.length_eq
      have hsame := same_of_short hw hshort fun hwhole => absurd hny hwhole
      refine ⟨startStep_same hsy hsame, ?_⟩
      obtain ⟨-, -, -, files, rfl⟩ := hsame
      exact hfail ⟨hsy.start, hsy.running⟩
  · have hfile := hread keyBytes rfl
    simp only [Fallible.run_bind, Fallible.run_pure]
    rcases hkeyBytes : BytesN.ofBytes 32 keyBytes with _ | k
    · exact .panicked
    · refine .returned fun v hv _ => Loaded.stable ⟨hst, fun k' hk' => ?_⟩ hv
      cases hk'
      simp [storedKey, hfile, hkeyBytes]

theorem sharedNew_safe (hs : Starting i s) (hi : Inv J s) :
    Safe (calmMachine J).toWorld (discipline J) i SharedProtocol.new.run
      (Outcome.returns (Loaded i)) s := by
  have hfail : ∀ {e : Error} {t : State}, Starting i t →
      Safe (calmMachine J).toWorld (discipline J) i (.pure (.error e)) (Outcome.returns (Loaded i)) t :=
    fun ht => .returned fun u hu _ => ⟨(ht.stable hu).1, fun k hk => by cases hk⟩
  simp only [SharedProtocol.new, Fallible.run_bind, run_attempt, call_eq, Prog.await_bind,
    Prog.pure_bind]
  refine .bind_returns hi (loadSecretKey_safe hs) fun r t _ ht => ?_
  rcases r with e | secretKey
  · exact hfail ht.1
  have hkey := ht.2 secretKey rfl
  refine safe_start ht.1 (fun p b hp => (by cases hp)) fun r u v hsu hku _ he _ => ?_
  obtain rfl := he
  have hstored : storedKey u = some secretKey := hku.trans hkey
  refine ⟨⟨rfl, rfl, ⟨rfl, rfl, rfl, rfl, rfl, rfl⟩, fun k hk => ⟨hk, rfl, Or.inr ?_⟩, fun hrun => ?_⟩, ?_⟩
  · rw [hstored, Option.some.injEq] at hk
    rw [hk]
  · have hrun' : u.running = true := hrun
    rw [hsu.running] at hrun'
    cases hrun'
  have hsv : Starting i { u with keys := secretKey :: u.keys } := ⟨hsu.start, hsu.running⟩
  rcases r with e | _
  · exact hfail hsv
  refine safe_idle hsv (quiet_createDirAll _) fun r w hsw hkw => ?_
  rcases r with e | _
  · exact hfail hsw
  refine safe_idle hsw (quiet_createDirAll _) fun r x hsx hkx => ?_
  rcases r with e | _
  · exact hfail hsx
  refine safe_idle hsx ⟨fun _ _ _ _ h => h, fun p b hp => by cases hp⟩ fun r y hsy hky => ?_
  rcases r with e | _
  · exact hfail hsy
  refine safe_idle hsy ⟨fun _ _ _ _ h => h, fun p b hp => by cases hp⟩ fun r z hsz hkz => ?_
  rcases r with e | _
  · exact hfail hsz
  have hloaded : Loaded i (.ok secretKey) z := by
    refine ⟨hsz, fun k hk => ?_⟩
    cases hk
    exact (((hkz.trans hky).trans hkx).trans hkw).trans hstored
  exact .returned fun w hw _ => hloaded.stable hw

/-- **The start of the machine.** -/
theorem starting_safe (hs : Starting i s) (hi : Inv J s) :
    Safe (calmMachine J).toWorld (discipline J) i (starting J) (Outcome.returns fun _ _ => True) s := by
  have hend : ∀ {r : Result} {t : State}, Safe (calmMachine J).toWorld (discipline J) i (.pure r)
      (Outcome.returns fun _ _ => True) t := .returned fun _ _ _ => trivial
  simp only [starting, MachineProtocol.new, Fallible.run_bind, await_eq, Fallible.run_of,
    Prog.await_bind, Prog.pure_bind, Fallible.andThen_ok, Fallible.run_pure]
  rw [Prog.bind_assoc]
  refine .bind_returns hi (sharedNew_safe hs hi) fun r t _ ht => ?_
  rcases r with e | secretKey
  · exact hend
  refine safe_start ht.1 (fun p b hp => (by cases hp)) fun r u v hsu _ _ he hc => ?_
  obtain ⟨hread, rfl⟩ := he
  refine ⟨startStep_same hsu (.refl J _), ?_⟩
  -- The owner that is stored has been read.
  have hread' : ∀ M, storedOwner J v = some M → MachineProtocol.ownerOf J r = some M := by
    intro M hM
    obtain ⟨b, rfl⟩ := hc.2 (show storedOwner J v ≠ none by rw [hM]; exact Option.some_ne_none M)
    have hfile := hread b rfl
    unfold storedOwner at hM
    rw [hfile] at hM
    exact hM
  refine safe_start hsu (fun p b hp => (by cases hp)) fun _ w x hsw _ howner he _ => ?_
  obtain rfl := he
  refine ⟨⟨rfl, rfl, ⟨rfl, rfl, rfl, rfl, rfl, rfl⟩, fun k hk => ⟨hk, rfl, Or.inl rfl⟩,
    fun _ M hM => hread' M (howner ▸ hM)⟩, hend⟩

end Tasks

end Vendimint.Identity
