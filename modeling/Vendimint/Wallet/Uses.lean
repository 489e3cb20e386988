import Vendimint.Wallet

/-! # The operations that connect a client

Building a client and connecting to a list of federations await nothing but the operations that open a
database, build a client and look into the map of clients (`Connecting`); joining and leaving a federation
await nothing but these, those of the locks and those that ask for a view (`Joining`). -/

namespace Vendimint.Wallet

open Vendimint.Async

/-- The operations that open, build and insert a client. -/
def Connecting : Op → Prop
  | .dbOpen _ | .dbIsInitialized _ | .clientBuilder | .clientConnectors | .clientOpen _ _ => True
  | .clientPreview _ | .clientJoin _ _ | .clientsContains _ | .clientsInsert _ => True
  | _ => False

theorem connecting_buildClientFromInviteCode (secret : Mnemonic) (inviteCode : InviteCode) :
    (buildClientFromInviteCode secret inviteCode).run.Uses Connecting := by
  simp only [buildClientFromInviteCode, Fallible.run_bind, Fallible.run_ite]
  refine Prog.Uses.andThen ⟨trivial, fun _ => trivial⟩ fun isInitialized => ?_
  refine Prog.Uses.andThen ⟨trivial, fun _ => trivial⟩ fun _ => ?_
  refine Prog.Uses.andThen ⟨trivial, fun _ => trivial⟩ fun _ => ?_
  split
  · exact ⟨trivial, fun _ => trivial⟩
  · exact Prog.Uses.andThen ⟨trivial, fun _ => trivial⟩ fun _ => ⟨trivial, fun _ => trivial⟩

theorem connecting_buildClientFromFederationId (secret : Mnemonic) (federationId : FederationId) :
    (buildClientFromFederationId secret federationId).run.Uses Connecting := by
  simp only [buildClientFromFederationId, Fallible.run_bind, Fallible.run_ite]
  refine Prog.Uses.andThen ⟨trivial, fun _ => trivial⟩ fun isInitialized => ?_
  refine Prog.Uses.andThen ⟨trivial, fun _ => trivial⟩ fun _ => ?_
  refine Prog.Uses.andThen ⟨trivial, fun _ => trivial⟩ fun _ => ?_
  split
  · exact ⟨trivial, fun _ => trivial⟩
  · trivial

theorem connecting_connectTo (secret : Mnemonic) :
    ∀ federationIds, (connectTo secret federationIds).run.Uses Connecting
  | [] => trivial
  | federationId :: federationIds => by
    simp only [connectTo, Fallible.run_bind, Fallible.run_ite]
    refine Prog.Uses.andThen ⟨trivial, fun _ => trivial⟩ fun connected => ?_
    split
    · exact connecting_connectTo secret federationIds
    · refine Prog.Uses.andThen ⟨trivial, fun _ => trivial⟩ fun _ => ?_
      refine (connecting_buildClientFromFederationId secret federationId).andThen fun _ => ?_
      refine Prog.Uses.andThen ⟨trivial, fun _ => trivial⟩ fun _ => ?_
      exact connecting_connectTo secret federationIds

/-! ### Joining and leaving -/

/-- The operations that join a federation and leave it. -/
def Joining : Op → Prop
  | .dataDirLock | .dataDirRelease | .clientsWrite | .clientsRelease | .clientsRemove _ => True
  | .forceUpdateSend | .forceUpdateRecv | .clientBalance _ | .clientShutdown _ => True
  | .readDir _ | .isDir _ | .removeDirAll _ | .writeFile .defaultFederation _ => True
  | op => Connecting op

theorem Connecting.joining {op : Op} (h : Connecting op) : Joining op := by
  cases op <;> first | exact trivial | exact h.elim

theorem joining_guarded {α : Type} {x : FutResult α} {op : Op} (hx : x.run.Uses Joining)
    (hop : Joining op) : (guarded x op).run.Uses Joining :=
  hx.bind fun _ => ⟨hop, fun _ => trivial⟩

theorem joining_lift_forceUpdateView :
    (liftM forceUpdateView : FutResult Unit).run.Uses Joining :=
  ⟨trivial, fun _ => ⟨trivial, fun _ => ⟨trivial, fun _ => trivial⟩⟩⟩

theorem joining_connectToJoinedFederations (secret : Mnemonic) :
    (connectToJoinedFederations secret).run.Uses Joining := by
  refine ⟨trivial, fun _ => joining_guarded ?_ trivial⟩
  simp only [connectToListed, Fallible.run_bind, Fallible.run_lift, Prog.bind_assoc, Prog.pure_bind]
  refine Prog.Uses.andThen ⟨trivial, fun _ => trivial⟩ fun readDir => ⟨trivial, fun _ => ?_⟩
  refine ((connecting_connectTo secret _).mono fun _ => Connecting.joining).bind fun r => ?_
  cases r with
  | error e => exact ⟨trivial, fun _ => trivial⟩
  | ok a => exact joining_lift_forceUpdateView

theorem joining_setDefaultFederation (J : Serde) (secret : Mnemonic) (inviteCode : InviteCode) :
    (setDefaultFederation J secret inviteCode).run.Uses Joining := by
  refine ⟨trivial, fun _ => joining_guarded ?_ trivial⟩
  simp only [setDefaultLocked, joinFederation, insertClient, Fallible.run_bind, Fallible.run_ite]
  refine Prog.Uses.andThen ⟨trivial, fun _ => trivial⟩ fun isDir => ?_
  split
  · exact ⟨trivial, fun _ => trivial⟩
  · refine Prog.Uses.andThen ?_ fun _ => ⟨trivial, fun _ => trivial⟩
    refine Prog.Uses.andThen ⟨trivial, fun _ => trivial⟩ fun _ => ?_
    have hbuild := (connecting_buildClientFromInviteCode secret inviteCode).mono
      fun _ => Connecting.joining
    refine hbuild.andThen fun _ => Prog.Uses.andThen ⟨trivial, fun _ => trivial⟩ fun _ => ?_
    exact Prog.Uses.andThen ⟨trivial, fun _ => trivial⟩ fun _ => joining_lift_forceUpdateView

theorem joining_leaveClient (federationId : FederationId) :
    (leaveClient federationId).run.Uses Joining := by
  simp only [leaveClient, removeFederationDir, Fallible.run_bind]
  refine Prog.Uses.andThen ⟨trivial, fun _ => trivial⟩ fun balance => ?_
  cases balance with
  | error e => exact ⟨trivial, fun _ => trivial⟩
  | ok msats =>
    simp only [Fallible.run_ite]
    split
    · exact ⟨trivial, fun _ => trivial⟩
    · refine Prog.Uses.andThen ⟨trivial, fun _ => trivial⟩ fun _ => ⟨trivial, fun _ => ?_⟩
      refine joining_guarded ⟨trivial, fun isDir => ?_⟩ trivial
      cases isDir with
      | false => trivial
      | true => exact ⟨trivial, fun _ => trivial⟩

theorem joining_leaveFederation (federationId : FederationId) :
    (leaveFederation federationId).run.Uses Joining := by
  simp only [leaveFederation, Fallible.run_bind, Fallible.run_ite]
  refine Prog.Uses.andThen ⟨trivial, fun _ => trivial⟩ fun _ => ?_
  refine Prog.Uses.andThen ⟨trivial, fun _ => trivial⟩ fun removed => ?_
  cases removed with
  | false => exact joining_lift_forceUpdateView
  | true =>
    simp only [if_true, Fallible.run_lift, Prog.bind_assoc, Prog.pure_bind]
    refine (joining_leaveClient federationId).bind fun r => ?_
    cases r with
    | error e => exact ⟨trivial, fun _ => trivial⟩
    | ok a => exact joining_lift_forceUpdateView

end Vendimint.Wallet

namespace Vendimint

open Vendimint.Store

/-- The federations that have a directory, by the names in the list. -/
theorem mem_filterMap_federationOfName {l : List FileName} {f : FederationId} :
    f ∈ l.filterMap Wallet.federationOfName ↔ .federation f ∈ l := by
  rw [List.mem_filterMap]
  constructor
  · rintro ⟨name, hname, h⟩
    cases name with
    | federation g =>
      obtain rfl : g = f := Option.some.inj h
      exact hname
    | endpoint _ => cases h
    | other _ => cases h
  · exact fun h => ⟨_, h, rfl⟩

end Vendimint
