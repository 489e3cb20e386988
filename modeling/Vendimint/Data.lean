import Vendimint.Store.Replica

/-! # Data of machines and managers

The identifiers, tickets, contracts and configurations that the two devices exchange, the names of
the files they keep, and the JSON encodings (`Serde`) of what they store and send. The fields are
those that the code reads. -/

namespace Vendimint

open Vendimint.Store

/-- Byte strings of length `n`. -/
structure BytesN (n : ℕ) where
  bytes : Bytes
  length_eq : bytes.length = n
  deriving DecidableEq

namespace BytesN

/-- The checked conversion, `try_into`. -/
def ofBytes (n : ℕ) (l : Bytes) : Option (BytesN n) :=
  if h : l.length = n then some ⟨l, h⟩ else none

@[simp] theorem ofBytes_bytes {n : ℕ} (b : BytesN n) : ofBytes n b.bytes = some b := by
  rw [ofBytes, dif_pos b.length_eq]

theorem bytes_of_ofBytes {n : ℕ} {l : Bytes} {b : BytesN n} (h : ofBytes n l = some b) :
    b.bytes = l := by
  unfold ofBytes at h
  split_ifs at h
  rw [Option.some.injEq] at h
  rw [← h]

/-- The string of `n` equal bytes. -/
def replicate (n : ℕ) (b : UInt8) : BytesN n := ⟨List.replicate n b, List.length_replicate⟩

end BytesN

/-- Errors, by their message. -/
abbrev Error := String

/-- The public key of an endpoint: the identity of a device. -/
structure EndpointId where
  key : BytesN 32
  deriving DecidableEq

/-- The secret key of an endpoint. -/
structure SecretKey where
  key : BytesN 32
  deriving DecidableEq

/-- The identity of a document. -/
structure NamespaceId where
  key : BytesN 32
  deriving DecidableEq

/-- A federation. -/
structure FederationId where
  hash : BytesN 32
  deriving DecidableEq

/-- A lightning contract. -/
structure ContractId where
  hash : BytesN 32
  deriving DecidableEq

/-- A key that contracts are claimed with. -/
structure PublicKey where
  key : BytesN 33
  deriving DecidableEq

/-- The right that a ticket gives. -/
inductive Capability
  | write (namespaceId : NamespaceId)
  | read (namespaceId : NamespaceId)
  deriving DecidableEq

def Capability.id : Capability → NamespaceId
  | write n => n
  | read n => n

/-- A ticket for a document. -/
structure DocTicket where
  capability : Capability
  deriving DecidableEq

instance : Nontrivial DocTicket where
  exists_pair_ne := ⟨⟨.write ⟨.replicate 32 0⟩⟩, ⟨.read ⟨.replicate 32 0⟩⟩, nofun⟩

/-- An invitation to a federation, with the addresses of its guardians. -/
structure InviteCode where
  federationId : FederationId
  peers : Bytes
  deriving DecidableEq

/-- A contract on the federation, with its identity and the key it is claimed with. -/
structure IncomingContract where
  contractId : ContractId
  claimPk : PublicKey
  deriving DecidableEq

/-- A funded contract. -/
structure ClaimableContract where
  contract : IncomingContract
  outpoint : BytesN 40
  deriving DecidableEq

/-- A machine's configuration, which determines how funds are received. -/
structure MachineConfig where
  federationInviteCode : InviteCode
  claimerPk : PublicKey
  deriving DecidableEq

/-- The devices that write to the document of a machine. -/
inductive AuthorId
  | machine
  | manager
  deriving DecidableEq

/-- A claim PIN is a number of six digits. -/
structure ClaimPin where
  val : ℕ
  lt : val < 1000000
  deriving DecidableEq

/-- What an invoice is asked for. -/
structure InvoiceRequest where
  msats : ℕ
  expirySecs : ℕ
  description : String
  gateway : Option String
  deriving DecidableEq

/-- An operation of a client: the handle of an invoice. -/
structure OperationId where
  id : BytesN 32
  deriving DecidableEq

/-- What a view shows of a federation. -/
structure FederationView where
  federationId : FederationId
  name : Option String
  balance : ℕ
  deriving DecidableEq

/-- A view of a wallet: its federations in the order of their identities. -/
structure WalletView where
  federations : List FederationView
  deriving DecidableEq

/-- The words that the keys of a wallet are derived from. -/
structure Mnemonic where
  entropy : BytesN 16
  deriving DecidableEq

/-! ### Files -/

/-- Names in a directory that the code lists. -/
inductive FileName
  | endpoint (id : EndpointId)
  | federation (id : FederationId)
  | other (name : String)
  deriving DecidableEq

/-- The files and directories of a device. -/
inductive Path
  | storageDir
  | irohDir
  | appDir
  | secretKey
  | docTicket
  | managerPublicKey
  | machineDocTicketsDir
  | machineDocTicket (name : FileName)
  | clientsDataDir
  | federationDir (id : FederationId)
  | mnemonic
  | defaultFederation
  deriving DecidableEq

/-- What reading a file that is absent reports. -/
def notFound : Error := "No such file or directory"

/-! ### Encodings -/

/-- The encodings of what is stored and sent. -/
structure Serde where
  ticket : Codec DocTicket
  endpointId : Codec EndpointId
  contract : Codec ClaimableContract
  config : Codec MachineConfig
  invite : Format InviteCode
  mnemonic : Format Mnemonic

namespace Serde

/-- Two strings of known lengths and a rest, read back from their concatenation. -/
def split (n m : ℕ) (l : Bytes) : Option (BytesN n × BytesN m × Bytes) := do
  let a ← BytesN.ofBytes n (l.take n)
  let b ← BytesN.ofBytes m ((l.drop n).take m)
  return (a, b, l.drop (n + m))

theorem split_append {n m : ℕ} (a : BytesN n) (b : BytesN m) (r : Bytes) :
    split n m (a.bytes ++ b.bytes ++ r) = some (a, b, r) := by
  have h1 : (a.bytes ++ b.bytes ++ r).take n = a.bytes := by
    rw [List.append_assoc, List.take_append_of_le_length (by rw [a.length_eq]),
      List.take_of_length_le (by rw [a.length_eq])]
  have h2 : (a.bytes ++ b.bytes ++ r).drop n = b.bytes ++ r := by
    rw [List.append_assoc, List.drop_append_of_le_length (by rw [a.length_eq]),
      List.drop_of_length_le (by rw [a.length_eq]), List.nil_append]
  have h3 : (b.bytes ++ r).take m = b.bytes := by
    rw [List.take_append_of_le_length (by rw [b.length_eq]),
      List.take_of_length_le (by rw [b.length_eq])]
  have h4 : (a.bytes ++ b.bytes ++ r).drop (n + m) = r := by
    rw [← List.drop_drop, h2, List.drop_append_of_le_length (by rw [b.length_eq]),
      List.drop_of_length_le (by rw [b.length_eq]), List.nil_append]
  simp only [split, h1, h2, h3, h4, BytesN.ofBytes_bytes]
  rfl

def ticketBytes (t : DocTicket) : Bytes :=
  match t.capability with
  | .write n => 1 :: n.key.bytes
  | .read n => 0 :: n.key.bytes

def ticketOfBytes : Bytes → Option DocTicket
  | 1 :: l => (BytesN.ofBytes 32 l).map fun k => ⟨.write ⟨k⟩⟩
  | 0 :: l => (BytesN.ofBytes 32 l).map fun k => ⟨.read ⟨k⟩⟩
  | _ => none

def contractBytes (c : ClaimableContract) : Bytes :=
  c.contract.contractId.hash.bytes ++ c.contract.claimPk.key.bytes ++ c.outpoint.bytes

def contractOfBytes (l : Bytes) : Option ClaimableContract := do
  let (i, p, r) ← split 32 33 l
  let o ← BytesN.ofBytes 40 r
  return ⟨⟨⟨i⟩, ⟨p⟩⟩, o⟩

def configBytes (c : MachineConfig) : Bytes :=
  c.federationInviteCode.federationId.hash.bytes ++ c.claimerPk.key.bytes ++
    c.federationInviteCode.peers

def configOfBytes (l : Bytes) : Option MachineConfig := do
  let (f, p, r) ← split 32 33 l
  return ⟨⟨⟨f⟩, r⟩, ⟨p⟩⟩

def inviteBytes (i : InviteCode) : Bytes := i.federationId.hash.bytes ++ i.peers

def inviteOfBytes (l : Bytes) : Option InviteCode := do
  let (f, _, r) ← split 32 0 l
  return ⟨⟨f⟩, r⟩

theorem inviteOfBytes_inviteBytes (i : InviteCode) : inviteOfBytes (inviteBytes i) = some i := by
  have h := split_append i.federationId.hash (⟨[], rfl⟩ : BytesN 0) i.peers
  rw [List.append_nil] at h
  rw [inviteOfBytes, inviteBytes, h]
  rfl

/-- Encodings by framed bytes. -/
def framed : Serde where
  ticket := .framed ticketBytes ticketOfBytes fun t => by
    rcases t with ⟨⟨n⟩ | ⟨n⟩⟩ <;> simp [ticketBytes, ticketOfBytes]
  endpointId := .framed (fun e => e.key.bytes) (fun l => (BytesN.ofBytes 32 l).map (⟨·⟩))
    fun e => by simp
  contract := .framed contractBytes contractOfBytes fun c => by
    rw [contractOfBytes, contractBytes, split_append]
    simp
  config := .framed configBytes configOfBytes fun c => by
    rw [configOfBytes, configBytes, split_append]
    rfl
  invite := ⟨inviteBytes, inviteOfBytes, inviteOfBytes_inviteBytes⟩
  mnemonic := ⟨fun m => m.entropy.bytes, fun l => (BytesN.ofBytes 16 l).map (⟨·⟩), fun m => by simp⟩

end Serde

end Vendimint
