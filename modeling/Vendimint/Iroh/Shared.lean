import Vendimint.Op

/-! # What machines and managers share

The keys of a machine's document, the claim PIN, and the start of the iroh endpoint
(`SharedProtocol.new`), which loads or creates the secret key of the device. -/

namespace Vendimint

open Vendimint.Store Vendimint.Async

def CLAIMABLE_CONTRACT_PREFIX : Bytes := [0x01, 0xFF]

def MACHINE_CONFIG_KEY : Bytes := [0x02, 0xFF]

def KV_PREFIX : Bytes := [0x03, 0xFF]

/-- What a manager sends to a machine that it would like to claim. -/
def PING_MAGIC_BYTES : Bytes := [0x01, 0x02, 0x03, 0x04]

/-- The PIN derived from the keying material of a connection. -/
def claimPinFromKeyingMaterial (km : BytesN 32) : ClaimPin :=
  ⟨(km.bytes.take 4).foldl (fun n b => n * 256 + b.toNat) 0 % 1000000, Nat.mod_lt _ (by decide)⟩

namespace SharedProtocol

/-! ### The keys of contracts -/

def createClaimableContractMachineDocKey (federationId : FederationId)
    (claimableContract : ClaimableContract) : Bytes :=
  CLAIMABLE_CONTRACT_PREFIX ++ federationId.hash.bytes ++
    claimableContract.contract.contractId.hash.bytes

def parseIncomingContractMachineDocKey (key : Bytes) : Except Error (FederationId × ContractId) :=
  if key.length ≠ 66 then .error "Invalid key length"
  else if ¬ CLAIMABLE_CONTRACT_PREFIX <+: key then .error "Invalid key prefix"
  else
    match BytesN.ofBytes 32 ((key.drop 2).take 32), BytesN.ofBytes 32 ((key.drop 34).take 32) with
    | some f, some c => .ok (⟨f⟩, ⟨c⟩)
    | _, _ => .error "could not convert slice to array"

/-- The key of the contract `id` of the federation `f`. -/
def contractKey (f : FederationId) (id : ContractId) : Bytes :=
  CLAIMABLE_CONTRACT_PREFIX ++ f.hash.bytes ++ id.hash.bytes

theorem createKey_eq (f : FederationId) (c : ClaimableContract) :
    createClaimableContractMachineDocKey f c = contractKey f c.contract.contractId := rfl

theorem length_contractKey (f : FederationId) (id : ContractId) : (contractKey f id).length = 66 := by
  simp [contractKey, CLAIMABLE_CONTRACT_PREFIX, f.hash.length_eq, id.hash.length_eq]

theorem prefix_contractKey (f : FederationId) (id : ContractId) :
    CLAIMABLE_CONTRACT_PREFIX <+: contractKey f id := by
  rw [contractKey, List.append_assoc]; exact List.prefix_append _ _

/-- **The key of a contract is read back.** -/
theorem parse_contractKey (f : FederationId) (id : ContractId) :
    parseIncomingContractMachineDocKey (contractKey f id) = .ok (f, id) := by
  have hf : ((contractKey f id).drop 2).take 32 = f.hash.bytes := by
    simp [contractKey, CLAIMABLE_CONTRACT_PREFIX, f.hash.length_eq]
  have hi : ((contractKey f id).drop 34).take 32 = id.hash.bytes := by
    have h : (contractKey f id).drop 34 = id.hash.bytes := by
      rw [contractKey]
      exact List.drop_left' (by simp [CLAIMABLE_CONTRACT_PREFIX, f.hash.length_eq])
    rw [h, List.take_of_length_le (by rw [id.hash.length_eq])]
  rw [parseIncomingContractMachineDocKey, if_neg (by rw [length_contractKey]; simp),
    if_neg (by simpa using prefix_contractKey f id), hf, hi, BytesN.ofBytes_bytes,
    BytesN.ofBytes_bytes]

/-- A key that is read as the key of a contract is that key. -/
theorem eq_contractKey_of_parse {k : Bytes} {f : FederationId} {id : ContractId}
    (h : parseIncomingContractMachineDocKey k = .ok (f, id)) : k = contractKey f id := by
  unfold parseIncomingContractMachineDocKey at h
  split_ifs at h with hlen hpre
  rcases hf : BytesN.ofBytes 32 ((k.drop 2).take 32) with _ | f'
  · rw [hf] at h; cases h
  rcases hc : BytesN.ofBytes 32 ((k.drop 34).take 32) with _ | c'
  · rw [hf, hc] at h; cases h
  rw [hf, hc] at h
  simp only [Except.ok.injEq, Prod.mk.injEq] at h
  obtain ⟨rfl, rfl⟩ := h
  have h1 : f'.bytes = (k.drop 2).take 32 := BytesN.bytes_of_ofBytes hf
  have h2 : c'.bytes = (k.drop 34).take 32 := BytesN.bytes_of_ofBytes hc
  obtain ⟨l, rfl⟩ := hpre
  have hl : l.length = 64 := by
    simp only [CLAIMABLE_CONTRACT_PREFIX, List.cons_append, List.nil_append, List.length_cons] at hlen
    omega
  have h3 : (l.drop 32).take 32 = l.drop 32 := List.take_of_length_le (by simp [hl])
  simp only [CLAIMABLE_CONTRACT_PREFIX, List.cons_append, List.nil_append, List.drop_succ_cons,
    List.drop_zero] at h1 h2
  simp only [contractKey, h1, h2, h3, List.append_assoc, List.take_append_drop]

theorem contractKey_inj {f f' : FederationId} {id id' : ContractId}
    (h : contractKey f id = contractKey f' id') : f = f' ∧ id = id' := by
  have := parse_contractKey f id
  rw [h, parse_contractKey] at this
  simp only [Except.ok.injEq, Prod.mk.injEq] at this
  exact ⟨this.1.symm, this.2.symm⟩

/-- A key that extends the key of a contract and has its length is that key. -/
theorem eq_of_prefix_contractKey {f : FederationId} {id : ContractId} {k : Bytes}
    (h : contractKey f id <+: k) (hk : k.length = 66) : k = contractKey f id :=
  (h.eq_of_length (by rw [length_contractKey, hk])).symm

/-! ### The parser, slice by slice -/

/-- `key[i..j]`, which panics when it is out of range. -/
def slice (key : Bytes) (i j : ℕ) : FutResult Bytes :=
  if i ≤ j ∧ j ≤ key.length then return (key.drop i).take (j - i) else Fallible.unwrapFailed

/-- `try_into` of a slice to an array of 32 bytes. -/
def arrayOf (bytes : Bytes) : FutResult (BytesN 32) :=
  match BytesN.ofBytes 32 bytes with
  | some b => return b
  | none => throw "could not convert slice to array"

/-- `parseIncomingContractMachineDocKey` with its slices. -/
def parseSlices (key : Bytes) : FutResult (FederationId × ContractId) :=
  if key.length ≠ 66 then throw "Invalid key length"
  else if ¬ CLAIMABLE_CONTRACT_PREFIX <+: key then throw "Invalid key prefix"
  else do
    let federationIdBytes ← arrayOf (← slice key 2 34)
    let contractIdHashBytes ← arrayOf (← slice key 34 66)
    return (⟨federationIdBytes⟩, ⟨contractIdHashBytes⟩)

theorem run_slice {key : Bytes} {i j : ℕ} (hij : i ≤ j) (hj : j ≤ key.length) :
    (slice key i j).run = .pure (.ok ((key.drop i).take (j - i))) := by
  rw [slice, if_pos ⟨hij, hj⟩, Fallible.run_pure]

/-- **No slice is out of range**: the parser returns what its arithmetic on lengths says. -/
theorem run_parseSlices (key : Bytes) :
    (parseSlices key).run = .pure (parseIncomingContractMachineDocKey key) := by
  unfold parseSlices parseIncomingContractMachineDocKey
  by_cases hlen : key.length = 66
  · have hf := @run_slice key 2 34 (by omega) (by omega)
    have hi := @run_slice key 34 66 (by omega) (by omega)
    simp only [hlen, ne_eq, not_true_eq_false, if_false, Fallible.run_ite, Fallible.run_throw,
      Fallible.run_bind, hf, hi, Prog.pure_bind, Fallible.andThen_ok, arrayOf]
    by_cases hpre : CLAIMABLE_CONTRACT_PREFIX <+: key
    · simp only [hpre, not_true_eq_false, if_false]
      rcases BytesN.ofBytes 32 ((key.drop 2).take 32) with _ | f
      · rfl
      rcases BytesN.ofBytes 32 ((key.drop 34).take 32) with _ | c
      · rfl
      rfl
    · simp only [hpre, not_false_eq_true, if_true]
  · rw [if_pos hlen, if_pos hlen, Fallible.run_throw]

/-- The keys of contracts and nothing else is parsed. -/
theorem parse_eq_ok_iff {key : Bytes} {f : FederationId} {id : ContractId} :
    parseIncomingContractMachineDocKey key = .ok (f, id) ↔ key = contractKey f id := by
  constructor
  · exact eq_contractKey_of_parse
  · rintro rfl
    exact parse_contractKey f id

theorem contractKey_eq_iff {f f' : FederationId} {id id' : ContractId} :
    contractKey f id = contractKey f' id' ↔ f = f' ∧ id = id' := by
  constructor
  · exact contractKey_inj
  · rintro ⟨rfl, rfl⟩
    rfl

/-- **The codec of the keys of contracts** is a bijection between the pairs of identifiers and the
byte strings of its format, and its parser never panics. -/
theorem contract_key_codec :
    (∀ f c, (parseSlices (createClaimableContractMachineDocKey f c)).run =
      .pure (.ok (f, c.contract.contractId))) ∧
    (∀ key, ∃ r, (parseSlices key).run = .pure r ∧ ∀ f id, r = .ok (f, id) ↔
      key = CLAIMABLE_CONTRACT_PREFIX ++ f.hash.bytes ++ id.hash.bytes) ∧
    (∀ key f c, (parseSlices key).run = .pure (.ok (f, c.contract.contractId)) →
      createClaimableContractMachineDocKey f c = key) ∧
    ∀ f f' c c', createClaimableContractMachineDocKey f c =
      createClaimableContractMachineDocKey f' c' ↔
        f = f' ∧ c.contract.contractId = c'.contract.contractId := by
  refine ⟨fun f c => ?_, fun key => ?_, fun key f c h => ?_, fun f f' c c' => ?_⟩
  · rw [run_parseSlices, createKey_eq, parse_contractKey]
  · exact ⟨_, run_parseSlices key, fun f id => parse_eq_ok_iff⟩
  · rw [run_parseSlices, Prog.pure.injEq] at h
    rw [createKey_eq]
    exact (eq_contractKey_of_parse h).symm
  · rw [createKey_eq, createKey_eq]
    exact contractKey_eq_iff

/-! ### Start of the endpoint -/

/-- The secret key, read from its file or created. -/
def loadSecretKey : FutResult SecretKey := do
  match ← await (.readFile .secretKey) with
  | .ok keyBytes => return ⟨← Fallible.unwrap (BytesN.ofBytes 32 keyBytes)⟩
  | .error _ =>
    let keyBytes ← await .fillBytes
    attempt (call (.createDirAll .storageDir))
    attempt (call (.writeFile .secretKey keyBytes.bytes))
    return ⟨keyBytes⟩

def new : FutResult SecretKey := do
  let secretKey ← loadSecretKey
  attempt (call (.endpointBind secretKey))
  attempt (call (.createDirAll .irohDir))
  attempt (call (.createDirAll .appDir))
  attempt (call .blobsLoad)
  attempt (call .docsSpawn)
  return secretKey

end SharedProtocol

end Vendimint
