import Mathlib.Data.Finset.Dedup
import Mathlib.Data.List.Sort
import SovereignSdk.Library.Encoding
import SovereignSdk.Spec

/-! Signed transactions: the bytes that a key signs, and the authentication of a transaction to a
credential.

The cache of verification results, keyed by the transaction and the chain hash, is left out: it
answers as the verification it remembers. -/
namespace SovereignSdk.Authentication
open Encoding

/-- The calls of a runtime, its cryptography and the prices of using it. -/
structure CryptoSpec (S : Spec) where
  Call : Type
  PublicKey : Type
  Signature : Type
  publicKeyOrder : LinearOrder PublicKey
  callBorsh : Delimited Call
  publicKeyBorsh : PublicKey → List UInt8
  verify : Signature → PublicKey → List UInt8 → Bool
  credentialId : PublicKey → Hash
  hasher : List UInt8 → Hash
  intoAddress : Hash → S.Address
  configChainId : UInt64
  gasToChargeForCredential : S.Gas
  fixedGasToChargePerSignatureVerification : S.Gas
  gasToChargePerByteSignatureVerification : S.Gas

instance {S : Spec} (C : CryptoSpec S) : LinearOrder C.PublicKey := C.publicKeyOrder

inductive UniquenessData where
  | nonce (value : UInt64)
  | generation (value : UInt64)
deriving DecidableEq, Repr

/-- The details as they are signed, with the chain they are meant for. -/
structure TxDetails (S : Spec) where
  maxPriorityFeeBips : UInt64
  maxFee : Amount
  gasLimit : Option (Fin S.dimensions → UInt64)
  chainId : UInt64

structure UnsignedTransaction {S : Spec} (C : CryptoSpec S) where
  runtimeCall : C.Call
  uniqueness : UniquenessData
  details : TxDetails S

def maxSigners : Nat := 21

abbrev SafeVec (α : Type) (size : Nat) := { l : List α // l.length ≤ size }

structure PubKeyAndSignature {S : Spec} (C : CryptoSpec S) where
  signature : C.Signature
  pubKey : C.PublicKey

structure Version0 {S : Spec} (C : CryptoSpec S) where
  signature : C.Signature
  pubKey : C.PublicKey
  runtimeCall : C.Call
  uniqueness : UniquenessData
  details : TxDetails S

structure Version1 {S : Spec} (C : CryptoSpec S) where
  signatures : SafeVec (PubKeyAndSignature C) maxSigners
  unusedPubKeys : SafeVec C.PublicKey maxSigners
  minSigners : UInt8
  runtimeCall : C.Call
  uniqueness : UniquenessData
  details : TxDetails S

inductive Transaction {S : Spec} (C : CryptoSpec S) where
  | v0 (inner : Version0 C)
  | v1 (inner : Version1 C)

structure Multisig {S : Spec} (C : CryptoSpec S) where
  requiredSigners : UInt8
  signers : List C.PublicKey

inductive SigVerificationError where
  | invalidSignature
  /-- "Signer with credential ID {} is not part of the multisig or has already signed" -/
  | alreadySigned (credential : Hash)
  /-- "Not enough valid signatures. Required: {}, Got: {}" -/
  | notEnoughSignatures (required got : Nat)
deriving DecidableEq, Repr

inductive FatalError where
  | sigVerificationFailed (error : SigVerificationError)
  | invalidChainId (expected got : UInt64)
deriving DecidableEq, Repr

inductive AuthenticationError where
  | fatalError (error : FatalError) (txHash : Hash)
  | outOfGas (error : GasMeteringError)
deriving DecidableEq, Repr

inductive Stop where
  | error (error : AuthenticationError)
  | panic
deriving DecidableEq, Repr

/-- Computations that charge a meter; what was charged before an error stays charged. -/
abbrev Metered (S : Spec) := ExceptT Stop (StateM (BasicGasMeter S.dimensions))

section Borsh
variable {S : Spec} (C : CryptoSpec S)

theorem u64_lt (value : UInt64) : value.toNat < 256 ^ 8 := value.toNat_lt

theorem amount_lt (amount : Amount) : amount.val < 256 ^ 16 := amount.isLt

def u64Borsh : Delimited UInt64 := .fixed 8 UInt64.toNat u64_lt UInt64.toNat_inj.mp

def amountBorsh : Delimited Amount := .fixed 16 Fin.val amount_lt Fin.val_inj.mp

def UniquenessData.parts : UniquenessData → Bool × UInt64
  | .nonce value => (false, value)
  | .generation value => (true, value)

theorem UniquenessData.parts_inj {a b : UniquenessData} (h : a.parts = b.parts) : a = b := by
  cases a <;> cases b <;> simp_all [parts]

theorem toNat_lt (b : Bool) : b.toNat < 256 ^ 1 := by
  cases b <;> decide

theorem bool_toNat_inj {a b : Bool} (h : a.toNat = b.toNat) : a = b := by
  cases a <;> cases b <;> first | rfl | cases h

def uniquenessBorsh : Delimited UniquenessData :=
  ((Delimited.fixed 1 Bool.toNat toNat_lt bool_toNat_inj).prod u64Borsh).comap
    UniquenessData.parts UniquenessData.parts_inj

def TxDetails.parts (details : TxDetails S) : UInt64 × Amount × Option (Fin S.dimensions → UInt64) × UInt64 :=
  (details.maxPriorityFeeBips, details.maxFee, details.gasLimit, details.chainId)

theorem TxDetails.parts_inj {a b : TxDetails S} (h : a.parts = b.parts) : a = b := by
  cases a
  simp_all [parts]

def detailsBorsh : Delimited (TxDetails S) :=
  (u64Borsh.prod (amountBorsh.prod ((u64Borsh.array S.dimensions).option.prod u64Borsh))).comap
    TxDetails.parts TxDetails.parts_inj

variable {C}

def UnsignedTransaction.parts (tx : UnsignedTransaction C) : C.Call × UniquenessData × TxDetails S :=
  (tx.runtimeCall, tx.uniqueness, tx.details)

theorem UnsignedTransaction.parts_inj {a b : UnsignedTransaction C} (h : a.parts = b.parts) : a = b := by
  cases a
  simp_all [parts]

def unsignedBorsh : Delimited (UnsignedTransaction C) :=
  (C.callBorsh.prod (uniquenessBorsh.prod detailsBorsh)).comap
    UnsignedTransaction.parts UnsignedTransaction.parts_inj

end Borsh

section Charges
variable {S : Spec}

def chargeGas (amount : S.Gas) : Metered S Unit := fun meter =>
  match meter.chargeGas amount with
  | .ok meter => (.ok (), meter)
  | .error e => (.error (.error (.outOfGas e)), meter)

def chargeLinearGas (amount : S.Gas) (parameter : Nat) : Metered S Unit :=
  match GasArray.checkedScalarProduct u64Max amount parameter with
  | none => throw (.error (.outOfGas .overflow))
  | some total => chargeGas total

def asU32OrPanic (n : Nat) : Metered S Nat := if n ≤ u32Max then pure n else throw .panic

def chargeGasForSig (C : CryptoSpec S) (msgLen : Nat) : Metered S Unit := do
  chargeGas C.fixedGasToChargePerSignatureVerification
  chargeLinearGas C.gasToChargePerByteSignatureVerification (← asU32OrPanic msgLen)
  chargeGas S.gasToChargeHashUpdate
  if msgLen ≤ u32Max then chargeLinearGas S.gasToChargePerByteHashUpdate msgLen
  else throw (.error (.outOfGas .overflow))

def meteredCredential (C : CryptoSpec S) (pubKey : C.PublicKey) : Metered S Hash := do
  chargeGas C.gasToChargeForCredential
  return C.credentialId pubKey

end Charges

section Verification
variable {S : Spec} {C : CryptoSpec S}

namespace Multisig

def credentialId (multisig : Multisig C) : Hash :=
  let sortedSigners := multisig.signers.insertionSort (· ≤ ·)
  C.hasher (multisig.requiredSigners :: (littleEndian 4 sortedSigners.length ++ sortedSigners.flatMap C.publicKeyBorsh))

/-- One round of the loop of `verify_signature`, over the keys not seen yet and the number of valid
signatures. -/
def verifyNext (msg : List UInt8) (state : Finset C.PublicKey × Nat) (signed : PubKeyAndSignature C) :
    Except SigVerificationError (Finset C.PublicKey × Nat) :=
  if signed.pubKey ∈ state.1 then
    if C.verify signed.signature signed.pubKey msg then .ok (state.1.erase signed.pubKey, state.2 + 1)
    else .error .invalidSignature
  else .error (.alreadySigned (C.credentialId signed.pubKey))

/-- The keys that may sign are those of the signatures themselves. -/
def verifySignature (multisig : Multisig C) (msg : List UInt8) (signatures : List (PubKeyAndSignature C)) :
    Except SigVerificationError Unit := do
  let signers := (signatures.map (·.pubKey)).toFinset
  let (_, valid) ← signatures.foldlM (verifyNext msg) (signers, 0)
  if valid < multisig.requiredSigners.toNat then
    .error (.notEnoughSignatures multisig.requiredSigners.toNat valid)
  else .ok ()

end Multisig

variable (tx : Version1 C)

/-- The multisig whose keys are those that signed and those that did not. -/
def Version1.multisig : Multisig C :=
  { requiredSigners := tx.minSigners
    signers := tx.signatures.val.map (·.pubKey) ++ tx.unusedPubKeys.val }

def Version1.serializeForSigning (chainHash : Vector UInt8 32) : List UInt8 :=
  C.callBorsh.encode tx.runtimeCall ++ uniquenessBorsh.encode tx.uniqueness ++
    detailsBorsh.encode tx.details ++ chainHash.toList

inductive Credentials (C : CryptoSpec S) where
  | pubKey (key : C.PublicKey)
  | multisig (multisig : Multisig C)

structure AuthorizationData (C : CryptoSpec S) where
  uniqueness : UniquenessData
  txHash : Hash
  credentialId : Hash
  credentials : Credentials C
  defaultAddress : S.Address

/-- The output of an authentication: the hash and the details of the transaction, what authorizes
it, and its call. -/
structure AuthenticationOutput (C : CryptoSpec S) where
  rawTxHash : Hash
  authenticatedTx : TxDetails S
  authData : AuthorizationData C
  runtimeCall : C.Call

def Version0.authData (tx : Version0 C) (rawTxHash : Hash) : Metered S (AuthorizationData C) := do
  let credentialId ← meteredCredential C tx.pubKey
  return { uniqueness := tx.uniqueness
           txHash := rawTxHash
           credentialId := credentialId
           credentials := .pubKey tx.pubKey
           defaultAddress := C.intoAddress credentialId }

variable (rawTxHash : Hash)

def Version1.authData : Metered S (AuthorizationData C) := do
  chargeLinearGas C.gasToChargeForCredential (tx.signatures.val.length + tx.unusedPubKeys.val.length)
  return { uniqueness := tx.uniqueness
           txHash := rawTxHash
           credentialId := tx.multisig.credentialId
           credentials := .multisig tx.multisig
           defaultAddress := C.intoAddress tx.multisig.credentialId }

namespace Transaction

def toUnsignedTransaction : Transaction C → UnsignedTransaction C
  | v0 inner => ⟨inner.runtimeCall, inner.uniqueness, inner.details⟩
  | v1 inner => ⟨inner.runtimeCall, inner.uniqueness, inner.details⟩

variable (tx : Transaction C)

def serializedWithChainHash (chainHash : Vector UInt8 32) : List UInt8 :=
  unsignedBorsh.encode tx.toUnsignedTransaction ++ chainHash.toList

def signatures : Transaction C → List (PubKeyAndSignature C)
  | v0 inner => [⟨inner.signature, inner.pubKey⟩]
  | v1 inner => inner.signatures.val

def chargeGasForSignature (msgLen : Nat) : Metered S Unit :=
  tx.signatures.forM fun _ => chargeGasForSig C msgLen

def verifySignatureUnmetered (msg : List UInt8) : Except SigVerificationError Unit :=
  match tx with
  | v0 inner => if C.verify inner.signature inner.pubKey msg then .ok () else .error .invalidSignature
  | v1 inner => inner.multisig.verifySignature msg inner.signatures.val

def authData (tx : Transaction C) (rawTxHash : Hash) : Metered S (AuthorizationData C) :=
  match tx with
  | v0 inner => inner.authData rawTxHash
  | v1 inner => inner.authData rawTxHash

end Transaction

def verifyChainId (C : CryptoSpec S) (details : TxDetails S) (rawTxHash : Hash) : Metered S Unit :=
  if details.chainId = C.configChainId then pure ()
  else throw (.error (.fatalError (.invalidChainId C.configChainId details.chainId) rawTxHash))

def verifySignature (tx : Transaction C) (chainHash : Vector UInt8 32) (rawTxHash : Hash) : Metered S Unit := do
  let serialized := tx.serializedWithChainHash chainHash
  tx.chargeGasForSignature serialized.length
  match tx.verifySignatureUnmetered serialized with
  | .ok () => pure ()
  | .error e => throw (.error (.fatalError (.sigVerificationFailed e) rawTxHash))

/-- The loop of `verify_and_decode_tx_multi_hash` with its last error: only a failed signature leads
to the next chain hash. -/
def tryChainHashes (tx : Transaction C) (rawTxHash : Hash) : Option Stop → List (Vector UInt8 32) → Metered S Unit
  | lastError, [] => throw (lastError.getD .panic)
  | _, chainHash :: rest => fun meter =>
    match verifySignature tx chainHash rawTxHash meter with
    | (.ok (), meter) => (.ok (), meter)
    | (.error (.error (.fatalError (.sigVerificationFailed e) hash)), meter) =>
      tryChainHashes tx rawTxHash (some (.error (.fatalError (.sigVerificationFailed e) hash))) rest meter
    | (.error e, meter) => (.error e, meter)

def verifyAndDecodeTxMultiHash (tx : Transaction C) (resolvedHashes : List (Vector UInt8 32)) :
    Metered S (AuthenticationOutput C) := do
  let authData ← tx.authData rawTxHash
  verifyChainId C tx.toUnsignedTransaction.details rawTxHash
  tryChainHashes tx rawTxHash none resolvedHashes
  return { rawTxHash := rawTxHash
           authenticatedTx := tx.toUnsignedTransaction.details
           authData := authData
           runtimeCall := tx.toUnsignedTransaction.runtimeCall }

def verifyAndDecodeTx (tx : Transaction C) (chainHash : Vector UInt8 32) : Metered S (AuthenticationOutput C) :=
  verifyAndDecodeTxMultiHash rawTxHash tx [chainHash]

theorem Version1.serializeForSigning_eq (chainHash : Vector UInt8 32) :
    tx.serializeForSigning chainHash = (Transaction.v1 tx).serializedWithChainHash chainHash := by
  simp [serializeForSigning, Transaction.serializedWithChainHash, Transaction.toUnsignedTransaction,
    unsignedBorsh, UnsignedTransaction.parts, Delimited.comap, Delimited.prod]

end Verification

/-! What the signatures of an authenticated transaction were given for. The account that a
transaction spends from is computed from fields that no key signs, so two accounts that share a key
are kept apart only by what the transactions do. -/
open Outcome Transaction
variable {S : Spec} {C : CryptoSpec S}

namespace Multisig

variable {msg : List UInt8} {state state' : Finset C.PublicKey × Nat}

theorem verifyNext_ok {signed} (h : verifyNext msg state signed = .ok state') :
    C.verify signed.signature signed.pubKey msg = true := by
  unfold verifyNext at h
  split at h
  · split at h
    · assumption
    · cases h
  · cases h

theorem foldlM_verifyNext_ok {signatures : List (PubKeyAndSignature C)}
    (h : signatures.foldlM (verifyNext msg) state = .ok state') :
    ∀ signed ∈ signatures, C.verify signed.signature signed.pubKey msg = true := by
  induction signatures generalizing state with
  | nil =>
    nofun
  | cons first rest ih =>
    intro signed hMem
    rw [List.foldlM_cons, bind_eq_ok] at h
    obtain ⟨next, hFirst, hRest⟩ := h
    cases hMem with
    | head => exact verifyNext_ok hFirst
    | tail _ hMem => exact ih hRest signed hMem

end Multisig

namespace Transaction

theorem verifySignatureUnmetered_ok {tx : Transaction C} {msg : List UInt8}
    (h : tx.verifySignatureUnmetered msg = .ok ()) :
    ∀ signed ∈ tx.signatures, C.verify signed.signature signed.pubKey msg = true := by
  cases tx with
  | v0 inner =>
    intro signed hMem
    obtain rfl := List.mem_singleton.mp hMem
    by_cases hValid : C.verify inner.signature inner.pubKey msg = true
    · exact hValid
    · rw [verifySignatureUnmetered, if_neg hValid] at h
      cases h
  | v1 inner =>
    obtain ⟨⟨signers, valid⟩, hLoop, -⟩ := bind_eq_ok.mp h
    exact Multisig.foldlM_verifyNext_ok hLoop

def credentialId : Transaction C → Hash
  | v0 inner => C.credentialId inner.pubKey
  | v1 inner => inner.multisig.credentialId

theorem authData_ok {tx : Transaction C} {rawTxHash : Hash} {meter meter' : BasicGasMeter S.dimensions}
    {data : AuthorizationData C} (h : tx.authData rawTxHash meter = (.ok data, meter')) :
    data.credentialId = tx.credentialId := by
  cases tx with
  | v0 inner =>
    obtain ⟨id, _, hCredential, hData⟩ := stateful_bind_eq_ok.mp h
    obtain ⟨_, _, -, hId⟩ := stateful_bind_eq_ok.mp hCredential
    cases hId
    cases hData
    rfl
  | v1 inner =>
    obtain ⟨_, _, -, hData⟩ := stateful_bind_eq_ok.mp h
    cases hData
    rfl

end Transaction

variable {tx : Transaction C} {chainHash : Vector UInt8 32} {rawTxHash : Hash}
variable {meter meter' : BasicGasMeter S.dimensions}

theorem verifySignature_ok (h : verifySignature tx chainHash rawTxHash meter = (.ok (), meter')) :
    tx.verifySignatureUnmetered (tx.serializedWithChainHash chainHash) = .ok () := by
  obtain ⟨_, _, -, hVer⟩ := stateful_bind_eq_ok.mp h
  cases hResult : tx.verifySignatureUnmetered (tx.serializedWithChainHash chainHash) with
  | ok => rfl
  | error e =>
    simp only [hResult] at hVer
    cases hVer

theorem tryChainHashes_ok {lastError hashes}
    (h : tryChainHashes tx rawTxHash lastError hashes meter = (.ok (), meter')) :
    ∃ chainHash ∈ hashes, tx.verifySignatureUnmetered (tx.serializedWithChainHash chainHash) = .ok () := by
  induction hashes generalizing lastError meter with
  | nil => cases h
  | cons chainHash rest ih =>
    unfold tryChainHashes at h
    split at h
    · rename_i hVer
      exact ⟨chainHash, List.mem_cons_self, verifySignature_ok hVer⟩
    · obtain ⟨other, hMem, hVer⟩ := ih h
      exact ⟨other, List.mem_cons_of_mem chainHash hMem, hVer⟩
    · cases h

variable {output : AuthenticationOutput C}

/-- What an authentication under one chain hash says. -/
theorem verifyAndDecodeTx_ok (h : verifyAndDecodeTx rawTxHash tx chainHash meter = (.ok output, meter')) :
    output.authData.credentialId = tx.credentialId ∧ ∀ signed ∈ tx.signatures,
        C.verify signed.signature signed.pubKey (tx.serializedWithChainHash chainHash) = true := by
  obtain ⟨data, _, hData, hChainId⟩ := stateful_bind_eq_ok.mp h
  obtain ⟨_, _, -, hHashes⟩ := stateful_bind_eq_ok.mp hChainId
  obtain ⟨_, _, hTry, hOutput⟩ := stateful_bind_eq_ok.mp hHashes
  obtain ⟨other, hMem, hVer⟩ := tryChainHashes_ok hTry
  obtain rfl := List.mem_singleton.mp hMem
  cases hOutput
  exact ⟨authData_ok hData, verifySignatureUnmetered_ok hVer⟩

theorem serializedWithChainHash_eq_iff {tx' : Transaction C} :
    tx.serializedWithChainHash chainHash = tx'.serializedWithChainHash chainHash ↔
      tx.toUnsignedTransaction = tx'.toUnsignedTransaction := by
  refine ⟨fun h => (unsignedBorsh.unique h).1, fun h => ?_⟩
  unfold serializedWithChainHash
  rw [h]

/-- No key of the second transaction has signed nothing but the bytes of the first one. -/
def NotReused (signed : C.PublicKey → List UInt8 → Prop) (chainHash : Vector UInt8 32)
    (first second : Transaction C) : Prop :=
  ∀ s ∈ second.signatures, ∃ msg, C.verify s.signature s.pubKey msg = true ∧ signed s.pubKey msg ∧
    msg ≠ first.serializedWithChainHash chainHash

theorem notReused_of_ok {signed}
    (hUnforge : ∀ signature key msg, C.verify signature key msg = true → signed key msg)
    {first second} (h : verifyAndDecodeTx rawTxHash second chainHash meter = (.ok output, meter'))
    (hBytes : second.serializedWithChainHash chainHash ≠ first.serializedWithChainHash chainHash) :
    NotReused signed chainHash first second := by
  intro s hMem
  have hValid := (verifyAndDecodeTx_ok h).2 s hMem
  exact ⟨_, hValid, hUnforge s.signature s.pubKey _ hValid, hBytes⟩

/-- `signed` says which messages the owner of a key signed; a signature that verifies was given for
the message. Of two transactions that authenticate, to different credentials or not, the signed bytes differ
and neither reuses a signature of the other exactly if the transactions differ in their call, their
uniqueness data or their details. -/
theorem signed_bytes_differ_iff (chainHash : Vector UInt8 32) (signed : C.PublicKey → List UInt8 → Prop)
    (hUnforgeable : ∀ signature key msg, C.verify signature key msg = true → signed key msg)
    {first second : Transaction C} {firstHash secondHash : Hash}
    {firstMeter firstMeter' secondMeter secondMeter' : BasicGasMeter S.dimensions}
    {firstOutput secondOutput : AuthenticationOutput C}
    (hFirst : verifyAndDecodeTx firstHash first chainHash firstMeter = (.ok firstOutput, firstMeter'))
    (hSecond : verifyAndDecodeTx secondHash second chainHash secondMeter = (.ok secondOutput, secondMeter')) :
    (first.serializedWithChainHash chainHash ≠ second.serializedWithChainHash chainHash ∧
        NotReused signed chainHash first second ∧ NotReused signed chainHash second first) ↔
      first.toUnsignedTransaction ≠ second.toUnsignedTransaction := by
  constructor
  · rintro ⟨hBytes, -⟩ hSame
    exact hBytes (serializedWithChainHash_eq_iff.mpr hSame)
  · intro hDiffer
    have hBytes : first.serializedWithChainHash chainHash ≠ second.serializedWithChainHash chainHash := by
      intro hSame
      exact hDiffer (serializedWithChainHash_eq_iff.mp hSame)
    exact ⟨hBytes, notReused_of_ok hUnforgeable hSecond hBytes.symm, notReused_of_ok hUnforgeable hFirst hBytes⟩

variable (messages : List (List UInt8))

/-- Keys are numbers, and the owner of key 1 signed the given messages. -/
def ownerCrypto : CryptoSpec testSpec where
  Call := UInt64
  PublicKey := Nat
  Signature := Unit
  publicKeyOrder := inferInstanceAs (LinearOrder Nat)
  callBorsh := u64Borsh
  publicKeyBorsh key := littleEndian 4 key
  verify _ key msg := key == 1 && messages.contains msg
  credentialId key := key
  hasher bytes := bytes.foldl (fun hash byte => 256 * hash + byte.toNat) 1
  intoAddress hash := hash
  configChainId := 4321
  gasToChargeForCredential := fun _ => 1
  fixedGasToChargePerSignatureVerification := fun _ => 1
  gasToChargePerByteSignatureVerification := fun _ => 0

def testChainHash : Vector UInt8 32 := .replicate 32 9

def testDetails : TxDetails testSpec :=
  { maxPriorityFeeBips := 0, maxFee := 100, gasLimit := none, chainId := 4321 }

variable (nonce : UInt64)

def signedCall : List UInt8 :=
  u64Borsh.encode 7 ++ uniquenessBorsh.encode (.nonce nonce) ++ detailsBorsh.encode testDetails ++ testChainHash.toList

def testMeter : BasicGasMeter testSpec.dimensions := .newWithGas (fun _ => 1000) (fun _ => 1)

def ownTx : Transaction (ownerCrypto messages) :=
  .v0 { signature := (), pubKey := (1 : Nat), runtimeCall := (7 : UInt64), uniqueness := .nonce nonce
        details := testDetails }

theorem one_signer : [(⟨(), (1 : Nat)⟩ : PubKeyAndSignature (ownerCrypto []))].length ≤ maxSigners := by decide

def sharedTx : Transaction (ownerCrypto messages) :=
  .v1 { signatures := ⟨[⟨(), (1 : Nat)⟩], one_signer⟩
        unusedPubKeys := ⟨[(2 : Nat)], one_signer⟩
        minSigners := 1
        runtimeCall := (7 : UInt64)
        uniqueness := .nonce nonce
        details := testDetails }

def isAuthenticated (tx : Transaction C) (meter : BasicGasMeter S.dimensions) (chainHash : Vector UInt8 32) : Bool :=
  (verifyAndDecodeTx 0 tx chainHash meter).1.isOk

theorem exists_of_isAuthenticated (h : isAuthenticated tx meter chainHash = true) :
    ∃ output meter', verifyAndDecodeTx 0 tx chainHash meter = (.ok output, meter') := by
  unfold isAuthenticated at h
  match hRun : verifyAndDecodeTx 0 tx chainHash meter with
  | (.ok output, meter') => exact ⟨output, meter', rfl⟩
  | (.error e, meter') =>
    rw [hRun] at h
    cases h

def Signed (key : Nat) (msg : List UInt8) : Prop := key = 1 ∧ msg ∈ messages

theorem ownerCrypto_unforgeable (signature : (ownerCrypto messages).Signature)
    (key : (ownerCrypto messages).PublicKey) (msg : List UInt8)
    (h : (ownerCrypto messages).verify signature key msg = true) : Signed messages key msg := by
  simp only [ownerCrypto, Bool.and_eq_true] at h
  exact ⟨eq_of_beq h.1, List.contains_iff_mem.mp h.2⟩

/-- The owner of key 1 signed one message, for a transaction from their own account; the same
signature authenticates a transaction from the multisig that key 1 is a member of. -/
theorem own_signature_spends_from_multisig :
    ∃ (first second : AuthenticationOutput (ownerCrypto [signedCall 0]))
      (firstMeter secondMeter : BasicGasMeter testSpec.dimensions),
      (∀ signature key msg, (ownerCrypto [signedCall 0]).verify signature key msg = true →
        Signed [signedCall 0] key msg) ∧
      verifyAndDecodeTx 0 (ownTx [signedCall 0] 0) testChainHash testMeter = (.ok first, firstMeter) ∧
      verifyAndDecodeTx 0 (sharedTx [signedCall 0] 0) testChainHash testMeter = (.ok second, secondMeter) ∧
      first.authData.credentialId ≠ second.authData.credentialId ∧
      (ownTx [signedCall 0] 0).serializedWithChainHash testChainHash =
        (sharedTx [signedCall 0] 0).serializedWithChainHash testChainHash ∧
      (ownTx [signedCall 0] 0).signatures = (sharedTx [signedCall 0] 0).signatures ∧
      ¬ NotReused (Signed [signedCall 0]) testChainHash (ownTx [signedCall 0] 0) (sharedTx [signedCall 0] 0) := by
  obtain ⟨first, firstMeter, hFirst⟩ := exists_of_isAuthenticated
    (show isAuthenticated (ownTx [signedCall 0] 0) testMeter testChainHash = true by decide +kernel)
  obtain ⟨second, secondMeter, hSecond⟩ := exists_of_isAuthenticated
    (show isAuthenticated (sharedTx [signedCall 0] 0) testMeter testChainHash = true by decide +kernel)
  refine ⟨first, second, firstMeter, secondMeter, ownerCrypto_unforgeable _, hFirst, hSecond, ?_, rfl, rfl, ?_⟩
  · rw [(verifyAndDecodeTx_ok hFirst).1, (verifyAndDecodeTx_ok hSecond).1]
    decide
  · intro hNotReused
    obtain ⟨msg, -, ⟨-, hMem⟩, hOther⟩ := hNotReused _ List.mem_cons_self
    apply hOther
    rw [List.mem_singleton.mp hMem]
    decide

/-- Key 1 signs for its own account and, with another nonce, for an account that it shares. -/
theorem different_nonces_signed_apart :
    (ownTx [signedCall 0, signedCall 1] 0).serializedWithChainHash testChainHash ≠
        (sharedTx [signedCall 0, signedCall 1] 1).serializedWithChainHash testChainHash ∧
      NotReused (Signed [signedCall 0, signedCall 1]) testChainHash (ownTx [signedCall 0, signedCall 1] 0)
        (sharedTx [signedCall 0, signedCall 1] 1) ∧
      NotReused (Signed [signedCall 0, signedCall 1]) testChainHash (sharedTx [signedCall 0, signedCall 1] 1)
        (ownTx [signedCall 0, signedCall 1] 0) := by
  obtain ⟨first, firstMeter, hFirst⟩ := exists_of_isAuthenticated
    (show isAuthenticated (ownTx [signedCall 0, signedCall 1] 0) testMeter testChainHash = true by decide +kernel)
  obtain ⟨second, secondMeter, hSecond⟩ := exists_of_isAuthenticated
    (show isAuthenticated (sharedTx [signedCall 0, signedCall 1] 1) testMeter testChainHash = true by decide +kernel)
  refine (signed_bytes_differ_iff testChainHash _ (ownerCrypto_unforgeable _) hFirst hSecond).mpr fun hSame => ?_
  exact absurd (congrArg UnsignedTransaction.uniqueness hSame) (by decide)

end SovereignSdk.Authentication
