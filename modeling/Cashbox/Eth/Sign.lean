import Cashbox.Eth.RoundTrip

/-!
# Two ways to sign a legacy transaction

`RawTransaction::sign` writes its fields into unbounded lists, keeps the two halves
of the signature as byte strings whose leading zeros it strips, and computes the v
field from the recovery id. `TypedTransaction::sign` writes counted lists, keeps the
halves as numbers and the recovery id as a byte, recovers the sender from the
signature, and computes the v field when it encodes. Both return the same bytes.

The curve is outside the repository, so signing and recovering are parameters.
-/

namespace Cashbox.Eth

open Cashbox.Lib Cashbox.Lib.Rlp

/-! ## The signature library -/

/-- What `sign_ecdsa_recoverable` returns, in its compact form: the recovery id and
the 64 bytes of r and s. -/
structure RecoverableSignature where
  recoveryId : Nat
  bytes : Bytes

/-- The elliptic curve operations that the code calls, with secret keys of type `K`. -/
structure Secp256k1 (K : Type) where
  /-- `SecretKey::from_slice` -/
  secretKey : Bytes → Option K
  /-- `sign_ecdsa_recoverable` of a 32-byte message, then `serialize_compact` -/
  signRecoverable : H256 → K → RecoverableSignature
  /-- `recover` of the 65 bytes r, s and v; the public key is a byte string. -/
  recover : Bytes → H256 → Option Bytes

/-- What the code relies on: a signature has recovery id 0 or 1 and two halves of 32
bytes that are not zero, and the public key is recovered from it. -/
structure Secp256k1.Signs {K : Type} (curve : Secp256k1 K) : Prop where
  recoveryId : ∀ hash key, (curve.signRecoverable hash key).recoveryId ≤ 1
  length : ∀ hash key, (curve.signRecoverable hash key).bytes.length = 64
  r_ne_zero : ∀ hash key, ofBe ((curve.signRecoverable hash key).bytes.take 32) ≠ 0
  s_ne_zero : ∀ hash key, ofBe ((curve.signRecoverable hash key).bytes.drop 32) ≠ 0
  recovers : ∀ hash key, ∃ publicKey,
    curve.recover ((curve.signRecoverable hash key).bytes ++
      [UInt8.ofNat (curve.signRecoverable hash key).recoveryId]) hash = some publicKey

/-! ## Raw transactions -/

/-- Description of a transaction, pending or in the chain. -/
structure RawTransaction where
  nonce : U256
  /-- The field `to`: recipient, none when contract creation. -/
  toAddress : Option H160
  value : U256
  gasPrice : U256
  gas : U256
  data : Bytes
  deriving DecidableEq, Repr

/-- A signature with its v, which for a raw transaction includes the chain id. -/
structure EcdsaSig where
  v : UInt64
  r : Bytes
  s : Bytes

section Sign

variable {K ε : Type} (curve : Secp256k1 K) (keccak : Bytes → H256)

def ecdsaSign (hash : H256) (privateKey : Bytes) (chainId : UInt64) : Outcome ε EcdsaSig := do
  let key ← Outcome.ofSome (curve.secretKey privateKey)
  let sig := curve.signRecoverable hash key
  let doubled ← checkedMul 64 chainId.toNat 2
  let sum ← checkedAdd 64 sig.recoveryId doubled
  let v ← checkedAdd 64 sum 35
  .ok { v := UInt64.ofNat v, r := sig.bytes.take 32, s := (sig.bytes.drop 32).take 32 }

def typedTxDataEcdsaSign (hash : H256) (privateKey : Bytes) : Outcome ε EcdsaSig := do
  let key ← Outcome.ofSome (curve.secretKey privateKey)
  let sig := curve.signRecoverable hash key
  .ok
    { v := UInt64.ofNat sig.recoveryId
      r := sig.bytes.take 32
      s := (sig.bytes.drop 32).take 32 }

/-- The loop that removes leading zeros; it indexes the first byte of what is left. -/
def stripZeros : Bytes → Outcome ε Bytes
  | [] => .panic .indexOutOfBounds
  | b :: bytes => if b = 0 then stripZeros bytes else .ok (b :: bytes)

namespace RawTransaction

def encode (tx : RawTransaction) : RlpWriter ε Unit := do
  append (u256.encode tx.nonce)
  append (u256.encode tx.gasPrice)
  append (u256.encode tx.gas)
  append (match tx.toAddress with
    | some t => h160.encode t
    | none => .data [])
  append (u256.encode tx.value)
  append (.data tx.data)

/-- The chain id and two empty fields, where a chain id is given. -/
def appendChainId : Option UInt64 → RlpWriter ε Unit
  | some n => do
    append (u64.encode n)
    append (u8.encode 0)
    append (u8.encode 0)
  | none => pure ()

/-- The hash that is signed. -/
def hash (tx : RawTransaction) (chainId : Option UInt64) : Outcome ε H256 := do
  let stream ← written do
    beginUnboundedList
    tx.encode
    appendChainId chainId
    finalizeUnboundedList
  let bytes ← stream.out
  .ok (keccak bytes)

/-- Signs and returns the RLP-encoded transaction. -/
def sign (tx : RawTransaction) (privateKey : Bytes) (chainId : Option UInt64) :
    Outcome ε Bytes := do
  let hashData ← tx.hash keccak chainId
  let n ← Outcome.ofSome chainId
  let sig ← ecdsaSign curve hashData privateKey n
  let r ← stripZeros sig.r
  let s ← stripZeros sig.s
  let stream ← written do
    beginUnboundedList
    tx.encode
    append (u64.encode sig.v)
    append (.data r)
    append (.data s)
    finalizeUnboundedList
  stream.out

end RawTransaction

/-! ## Signed transactions -/

/-- An unverified transaction with successfully recovered sender. -/
structure SignedTransaction where
  transaction : UnverifiedTransaction
  sender : Address
  publicKey : Option Bytes

/-- Convert public key into the address: the last 20 bytes of its hash. -/
def publicToAddress (publicKey : Bytes) : Address := (keccak publicKey).setWidth 160

namespace TypedTransaction

/-- The message hash of the transaction. -/
def signatureHash (tx : TypedTransaction) (chainId : Option UInt64) : Outcome ε H256 := do
  let data ←
    match tx with
    | .legacy tx => tx.encode chainId none
    | .accessList tx => tx.encode chainId none
    | .eip1559Transaction tx => tx.encode chainId none
  .ok (keccak data)

/-- Signs the transaction with signature. -/
def withSignature (tx : TypedTransaction) (sig : EcdsaSig) (chainId : Option UInt64) :
    Outcome ε UnverifiedTransaction :=
  UnverifiedTransaction.computeHash keccak
    { unsigned := tx
      chainId
      signature :=
        { r := BitVec.ofNat 256 (ofBe sig.r)
          s := BitVec.ofNat 256 (ofBe sig.s)
          standardV := sig.v.toUInt8 }
      hash := 0 }

end TypedTransaction

namespace UnverifiedTransaction

/-- Checks if the signature is empty. -/
def isUnsigned (tx : UnverifiedTransaction) : Bool := tx.signature.r = 0 ∧ tx.signature.s = 0

/-- The 65 bytes of the signature. -/
def signatureBytes (tx : UnverifiedTransaction) : Bytes :=
  beBytes 32 tx.signature.r.toNat ++ beBytes 32 tx.signature.s.toNat ++ [tx.signature.standardV]

/-- Recovers the public key of the sender. -/
def recoverPublic (tx : UnverifiedTransaction) : Outcome String Bytes := do
  let message ← tx.unsigned.signatureHash keccak tx.chainId
  Outcome.okOr "Invalid EC signature" (curve.recover tx.signatureBytes message)

end UnverifiedTransaction

namespace SignedTransaction

/-- Try to verify transaction and recover sender. -/
def new (transaction : UnverifiedTransaction) : Outcome String SignedTransaction :=
  if transaction.isUnsigned then .err "Invalid EC signature"
  else do
    let publicKey ← transaction.recoverPublic curve keccak
    .ok
      { transaction
        sender := publicToAddress keccak publicKey
        publicKey := some publicKey }

end SignedTransaction

/-- Signs the transaction as coming from the owner of the key. -/
def TypedTransaction.sign (tx : TypedTransaction) (privateKey : Bytes)
    (chainId : Option UInt64) : Outcome ε SignedTransaction := do
  let hash ← tx.signatureHash keccak chainId
  let sig ← typedTxDataEcdsaSign curve hash privateKey
  let transaction ← tx.withSignature keccak sig chainId
  -- the secret is valid, so it is recoverable
  Outcome.unwrap (SignedTransaction.new curve keccak transaction)

/-! ## The same transaction -/

/-- The raw transaction as a legacy transaction. -/
def RawTransaction.toTransaction (tx : RawTransaction) : Transaction where
  nonce := tx.nonce
  gasPrice := tx.gasPrice
  gas := tx.gas
  action :=
    match tx.toAddress with
    | some address => .call address
    | none => .create
  value := tx.value
  data := tx.data

/-! ## Lists -/

theorem RawTransaction.writes_encode (tx : RawTransaction) :
    Writes (tx.encode : RlpWriter ε Unit) tx.toTransaction.items := by
  have hto : (match tx.toAddress with
      | some t => h160.encode t
      | none => .data []) = tx.toTransaction.action.item := by
    unfold RawTransaction.toTransaction
    cases tx.toAddress with
    | some address => rfl
    | none => rfl
  unfold RawTransaction.encode
  rw [hto]
  exact tx.toTransaction.writes_dataOpen

theorem RawTransaction.writes_appendChainId (n : UInt64) :
    Writes (RawTransaction.appendChainId (some n) : RlpWriter ε Unit)
      [u64.encode n, u8.encode 0, u8.encode 0] := by
  apply Writes.cons
  apply Writes.cons
  exact Writes.append _

/-- The list whose hash is signed. -/
def signingItem (tx : Transaction) (n : UInt64) : Item :=
  .list (tx.items ++ [u64.encode n, u8.encode 0, u8.encode 0])

theorem RawTransaction.hash_eq (tx : RawTransaction) (n : UInt64) :
    (tx.hash keccak (some n) : Outcome ε H256) =
      .ok (keccak (signingItem tx.toTransaction n).encode) := by
  have hwrites : Writes (do
      beginUnboundedList
      tx.encode
      RawTransaction.appendChainId (some n)
      finalizeUnboundedList : RlpWriter ε Unit) [signingItem tx.toTransaction n] := by
    have hfields : Writes (do
        tx.encode
        RawTransaction.appendChainId (some n) : RlpWriter ε Unit)
        (tx.toTransaction.items ++ [u64.encode n, u8.encode 0, u8.encode 0]) :=
      tx.writes_encode.seq (RawTransaction.writes_appendChainId n)
    have h := hfields.unboundedList
    rwa [bind_assoc] at h
  unfold RawTransaction.hash
  rw [hwrites.written]
  rfl

theorem signatureHash_eq (tx : Transaction) (n : UInt64) :
    ((TypedTransaction.legacy tx).signatureHash keccak (some n) : Outcome ε H256) =
      .ok (keccak (signingItem tx n).encode) := by
  have hwrites : Writes (tx.encodeRlp (some n) none : RlpWriter ε Unit) [signingItem tx n] := by
    unfold Transaction.encodeRlp
    apply Writes.list
    · exact tx.writes_dataOpen.seq (RawTransaction.writes_appendChainId n)
    · rfl
  show (tx.encode (some n) none >>= fun data => _) = _
  unfold Transaction.encode
  rw [hwrites.written]
  rfl

/-- The signed list. -/
theorem RawTransaction.writes_signed (tx : RawTransaction) (v : UInt64) (r s : Bytes) :
    Writes (do
      beginUnboundedList
      tx.encode
      append (u64.encode v)
      append (.data r)
      append (.data s)
      finalizeUnboundedList : RlpWriter ε Unit)
      [.list (tx.toTransaction.items ++ [u64.encode v, .data r, .data s])] := by
  have hfields : Writes (do
      append (u64.encode v)
      append (.data r)
      append (.data s) : RlpWriter ε Unit) [u64.encode v, .data r, .data s] := by
    apply Writes.cons
    apply Writes.cons
    exact Writes.append _
  have h := (tx.writes_encode.seq hfields).unboundedList
  simpa only [bind_assoc] using h

/-! ## Signatures -/

/-- Stripping the zeros of a number that is not zero leaves its minimal bytes. -/
theorem stripZeros_eq {bytes : Bytes} (h : ofBe bytes ≠ 0) :
    (stripZeros bytes : Outcome ε Bytes) = .ok (beMinimal (ofBe bytes)) := by
  induction bytes with
  | nil => exact absurd rfl h
  | cons b bytes ih =>
    unfold stripZeros
    by_cases hb : b = 0
    · subst hb
      rw [ofBe_zero_cons] at h ⊢
      rw [if_pos rfl]
      exact ih h
    · have hhead : (b :: bytes).head? ≠ some 0 := by
        rw [List.head?_cons]
        exact fun hzero => hb (Option.some.inj hzero)
      rw [if_neg hb, beMinimal_ofBe hhead]

/-- The number of a string of 32 bytes is written as its minimal bytes. -/
theorem u256_encode_ofBe {bytes : Bytes} (h : bytes.length = 32) :
    u256.encode (BitVec.ofNat 256 (ofBe bytes)) = .data (beMinimal (ofBe bytes)) := by
  have hlt := ofBe_lt bytes
  rw [h] at hlt
  show Item.data (beMinimal (BitVec.ofNat 256 (ofBe bytes)).toNat) = _
  rw [BitVec.toNat_ofNat, Nat.mod_eq_of_lt]
  exact Nat.lt_of_lt_of_le hlt (by decide)

theorem beBytes_ofNat_ofBe {bytes : Bytes} (h : bytes.length = 32) :
    beBytes 32 (BitVec.ofNat 256 (ofBe bytes)).toNat = bytes := by
  have hlt := ofBe_lt bytes
  rw [h] at hlt
  rw [BitVec.toNat_ofNat, Nat.mod_eq_of_lt (Nat.lt_of_lt_of_le hlt (by decide)), ← h]
  exact beBytes_ofBe bytes

variable {curve}

theorem Secp256k1.Signs.length_r (h : curve.Signs) (hash : H256) (key : K) :
    ((curve.signRecoverable hash key).bytes.take 32).length = 32 := by
  have hlength := h.length hash key
  rw [List.length_take]
  omega

theorem Secp256k1.Signs.length_s (h : curve.Signs) (hash : H256) (key : K) :
    ((curve.signRecoverable hash key).bytes.drop 32).length = 32 := by
  have hlength := h.length hash key
  rw [List.length_drop]
  omega

theorem Secp256k1.Signs.take_s (h : curve.Signs) (hash : H256) (key : K) :
    ((curve.signRecoverable hash key).bytes.drop 32).take 32 =
      (curve.signRecoverable hash key).bytes.drop 32 := by
  apply List.take_of_length_le
  rw [h.length_s hash key]

variable (curve)

/-- The signature of a hash as it stands in a typed transaction. -/
def signatureOf (hash : H256) (key : K) : SignatureComponents where
  standardV := UInt8.ofNat (curve.signRecoverable hash key).recoveryId
  r := BitVec.ofNat 256 (ofBe ((curve.signRecoverable hash key).bytes.take 32))
  s := BitVec.ofNat 256 (ofBe ((curve.signRecoverable hash key).bytes.drop 32))

/-- The bytes that both ways return. -/
def signedBytes (tx : Transaction) (n : UInt64) (key : K) : Bytes :=
  let signature := signatureOf curve (keccak (signingItem tx n).encode) key
  (tx.signedItem (Signature.protectedV signature.standardV (some n)) signature).encode

variable {curve} {keccak}

theorem fits_of_signs (hcurve : curve.Signs) (hash : H256) (key : K) {n : UInt64}
    (hn : 36 + 2 * n.toNat < 2 ^ 64) :
    (signatureOf curve hash key).standardV.toNat = (curve.signRecoverable hash key).recoveryId ∧
      Signature.Fits (signatureOf curve hash key).standardV (some n) := by
  have hid := hcurve.recoveryId hash key
  have hv : (signatureOf curve hash key).standardV.toNat =
      (curve.signRecoverable hash key).recoveryId := by
    show (UInt8.ofNat (curve.signRecoverable hash key).recoveryId).toNat = _
    apply UInt8.toNat_ofNat_of_lt
    show _ < 256
    omega
  refine ⟨hv, ?_⟩
  unfold Signature.Fits
  rw [hv]
  show _ + (35 + n.toNat * 2) < _
  omega

/-- The way through the raw transaction. -/
theorem RawTransaction.sign_eq (keccak : Bytes → H256) (hcurve : curve.Signs) (tx : RawTransaction)
    {privateKey : Bytes} {key : K} (hkey : curve.secretKey privateKey = some key) {n : UInt64}
    (hn : 36 + 2 * n.toNat < 2 ^ 64) :
    (tx.sign curve keccak privateKey (some n) : Outcome ε Bytes) =
      .ok (signedBytes curve keccak tx.toTransaction n key) := by
  generalize hhash : keccak (signingItem tx.toTransaction n).encode = hash
  obtain ⟨hv, _⟩ := fits_of_signs hcurve hash key hn
  have hid := hcurve.recoveryId hash key
  -- the recovery id, twice the chain id and 35, added from the left
  have hsig : (ecdsaSign curve hash privateKey n : Outcome ε EcdsaSig) =
      .ok
        { v := Signature.protectedV (signatureOf curve hash key).standardV (some n)
          r := (curve.signRecoverable hash key).bytes.take 32
          s := (curve.signRecoverable hash key).bytes.drop 32 } := by
    unfold ecdsaSign
    rw [hkey]
    show (checkedMul 64 n.toNat 2 >>= fun doubled =>
      checkedAdd 64 (curve.signRecoverable hash key).recoveryId doubled >>= fun sum =>
      checkedAdd 64 sum 35 >>= fun v => _) = _
    rw [checkedMul_of_lt (by omega), Outcome.ok_bind, checkedAdd_of_lt (by omega),
      Outcome.ok_bind, checkedAdd_of_lt (by omega), Outcome.ok_bind, hcurve.take_s hash key]
    unfold Signature.protectedV
    rw [hv]
    show Outcome.ok (EcdsaSig.mk (UInt64.ofNat _) _ _) =
      Outcome.ok (EcdsaSig.mk (UInt64.ofNat (_ + (35 + n.toNat * 2))) _ _)
    rw [Nat.add_comm 35, Nat.add_assoc]
  unfold RawTransaction.sign
  rw [tx.hash_eq, Outcome.ok_bind, hhash]
  show (ecdsaSign curve hash privateKey n >>= fun sig => _) = _
  rw [hsig, Outcome.ok_bind]
  dsimp only
  rw [stripZeros_eq (hcurve.r_ne_zero hash key), Outcome.ok_bind,
    stripZeros_eq (hcurve.s_ne_zero hash key), Outcome.ok_bind,
    (tx.writes_signed _ _ _).written]
  unfold signedBytes
  rw [hhash]
  unfold Transaction.signedItem SignatureComponents.items
  rw [← u256_encode_ofBe (hcurve.length_r hash key), ← u256_encode_ofBe (hcurve.length_s hash key)]
  rfl

/-- The transaction that carries the signature. -/
def unverifiedOf (curve : Secp256k1 K) (keccak : Bytes → H256) (tx : Transaction) (n : UInt64)
    (key : K) : UnverifiedTransaction where
  unsigned := .legacy tx
  chainId := some n
  signature := signatureOf curve (keccak (signingItem tx n).encode) key
  hash := keccak (signedBytes curve keccak tx n key)

theorem unverifiedOf_encode (keccak : Bytes → H256) (hcurve : curve.Signs) (tx : Transaction)
    (key : K) {n : UInt64}
    (hn : 36 + 2 * n.toNat < 2 ^ 64) :
    ((unverifiedOf curve keccak tx n key).encode : Outcome ε Bytes) =
      .ok (signedBytes curve keccak tx n key) := by
  obtain ⟨_, hfits⟩ := fits_of_signs hcurve (keccak (signingItem tx n).encode) key hn
  exact tx.encode_eq (some n) _ (Signature.addChainReplayProtection_of_fits hfits)

theorem withSignature_eq (hcurve : curve.Signs) (tx : Transaction) (key : K) {n : UInt64}
    (hn : 36 + 2 * n.toNat < 2 ^ 64) :
    ((TypedTransaction.legacy tx).withSignature keccak
        { v := UInt64.ofNat
            (curve.signRecoverable (keccak (signingItem tx n).encode) key).recoveryId
          r := (curve.signRecoverable (keccak (signingItem tx n).encode) key).bytes.take 32
          s := (curve.signRecoverable (keccak (signingItem tx n).encode) key).bytes.drop 32 }
        (some n) : Outcome ε UnverifiedTransaction) =
      .ok (unverifiedOf curve keccak tx n key) := by
  -- the recovery id passes through a byte unchanged
  have hbyte : ∀ k ≤ 1, (UInt64.ofNat k).toUInt8 = UInt8.ofNat k := by decide
  have hv := hbyte _ (hcurve.recoveryId (keccak (signingItem tx n).encode) key)
  unfold TypedTransaction.withSignature UnverifiedTransaction.computeHash
  dsimp only
  rw [hv]
  show ((unverifiedOf curve keccak tx n key).encode >>= fun bytes => _) = _
  rw [unverifiedOf_encode keccak hcurve tx key hn, Outcome.ok_bind]
  rfl

/-- A signature of the library is not empty, and its signer is recovered. -/
theorem SignedTransaction.exists_new {keccak : Bytes → H256} (hcurve : curve.Signs)
    {u : UnverifiedTransaction} {hash : H256} {key : K}
    (hsignature : u.signature = signatureOf curve hash key)
    (hmessage : u.unsigned.signatureHash keccak u.chainId = (.ok hash : Outcome String H256)) :
    ∃ signed, SignedTransaction.new curve keccak u = .ok signed ∧ signed.transaction = u := by
  -- the first half of a signature is not zero
  have hunsigned : u.isUnsigned = false := by
    have hr : beBytes 32 u.signature.r.toNat ≠ beBytes 32 0 := by
      rw [hsignature]
      show beBytes 32 (BitVec.ofNat 256 _).toNat ≠ _
      rw [beBytes_ofNat_ofBe (hcurve.length_r hash key)]
      intro hzero
      exact hcurve.r_ne_zero hash key (by rw [hzero]; rfl)
    unfold UnverifiedTransaction.isUnsigned
    apply decide_eq_false
    rintro ⟨hzero, _⟩
    exact hr (by rw [hzero]; rfl)
  -- the halves put together are the signature again
  have hbytes : u.signatureBytes = (curve.signRecoverable hash key).bytes ++
      [UInt8.ofNat (curve.signRecoverable hash key).recoveryId] := by
    unfold UnverifiedTransaction.signatureBytes
    rw [hsignature]
    show beBytes 32 (BitVec.ofNat 256 _).toNat ++ beBytes 32 (BitVec.ofNat 256 _).toNat ++ _ = _
    rw [beBytes_ofNat_ofBe (hcurve.length_r hash key),
      beBytes_ofNat_ofBe (hcurve.length_s hash key), List.take_append_drop]
    rfl
  obtain ⟨publicKey, hrecover⟩ := hcurve.recovers hash key
  refine ⟨⟨u, publicToAddress keccak publicKey, some publicKey⟩, ?_, rfl⟩
  unfold SignedTransaction.new UnverifiedTransaction.recoverPublic
  rw [hunsigned, if_neg Bool.false_ne_true, hmessage, Outcome.ok_bind, hbytes, hrecover]
  rfl

theorem signedTransaction_new (keccak : Bytes → H256) (hcurve : curve.Signs) (tx : Transaction)
    (key : K) (n : UInt64) :
    ∃ signed, SignedTransaction.new curve keccak (unverifiedOf curve keccak tx n key) =
        .ok signed ∧ signed.transaction = unverifiedOf curve keccak tx n key :=
  SignedTransaction.exists_new hcurve rfl (signatureHash_eq keccak tx n)

/-- The way through the typed transaction. -/
theorem TypedTransaction.sign_eq (keccak : Bytes → H256) (hcurve : curve.Signs) (tx : Transaction)
    {privateKey : Bytes} {key : K} (hkey : curve.secretKey privateKey = some key) {n : UInt64}
    (hn : 36 + 2 * n.toNat < 2 ^ 64) :
    ((TypedTransaction.legacy tx).sign curve keccak privateKey (some n) >>= fun signed =>
        signed.transaction.encode : Outcome ε Bytes) =
      .ok (signedBytes curve keccak tx n key) := by
  have hsig : (typedTxDataEcdsaSign curve (keccak (signingItem tx n).encode) privateKey :
      Outcome ε EcdsaSig) = .ok
        { v := UInt64.ofNat
            (curve.signRecoverable (keccak (signingItem tx n).encode) key).recoveryId
          r := (curve.signRecoverable (keccak (signingItem tx n).encode) key).bytes.take 32
          s := (curve.signRecoverable (keccak (signingItem tx n).encode) key).bytes.drop 32 } := by
    unfold typedTxDataEcdsaSign
    rw [hkey]
    show Outcome.ok (EcdsaSig.mk _ _ _) = _
    rw [hcurve.take_s]
  -- recovering the signer does not change the transaction
  obtain ⟨signed, hsigned, htransaction⟩ := signedTransaction_new keccak hcurve tx key n
  unfold TypedTransaction.sign
  rw [signatureHash_eq, Outcome.ok_bind, hsig, Outcome.ok_bind, withSignature_eq hcurve tx key hn,
    Outcome.ok_bind, hsigned]
  show signed.transaction.encode = _
  rw [htransaction, unverifiedOf_encode keccak hcurve tx key hn]

/-- **The two ways agree.** For every raw transaction, key and chain id, both ways
return the same bytes; with a key that is no secret key, neither returns. -/
theorem sign_agree (curve : Secp256k1 K) (hcurve : curve.Signs) (keccak : Bytes → H256)
    (tx : RawTransaction) (privateKey : Bytes) (n : UInt64) (hn : 36 + 2 * n.toNat < 2 ^ 64) :
    (tx.sign curve keccak privateKey (some n) : Outcome ε Bytes) =
        ((TypedTransaction.legacy tx.toTransaction).sign curve keccak privateKey (some n) >>=
          fun signed => signed.transaction.encode) ∧
      ((∃ bytes, tx.sign curve keccak privateKey (some n) = (.ok bytes : Outcome ε Bytes)) ↔
        (curve.secretKey privateKey).isSome) := by
  cases hkey : curve.secretKey privateKey with
  | some key =>
    rw [RawTransaction.sign_eq keccak hcurve tx hkey hn,
      TypedTransaction.sign_eq keccak hcurve tx.toTransaction hkey hn]
    exact ⟨rfl, iff_of_true ⟨_, rfl⟩ rfl⟩
  | none =>
    -- both unwrap the key after the hash
    have hraw : (tx.sign curve keccak privateKey (some n) : Outcome ε Bytes) =
        .panic .unwrapFailed := by
      unfold RawTransaction.sign
      rw [tx.hash_eq, Outcome.ok_bind]
      show (ecdsaSign curve _ privateKey n >>= fun sig => _) = _
      unfold ecdsaSign
      rw [hkey]
      rfl
    have htyped : ((TypedTransaction.legacy tx.toTransaction).sign curve keccak privateKey
        (some n) : Outcome ε SignedTransaction) = .panic .unwrapFailed := by
      unfold TypedTransaction.sign typedTxDataEcdsaSign
      rw [signatureHash_eq, Outcome.ok_bind, hkey]
      rfl
    rw [hraw, htyped]
    refine ⟨rfl, iff_of_false ?_ Bool.false_ne_true⟩
    rintro ⟨bytes, hbytes⟩
    cases hbytes

end Sign

/-! ## A signature with short halves -/

/-- A curve for concrete runs: every signature has r = 5 and s = 7, which begin with
31 zeros. -/
def unitCurve : Secp256k1 Unit where
  secretKey bytes := if bytes.length = 32 then some () else none
  signRecoverable _ _ := ⟨1, beBytes 32 5 ++ beBytes 32 7⟩
  recover _ _ := some [4]

theorem signs_unitCurve : unitCurve.Signs where
  recoveryId _ _ := le_refl 1
  length _ _ := by
    show (beBytes 32 5 ++ beBytes 32 7).length = 64
    rw [List.length_append, beBytes_length, beBytes_length]
  r_ne_zero _ _ := by
    show ofBe ((beBytes 32 5 ++ beBytes 32 7).take 32) ≠ 0
    decide +kernel
  s_ne_zero _ _ := by
    show ofBe ((beBytes 32 5 ++ beBytes 32 7).drop 32) ≠ 0
    decide +kernel
  recovers _ _ := ⟨[4], rfl⟩

/-- The payment of 1000 wei as a raw transaction. -/
def unitRaw : RawTransaction where
  nonce := 1
  toAddress := some 0x35
  value := 1000
  gasPrice := 20
  gas := 21000
  data := []

theorem sign_agree_short :
    (unitRaw.sign unitCurve lengthHash (List.replicate 32 1) (some 1) : Outcome String Bytes) =
        ((TypedTransaction.legacy unitRaw.toTransaction).sign unitCurve lengthHash
          (List.replicate 32 1) (some 1) >>= fun signed => signed.transaction.encode) ∧
      ∃ bytes, unitRaw.sign unitCurve lengthHash (List.replicate 32 1) (some 1) =
        (.ok bytes : Outcome String Bytes) := by
  obtain ⟨hagree, hreturns⟩ := sign_agree unitCurve signs_unitCurve lengthHash unitRaw
    (List.replicate 32 1) 1 (by decide)
  exact ⟨hagree, hreturns.mpr rfl⟩

end Cashbox.Eth
