import Cashbox.Eth.Sign

/-!
# Signing typed transactions

Whatever its type, a transaction is signed with any secret key: the hash that is signed is
written without a failure, the signer is recovered from the signature, and the signed
transaction is encoded.
-/

namespace Cashbox.Eth

open Cashbox.Lib Cashbox.Lib.Rlp

variable {K ε : Type} {curve : Secp256k1 K}

/-! ## The hash that is signed -/

/-- The list of a transaction with an access list, before it is signed. -/
def AccessListTx.unsignedItem (tx : AccessListTx) (chainId : UInt64) : Item :=
  .list (u64.encode chainId :: (tx.transaction.items ++ [accessListItem tx.accessList]))

def EIP1559TransactionTx.unsignedItem (tx : EIP1559TransactionTx) (chainId : UInt64) : Item :=
  .list [u64.encode chainId, u256.encode tx.transaction.transaction.nonce,
    u256.encode tx.maxPriorityFeePerGas, u256.encode tx.transaction.transaction.gasPrice,
    u256.encode tx.transaction.transaction.gas, tx.transaction.transaction.action.item,
    u256.encode tx.transaction.transaction.value, .data tx.transaction.transaction.data,
    accessListItem tx.transaction.accessList]

theorem AccessListTx.encode_unsigned (tx : AccessListTx) (n : UInt64) :
    (tx.encode (some n) none : Outcome ε Bytes) = .ok (0x01 :: (tx.unsignedItem n).encode) := by
  have hwrites :
      Writes (tx.encodePayload (some n) none : RlpWriter ε Unit) [tx.unsignedItem n] := by
    unfold encodePayload unsignedItem
    apply Writes.list
    · apply Writes.cons
      apply tx.transaction.writes_dataOpen.seq
      -- nothing is appended for the signature
      exact (writes_rlpAppendAccessList tx.accessList).seq Writes.nil
    · rfl
  unfold encode
  rw [hwrites.written, Outcome.ok_bind]
  simp [RlpStream.asRaw, TypedTxId.asU8]

theorem EIP1559TransactionTx.encode_unsigned (tx : EIP1559TransactionTx) (n : UInt64) :
    (tx.encode (some n) none : Outcome ε Bytes) = .ok (0x02 :: (tx.unsignedItem n).encode) := by
  have hwrites :
      Writes (tx.encodePayload (some n) none : RlpWriter ε Unit) [tx.unsignedItem n] := by
    unfold encodePayload unsignedItem
    apply Writes.list
    · apply Writes.cons
      apply Writes.cons
      apply Writes.cons
      apply Writes.cons
      apply Writes.cons
      apply Writes.cons
      apply Writes.cons
      apply Writes.cons
      exact (writes_rlpAppendAccessList tx.transaction.accessList).seq Writes.nil
    · rfl
  unfold encode
  rw [hwrites.written, Outcome.ok_bind]
  simp [RlpStream.asRaw, TypedTxId.asU8]

namespace TypedTransaction

/-- What is hashed for the signature: the list, after the type byte if there is one. -/
def signingBytes (tx : TypedTransaction) (n : UInt64) : Bytes :=
  match tx with
  | .legacy tx => (signingItem tx n).encode
  | .accessList tx => 0x01 :: (tx.unsignedItem n).encode
  | .eip1559Transaction tx => 0x02 :: (tx.unsignedItem n).encode

theorem signatureHash_eq (keccak : Bytes → H256) (tx : TypedTransaction) (n : UInt64) :
    (tx.signatureHash keccak (some n) : Outcome ε H256) = .ok (keccak (tx.signingBytes n)) := by
  cases tx with
  | legacy tx => exact Eth.signatureHash_eq keccak tx n
  | accessList tx =>
    show (tx.encode (some n) none >>= fun data => _) = _
    rw [tx.encode_unsigned n]
    rfl
  | eip1559Transaction tx =>
    show (tx.encode (some n) none >>= fun data => _) = _
    rw [tx.encode_unsigned n]
    rfl

/-! ## Signing -/

/-- The transaction with the signature of a key. -/
def withSignatureOf (curve : Secp256k1 K) (keccak : Bytes → H256) (tx : TypedTransaction)
    (n : UInt64) (key : K) : UnverifiedTransaction where
  unsigned := tx
  chainId := some n
  signature := signatureOf curve (keccak (tx.signingBytes n)) key
  hash := 0

section Signs

variable {keccak : Bytes → H256} {tx : TypedTransaction} {n : UInt64} {key : K}

theorem wellFormed_withSignatureOf (hcurve : curve.Signs) (hn : 36 + 2 * n.toNat < 2 ^ 64) :
    (tx.withSignatureOf curve keccak n key).WellFormed := by
  obtain ⟨hv, -⟩ := fits_of_signs hcurve (keccak (tx.signingBytes n)) key hn
  cases tx with
  | legacy tx =>
    refine ⟨?_, fun n' hn' => Option.some.inj hn' ▸ hn⟩
    apply UInt8.le_iff_toNat_le.mpr
    show (signatureOf curve _ key).standardV.toNat ≤ 1
    rw [hv]
    exact hcurve.recoveryId _ key
  | accessList tx => exact ⟨n, rfl⟩
  | eip1559Transaction tx => exact ⟨n, rfl⟩

/-- The signature passes through the two bytes of its recovery id unchanged. -/
theorem withSignature_eq (hcurve : curve.Signs) (hn : 36 + 2 * n.toNat < 2 ^ 64) :
    (tx.withSignature keccak
        { v := UInt64.ofNat (curve.signRecoverable (keccak (tx.signingBytes n)) key).recoveryId
          r := (curve.signRecoverable (keccak (tx.signingBytes n)) key).bytes.take 32
          s := (curve.signRecoverable (keccak (tx.signingBytes n)) key).bytes.drop 32 }
        (some n) : Outcome ε UnverifiedTransaction) =
      .ok { tx.withSignatureOf curve keccak n key with
        hash := keccak (tx.withSignatureOf curve keccak n key).bytes } := by
  have hbyte : ∀ k ≤ 1, (UInt64.ofNat k).toUInt8 = UInt8.ofNat k := by decide
  have hv := hbyte _ (hcurve.recoveryId (keccak (tx.signingBytes n)) key)
  have hencode : ((tx.withSignatureOf curve keccak n key).encode : Outcome ε Bytes) =
      .ok (tx.withSignatureOf curve keccak n key).bytes :=
    (wellFormed_withSignatureOf hcurve hn).encode_eq
  unfold withSignature UnverifiedTransaction.computeHash
  dsimp only
  rw [hv]
  show ((tx.withSignatureOf curve keccak n key).encode >>= fun bytes => _) = _
  rw [hencode, Outcome.ok_bind]
  rfl

/-- **Every transaction is signed** with every secret key. -/
theorem exists_sign (hcurve : curve.Signs) {privateKey : Bytes}
    (hkey : curve.secretKey privateKey = some key) (hn : 36 + 2 * n.toNat < 2 ^ 64) :
    ∃ (signed : SignedTransaction) (bytes : Bytes),
      (tx.sign curve keccak privateKey (some n) : Outcome ε SignedTransaction) = .ok signed ∧
        (signed.transaction.encode : Outcome ε Bytes) = .ok bytes := by
  have hsig : (typedTxDataEcdsaSign curve (keccak (tx.signingBytes n)) privateKey :
      Outcome ε EcdsaSig) = .ok
        { v := UInt64.ofNat (curve.signRecoverable (keccak (tx.signingBytes n)) key).recoveryId
          r := (curve.signRecoverable (keccak (tx.signingBytes n)) key).bytes.take 32
          s := (curve.signRecoverable (keccak (tx.signingBytes n)) key).bytes.drop 32 } := by
    unfold typedTxDataEcdsaSign
    rw [hkey]
    show Outcome.ok (EcdsaSig.mk _ _ _) = _
    rw [hcurve.take_s]
  generalize hu : { tx.withSignatureOf curve keccak n key with
    hash := keccak (tx.withSignatureOf curve keccak n key).bytes } = u
  have hsignature : u.signature = signatureOf curve (keccak (tx.signingBytes n)) key := by
    rw [← hu]
    rfl
  have hmessage : u.unsigned.signatureHash keccak u.chainId =
      (.ok (keccak (tx.signingBytes n)) : Outcome String H256) := by
    rw [← hu]
    exact signatureHash_eq keccak tx n
  have hencode : (u.encode : Outcome ε Bytes) =
      .ok (tx.withSignatureOf curve keccak n key).bytes := by
    rw [← hu]
    exact (wellFormed_withSignatureOf hcurve hn).encode_eq
  obtain ⟨signed, hnew, htransaction⟩ := SignedTransaction.exists_new hcurve hsignature hmessage
  refine ⟨signed, _, ?_, htransaction ▸ hencode⟩
  unfold sign
  rw [signatureHash_eq, Outcome.ok_bind, hsig, Outcome.ok_bind, withSignature_eq hcurve hn,
    Outcome.ok_bind, hu, hnew]
  rfl

end Signs

end TypedTransaction

end Cashbox.Eth
