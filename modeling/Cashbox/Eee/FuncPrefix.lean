import Cashbox.Eee.TxSign

/-!
# The prefix of a call

The call of a `RawTx` is decoded without the length that stands before it, and
`restore_func_data` puts as many zeros there as the length had bytes. `tx_sign` cuts them off
again, with the version byte behind them, by the length of the whole. The two agree on every
length; but data without a version byte is shorter than what is cut off.
-/

namespace Cashbox.Eee

open Cashbox.Lib Cashbox.Scale

/-! ## Raw transactions -/

/-- A transaction that is to be signed. -/
structure RawTx where
  /-- The version byte, and the call. -/
  funcData : { bytes : Bytes // bytes.length < 2 ^ 32 }
  index : UInt32
  genesisHash : Hash
  specVersion : UInt32
  txVersion : UInt32

def rawTx : Codec RawTx :=
  ((vec u8).prod (u32.prod ((fixedBytes 32).prod (u32.prod u32)))).map
    (fun tx => (tx.funcData, tx.index, tx.genesisHash, tx.specVersion, tx.txVersion))
    (fun x => some ⟨x.1, x.2.1, x.2.2.1, x.2.2.2.1, x.2.2.2.2⟩)
    fun _ => rfl

variable {Era : Type} (rt : Runtime Era)

namespace ChainHelper

/-- The end of `EeeChain::tx_sign`, where the helper of the chain has been found. -/
def signRawTx (helper : ChainHelper) (mnemonic : Text) (tx : RawTx) (isSubmittable : Bool) :
    Outcome Error Text :=
  helper.txSign rt mnemonic tx.index (restoreFuncData tx.funcData.1) isSubmittable

/-! ## What is signed -/

/-- The text for a signed call: the signature behind its scheme, or the extrinsic. -/
def signedText (helper : ChainHelper) (signer : Pair) (index : UInt32) (call : Bytes)
    (isSubmittable : Bool) : Text :=
  let signature := signer.sign (helper.signData rt index call)
  if isSubmittable then
    let xt := body rt.era (some (signer.publicKey, .sr25519 signature, .new rt.immortal index)) call
    hexPrefixed (encodeCompact xt.length ++ xt)
  else '0' :: 'x' :: '0' :: '1' :: Crypto.hexEncode signature.1

/-- The prefix that is put before `d` is cut off, and what is behind the version byte is signed
and submitted. -/
structure Strips (helper : ChainHelper) (mnemonic : Text) (index : UInt32) (d : Bytes)
    (isSubmittable : Bool) : Prop where
  prefixLen : getFuncPrefixLen (restoreFuncData d) = (restoreFuncData d).length - d.length + 1
  noPanic : ∀ why, helper.txSign rt mnemonic index (restoreFuncData d) isSubmittable ≠ .panic why
  signs : ∀ signer, rt.pairFromPhrase mnemonic = .ok signer →
    helper.txSign rt mnemonic index (restoreFuncData d) isSubmittable =
      .ok (helper.signedText rt signer index (d.drop 1) isSubmittable)

end ChainHelper

/-- How long a signed body is without its call: a version byte, the account, the signature
behind its scheme, and the extra fields. -/
def signedOverhead (index : UInt32) : Nat :=
  1 + 32 + (1 + 64) + ((genericExtra rt.era).encode (.new rt.immortal index)).length

/-! ## Lengths -/

/-- **The widths agree**: on the restored data, one byte more is cut off than was put before
it. -/
theorem getFuncPrefixLen_restoreFuncData (d : Bytes) :
    getFuncPrefixLen (ChainHelper.restoreFuncData d) =
      (ChainHelper.restoreFuncData d).length - d.length + 1 := by
  unfold getFuncPrefixLen ChainHelper.restoreFuncData
  simp only [List.length_append, List.length_replicate]
  -- the thresholds of the one are those of the other, moved by the width
  split_ifs <;> omega

/-- The zeros and the first byte are cut off. -/
theorem drop_restoreFuncData (d : Bytes) :
    (ChainHelper.restoreFuncData d).drop (getFuncPrefixLen (ChainHelper.restoreFuncData d)) =
      d.drop 1 := by
  rw [getFuncPrefixLen_restoreFuncData, ← List.drop_drop]
  congr 1
  unfold ChainHelper.restoreFuncData
  simp

/-- There is that much to cut off, if there is a first byte. -/
theorem getFuncPrefixLen_le_iff (d : Bytes) :
    getFuncPrefixLen (ChainHelper.restoreFuncData d) ≤ (ChainHelper.restoreFuncData d).length ↔
      d ≠ [] := by
  have hlength : d.length ≤ (ChainHelper.restoreFuncData d).length := by
    simp [ChainHelper.restoreFuncData]
  rw [getFuncPrefixLen_restoreFuncData, ← List.length_pos_iff]
  omega

theorem length_body_signed (index : UInt32) (account : AccountId) (signature : FixedBytes 64)
    (call : Bytes) :
    (body rt.era (some (account, .sr25519 signature, .new rt.immortal index)) call).length =
      signedOverhead rt index + call.length := by
  have haccount : account.1.length = 32 := account.2
  have hsignature : signature.1.length = 64 := signature.2
  simp only [body, signed, Codec.encode_prod, multiSignature, fixedBytes, signedOverhead,
    List.length_cons, List.length_append, haccount, hsignature]
  omega

/-! ## Signing -/

namespace ChainHelper

variable {rt} {helper : ChainHelper} {mnemonic : Text} {signer : Pair} {index : UInt32} {d : Bytes}
  {isSubmittable : Bool}

/-- A signed body that is too long for its own length is a panic. -/
theorem framed_signed (account : AccountId) (signature : FixedBytes 64) (call : Bytes) :
    (framed rt.era (some (account, .sr25519 signature, .new rt.immortal index)) call :
        Outcome Error Bytes) =
      if signedOverhead rt index + call.length < 2 ^ 32 then
        let xt := body rt.era (some (account, .sr25519 signature, .new rt.immortal index)) call
        .ok (encodeCompact xt.length ++ xt)
      else .panic .unwrapFailed := by
  rw [framed, ← length_body_signed rt index account signature]
  split_ifs with hlength
  · rw [encodeLen_of_lt hlength, Outcome.ok_bind]
  · rw [encodeLen_of_le (Nat.le_of_not_lt hlength), Outcome.panic_bind]

/-- With a signer, `tx_sign` cuts the prefix off, signs, and writes what is submitted. -/
theorem txSign_restoreFuncData (hsigner : rt.pairFromPhrase mnemonic = .ok signer) :
    helper.txSign rt mnemonic index (restoreFuncData d) isSubmittable =
      if d = [] then .panic .indexOutOfBounds
      else if isSubmittable = true ∧ ¬ signedOverhead rt index + (d.length - 1) < 2 ^ 32 then
        .panic .unwrapFailed
      else .ok (helper.signedText rt signer index (d.drop 1) isSubmittable) := by
  unfold txSign
  rw [hsigner]
  simp only [Outcome.ofExcept, Outcome.ok_bind]
  by_cases hd : d = []
  · have hshort := mt (getFuncPrefixLen_le_iff d).mp (not_not_intro hd)
    rw [if_pos hd, if_pos (Nat.lt_of_not_le hshort)]
  · have hlong := (getFuncPrefixLen_le_iff d).mpr hd
    rw [if_neg hd, if_neg (Nat.not_lt.mpr hlong), drop_restoreFuncData]
    cases isSubmittable with
    | false => simp [signedText]
    | true =>
      simp only [Bool.not_true, Bool.false_eq_true, if_false, true_and]
      rw [UncheckedExtrinsicFromOuter.encode_eq, framed_signed, List.length_drop]
      split_ifs with hlength
      · rfl
      · rfl

/-- Without one, it stops before. -/
theorem txSign_of_error {e : Error} (hsigner : rt.pairFromPhrase mnemonic = .error e) :
    helper.txSign rt mnemonic index (restoreFuncData d) isSubmittable = .err e := by
  unfold txSign
  rw [hsigner]
  rfl

/-- **The call is signed**: what was restored is cut off again and the call is signed, exactly
if the phrase is refused, or there is a version byte, and the extrinsic fits its length. -/
theorem strips_iff (rt : Runtime Era) (helper : ChainHelper) (mnemonic : Text) (index : UInt32)
    (d : Bytes) (isSubmittable : Bool) :
    helper.Strips rt mnemonic index d isSubmittable ↔
      ((∃ signer, rt.pairFromPhrase mnemonic = .ok signer) →
        d ≠ [] ∧ (isSubmittable = true → signedOverhead rt index + (d.length - 1) < 2 ^ 32)) := by
  cases hsigner : rt.pairFromPhrase mnemonic with
  | error e =>
    have hrefused : helper.Strips rt mnemonic index d isSubmittable :=
      { prefixLen := getFuncPrefixLen_restoreFuncData d
        noPanic := fun why hpanic => by
          rw [txSign_of_error hsigner] at hpanic
          cases hpanic
        signs := fun signer hok => by
          rw [hsigner] at hok
          cases hok }
    exact ⟨fun _ ⟨_, hok⟩ => (nomatch hok), fun _ => hrefused⟩
  | ok signer =>
    have htxSign : helper.txSign rt mnemonic index (restoreFuncData d) isSubmittable = _ :=
      txSign_restoreFuncData hsigner
    constructor
    · intro h _
      have hok := h.signs signer hsigner
      rw [htxSign] at hok
      split_ifs at hok with hd hlong
      exact ⟨hd, fun hsubmittable => by_contra fun hlength => hlong ⟨hsubmittable, hlength⟩⟩
    · intro h
      obtain ⟨hd, hlength⟩ := h ⟨signer, rfl⟩
      rw [if_neg hd, if_neg fun hlong => hlong.2 (hlength hlong.1)] at htxSign
      refine ⟨getFuncPrefixLen_restoreFuncData d, ?_, ?_⟩
      · intro why hpanic
        rw [htxSign] at hpanic
        cases hpanic
      · intro signer' hsigner'
        obtain rfl : signer = signer' := Except.ok.inj (hsigner.symm.trans hsigner')
        exact htxSign

/-- A transaction that is decoded with no data is a panic. -/
theorem not_strips_of_empty :
    ∃ tx, rawTx.decode (0 :: List.replicate 44 0) = some (tx, []) ∧ tx.funcData.1 = [] ∧
      unitHelper.signRawTx unitRuntime [] tx true = .panic .indexOutOfBounds ∧
      ¬ unitHelper.Strips unitRuntime [] tx.index tx.funcData.1 true := by
  refine ⟨⟨⟨[], by decide⟩, 0, FixedBytes.zero 32, 0, 0⟩, rfl, rfl, rfl, fun h => ?_⟩
  exact h.noPanic .indexOutOfBounds rfl

end ChainHelper

end Cashbox.Eee
