import Cashbox.Lib.UniqueTable
import Cashbox.Eee.TxSign

/-!
# Transfers among extrinsics

`decode_extrinsics` looks through the extrinsics of a block for the time that is set and
for the transfers of an account. A transfer is one of the account's if the account signs
it or is the first account among its arguments. That is the recipient of a plain
transfer, and the source of a `transfer_from`, whose recipient is not looked at.
-/

namespace Cashbox.Eee

open Cashbox.Lib Cashbox.Scale

/-! ## Details -/

/-- Designed as an option, when the transaction is a transaction that sets the block time,
there is no signature -/
structure TransferDetail where
  /-- The transaction nonce corresponding to the signed account -/
  index : Option UInt32
  source : Option Text
  to' : Option Text
  signer : Option Text
  value : Option (BitVec 128)
  hash : Option Text
  timestamp : Option UInt64
  tokenName : String
  methodName : String
  extData : Option Text
  deriving DecidableEq

/-- `TransferDetail::default` with a hash. -/
def TransferDetail.ofHash (hash : Text) : TransferDetail :=
  { index := none, source := none, to' := none, signer := none, value := none, hash := some hash
    timestamp := none, tokenName := "", methodName := "", extData := none }

/-- The arguments of the transfer calls. -/
def balanceArgs : Codec (AccountId × BitVec 128) := (fixedBytes 32).prod compactU128

abbrev ExtData := { bytes : Bytes // bytes.length < 2 ^ 32 }

def tokenxArgs : Codec (AccountId × BitVec 128 × ExtData) :=
  (fixedBytes 32).prod (compactU128.prod (vec u8))

def tokenxFromArgs : Codec (AccountId × AccountId × BitVec 128 × ExtData) :=
  (fixedBytes 32).prod ((fixedBytes 32).prod (compactU128.prod (vec u8)))

/-- External data of zeros only is left out. -/
def extText (extData : ExtData) : Option Text :=
  if List.replicate extData.1.length 0 ≠ extData.1 then some (hexPrefixed extData.1) else none

variable {Era : Type} (rt : Runtime Era) (toSs58check : AccountId → Text)

namespace ChainHelper

/-- The arguments of a call, with the bytes after them left over. -/
def callArgs {α : Type} (c : Codec α) (checked : CheckedExtrinsic Era) : Outcome Error α :=
  ((ofDecoder (c.decode checked.function.args)).mapErr Error.scaleCodec).bind fun x => .ok x.1

def decodeBalanceTransferTx (targetAccount : AccountId) (checked : CheckedExtrinsic Era)
    (detail : TransferDetail) : Outcome Error TransferDetail := do
  let funcArgs ← callArgs balanceArgs checked
  match checked.signature with
  | some (account, _, extra) =>
    if targetAccount = funcArgs.1 ∨ targetAccount = account then
      .ok
        { detail with
          value := some funcArgs.2
          to' := some (toSs58check funcArgs.1)
          signer := some (toSs58check account)
          index := some extra.nonce
          tokenName := "EEE"
          methodName := "transfer" }
    else .ok detail
  | none => .ok detail

def decodeTokenxTransferTx (targetAccount : AccountId) (checked : CheckedExtrinsic Era)
    (detail : TransferDetail) : Outcome Error TransferDetail := do
  let funcArgs ← callArgs tokenxArgs checked
  match checked.signature with
  | some (account, _, extra) =>
    if targetAccount = funcArgs.1 ∨ targetAccount = account then
      .ok
        { detail with
          value := some funcArgs.2.1
          to' := some (toSs58check funcArgs.1)
          signer := some (toSs58check account)
          index := some extra.nonce
          tokenName := "TokenX"
          methodName := "transfer"
          extData := extText funcArgs.2.2 }
    else .ok detail
  | none => .ok detail

/-- The first of the two accounts is the source. -/
def decodeTokenxTransferFromTx (targetAccount : AccountId) (checked : CheckedExtrinsic Era)
    (detail : TransferDetail) : Outcome Error TransferDetail := do
  let funcArgs ← callArgs tokenxFromArgs checked
  match checked.signature with
  | some (account, _, extra) =>
    if targetAccount = funcArgs.1 ∨ targetAccount = account then
      .ok
        { detail with
          value := some funcArgs.2.2.1
          to' := some (toSs58check funcArgs.2.1)
          source := some (toSs58check funcArgs.1)
          signer := some (toSs58check account)
          index := some extra.nonce
          tokenName := "TokenX"
          methodName := "transfer_from"
          extData := extText funcArgs.2.2.2 }
    else .ok detail
  | none => .ok detail

/-- The names of the module and the call with the indices of an extrinsic. -/
def callName (helper : ChainHelper) (function : RawExtrinsic) : Option (String × String) := do
  let targetModule ← (helper.metadata.modulesWithCalls.map Prod.snd).find? fun module =>
    module.index = function.moduleIndex
  let targetCall ← targetModule.calls.find? fun call => call.2 = function.callIndex
  some (targetModule.name, targetCall.1)

end ChainHelper

/-- The calls that are looked at. -/
inductive CallKind where
  | timestamp
  | balance
  | tokenx
  | tokenxFrom
  | other
  deriving DecidableEq

def callKind : Option (String × String) → CallKind
  | some ("Timestamp", "set") => .timestamp
  | some ("Balances", "transfer") => .balance
  | some ("Balances", "transfer_keep_alive") => .balance
  | some ("TokenX", "transfer") => .tokenx
  | some ("TokenX", "transfer_from") => .tokenxFrom
  | _ => .other

namespace ChainHelper

/-- What the call adds to the detail of its extrinsic. -/
def decodeCall (helper : ChainHelper) (targetAccount : AccountId) (checked : CheckedExtrinsic Era)
    (detail : TransferDetail) : Outcome Error TransferDetail :=
  match callKind (helper.callName checked.function) with
  | .timestamp =>
    .ok { detail with timestamp := (compactU64.decode checked.function.args).map Prod.fst }
  | .balance => decodeBalanceTransferTx toSs58check targetAccount checked detail
  | .tokenx => decodeTokenxTransferTx toSs58check targetAccount checked detail
  | .tokenxFrom => decodeTokenxTransferFromTx toSs58check targetAccount checked detail
  | .other => .ok detail

/-- One turn of the loop: the detail, if it has a time or a signer. -/
def decodeExtrinsic (helper : ChainHelper) (targetAccount : AccountId) (txStr : Text) :
    Outcome Error (Option TransferDetail) := do
  let tx ← (Eth.hexstrToVec txStr).mapErr .hexError
  let checkedTx ← (CheckedExtrinsic.decode rt.era tx).mapErr .scaleCodec
  let txHash := rt.blake2_256 tx
  let detail ← helper.decodeCall toSs58check targetAccount checkedTx
    (.ofHash (Crypto.hexEncode txHash.1))
  .ok (if detail.timestamp.isSome ∨ detail.signer.isSome then some detail else none)

def decodeExtrinsics (helper : ChainHelper) (extrinsics : List Text) (targetAccount : Text) :
    Outcome Error (List (Nat × TransferDetail)) := do
  let targetAccount ← Outcome.ofExcept (rt.fromSs58check targetAccount)
  let details ← extrinsics.mapM (helper.decodeExtrinsic rt toSs58check targetAccount)
  .ok (enumerated 0 details)

end ChainHelper

/-! ## Transfers -/

/-- What a signed transfer moves. The source of a plain transfer is its signer. -/
structure Transfer where
  signer : AccountId
  source : AccountId
  recipient : AccountId
  amount : BitVec 128
  nonce : UInt32

/-- The kind of the call with the indices of an extrinsic. -/
def ChainHelper.kindOf (helper : ChainHelper) (function : RawExtrinsic) : CallKind :=
  callKind (helper.callName function)

/-- The arguments of a plain transfer, of either token. -/
def PlainArgs (helper : ChainHelper) (function : RawExtrinsic) (recipient : AccountId)
    (amount : BitVec 128) : Prop :=
  helper.kindOf function = .balance ∧ function.args = balanceArgs.encode (recipient, amount) ∨
    helper.kindOf function = .tokenx ∧
      ∃ extData, function.args = tokenxArgs.encode (recipient, amount, extData)

/-- The arguments of a transfer from another account. -/
def FromArgs (helper : ChainHelper) (function : RawExtrinsic) (source recipient : AccountId)
    (amount : BitVec 128) : Prop :=
  helper.kindOf function = .tokenxFrom ∧
    ∃ extData, function.args = tokenxFromArgs.encode (source, recipient, amount, extData)

/-- The extrinsic is signed and moves what the transfer says. -/
def IsTransfer (helper : ChainHelper) (checked : CheckedExtrinsic Era) (t : Transfer) : Prop :=
  (∃ signature extra, checked.signature = some (t.signer, signature, extra) ∧
      extra.nonce = t.nonce) ∧
    (t.source = t.signer ∧ PlainArgs helper checked.function t.recipient t.amount ∨
      FromArgs helper checked.function t.source t.recipient t.amount)

/-- The arguments of a transfer call are those of its signature. -/
def ArgsOk (helper : ChainHelper) (function : RawExtrinsic) : Prop :=
  match helper.kindOf function with
  | .balance => ∃ x, function.args = balanceArgs.encode x
  | .tokenx => ∃ x, function.args = tokenxArgs.encode x
  | .tokenxFrom => ∃ x, function.args = tokenxFromArgs.encode x
  | _ => True

/-- The account takes part in the transfer. -/
def Transfer.Involves (t : Transfer) (account : AccountId) : Prop :=
  account = t.signer ∨ account = t.source ∨ account = t.recipient

/-- The account is only the recipient of a transfer that names its source. -/
def OnlyReceivesFrom (helper : ChainHelper) (checked : CheckedExtrinsic Era)
    (account : AccountId) : Prop :=
  ∃ t, IsTransfer helper checked t ∧ helper.kindOf checked.function = .tokenxFrom ∧
    account = t.recipient ∧ account ≠ t.signer ∧ account ≠ t.source

/-- The detail has the parties, the amount, the nonce and the hash; where it has no source,
that is the signer. -/
def TransferDetail.Carries (d : TransferDetail) (hash : Text) (t : Transfer) : Prop :=
  d.signer = some (toSs58check t.signer) ∧
    d.source.getD (toSs58check t.signer) = toSs58check t.source ∧
    d.to' = some (toSs58check t.recipient) ∧ d.value = some t.amount ∧ d.index = some t.nonce ∧
    d.hash = some hash

/-- The text of an extrinsic, its bytes and what they are read as. -/
structure Extrinsic (Era : Type) where
  text : Text
  bytes : Bytes
  checked : CheckedExtrinsic Era

structure Extrinsic.WellFormed (helper : ChainHelper) (x : Extrinsic Era) : Prop where
  text : Eth.hexstrToVec x.text = .ok x.bytes
  decode : CheckedExtrinsic.decode rt.era x.bytes = .ok x.checked
  args : ArgsOk helper x.checked.function

/-- The map finds the transfers of an account: it has an entry with a signer exactly for
them, and the entry is about the transfer. -/
def FindsTransfers (helper : ChainHelper) (xs : List (Extrinsic Era)) (account : AccountId)
    (map : List (Nat × TransferDetail)) : Prop :=
  ∀ i, ((∃ d, map.lookup i = some d ∧ d.signer.isSome) ↔
      ∃ x, xs[i]? = some x ∧ ∃ t, IsTransfer helper x.checked t ∧ t.Involves account) ∧
    ∀ x d t, xs[i]? = some x → map.lookup i = some d → d.signer.isSome →
      IsTransfer helper x.checked t →
      d.Carries toSs58check (Crypto.hexEncode (rt.blake2_256 x.bytes).1) t

/-! ## One extrinsic -/

section Extrinsic

variable {helper : ChainHelper} {checked : CheckedExtrinsic Era} {account signer : AccountId}
  {signature : MultiSignature} {extra : GenericExtra Era}

/-- The account that a decoder compares besides the signer. -/
def Transfer.Noticed (helper : ChainHelper) (checked : CheckedExtrinsic Era) (t : Transfer)
    (account : AccountId) : Prop :=
  account = (if helper.kindOf checked.function = .tokenxFrom then t.source else t.recipient) ∨
    account = t.signer

/-- A detail is about the transfer of its extrinsic, if that is noticed. -/
def DetailOk (helper : ChainHelper) (checked : CheckedExtrinsic Era) (account : AccountId)
    (hash : Text) (d : TransferDetail) : Prop :=
  (d.signer.isSome ↔ ∃ t, IsTransfer helper checked t ∧ t.Noticed helper checked account) ∧
    ∀ t, d.signer.isSome → IsTransfer helper checked t → d.Carries toSs58check hash t

/-- An extrinsic that is one transfer has its detail, if the transfer is noticed. -/
theorem detailOk_of_iff {hash : Text} {filled : TransferDetail} {t : Transfer} {first : AccountId}
    (hiff : ∀ t', IsTransfer helper checked t' ↔ t' = t)
    (hfirst : (if helper.kindOf checked.function = .tokenxFrom then t.source else t.recipient) =
      first)
    (hfilled : filled.Carries toSs58check hash t) :
    DetailOk toSs58check helper checked account hash
      (if account = first ∨ account = t.signer then filled else .ofHash hash) := by
  have hnoticed : t.Noticed helper checked account ↔ account = first ∨ account = t.signer := by
    rw [Transfer.Noticed, hfirst]
  by_cases h : account = first ∨ account = t.signer
  · -- noticed: the detail is filled in, and of this transfer only
    rw [if_pos h]
    refine ⟨⟨fun _ => ⟨t, (hiff t).mpr rfl, hnoticed.mpr h⟩, fun _ => ?_⟩, ?_⟩
    · rw [hfilled.1]
      rfl
    · intro t' _ ht'
      obtain rfl := (hiff t').mp ht'
      exact hfilled
  · -- not noticed: there is no signer in the detail
    have hnone : (TransferDetail.ofHash hash).signer.isSome ≠ true := Bool.false_ne_true
    rw [if_neg h]
    refine ⟨⟨fun hsome => absurd hsome hnone, ?_⟩, fun _ hsome => absurd hsome hnone⟩
    rintro ⟨t', ht', hn⟩
    obtain rfl := (hiff t').mp ht'
    exact absurd (hnoticed.mp hn) h

/-- A detail without a signer is right for an extrinsic that is no transfer. -/
theorem detailOk_of_none {hash : Text} {d : TransferDetail} (hd : d.signer = none)
    (hnone : ∀ t, ¬ IsTransfer helper checked t) :
    DetailOk toSs58check helper checked account hash d := by
  refine ⟨⟨fun hsome => ?_, fun ⟨t, ht, _⟩ => absurd ht (hnone t)⟩,
    fun t _ ht => absurd ht (hnone t)⟩
  rw [hd] at hsome
  cases hsome

/-- The signature of a transfer's extrinsic has its signer and nonce. -/
theorem IsTransfer.signed {t : Transfer} (h : IsTransfer helper checked t)
    (hsig : checked.signature = some (signer, signature, extra)) :
    t.signer = signer ∧ t.nonce = extra.nonce := by
  obtain ⟨⟨_, _, hsig', hnonce⟩, _⟩ := h
  rw [hsig] at hsig'
  cases hsig'
  exact ⟨rfl, hnonce.symm⟩

theorem isTransfer_balance_iff {recipient : AccountId} {amount : BitVec 128}
    (hkind : helper.kindOf checked.function = .balance)
    (hargs : checked.function.args = balanceArgs.encode (recipient, amount))
    (hsig : checked.signature = some (signer, signature, extra)) (t : Transfer) :
    IsTransfer helper checked t ↔ t = ⟨signer, signer, recipient, amount, extra.nonce⟩ := by
  constructor
  · intro h
    obtain ⟨hsigner, hnonce⟩ := h.signed hsig
    obtain ⟨_, ⟨hsource, ⟨_, hargs'⟩ | ⟨htoken, _⟩⟩ | ⟨hfrom, _⟩⟩ := h
    · -- the arguments are read in one way only
      have heq := balanceArgs.encode_injective (hargs'.symm.trans hargs)
      cases t
      simp_all
    · cases hkind.symm.trans htoken
    · cases hkind.symm.trans hfrom
  · rintro rfl
    exact ⟨⟨signature, extra, hsig, rfl⟩, .inl ⟨rfl, .inl ⟨hkind, hargs⟩⟩⟩

theorem isTransfer_tokenx_iff {recipient : AccountId} {amount : BitVec 128} {extData : ExtData}
    (hkind : helper.kindOf checked.function = .tokenx)
    (hargs : checked.function.args = tokenxArgs.encode (recipient, amount, extData))
    (hsig : checked.signature = some (signer, signature, extra)) (t : Transfer) :
    IsTransfer helper checked t ↔ t = ⟨signer, signer, recipient, amount, extra.nonce⟩ := by
  constructor
  · intro h
    obtain ⟨hsigner, hnonce⟩ := h.signed hsig
    obtain ⟨_, ⟨hsource, ⟨hbalance, _⟩ | ⟨_, extData', hargs'⟩⟩ | ⟨hfrom, _⟩⟩ := h
    · cases hkind.symm.trans hbalance
    · have heq := tokenxArgs.encode_injective (hargs'.symm.trans hargs)
      cases t
      simp_all
    · cases hkind.symm.trans hfrom
  · rintro rfl
    exact ⟨⟨signature, extra, hsig, rfl⟩, .inl ⟨rfl, .inr ⟨hkind, extData, hargs⟩⟩⟩

theorem isTransfer_tokenxFrom_iff {source recipient : AccountId} {amount : BitVec 128}
    {extData : ExtData} (hkind : helper.kindOf checked.function = .tokenxFrom)
    (hargs : checked.function.args = tokenxFromArgs.encode (source, recipient, amount, extData))
    (hsig : checked.signature = some (signer, signature, extra)) (t : Transfer) :
    IsTransfer helper checked t ↔ t = ⟨signer, source, recipient, amount, extra.nonce⟩ := by
  constructor
  · intro h
    obtain ⟨hsigner, hnonce⟩ := h.signed hsig
    obtain ⟨_, ⟨_, ⟨hbalance, _⟩ | ⟨htoken, _⟩⟩ | ⟨_, extData', hargs'⟩⟩ := h
    · cases hkind.symm.trans hbalance
    · cases hkind.symm.trans htoken
    · have heq := tokenxFromArgs.encode_injective (hargs'.symm.trans hargs)
      cases t
      simp_all
  · rintro rfl
    exact ⟨⟨signature, extra, hsig, rfl⟩, .inr ⟨hkind, extData, hargs⟩⟩

/-- An extrinsic is one transfer at most. -/
theorem IsTransfer.unique {t t' : Transfer} (h : IsTransfer helper checked t)
    (h' : IsTransfer helper checked t') : t' = t := by
  have hself := h
  obtain ⟨⟨signature, extra, hsig, _⟩, ⟨_, ⟨hkind, hargs⟩ | ⟨hkind, extData, hargs⟩⟩ |
    ⟨hkind, extData, hargs⟩⟩ := h
  · have hiff := isTransfer_balance_iff hkind hargs hsig
    exact ((hiff t').mp h').trans ((hiff t).mp hself).symm
  · have hiff := isTransfer_tokenx_iff hkind hargs hsig
    exact ((hiff t').mp h').trans ((hiff t).mp hself).symm
  · have hiff := isTransfer_tokenxFrom_iff hkind hargs hsig
    exact ((hiff t').mp h').trans ((hiff t).mp hself).symm

/-- A transfer that involves the account is noticed, except by its recipient alone. -/
theorem IsTransfer.involves_iff {t : Transfer} (h : IsTransfer helper checked t) :
    t.Involves account ↔ t.Noticed helper checked account ∨
      (helper.kindOf checked.function = .tokenxFrom ∧ account = t.recipient ∧
        account ≠ t.signer ∧ account ≠ t.source) := by
  unfold Transfer.Involves Transfer.Noticed
  by_cases hkind : helper.kindOf checked.function = .tokenxFrom
  · rw [if_pos hkind]
    grind
  · -- a plain transfer has no other source than its signer
    have hsource : t.source = t.signer := by
      obtain ⟨_, ⟨hsource, _⟩ | ⟨hfrom, _⟩⟩ := h
      · exact hsource
      · exact absurd hfrom hkind
    rw [if_neg hkind, hsource]
    grind

theorem callArgs_of_encode {α : Type} {c : Codec α} {x : α}
    (hargs : checked.function.args = c.encode x) : ChainHelper.callArgs c checked = .ok x := by
  rw [ChainHelper.callArgs, hargs, c.decode_self]
  rfl

/-- The detail of a well-formed extrinsic is about its transfer, if the account is noticed. -/
theorem decodeCall_ok (account : AccountId) (hargs : ArgsOk helper checked.function) (hash : Text) :
    ∃ d, helper.decodeCall toSs58check account checked (.ofHash hash) = .ok d ∧
      DetailOk toSs58check helper checked account hash d := by
  -- what is not signed, or calls something else, is no transfer
  have hunsigned : checked.signature = none → ∀ t, ¬ IsTransfer helper checked t := by
    rintro hnone t ⟨⟨_, _, hsome, _⟩, _⟩
    rw [hnone] at hsome
    cases hsome
  have hother : (helper.kindOf checked.function = .timestamp ∨
      helper.kindOf checked.function = .other) → ∀ t, ¬ IsTransfer helper checked t := by
    rintro hkind t ⟨_, ⟨_, ⟨h, _⟩ | ⟨h, _⟩⟩ | ⟨h, _⟩⟩ <;> rw [h] at hkind <;> simp at hkind
  unfold ChainHelper.decodeCall
  unfold ArgsOk at hargs
  cases hkind : helper.kindOf checked.function with
  | timestamp =>
    rw [show callKind (helper.callName checked.function) = .timestamp from hkind]
    exact ⟨_, rfl, detailOk_of_none toSs58check rfl (hother (.inl hkind))⟩
  | other =>
    rw [show callKind (helper.callName checked.function) = .other from hkind]
    exact ⟨_, rfl, detailOk_of_none toSs58check rfl (hother (.inr hkind))⟩
  | balance =>
    rw [show callKind (helper.callName checked.function) = .balance from hkind]
    rw [hkind] at hargs
    obtain ⟨⟨recipient, amount⟩, hargs⟩ := hargs
    simp only [ChainHelper.decodeBalanceTransferTx, callArgs_of_encode hargs, Outcome.ok_bind]
    rcases hsig : checked.signature with _ | ⟨signer, signature, extra⟩
    · exact ⟨_, rfl, detailOk_of_none toSs58check rfl (hunsigned hsig)⟩
    · simp only [← apply_ite Outcome.ok]
      exact ⟨_, rfl, detailOk_of_iff toSs58check (isTransfer_balance_iff hkind hargs hsig)
        (by rw [hkind]; rfl) ⟨rfl, rfl, rfl, rfl, rfl, rfl⟩⟩
  | tokenx =>
    rw [show callKind (helper.callName checked.function) = .tokenx from hkind]
    rw [hkind] at hargs
    obtain ⟨⟨recipient, amount, extData⟩, hargs⟩ := hargs
    simp only [ChainHelper.decodeTokenxTransferTx, callArgs_of_encode hargs, Outcome.ok_bind]
    rcases hsig : checked.signature with _ | ⟨signer, signature, extra⟩
    · exact ⟨_, rfl, detailOk_of_none toSs58check rfl (hunsigned hsig)⟩
    · simp only [← apply_ite Outcome.ok]
      exact ⟨_, rfl, detailOk_of_iff toSs58check (isTransfer_tokenx_iff hkind hargs hsig)
        (by rw [hkind]; rfl) ⟨rfl, rfl, rfl, rfl, rfl, rfl⟩⟩
  | tokenxFrom =>
    rw [show callKind (helper.callName checked.function) = .tokenxFrom from hkind]
    rw [hkind] at hargs
    obtain ⟨⟨source, recipient, amount, extData⟩, hargs⟩ := hargs
    simp only [ChainHelper.decodeTokenxTransferFromTx, callArgs_of_encode hargs, Outcome.ok_bind]
    rcases hsig : checked.signature with _ | ⟨signer, signature, extra⟩
    · exact ⟨_, rfl, detailOk_of_none toSs58check rfl (hunsigned hsig)⟩
    · simp only [← apply_ite Outcome.ok]
      exact ⟨_, rfl, detailOk_of_iff toSs58check (isTransfer_tokenxFrom_iff hkind hargs hsig)
        (by rw [hkind]; rfl) ⟨rfl, rfl, rfl, rfl, rfl, rfl⟩⟩

end Extrinsic

/-! ## Times and tokens -/

section Kinds

variable {helper : ChainHelper}

/-- The time that a call sets. -/
def setTime (helper : ChainHelper) (function : RawExtrinsic) : Option UInt64 :=
  if helper.kindOf function = .timestamp then (compactU64.decode function.args).map Prod.fst
  else none

/-- The name of the token that a call transfers. -/
def CallKind.tokenName : CallKind → String
  | .balance => "EEE"
  | _ => "TokenX"

/-- A detail has the time and the token of its call; only a `transfer_from` names its
source. -/
structure DetailOfKind (helper : ChainHelper) (function : RawExtrinsic) (d : TransferDetail) :
    Prop where
  timestamp : d.timestamp = setTime helper function
  tokenName : d.signer.isSome → d.tokenName = (helper.kindOf function).tokenName
  source : d.signer.isSome → (d.source.isSome ↔ helper.kindOf function = .tokenxFrom)

theorem detailOfKind_ofHash {function : RawExtrinsic} (hash : Text)
    (h : setTime helper function = none) : DetailOfKind helper function (.ofHash hash) where
  timestamp := h.symm
  tokenName hsome := absurd hsome Bool.false_ne_true
  source hsome := absurd hsome Bool.false_ne_true

theorem setTime_of_ne {function : RawExtrinsic} (h : helper.kindOf function ≠ .timestamp) :
    setTime helper function = none := if_neg h

/-- What the three decoders of transfers end in: a detail that is filled in, if an account is
the one that is looked for. -/
theorem detailOfKind_of_ite {function : RawExtrinsic} {hash : Text} {p : Prop} [Decidable p]
    {filled d : TransferDetail} (hkind : helper.kindOf function ≠ .timestamp)
    (htime : filled.timestamp = none)
    (hname : filled.tokenName = (helper.kindOf function).tokenName)
    (hsource : filled.source.isSome ↔ helper.kindOf function = .tokenxFrom)
    (h : (if p then .ok filled else .ok (.ofHash hash) : Outcome Error TransferDetail) = .ok d) :
    DetailOfKind helper function d := by
  by_cases hp : p
  · obtain rfl := Outcome.ok.inj ((if_pos hp).symm.trans h)
    exact ⟨htime.trans (setTime_of_ne hkind).symm, fun _ => hname, fun _ => hsource⟩
  · obtain rfl := Outcome.ok.inj ((if_neg hp).symm.trans h)
    exact detailOfKind_ofHash hash (setTime_of_ne hkind)

theorem decodeCall_detailOfKind {checked : CheckedExtrinsic Era} {account : AccountId}
    {hash : Text} {d : TransferDetail}
    (h : helper.decodeCall toSs58check account checked (.ofHash hash) = .ok d) :
    DetailOfKind helper checked.function d := by
  unfold ChainHelper.decodeCall at h
  cases hkind : helper.kindOf checked.function with
  | timestamp =>
    rw [show callKind (helper.callName checked.function) = .timestamp from hkind] at h
    obtain rfl := Outcome.ok.inj h
    -- only this kind fills in the time
    exact
      { timestamp := by rw [setTime, if_pos hkind]
        tokenName := fun hsome => absurd hsome Bool.false_ne_true
        source := fun hsome => absurd hsome Bool.false_ne_true }
  | other =>
    rw [show callKind (helper.callName checked.function) = .other from hkind] at h
    obtain rfl := Outcome.ok.inj h
    exact detailOfKind_ofHash hash (setTime_of_ne (by rw [hkind]; decide))
  | balance =>
    rw [show callKind (helper.callName checked.function) = .balance from hkind] at h
    have hne : helper.kindOf checked.function ≠ .timestamp := by
      rw [hkind]
      decide
    obtain ⟨funcArgs, -, hd⟩ := Outcome.bind_eq_ok.mp h
    rcases hsig : checked.signature with _ | ⟨signer, signature, extra⟩
    · rw [hsig] at hd
      exact Outcome.ok.inj hd ▸ detailOfKind_ofHash hash (setTime_of_ne hne)
    · rw [hsig] at hd
      exact detailOfKind_of_ite hne rfl (by rw [hkind]; rfl)
        (by simp [hkind, TransferDetail.ofHash]) hd
  | tokenx =>
    rw [show callKind (helper.callName checked.function) = .tokenx from hkind] at h
    have hne : helper.kindOf checked.function ≠ .timestamp := by
      rw [hkind]
      decide
    obtain ⟨funcArgs, -, hd⟩ := Outcome.bind_eq_ok.mp h
    rcases hsig : checked.signature with _ | ⟨signer, signature, extra⟩
    · rw [hsig] at hd
      exact Outcome.ok.inj hd ▸ detailOfKind_ofHash hash (setTime_of_ne hne)
    · rw [hsig] at hd
      exact detailOfKind_of_ite hne rfl (by rw [hkind]; rfl)
        (by simp [hkind, TransferDetail.ofHash]) hd
  | tokenxFrom =>
    rw [show callKind (helper.callName checked.function) = .tokenxFrom from hkind] at h
    have hne : helper.kindOf checked.function ≠ .timestamp := by
      rw [hkind]
      decide
    obtain ⟨funcArgs, -, hd⟩ := Outcome.bind_eq_ok.mp h
    rcases hsig : checked.signature with _ | ⟨signer, signature, extra⟩
    · rw [hsig] at hd
      exact Outcome.ok.inj hd ▸ detailOfKind_ofHash hash (setTime_of_ne hne)
    · rw [hsig] at hd
      exact detailOfKind_of_ite hne rfl (by rw [hkind]; rfl)
        (by simp [hkind]) hd

end Kinds

/-! ## A block -/

section Block

variable {helper : ChainHelper} {account : AccountId}

/-- What the loop keeps of a well-formed extrinsic. -/
def KeptOk (helper : ChainHelper) (account : AccountId) (x : Extrinsic Era)
    (kept : Option TransferDetail) : Prop :=
  ((∃ d, kept = some d ∧ d.signer.isSome) ↔
      ∃ t, IsTransfer helper x.checked t ∧ t.Noticed helper x.checked account) ∧
    ∀ d t, kept = some d → d.signer.isSome → IsTransfer helper x.checked t →
      d.Carries toSs58check (Crypto.hexEncode (rt.blake2_256 x.bytes).1) t

theorem decodeExtrinsic_ok {x : Extrinsic Era} (h : x.WellFormed rt helper) :
    ∃ kept, helper.decodeExtrinsic rt toSs58check account x.text = .ok kept ∧
      KeptOk rt toSs58check helper account x kept := by
  obtain ⟨d, hd, hok⟩ := decodeCall_ok toSs58check account h.args
    (Crypto.hexEncode (rt.blake2_256 x.bytes).1)
  -- the loop keeps the detail if it has a time or a signer
  refine ⟨if d.timestamp.isSome ∨ d.signer.isSome then some d else none, ?_, ?_, ?_⟩
  · unfold ChainHelper.decodeExtrinsic
    rw [h.text]
    show (CheckedExtrinsic.decode rt.era x.bytes).mapErr _ >>= _ = _
    rw [h.decode]
    show helper.decodeCall toSs58check account x.checked _ >>= _ = _
    rw [hd]
    rfl
  · rw [← hok.1]
    constructor
    · rintro ⟨d', hd', hsome⟩
      split at hd'
      · exact Option.some.inj hd' ▸ hsome
      · cases hd'
    · intro hsome
      exact ⟨d, if_pos (.inr hsome), hsome⟩
  · intro d' t hd' hsome ht
    split at hd'
    · obtain rfl := Option.some.inj hd'
      exact hok.2 t hsome ht
    · cases hd'

/-- What the loop keeps has a time or a signer, and the time and the token of its call; an
extrinsic that sets a time is kept. -/
structure KeptOfKind (helper : ChainHelper) (x : Extrinsic Era) (kept : Option TransferDetail) :
    Prop where
  filled : ∀ d, kept = some d → d.timestamp.isSome ∨ d.signer.isSome
  detail : ∀ d, kept = some d → DetailOfKind helper x.checked.function d
  none : kept = none → setTime helper x.checked.function = none

theorem decodeExtrinsic_keptOfKind {x : Extrinsic Era} {kept : Option TransferDetail}
    (h : x.WellFormed rt helper)
    (hkept : helper.decodeExtrinsic rt toSs58check account x.text = .ok kept) :
    KeptOfKind helper x kept := by
  unfold ChainHelper.decodeExtrinsic at hkept
  rw [h.text] at hkept
  obtain ⟨tx, htx, htail⟩ := Outcome.bind_eq_ok.mp hkept
  obtain rfl := Outcome.ok.inj htx
  obtain ⟨checked, hchecked, hrest⟩ := Outcome.bind_eq_ok.mp htail
  rw [h.decode] at hchecked
  obtain rfl := Outcome.ok.inj hchecked
  obtain ⟨d, hd, hret⟩ := Outcome.bind_eq_ok.mp hrest
  have hkind := decodeCall_detailOfKind toSs58check hd
  obtain rfl := Outcome.ok.inj hret
  -- what is kept is this detail, and it is not kept only without a time
  refine ⟨fun d' hd' => ?_, fun d' hd' => ?_, fun hnone => ?_⟩
  · split at hd'
    · rename_i hfilled
      exact Option.some.inj hd' ▸ hfilled
    · cases hd'
  · split at hd'
    · exact Option.some.inj hd' ▸ hkind
    · cases hd'
  · split at hnone
    · cases hnone
    · rename_i hneither
      rw [← hkind.timestamp]
      simpa using (not_or.mp hneither).1

theorem mapM_decodeExtrinsic_ok (account : AccountId) (xs : List (Extrinsic Era))
    (h : ∀ x ∈ xs, x.WellFormed rt helper) :
    ∃ kept, (xs.map Extrinsic.text).mapM (helper.decodeExtrinsic rt toSs58check account) =
        .ok kept ∧
      List.Forall₂ (fun x k => KeptOk rt toSs58check helper account x k ∧ KeptOfKind helper x k)
        xs kept := by
  induction xs with
  | nil => exact ⟨[], rfl, .nil⟩
  | cons x xs ih =>
    have hx := h x List.mem_cons_self
    obtain ⟨k, hk, hkept⟩ := decodeExtrinsic_ok rt toSs58check hx
    have hkind := decodeExtrinsic_keptOfKind rt toSs58check hx hk
    obtain ⟨ks, hks, hall⟩ := ih fun x hx => h x (List.mem_cons_of_mem _ hx)
    refine ⟨k :: ks, ?_, .cons ⟨hkept, hkind⟩ hall⟩
    rw [List.map_cons, List.mapM_cons, hk, Outcome.ok_bind, hks]
    rfl

/-- Two lists that are related have their entries at the same places. -/
theorem getElem?_of_forall₂ {α β : Type} {R : α → β → Prop} {xs : List α} {ys : List β}
    (h : List.Forall₂ R xs ys) (i : Nat) :
    (xs[i]? = none ∧ ys[i]? = none) ∨ ∃ x y, xs[i]? = some x ∧ ys[i]? = some y ∧ R x y := by
  induction h generalizing i with
  | nil => exact .inl ⟨rfl, rfl⟩
  | cons hxy _ ih =>
    cases i with
    | zero => exact .inr ⟨_, _, rfl, rfl, hxy⟩
    | succ i => exact ih i

/-- What is kept of the extrinsics finds the transfers of the account exactly if each of its
transfers is noticed. -/
theorem findsTransfers_iff {xs : List (Extrinsic Era)} {kept : List (Option TransferDetail)}
    (h : List.Forall₂ (KeptOk rt toSs58check helper account) xs kept) :
    FindsTransfers rt toSs58check helper xs account (enumerated 0 kept) ↔
      ∀ x ∈ xs, ¬ OnlyReceivesFrom helper x.checked account := by
  have hlookup : ∀ i, (enumerated 0 kept).lookup i = kept[i]?.join := by
    intro i
    have hi := lookup_enumerated kept 0 i
    rwa [Nat.zero_add] at hi
  constructor
  · rintro hfinds x hx ⟨t, ht, hkind, hrecipient, hsigner, hsource⟩
    obtain ⟨i, hi⟩ := List.mem_iff_getElem?.mp hx
    obtain ⟨d, hd, hsome⟩ := (hfinds i).1.mpr ⟨x, hi, t, ht, .inr (.inr hrecipient)⟩
    rcases getElem?_of_forall₂ h i with ⟨hnone, _⟩ | ⟨x', k, hx', hk, hok⟩
    · rw [hi] at hnone
      cases hnone
    · obtain rfl := Option.some.inj (hi.symm.trans hx')
      rw [hlookup, hk] at hd
      obtain ⟨t', ht', hnoticed⟩ := hok.1.mp ⟨d, hd, hsome⟩
      obtain rfl := ht.unique ht'
      -- neither the signer nor the source is the account
      unfold Transfer.Noticed at hnoticed
      rw [if_pos hkind] at hnoticed
      rcases hnoticed with hs | hs
      · exact hsource hs
      · exact hsigner hs
  · intro hnone i
    rw [hlookup]
    rcases getElem?_of_forall₂ h i with ⟨hxs, hks⟩ | ⟨x, k, hx, hk, hok⟩
    · rw [hxs, hks]
      simp
    · rw [hx, hk]
      have hinvolves : ∀ t, IsTransfer helper x.checked t →
          (t.Involves account ↔ t.Noticed helper x.checked account) := by
        intro t ht
        rw [ht.involves_iff, or_iff_left]
        rintro ⟨hkind, hrest⟩
        exact hnone x (List.mem_of_getElem? hx) ⟨t, ht, hkind, hrest⟩
      constructor
      · refine hok.1.trans ⟨?_, ?_⟩
        · rintro ⟨t, ht, hnoticed⟩
          exact ⟨x, rfl, t, ht, (hinvolves t ht).mpr hnoticed⟩
        · rintro ⟨x', hx', t, ht, hinv⟩
          obtain rfl := Option.some.inj hx'
          exact ⟨t, ht, (hinvolves t ht).mp hinv⟩
      · intro x' d t hx' hd hsome ht
        obtain rfl := Option.some.inj hx'
        exact hok.2 d t hd hsome ht

/-- The map of a block has what the turns of the loop keep. -/
theorem decodeExtrinsics_of_mapM {extrinsics : List Text} {kept : List (Option TransferDetail)}
    {targetAccount : Text} (htarget : rt.fromSs58check targetAccount = .ok account)
    (h : extrinsics.mapM (helper.decodeExtrinsic rt toSs58check account) = .ok kept) :
    helper.decodeExtrinsics rt toSs58check extrinsics targetAccount =
      .ok (enumerated 0 kept) := by
  unfold ChainHelper.decodeExtrinsics
  rw [htarget]
  show (extrinsics.mapM (helper.decodeExtrinsic rt toSs58check account) >>= fun
    details => Outcome.ok (enumerated 0 details)) = _
  rw [h]
  rfl

theorem decodeExtrinsics_kept {xs : List (Extrinsic Era)} (h : ∀ x ∈ xs, x.WellFormed rt helper)
    {targetAccount : Text} (htarget : rt.fromSs58check targetAccount = .ok account) :
    ∃ kept, helper.decodeExtrinsics rt toSs58check (xs.map Extrinsic.text) targetAccount =
        .ok (enumerated 0 kept) ∧
      List.Forall₂ (fun x k => KeptOk rt toSs58check helper account x k ∧ KeptOfKind helper x k)
        xs kept := by
  obtain ⟨kept, hmapM, hkept⟩ := mapM_decodeExtrinsic_ok rt toSs58check account xs h
  exact ⟨kept, decodeExtrinsics_of_mapM rt toSs58check htarget hmapM, hkept⟩

/-- `decode_extrinsics` finds the transfers of an account among well-formed extrinsics exactly
when the account is not only the recipient of a `transfer_from`. -/
theorem decodeExtrinsics_finds_iff (helper : ChainHelper) (xs : List (Extrinsic Era))
    (h : ∀ x ∈ xs, x.WellFormed rt helper) {targetAccount : Text} {account : AccountId}
    (htarget : rt.fromSs58check targetAccount = .ok account) :
    (∃ map, helper.decodeExtrinsics rt toSs58check (xs.map Extrinsic.text) targetAccount =
        .ok map ∧ FindsTransfers rt toSs58check helper xs account map) ↔
      ∀ x ∈ xs, ¬ OnlyReceivesFrom helper x.checked account := by
  obtain ⟨kept, hrun, hkept⟩ := decodeExtrinsics_kept rt toSs58check h htarget
  rw [hrun, ← findsTransfers_iff rt toSs58check (hkept.imp fun _ _ h => h.1)]
  constructor
  · rintro ⟨map, hmap, hfinds⟩
    exact Outcome.ok.inj hmap ▸ hfinds
  · intro hfinds
    exact ⟨_, rfl, hfinds⟩

end Block

/-! ### A transfer from another account -/

/-- The extrinsic that the encoders write for a call. -/
def Extrinsic.ofCall (signature : Option (Signed Era)) (function : RawExtrinsic) :
    Extrinsic Era :=
  let call := function.moduleIndex :: function.callIndex :: function.args
  let bytes := encodeCompact (body rt.era signature call).length ++ body rt.era signature call
  { text := hexPrefixed bytes, bytes, checked := { signature, function } }

theorem Extrinsic.ofCall_wellFormed {helper : ChainHelper} {signature : Option (Signed Era)}
    {function : RawExtrinsic}
    (hlen : (body rt.era signature
      (function.moduleIndex :: function.callIndex :: function.args)).length < 2 ^ 32)
    (hargs : ArgsOk helper function) :
    (Extrinsic.ofCall rt signature function).WellFormed rt helper where
  text := Crypto.hexstrToVec_hexEncode _
  decode := CheckedExtrinsic.decode_framed rt.era signature function.moduleIndex
    function.callIndex function.args hlen
  args := hargs

/-- The account of a byte. -/
def unitAccount (b : UInt8) : AccountId := ⟨List.replicate 32 b, List.length_replicate⟩

/-- An address as long as the first byte of the account. -/
def unitAddress (a : AccountId) : Text := List.replicate a.1.headI.toNat 'a'

/-- A runtime with these addresses. -/
def addressRuntime : Runtime UInt8 :=
  { unitRuntime with fromSs58check := fun s => .ok (unitAccount (UInt8.ofNat s.length)) }

def tokenxHelper : ChainHelper :=
  { unitHelper with
    metadata :=
      { modules := []
        modulesWithCalls :=
          [("TokenX",
            { index := 7, name := "TokenX"
              calls := [("transfer", 0), ("transfer_from", 1)] })]
        modulesWithEvents := [] } }

/-- The account 1 moves five tokens from the account 2 to the account 3. -/
def transferFrom : Extrinsic UInt8 :=
  .ofCall addressRuntime
    (some (unitAccount 1, .sr25519 (FixedBytes.zero 64), .new 0 9))
    { moduleIndex := 7, callIndex := 1
      args := tokenxFromArgs.encode (unitAccount 2, unitAccount 3, 5, ⟨[], by decide⟩) }

theorem transferFrom_kindOf : tokenxHelper.kindOf transferFrom.checked.function = .tokenxFrom := by
  decide

theorem transferFrom_wellFormed : transferFrom.WellFormed addressRuntime tokenxHelper := by
  apply Extrinsic.ofCall_wellFormed
  · decide +kernel
  · exact ⟨_, rfl⟩

theorem mem_transferFrom_wellFormed :
    ∀ x ∈ [transferFrom], x.WellFormed addressRuntime tokenxHelper := by
  intro x hx
  obtain rfl := List.mem_singleton.mp hx
  exact transferFrom_wellFormed

theorem transferFrom_isTransfer : IsTransfer tokenxHelper transferFrom.checked
    ⟨unitAccount 1, unitAccount 2, unitAccount 3, 5, 9⟩ :=
  ⟨⟨_, _, rfl, rfl⟩, .inr ⟨transferFrom_kindOf, _, rfl⟩⟩

/-- The signer finds it. -/
theorem decodeExtrinsics_finds_iff_signer :
    ∃ map, tokenxHelper.decodeExtrinsics addressRuntime unitAddress [transferFrom.text]
        (unitAddress (unitAccount 1)) = .ok map ∧
      FindsTransfers addressRuntime unitAddress tokenxHelper [transferFrom] (unitAccount 1)
        map := by
  refine (decodeExtrinsics_finds_iff addressRuntime unitAddress tokenxHelper [transferFrom]
    mem_transferFrom_wellFormed rfl).mpr ?_
  rintro x hx ⟨t, ht, _, hrecipient, _⟩
  obtain rfl := List.mem_singleton.mp hx
  obtain rfl := transferFrom_isTransfer.unique ht
  exact absurd hrecipient (by decide)

/-- The recipient does not. -/
theorem not_finds_of_recipient :
    ¬ ∃ map, tokenxHelper.decodeExtrinsics addressRuntime unitAddress [transferFrom.text]
        (unitAddress (unitAccount 3)) = .ok map ∧
      FindsTransfers addressRuntime unitAddress tokenxHelper [transferFrom] (unitAccount 3)
        map := by
  have htarget : addressRuntime.fromSs58check (unitAddress (unitAccount 3)) =
      .ok (unitAccount 3) := rfl
  obtain ⟨kept, hrun, hkept⟩ :=
    decodeExtrinsics_kept addressRuntime unitAddress mem_transferFrom_wellFormed htarget
  rintro ⟨map, hmap, hfinds⟩
  obtain rfl := Outcome.ok.inj (hrun.symm.trans hmap)
  refine (findsTransfers_iff addressRuntime unitAddress (hkept.imp fun _ _ h => h.1)).mp hfinds
    transferFrom List.mem_cons_self ⟨_, transferFrom_isTransfer, transferFrom_kindOf, rfl, ?_, ?_⟩
  · decide
  · decide

end Cashbox.Eee
