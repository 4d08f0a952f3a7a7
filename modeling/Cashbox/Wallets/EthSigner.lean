import Cashbox.Eth.SignTyped
import Cashbox.Wallets.FindByAddress
import Cashbox.Wallets.StoredPhrases

/-!
# The signer of an Ethereum transaction

A transaction is signed for an address. The address is looked up among those of all chains, and
the key is derived anew from the mnemonic of the wallet that is found. So the key is the one of
the address where that is on the Ethereum chain; for an address on another chain it is the
Ethereum key of the same wallet, which has another address.
-/

namespace Cashbox.Wallets

open Cashbox.Lib Cashbox.Crypto

/-! ## The functions -/

/-- The libraries of the Ethereum chain: the derivation of a key from a phrase, and the curve with
secret keys of type `K`, their public keys, and the hash function. -/
structure EthLibraries (K : Type) where
  priFromMnemonic : Text → Except WalletError Bytes
  curve : Eth.Secp256k1 K
  serialize : K → Bytes
  serializeUncompressed : K → Bytes
  keccak : Bytes → Eth.H256

section Functions

variable {K : Type} (keys : EthLibraries K)

namespace EthLibraries

/-- Generate ETH address from uncompressed public key. -/
def generateEthAddress (secretByte : Bytes) : Except WalletError (Text × Text) :=
  match keys.curve.secretKey secretByte with
  | none => .error .crypto
  | some secret =>
    -- the uncompressed public key used for address generation
    let pukUncompressed := keys.serializeUncompressed secret
    let publicKeyHash := beBytes 32 (keys.keccak (pukUncompressed.drop 1)).toNat
    let addressStr := hexEncode (publicKeyHash.drop 12)
    let pukStr := hexEncode (keys.serialize secret)
    .ok ('0' :: 'x' :: addressStr, '0' :: 'x' :: pukStr)

/-- What `EthChain::generate_address` makes of a phrase. -/
def addressOfPhrase (phrase : Text) : Except WalletError (Text × Text) := do
  let secretByte ← keys.priFromMnemonic phrase
  keys.generateEthAddress secretByte

/-- The libraries of a wallet whose addresses on the Ethereum chain are these. -/
def libraries (lib : Libraries) : Libraries :=
  { lib with generateEthAddress := keys.addressOfPhrase }

end EthLibraries

def chainIdOf : NetType → UInt64
  | .main => 1
  | .test => 3
  | _ => 17

variable (env : Surroundings) (klib : Eee.KeyringLibraries) (rounds : Nat)

/-- The key of a wallet that was found. -/
def walletKey (wallet : Saved MWallet) (password : Text) : Outcome WalletError Bytes := do
  let mnemonic ← mnemonicContext klib rounds wallet password
  let phrase ← Outcome.okOr (.fromUtf8 mnemonic) (Text.fromUtf8 mnemonic)
  Outcome.ofExcept (keys.priFromMnemonic phrase)

def getPrivateKeyFromAddress (address password : Text) :
    Method (Session Databases) WalletError Bytes := do
  match ← findByAddress env address with
  | some wallet => Method.lift (walletKey keys klib rounds wallet.m password)
  | none =>
    Method.lift (.err (.custom ("address " ++ String.ofList address ++ " wallet is not exist!")))

/-- A raw transaction with a signature of a key, as text. -/
def signRaw (netType : NetType) (txPayload : Eth.RawTransaction) (priKey : Bytes) :
    Outcome WalletError Text := do
  let txSigned ← txPayload.sign keys.curve keys.keccak priKey (some (chainIdOf netType))
  .ok ('0' :: 'x' :: hexEncode txSigned)

def signTyped (netType : NetType) (txPayload : Eth.TypedTransaction) (priKey : Bytes) :
    Outcome WalletError Text := do
  let txSigned ← txPayload.sign keys.curve keys.keccak priKey (some (chainIdOf netType))
  let finalData ← txSigned.transaction.encode
  .ok ('0' :: 'x' :: hexEncode finalData)

def rawTransactionSign (netType : NetType) (txPayload : Eth.RawTransaction)
    (address password : Text) : Method (Session Databases) WalletError Text := do
  let priKey ← getPrivateKeyFromAddress keys env klib rounds address password
  Method.lift (signRaw keys netType txPayload priKey)

def typedTransactionSign (netType : NetType) (txPayload : Eth.TypedTransaction)
    (address password : Text) : Method (Session Databases) WalletError Text := do
  let priKey ← getPrivateKeyFromAddress keys env klib rounds address password
  Method.lift (signTyped keys netType txPayload priKey)

end Functions

/-! ## The signer is the account -/

section Named

variable {K : Type} (keys : EthLibraries K)

/-- What is signed is signed with the key of the address, and anywhere else `Err` is returned. -/
def SignedFor (address : Text) (key : Outcome WalletError Bytes)
    (sign : Bytes → Outcome WalletError Text) (result : Outcome WalletError Text) : Prop :=
  (∃ priKey puk text, key = .ok priKey ∧ keys.generateEthAddress priKey = .ok (address, puk) ∧
    sign priKey = .ok text ∧ result = .ok text) ∨ result.IsErr

/-- With any password and for any transaction, whatever fails. -/
structure SignerNamed (klib : Eee.KeyringLibraries) (rounds : Nat) (s : Session Databases)
    (address : Text) : Prop where
  raw : ∀ (env : Surroundings) (netType : NetType) (txPayload : Eth.RawTransaction)
    (password : Text),
    SignedFor keys address
      ((getPrivateKeyFromAddress keys env klib rounds address password).run s).2
      (signRaw keys netType txPayload)
      ((rawTransactionSign keys env klib rounds netType txPayload address password).run s).2
  typed : ∀ (env : Surroundings) (netType : NetType) (txPayload : Eth.TypedTransaction)
    (password : Text),
    SignedFor keys address
      ((getPrivateKeyFromAddress keys env klib rounds address password).run s).2
      (signTyped keys netType txPayload)
      ((typedTransactionSign keys env klib rounds netType txPayload address password).run s).2

/-- Addresses of different chains are different texts. -/
def Libraries.TellsChains (lib : Libraries) : Prop :=
  ∀ mn mn' chain chain' walletType walletType' netType netType' addr addr',
    Chain.generateAddress lib chain mn walletType netType = .ok addr →
      Chain.generateAddress lib chain' mn' walletType' netType' = .ok addr' →
        addr.address = addr'.address → chain = chain'

/-- The types of the Ethereum chain. -/
def IsEthChain (chainType : Text) : Prop :=
  chainType ∈ [ChainType.eth, .ethTest, .ethPrivate, .ethPrivateTest].map ChainType.toString

instance (chainType : Text) : Decidable (IsEthChain chainType) :=
  inferInstanceAs (Decidable (chainType ∈ _))

/-- The first row with the address is on the Ethereum chain, unless the wallet of the row cannot
be loaded. -/
def OnEthChain (db : Databases) (address : Text) : Prop :=
  ∀ a, (db.walletsDb.addressesUnder address).head? = some a → IsEthChain a.row.chainType ∨
    ∀ w ∈ db.walletsDb.wallet, w.shared.id = a.row.walletId →
      ¬ Loads w (NetType.fromChainType a.row.chainType) db

end Named

/-! ## One signing -/

section Signing

variable {K : Type} {keys : EthLibraries K} {klib : Eee.KeyringLibraries} {rounds : Nat}

theorem secretKey_of_generateEthAddress {priKey : Bytes} {address puk : Text}
    (h : keys.generateEthAddress priKey = .ok (address, puk)) :
    ∃ secret, keys.curve.secretKey priKey = some secret := by
  unfold EthLibraries.generateEthAddress at h
  cases hsecret : keys.curve.secretKey priKey with
  | none =>
    rw [hsecret] at h
    cases h
  | some secret => exact ⟨secret, rfl⟩

theorem chainIdOf_bound (netType : NetType) : 36 + 2 * (chainIdOf netType).toNat < 2 ^ 64 := by
  cases netType <;> decide

/-- With a key that has an address, both signings return. -/
theorem exists_signRaw (hcurve : keys.curve.Signs) {priKey : Bytes} {address puk : Text}
    (h : keys.generateEthAddress priKey = .ok (address, puk)) (netType : NetType)
    (txPayload : Eth.RawTransaction) :
    ∃ text, signRaw keys netType txPayload priKey = .ok text := by
  obtain ⟨secret, hsecret⟩ := secretKey_of_generateEthAddress h
  have hsign : txPayload.sign keys.curve keys.keccak priKey (some (chainIdOf netType)) =
      (.ok _ : Outcome WalletError Bytes) :=
    Eth.RawTransaction.sign_eq keys.keccak hcurve txPayload hsecret (chainIdOf_bound netType)
  unfold signRaw
  rw [hsign]
  exact ⟨_, rfl⟩

theorem exists_signTyped (hcurve : keys.curve.Signs) {priKey : Bytes} {address puk : Text}
    (h : keys.generateEthAddress priKey = .ok (address, puk)) (netType : NetType)
    (txPayload : Eth.TypedTransaction) :
    ∃ text, signTyped keys netType txPayload priKey = .ok text := by
  obtain ⟨secret, hsecret⟩ := secretKey_of_generateEthAddress h
  obtain ⟨signed, bytes, hsigned, hbytes⟩ : ∃ (signed : Eth.SignedTransaction) (bytes : Bytes),
      txPayload.sign keys.curve keys.keccak priKey (some (chainIdOf netType)) =
          (.ok signed : Outcome WalletError _) ∧
        signed.transaction.encode = (.ok bytes : Outcome WalletError _) :=
    Eth.TypedTransaction.exists_sign hcurve hsecret (chainIdOf_bound netType)
  unfold signTyped
  rw [hsigned, Outcome.ok_bind, hbytes]
  exact ⟨_, rfl⟩

/-- A signing takes the key that it is given, or passes the error on. -/
theorem signedFor_of_key {address : Text} {key : Method (Session Databases) WalletError Bytes}
    {sign : Bytes → Outcome WalletError Text} {s : Session Databases}
    (h : (∃ s' priKey puk, key.run s = (s', .ok priKey) ∧
        keys.generateEthAddress priKey = .ok (address, puk) ∧ ∃ text, sign priKey = .ok text) ∨
      ∃ s' e, key.run s = (s', .err e)) :
    SignedFor keys address (key.run s).2 sign ((key >>= fun priKey => Method.lift (sign priKey)).run
      s).2 := by
  rcases h with ⟨s', priKey, puk, hrun, haddress, text, htext⟩ | ⟨s', e, hrun⟩
  · left
    refine ⟨priKey, puk, text, ?_, haddress, htext, ?_⟩
    · rw [hrun]
    · rw [Method.run_bind_of_ok hrun]
      exact htext
  · right
    rw [Method.run_bind_of_err hrun]
    trivial

/-- A wallet gives its key exactly where its keystore opens. -/
theorem walletKey_cases {w : Saved MWallet} {phrase stored : Text} {priKey : Bytes}
    (hopens : Eee.OpensWith klib rounds w.row.mnemonic stored.asBytes phrase.asBytes)
    (hkey : keys.priFromMnemonic phrase = .ok priKey) (password : Text) :
    (walletKey keys klib rounds w password = .ok priKey ∧ password = stored) ∨
      ∃ e, walletKey keys klib rounds w password = .err e ∧ password ≠ stored := by
  unfold walletKey mnemonicContext
  by_cases hsame : password = stored
  · left
    refine ⟨?_, hsame⟩
    rw [hsame, hopens.opens]
    simp [Outcome.mapErr, Text.fromUtf8_asBytes, Outcome.okOr, hkey, Outcome.ofExcept]
  · right
    have hrejects := hopens.rejects password.asBytes fun heq => hsame (Text.asBytes_injective heq)
    cases hcontext : Eee.getMnemonicContext klib rounds w.row.mnemonic password.asBytes with
    | ok mn =>
      rw [hcontext] at hrejects
      exact hrejects.elim
    | err e => exact ⟨_, rfl, hsame⟩
    | panic why =>
      rw [hcontext] at hrejects
      exact hrejects.elim

end Signing

/-! ## The first row -/

section Rows

variable {K : Type} {keys : EthLibraries K} {lib : Libraries} {mn : Text}

theorem isEthChain_iff (chain : Chain) (walletType : WalletType) (netType : NetType) :
    IsEthChain (chain.chainType walletType netType).toString ↔ chain = .eth := by
  cases chain <;> cases walletType <;> cases netType <;> decide

theorem addressOfPhrase_eq_ok {named : Text × Text} (h : keys.addressOfPhrase mn = .ok named) :
    ∃ priKey, keys.priFromMnemonic mn = .ok priKey ∧
      keys.generateEthAddress priKey = .ok named := by
  unfold EthLibraries.addressOfPhrase at h
  cases hkey : keys.priFromMnemonic mn with
  | error e =>
    rw [hkey] at h
    cases h
  | ok priKey =>
    rw [hkey] at h
    exact ⟨priKey, rfl, h⟩

/-- On the Ethereum chain, the address that is derived is the one of the key. -/
theorem exists_key_of_generateAddress {walletType : WalletType} {netType : NetType}
    {addr : MAddress}
    (h : Chain.eth.generateAddress (keys.libraries lib) mn walletType netType = .ok addr) :
    ∃ priKey puk, keys.priFromMnemonic mn = .ok priKey ∧
      keys.generateEthAddress priKey = .ok (addr.address, puk) := by
  obtain ⟨⟨address, puk⟩, hnamed, haddr⟩ := Outcome.bind_eq_ok.mp h
  obtain ⟨priKey, hkey, haddress⟩ := addressOfPhrase_eq_ok (Outcome.ofExcept_eq_ok.mp hnamed)
  cases haddr
  exact ⟨priKey, puk, hkey, haddress⟩

end Rows

namespace WalletsRun

section Named

variable {K : Type} {keys : EthLibraries K} {env : Surroundings} {lib : Libraries}
  {klib : Eee.KeyringLibraries} {rounds : Nat} {s : WalletsRun} {address : Text}
  {a : Saved MAddress}

/-- The key of the phrase of a row. On the Ethereum chain its address is the one of the row, and
on the others it is not. -/
theorem PhrasesKept.exists_key (h : PhrasesKept env (keys.libraries lib) klib rounds s)
    (hchains : (keys.libraries lib).TellsChains) (ha : a ∈ s.addresses) :
    ∃ priKey address puk, keys.priFromMnemonic (s.mnemonicOf a.row.walletId) = .ok priKey ∧
      keys.generateEthAddress priKey = .ok (address, puk) ∧
      (address = a.row.address ↔ IsEthChain a.row.chainType) := by
  obtain ⟨⟨chain, walletType, netType, addr, haddr, haddress, htype⟩, hall⟩ := h.rows a ha
  obtain ⟨walletType', netType', addr', haddr'⟩ := hall .eth
  obtain ⟨priKey, puk, hkey, hnamed⟩ := exists_key_of_generateAddress haddr'
  refine ⟨priKey, addr'.address, puk, hkey, hnamed, ?_⟩
  rw [htype, isEthChain_iff, haddress]
  constructor
  · intro hsame
    exact (hchains _ _ _ _ _ _ _ _ _ _ haddr' haddr hsame).symm
  · rintro rfl
    -- the address does not depend on the network
    obtain ⟨priKey', puk', hkey', hnamed'⟩ := exists_key_of_generateAddress haddr
    obtain rfl := Except.ok.inj (hkey.symm.trans hkey')
    exact congrArg Prod.fst (Except.ok.inj (hnamed.symm.trans hnamed'))

/-- The first row with an address leads to its wallet, if that can be loaded. -/
theorem PhrasesKept.readsIf_findByAddress (h : PhrasesKept env lib klib rounds s)
    (hfirst : (s.session.store.walletsDb.addressesUnder address).head? = some a) :
    ∃ w ∈ s.wallets, w.shared.id = a.row.walletId ∧ ∀ env' : Surroundings,
      ReadsIf env'.fails (findByAddress env' address) s.session.store
        (Loads w (NetType.fromChainType a.row.chainType) s.session.store)
        fun found => ∃ wallet, found = some wallet ∧ wallet.m = w := by
  obtain ⟨rest, hrows⟩ := List.head?_eq_some_iff.mp hfirst
  have ha : a ∈ s.addresses := List.mem_of_mem_filter (List.mem_of_head? hfirst)
  obtain ⟨w, hw, hid⟩ := List.mem_map.mp (h.owned a ha)
  have hmw : (s.session.store.walletsDb.wallet.filter fun w' => w'.shared.id = a.row.walletId) =
      [w] := by
    rw [← hid]
    exact filter_key h.ids.nodup hw
  refine ⟨w, hw, hid, fun env' => ?_⟩
  have hfind : ReadsIf env'.fails (findByAddress env' address) s.session.store
      (True ∧ Loads w (NetType.fromChainType a.row.chainType) s.session.store)
      fun found => ∃ wallet, found = some wallet ∧ wallet.m = w := by
    apply (ReadsIf.read _ _).bind
    rintro mAddress _ rfl
    rw [hrows]
    exact readsIf_findById hmw
  exact hfind.mono (iff_of_eq (true_and _)) fun _ hq => hq

/-- Without such a row there is no wallet. -/
theorem run_getPrivateKeyFromAddress_of_none {env : Surroundings} {s : Session Databases}
    (hnone : (s.store.walletsDb.addressesUnder address).head? = none) (password : Text) :
    ∃ s' e, (getPrivateKeyFromAddress keys env klib rounds address password).run s =
      (s', .err e) := by
  have hrows : s.store.walletsDb.addressesUnder address = [] := List.head?_eq_none_iff.mp hnone
  have hfind : ReadsIf env.fails (findByAddress env address) s.store (True ∧ False)
      fun _ => True := by
    apply (ReadsIf.read _ _).bind
    rintro mAddress _ rfl
    rw [hrows]
    exact ReadsIf.lift (.inr ⟨_, rfl, id⟩)
  rcases hfind.run s.calls with ⟨s', found, _, ⟨_, hfalse⟩, _⟩ | ⟨s', e, hrun⟩
  · exact hfalse.elim
  · exact ⟨s', e, Method.run_bind_of_err hrun⟩

/-- **The key of an address**: unless a statement fails, the key of the phrase of the first row is
returned exactly if the wallet of the row can be loaded and the password is its own. -/
theorem PhrasesKept.readsIf_getPrivateKeyFromAddress (h : PhrasesKept env lib klib rounds s)
    (hfirst : (s.session.store.walletsDb.addressesUnder address).head? = some a) {priKey : Bytes}
    (hkey : keys.priFromMnemonic (s.mnemonicOf a.row.walletId) = .ok priKey) :
    ∃ w ∈ s.wallets, w.shared.id = a.row.walletId ∧ ∃ stored : Text,
      ∀ (env' : Surroundings) (password : Text), ReadsIf env'.fails
        (getPrivateKeyFromAddress keys env' klib rounds address password) s.session.store
        (Loads w (NetType.fromChainType a.row.chainType) s.session.store ∧ password = stored)
        (· = priKey) := by
  obtain ⟨w, hw, hid, hfind⟩ := h.readsIf_findByAddress hfirst
  obtain ⟨stored, hopens⟩ := h.opens w hw
  rw [hid] at hopens
  refine ⟨w, hw, hid, stored, fun env' password => ?_⟩
  apply (hfind env').bind
  rintro _ _ ⟨wallet, rfl, rfl⟩
  apply ReadsIf.lift
  rcases walletKey_cases hopens hkey password with ⟨hok, hsame⟩ | ⟨e, herr, hne⟩
  · exact .inl ⟨priKey, hok, hsame, rfl⟩
  · exact .inr ⟨e, herr, hne⟩

/-! ## The signer -/

/-- On the Ethereum chain, or where nothing is loaded, the signer is the account. -/
theorem PhrasesKept.signedFor (h : PhrasesKept env (keys.libraries lib) klib rounds s)
    (hchains : (keys.libraries lib).TellsChains)
    (hon : OnEthChain s.session.store address) (env' : Surroundings) (password : Text)
    {sign : Bytes → Outcome WalletError Text}
    (hsign : ∀ priKey address puk, keys.generateEthAddress priKey = .ok (address, puk) →
      ∃ text, sign priKey = .ok text) :
    SignedFor keys address
      ((getPrivateKeyFromAddress keys env' klib rounds address password).run s.session).2 sign
      ((getPrivateKeyFromAddress keys env' klib rounds address password >>= fun priKey =>
        Method.lift (sign priKey)).run s.session).2 := by
  apply signedFor_of_key
  cases hfirst : (s.session.store.walletsDb.addressesUnder address).head? with
  | none => exact .inr (run_getPrivateKeyFromAddress_of_none hfirst password)
  | some a =>
    have hmem : a ∈ s.session.store.walletsDb.addressesUnder address := List.mem_of_head? hfirst
    obtain ⟨ha, hrow⟩ := List.mem_filter.mp hmem
    have hrow : a.row.address = address := of_decide_eq_true hrow
    obtain ⟨priKey, address', puk, hkey, hnamed, hsame⟩ := h.exists_key hchains ha
    obtain ⟨w, hw, hid, stored, hreads⟩ := h.readsIf_getPrivateKeyFromAddress hfirst hkey
    rcases (hreads env' password).run s.session.calls with
      ⟨s', priKey', hrun, ⟨hloads, -⟩, hkey'⟩ | ⟨s', e, hrun⟩
    · left
      have hkey' : priKey' = priKey := hkey'
      have heth : IsEthChain a.row.chainType :=
        (hon a hfirst).resolve_right fun hnot => hnot w hw hid hloads
      rw [hsame.mpr heth, hrow, ← hkey'] at hnamed
      exact ⟨s', priKey', puk, hrun, hnamed, hsign priKey' address puk hnamed⟩
    · exact .inr ⟨s', e, hrun⟩

/-- An address on another chain gets the Ethereum key of its wallet. -/
theorem PhrasesKept.onEthChain (h : PhrasesKept env (keys.libraries lib) klib rounds s)
    (hchains : (keys.libraries lib).TellsChains) (hcurve : keys.curve.Signs)
    (hnamed : SignerNamed keys klib rounds s.session address) :
    OnEthChain s.session.store address := by
  intro a hfirst
  by_contra hnot
  rw [not_or] at hnot
  obtain ⟨hother, hload⟩ := hnot
  have hmem : a ∈ s.session.store.walletsDb.addressesUnder address := List.mem_of_head? hfirst
  obtain ⟨ha, hrow⟩ := List.mem_filter.mp hmem
  have hrow : a.row.address = address := of_decide_eq_true hrow
  obtain ⟨priKey, address', puk, hkey, haddress, hsame⟩ := h.exists_key hchains ha
  obtain ⟨w, hw, hid, stored, hreads⟩ := h.readsIf_getPrivateKeyFromAddress hfirst hkey
  apply hload
  intro w' hw' hid' hloads
  -- of two wallets with one identifier, one is the other
  obtain rfl : w' = w := List.inj_on_of_nodup_map h.ids.nodup hw' hw (hid'.trans hid.symm)
  -- with no failure and the password of the wallet, the key is returned
  obtain ⟨s', key, hrun, hkey'⟩ :=
    (hreads env.calm stored).run_of_calm (fun _ => rfl) ⟨hloads, rfl⟩ s.session.calls
  obtain rfl : key = priKey := hkey'
  obtain ⟨text, htext⟩ := exists_signRaw hcurve haddress .main Eth.unitRaw
  rcases hnamed.raw env.calm .main Eth.unitRaw stored with
    ⟨key', puk', text', hreturned, haddress', -, -⟩ | herr
  · have hreturned : ((getPrivateKeyFromAddress keys env.calm klib rounds address stored).run
        s.session).2 = .ok key' := hreturned
    rw [hrun] at hreturned
    obtain rfl := Outcome.ok.inj hreturned
    have hsame' : address' = address :=
      congrArg Prod.fst (Except.ok.inj (haddress.symm.trans haddress'))
    exact hother (hsame.mp (hsame'.trans hrow.symm))
  · -- and what is signed with it is no error
    rw [rawTransactionSign, Method.run_bind_of_ok hrun] at herr
    have herr : (signRaw keys .main Eth.unitRaw key).IsErr := herr
    rw [htext] at herr
    exact herr

end Named

/-- **The signer of an Ethereum transaction**: in every store of wallets that is reached, what is
signed for an address is signed with the key of that address exactly if the address is on the
Ethereum chain or no wallet is loaded for it. -/
theorem signerNamed_iff_onEthChain {K : Type} (keys : EthLibraries K) (env : Surroundings)
    (lib : Libraries) (klib : Eee.KeyringLibraries) (hdraws : env.DrawsOnce)
    (hlib : klib.Reliable) (hcurve : keys.curve.Signs)
    (hchains : (keys.libraries lib).TellsChains) (db : Databases) (calls : List StoreCall)
    (hseparated : ∀ call ∈ calls, call.Separated klib) :
    ∃ n, ∀ rounds, n ≤ rounds → ∀ address,
      SignerNamed keys klib rounds
          (run (storeStep env (keys.libraries lib) klib rounds) (start db) calls).session address ↔
        OnEthChain
          (run (storeStep env (keys.libraries lib) klib rounds) (start db) calls).session.store
          address := by
  refine ⟨(calls.map StoreCall.rounds).sum, fun rounds hrounds address => ?_⟩
  have henough : ∀ call ∈ calls, call.rounds ≤ rounds := by
    intro call hcall
    have hmem : call.rounds ∈ calls.map StoreCall.rounds := List.mem_map_of_mem hcall
    exact Nat.le_trans (List.single_le_sum (fun _ _ => Nat.zero_le _) _ hmem) hrounds
  have hkept : PhrasesKept env (keys.libraries lib) klib rounds
      (run (storeStep env (keys.libraries lib) klib rounds) (start db) calls) :=
    (phrasesKept_start db).run hdraws hlib hseparated henough
  constructor
  · intro hnamed
    exact hkept.onEthChain hchains hcurve hnamed
  · intro hon
    refine ⟨fun env' netType txPayload password => ?_, fun env' netType txPayload password => ?_⟩
    · exact hkept.signedFor hchains hon env' password fun _ _ _ haddress =>
        exists_signRaw hcurve haddress netType txPayload
    · exact hkept.signedFor hchains hon env' password fun _ _ _ haddress =>
        exists_signTyped hcurve haddress netType txPayload

/-! ### One wallet -/

/-- On every chain the addresses begin with a letter of their own. -/
def lettersApart : Libraries where
  keccak256 := id
  encryptMnemonic _ _ := ['m']
  generateEthAddress _ := .error .crypto
  generateEeeAddress mn := some ('5' :: hexEncode (beBytes 4 mn.length), ['p'])
  generateBtcAddress mn _ := .ok ('1' :: hexEncode (beBytes 4 mn.length), ['p'])

/-- The key of a phrase is its length. -/
def lengthKeys : EthLibraries Unit where
  priFromMnemonic mn := .ok (beBytes 32 mn.length)
  curve := Eth.unitCurve
  serialize _ := [2]
  serializeUncompressed _ := [4]
  keccak := Eth.lengthHash

/-- The libraries of the runs below. -/
def lengthLibraries : Libraries := lengthKeys.libraries lettersApart

/-- The letter that the addresses of a chain begin with. -/
def firstLetter : Chain → Char
  | .eth => '0'
  | .eee => '5'
  | .btc => '1'

theorem head_of_generateAddress {chain : Chain} {mn : Text} {walletType : WalletType}
    {netType : NetType} {addr : MAddress}
    (h : chain.generateAddress lengthLibraries mn walletType netType = .ok addr) :
    addr.address.head? = some (firstLetter chain) := by
  cases chain with
  | eth =>
    obtain ⟨priKey, puk, hkey, haddress⟩ := exists_key_of_generateAddress h
    obtain ⟨secret, hsecret⟩ := secretKey_of_generateEthAddress haddress
    unfold EthLibraries.generateEthAddress at haddress
    rw [hsecret] at haddress
    have hname : _ = addr.address := congrArg Prod.fst (Except.ok.inj haddress)
    rw [← hname]
    rfl
  | eee =>
    cases h
    rfl
  | btc =>
    cases h
    rfl

theorem tellsChains_lengthLibraries : lengthLibraries.TellsChains := by
  intro mn mn' chain chain' walletType walletType' netType netType' addr addr' h h' haddress
  have hhead : some (firstLetter chain) = some (firstLetter chain') := by
    rw [← head_of_generateAddress h, haddress, head_of_generateAddress h']
  revert hhead
  cases chain <;> cases chain' <;> decide

def createP : StoreCall :=
  .createWallet .main ⟨['n'], ['p'], phrase, "Normal".toList⟩ (List.replicate 32 0)
    (List.replicate 16 0)

def afterCreateP (rounds : Nat) : WalletsRun :=
  storeStep (failsAt 100) lengthLibraries .one rounds (start noTokens) createP

theorem signerNamed_iff_onEthChain_p :
    ∃ n, ∀ rounds, n ≤ rounds → ∀ address,
      SignerNamed lengthKeys .one rounds
          (run (storeStep (failsAt 100) lengthLibraries .one rounds) (start noTokens)
            [createP]).session address ↔
        OnEthChain
          (run (storeStep (failsAt 100) lengthLibraries .one rounds) (start noTokens)
            [createP]).session.store address := by
  refine signerNamed_iff_onEthChain lengthKeys (failsAt 100) lettersApart .one
    (drawsOnce_failsAt 100) Eee.KeyringLibraries.reliable_one Eth.signs_unitCurve
    tellsChains_lengthLibraries noTokens [createP] ?_
  rw [List.forall_mem_singleton]
  exact Eee.KeyringLibraries.separates_one _

/-- The Bitcoin address of the wallet. -/
def btcAddress : Text := '1' :: hexEncode (beBytes 4 phrase.length)

theorem not_onEthChain_btcAddress (rounds : Nat) :
    ¬ OnEthChain (afterCreateP rounds).session.store btcAddress := by
  obtain ⟨s', hs'⟩ : ∃ s', s' = afterCreateP rounds := ⟨_, rfl⟩
  have hrows : ((s'.session.store.walletsDb.addressesUnder btcAddress).map
      fun a => (a.row.chainType, a.row.walletId)) = [("BTC".toList, ['u', 'u', 'u'])] :=
    hs' ▸ rfl
  have hids : (s'.session.store.walletsDb.wallet.map fun w => w.shared.id) = [['u', 'u', 'u']] :=
    hs' ▸ rfl
  -- without tokens every wallet can be loaded
  have hloads (w : Saved MWallet) : Loads w .main s'.session.store := by
    rw [hs']
    exact ⟨⟨none, rfl, fun _ h => nomatch h⟩, ⟨none, rfl, fun _ h => nomatch h⟩,
      ⟨none, rfl, fun _ h => nomatch h⟩⟩
  rw [← hs']
  intro h
  obtain ⟨a, ha, hrow⟩ := List.map_eq_singleton_iff.mp hrows
  obtain ⟨w, hw, hid⟩ := List.map_eq_singleton_iff.mp hids
  obtain ⟨htype, hwallet⟩ := Prod.mk.inj hrow
  have hnot := h a (by rw [ha]; rfl)
  rw [htype, hwallet, hw] at hnot
  rcases hnot with heth | hload
  · exact absurd heth (by decide)
  · exact hload w (List.mem_singleton_self _) hid (hloads w)

/-- For the Bitcoin address of a wallet a transaction is signed with its Ethereum key. -/
theorem not_signerNamed_btcAddress :
    (failsAt 100).DrawsOnce ∧ Eee.KeyringLibraries.one.Reliable ∧ lengthKeys.curve.Signs ∧
      lengthLibraries.TellsChains ∧ createP.Separated .one ∧
      ∃ n, ∀ rounds, n ≤ rounds →
        ¬ SignerNamed lengthKeys .one rounds
          (run (storeStep (failsAt 100) lengthLibraries .one rounds) (start noTokens)
            [createP]).session btcAddress := by
  have hseparated : createP.Separated .one := Eee.KeyringLibraries.separates_one _
  refine ⟨drawsOnce_failsAt 100, Eee.KeyringLibraries.reliable_one, Eth.signs_unitCurve,
    tellsChains_lengthLibraries, hseparated, createP.rounds, fun rounds hrounds hnamed => ?_⟩
  have hkept : PhrasesKept (failsAt 100) lengthLibraries .one rounds (afterCreateP rounds) :=
    (phrasesKept_start noTokens).step (drawsOnce_failsAt 100) Eee.KeyringLibraries.reliable_one
      hseparated hrounds
  exact not_onEthChain_btcAddress rounds
    (hkept.onEthChain tellsChains_lengthLibraries Eth.signs_unitCurve hnamed)

end WalletsRun

end Cashbox.Wallets
