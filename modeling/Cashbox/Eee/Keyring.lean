import Mathlib.Logic.Equiv.List
import Cashbox.Crypto.Aes
import Cashbox.Eee.Error

/-!
# The keystore of a mnemonic

A mnemonic is kept encrypted under a key that is derived from a password. The first half of
the key is the one of the cipher, and the second half goes into a digest of the ciphertext,
by which a wrong password is told.
-/

namespace Cashbox.Eee

open Cashbox.Lib Cashbox.Crypto Cashbox.Eth

/-! ## The file -/

structure CipherParams where
  iv : Text
  deriving DecidableEq

structure KdfParams where
  dklen : Nat
  salt : Text
  n : UInt8
  r : UInt32
  p : UInt32
  deriving DecidableEq

structure KeyCrypto where
  ciphertext : Text
  cipher : Text
  cipherparams : CipherParams
  /-- It is always scrypt. -/
  kdf : Text
  kdfparams : KdfParams
  mac : Text
  deriving DecidableEq

structure KeyStore where
  version : Text
  crypto : KeyCrypto
  deriving DecidableEq

def SCRYPT_LOG_N : UInt8 := 5
def SCRYPT_P : UInt32 := 1
def SCRYPT_R : UInt32 := 8
def SCRYPT_DKLEN : Nat := 32
def CIPHER_KEY_SIZE : Text := "aes-128-ctr".toList

/-! ## The libraries -/

/-- A key as long as the buffer that it is derived into. -/
abbrev DerivedKey := { bytes : Bytes // bytes.length = SCRYPT_DKLEN }

structure ScryptParams where
  logN : UInt8
  r : UInt32
  p : UInt32
  deriving DecidableEq

/-- The libraries of the keystore. -/
structure KeyringLibraries where
  /-- The parameters that `ScryptParams::new` accepts. -/
  validParams : ScryptParams → Bool
  scrypt : Bytes → Bytes → ScryptParams → DerivedKey
  keccak256 : Bytes → Bytes
  aesCtr : AesCtr
  toJson : KeyStore → Text
  fromJson : Text → Option KeyStore

/-- `ScryptParams::new` -/
def ScryptParams.new (lib : KeyringLibraries) (logN : UInt8) (r p : UInt32) : Option ScryptParams :=
  if lib.validParams ⟨logN, r, p⟩ then some ⟨logN, r, p⟩ else none

/-! ## Writing and reading -/

section Keyring

variable (lib : KeyringLibraries) (rounds : Nat)

/-- The digest of the second half of the key, and the encrypted content. -/
def macOf (key : DerivedKey) (ciphertext : Bytes) : Bytes :=
  lib.keccak256 (key.val.drop 16 ++ ciphertext)

/-- What is stored of an encrypted mnemonic. -/
def storeData (key : DerivedKey) (salt iv ciphertext : Bytes) : KeyStore where
  version := "0.1.0".toList
  crypto :=
    { ciphertext := hexEncode ciphertext
      cipher := CIPHER_KEY_SIZE
      cipherparams := { iv := hexEncode iv }
      kdf := "scrypt".toList
      kdfparams :=
        { dklen := SCRYPT_DKLEN
          salt := hexEncode salt
          n := SCRYPT_LOG_N
          r := SCRYPT_R
          p := SCRYPT_P }
      mac := hexEncode (macOf lib key ciphertext) }

/-- `Crypto::encrypt_mnemonic`, with the random bytes it draws -/
def encryptMnemonic (salt iv mn password : Bytes) : Outcome Error Text := do
  let params ← Outcome.ofSome (ScryptParams.new lib SCRYPT_LOG_N SCRYPT_R SCRYPT_P)
  let dk := lib.scrypt password salt params
  let ciphertext ←
    Outcome.unwrap (encrypt lib.aesCtr rounds .aes128Ctr mn dk.val iv : Outcome String Bytes)
  pure (lib.toJson (storeData lib dk salt iv ciphertext))

/-- The cipher of a name; one without it is read in this way by default. -/
def cipherMethod (cipher : Text) : EncryptMethod :=
  if cipher = "aes-128-ctr".toList then .aes128Ctr
  else if cipher = "aes-256-ctr".toList then .aes256Ctr
  else .aes256Ctr

/-- `Crypto::get_mnemonic_context` -/
def getMnemonicContext (keystore : Text) (password : Bytes) : Outcome Error Bytes := do
  let store ← Outcome.okOr .serde (lib.fromJson keystore)
  let crypto := store.crypto
  let kdfparams := crypto.kdfparams
  let params ← Outcome.ofSome (ScryptParams.new lib kdfparams.n kdfparams.r kdfparams.p)
  let salt ← (hexDecode kdfparams.salt.asBytes).mapErr .hexError
  let key := lib.scrypt password salt params
  let ciphertext ← (hexDecode crypto.ciphertext.asBytes).mapErr .hexError
  if crypto.mac ≠ hexEncode (macOf lib key ciphertext) then
    .err (.custom "input password is not correct!")
  else do
    let iv ← (hexDecode crypto.cipherparams.iv.asBytes).mapErr .hexError
    (decrypt lib.aesCtr rounds (cipherMethod crypto.cipher) ciphertext key.val iv).mapErr .custom

end Keyring

/-! ## Round trip -/

/-- The parameters that are written. -/
def scryptParams : ScryptParams := ⟨SCRYPT_LOG_N, SCRYPT_R, SCRYPT_P⟩

namespace KeyringLibraries

/-- What is relied on of the libraries. -/
structure Reliable (lib : KeyringLibraries) : Prop where
  validParams : lib.validParams scryptParams = true
  keccak256_injective : Function.Injective lib.keccak256
  fromJson_toJson : ∀ store, lib.fromJson (lib.toJson store) = some store

/-- No other password gives the second half of the key of `password`. -/
def Separates (lib : KeyringLibraries) (salt password : Bytes) : Prop :=
  ∀ password', password' ≠ password →
    (lib.scrypt password' salt scryptParams).val.drop 16 ≠
      (lib.scrypt password salt scryptParams).val.drop 16

end KeyringLibraries

/-- With the password a keystore opens to the mnemonic, and with any other it does not. -/
structure OpensWith (lib : KeyringLibraries) (rounds : Nat) (keystore : Text)
    (password mn : Bytes) : Prop where
  opens : getMnemonicContext lib rounds keystore password = .ok mn
  rejects : ∀ password', password' ≠ password →
    (getMnemonicContext lib rounds keystore password').IsErr

/-- A keystore opens to one mnemonic only. -/
theorem OpensWith.eq_of_opens {lib : KeyringLibraries} {rounds : Nat} {keystore : Text}
    {password password' mn mn' : Bytes} (h : OpensWith lib rounds keystore password mn)
    (hopens : getMnemonicContext lib rounds keystore password' = .ok mn') : mn' = mn := by
  by_cases hsame : password' = password
  · rw [hsame, h.opens] at hopens
    exact (Outcome.ok.inj hopens).symm
  · have hrejects := h.rejects password' hsame
    rw [hopens] at hrejects
    exact hrejects.elim

section RoundTrip

variable {lib : KeyringLibraries} {rounds : Nat} {salt iv mn ciphertext password : Bytes}

theorem hexEncode_injective : Function.Injective hexEncode := by
  intro bytes bytes' h
  have hdecode := hexDecode_hexEncode bytes
  rw [h, hexDecode_hexEncode] at hdecode
  exact (Outcome.ok.inj hdecode).symm

/-- Over one ciphertext, the digest tells the second halves of the keys apart. -/
theorem macOf_inj (hlib : lib.Reliable) {key key' : DerivedKey}
    (h : macOf lib key' ciphertext = macOf lib key ciphertext) :
    key'.val.drop 16 = key.val.drop 16 :=
  List.append_cancel_right (hlib.keccak256_injective h)

/-- What is written, when the cipher has done its work. -/
theorem encryptMnemonic_eq (hlib : lib.Reliable)
    (h : (encrypt lib.aesCtr rounds .aes128Ctr mn (lib.scrypt password salt scryptParams).val iv :
      Outcome String Bytes) = .ok ciphertext) :
    encryptMnemonic lib rounds salt iv mn password =
      .ok (lib.toJson
        (storeData lib (lib.scrypt password salt scryptParams) salt iv ciphertext)) := by
  have hparams : ScryptParams.new lib SCRYPT_LOG_N SCRYPT_R SCRYPT_P = some scryptParams :=
    if_pos hlib.validParams
  unfold encryptMnemonic
  rw [hparams]
  simp only [Outcome.ofSome, Outcome.ok_bind, h, Outcome.unwrap, Outcome.pure_eq_ok]

/-- What is read with any password of a keystore that was written. -/
theorem getMnemonicContext_toJson (hlib : lib.Reliable) (key : DerivedKey) (password' : Bytes) :
    getMnemonicContext lib rounds (lib.toJson (storeData lib key salt iv ciphertext)) password' =
      if macOf lib key ciphertext =
          macOf lib (lib.scrypt password' salt scryptParams) ciphertext then
        (decrypt lib.aesCtr rounds .aes128Ctr ciphertext
          (lib.scrypt password' salt scryptParams).val iv).mapErr .custom
      else .err (.custom "input password is not correct!") := by
  have hparams : ScryptParams.new lib SCRYPT_LOG_N SCRYPT_R SCRYPT_P = some scryptParams :=
    if_pos hlib.validParams
  have hmethod : cipherMethod CIPHER_KEY_SIZE = .aes128Ctr := by decide
  unfold getMnemonicContext
  rw [hlib.fromJson_toJson]
  simp only [Outcome.okOr, Outcome.ok_bind, storeData, hparams, Outcome.ofSome,
    hexDecode_hexEncode, Outcome.mapErr, hmethod]
  by_cases hmac :
      macOf lib key ciphertext = macOf lib (lib.scrypt password' salt scryptParams) ciphertext
  · rw [if_pos hmac, if_neg (not_not_intro (congrArg hexEncode hmac))]
  · rw [if_neg hmac, if_pos fun h => hmac (hexEncode_injective h)]

/-- The key stream of a derived key. -/
theorem exists_keystream (lib : KeyringLibraries) (salt iv password : Bytes) :
    ∃ keystream, (createAesInstance lib.aesCtr .aes128Ctr
      (lib.scrypt password salt scryptParams).val iv : Outcome String _) = .ok keystream := by
  have hlength := (lib.scrypt password salt scryptParams).property
  refine exists_createAesInstance ?_ .aes128Ctr iv
  rw [hlength]
  decide

/-- From enough rounds on there is always a keystore. -/
theorem exists_encryptMnemonic (hlib : lib.Reliable) (salt iv password : Bytes)
    (hrounds : roundsFor mn.length ≤ rounds) :
    ∃ keystore, encryptMnemonic lib rounds salt iv mn password = .ok keystore := by
  obtain ⟨keystream, hkeystream⟩ := exists_keystream lib salt iv password
  exact ⟨_, encryptMnemonic_eq hlib (encrypt_eq hrounds hkeystream)⟩

/-- What is encrypted opens with the password alone. -/
theorem opensWith_of_encrypt (hlib : lib.Reliable) (hseparates : lib.Separates salt password)
    (hrounds : roundsFor mn.length ≤ rounds) {keystream : Nat → UInt8}
    (hkeystream : (createAesInstance lib.aesCtr .aes128Ctr
      (lib.scrypt password salt scryptParams).val iv : Outcome String _) = .ok keystream) :
    OpensWith lib rounds
      (lib.toJson (storeData lib (lib.scrypt password salt scryptParams) salt iv
        (xorStream keystream 0 mn))) password mn := by
  constructor
  · have hlength : roundsFor (xorStream keystream 0 mn).length ≤ rounds := by
      rwa [length_xorStream]
    rw [getMnemonicContext_toJson hlib, if_pos rfl, decrypt_eq hlength hkeystream,
      xorStream_xorStream]
    rfl
  · intro password' hne
    have hmac : macOf lib (lib.scrypt password salt scryptParams) (xorStream keystream 0 mn) ≠
        macOf lib (lib.scrypt password' salt scryptParams) (xorStream keystream 0 mn) :=
      fun h => hseparates password' hne (macOf_inj hlib h.symm)
    rw [getMnemonicContext_toJson hlib, if_neg hmac]
    trivial

/-- **Keystore round trip**: from enough rounds of the loops on, whatever was drawn, a keystore
is written that opens with the password to the mnemonic, and with no other password. -/
theorem exists_opensWith (hlib : lib.Reliable) (salt iv mn password : Bytes)
    (hseparates : lib.Separates salt password) :
    ∃ keystore, ∀ rounds, roundsFor mn.length ≤ rounds →
      encryptMnemonic lib rounds salt iv mn password = .ok keystore ∧
        OpensWith lib rounds keystore password mn := by
  obtain ⟨keystream, hkeystream⟩ := exists_keystream lib salt iv password
  exact ⟨_, fun rounds hrounds =>
    ⟨encryptMnemonic_eq hlib (encrypt_eq hrounds hkeystream),
      opensWith_of_encrypt hlib hseparates hrounds hkeystream⟩⟩

end RoundTrip

/-! ### One keystore

The libraries at one mnemonic and two passwords. Elsewhere they are any functions that are
relied on. -/

namespace KeyringLibraries

/-- The keys of the passwords `p` and `q` under a salt of zeros. -/
def keyP : DerivedKey :=
  ⟨[24, 206, 210, 8, 222, 255, 229, 58, 94, 87, 245, 154, 255, 58, 143, 204, 190, 156, 4, 86, 209,
    218, 190, 139, 105, 84, 163, 41, 144, 79, 215, 226], rfl⟩

def keyQ : DerivedKey :=
  ⟨[186, 178, 152, 225, 218, 208, 156, 108, 45, 224, 90, 27, 229, 172, 109, 84, 126, 115, 242, 175,
    33, 27, 135, 241, 16, 67, 38, 222, 8, 224, 164, 73], rfl⟩

/-- The digest of the mnemonic `m`, encrypted with the password `p`. -/
def digestP : Bytes :=
  [226, 187, 134, 112, 252, 168, 135, 143, 78, 241, 215, 202, 55, 71, 243, 15, 124, 128, 115, 126,
    0, 67, 176, 218, 189, 210, 9, 177, 205, 9, 239, 88]

/-- The keystore of the mnemonic `m`, and its file. -/
def storeP : KeyStore where
  version := "0.1.0".toList
  crypto :=
    ⟨hexEncode [116], CIPHER_KEY_SIZE, ⟨hexEncode (List.replicate 16 0)⟩, "scrypt".toList,
      ⟨SCRYPT_DKLEN, hexEncode (List.replicate 32 0), SCRYPT_LOG_N, SCRYPT_R, SCRYPT_P⟩,
      hexEncode digestP⟩

def fileP : Text :=
  "\x7b\"version\":\"0.1.0\",\"crypto\":\x7b\"ciphertext\":\"74\",".toList ++
  "\"cipher\":\"aes-128-ctr\",\"cipherparams\":\x7b\"iv\":\"".toList ++
  hexEncode (List.replicate 16 0) ++ "\"\x7d,\"kdf\":\"scrypt\",\"kdfparams\":\x7b".toList ++
  "\"dklen\":32,\"salt\":\"".toList ++ hexEncode (List.replicate 32 0) ++
  "\",\"n\":5,\"r\":8,\"p\":1\x7d,\"mac\":\"".toList ++ hexEncode digestP ++
  "\"\x7d\x7d".toList

instance : Encodable Char := .ofLeftInverse Char.toNat Char.ofNat Char.ofNat_toNat

instance : Encodable KeyStore :=
  let fields : KeyStore → Text × Text × Text × Text × Text × Nat × Text × Nat × Nat × Nat × Text :=
    fun s => (s.version, s.crypto.ciphertext, s.crypto.cipher, s.crypto.cipherparams.iv,
      s.crypto.kdf, s.crypto.kdfparams.dklen, s.crypto.kdfparams.salt, s.crypto.kdfparams.n.toNat,
      s.crypto.kdfparams.r.toNat, s.crypto.kdfparams.p.toNat, s.crypto.mac)
  .ofLeftInverse fields
    (fun (version, ciphertext, cipher, iv, kdf, dklen, salt, n, r, p, mac) =>
      ⟨version, ciphertext, cipher, ⟨iv⟩, kdf,
        ⟨dklen, salt, UInt8.ofNat n, UInt32.ofNat r, UInt32.ofNat p⟩, mac⟩)
    fun s => by simp [fields]

/-- Other stores are written as strokes. -/
def one : KeyringLibraries where
  validParams params := params = scryptParams
  scrypt password _ _ := if password = [112] then keyP else keyQ
  keccak256 message :=
    if message = keyP.val.drop 16 ++ [116] then digestP else 0 :: message
  aesCtr _ _ _ position :=
    [25, 255, 166, 223, 246, 209, 13, 149, 159, 48, 128, 113, 236, 49, 174, 191].getD position 0
  toJson store := if store = storeP then fileP else List.replicate (Encodable.encode store) 'x'
  fromJson text := if text = fileP then some storeP else Encodable.decode text.length

theorem fileP_ne_replicate (n : Nat) : List.replicate n 'x' ≠ fileP := by
  intro h
  have hmem : '\x7b' ∈ List.replicate n 'x' := by
    rw [h]
    exact List.mem_cons_self
  exact absurd (List.eq_of_mem_replicate hmem) (by decide)

theorem reliable_one : one.Reliable where
  validParams := rfl
  keccak256_injective := by
    intro m m' h
    simp only [one] at h
    split at h <;> split at h
    · simp_all
    · cases h
    · cases h
    · exact (List.cons.inj h).2
  fromJson_toJson store := by
    simp only [one]
    by_cases h : store = storeP
    · rw [if_pos h, if_pos rfl, h]
    · rw [if_neg h, if_neg (fileP_ne_replicate _), List.length_replicate, Encodable.encodek]

theorem separates_one (salt : Bytes) : one.Separates salt [112] := by
  intro password' hne
  simp only [one, if_neg hne]
  decide

end KeyringLibraries

theorem exists_opensWith_one :
    ∃ keystore, ∀ rounds, roundsFor [(109 : UInt8)].length ≤ rounds →
      encryptMnemonic .one rounds (List.replicate 32 0) (List.replicate 16 0) [109] [112] =
          .ok keystore ∧
        OpensWith .one rounds keystore [112] [109] :=
  exists_opensWith KeyringLibraries.reliable_one _ _ _ _ (KeyringLibraries.separates_one _)

end Cashbox.Eee
