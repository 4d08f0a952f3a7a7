import Cashbox.Lib.StreamCipher

/-!
# AES in counter mode

What is encrypted and what is decrypted goes through the same loop over a buffer of 4096
bytes. The cipher itself is a key stream of its key and its counter.
-/

namespace Cashbox.Crypto

open Cashbox.Lib

inductive EncryptMethod where
  | aes128Ctr
  | aes256Ctr
  deriving DecidableEq, Repr

inductive KeySize where
  | keySize128
  | keySize256
  deriving DecidableEq, Repr

/-- `aes::ctr` of the cipher library: the key stream of a key and an initial counter. -/
abbrev AesCtr := KeySize → Bytes → Bytes → Nat → UInt8

section Aes

variable {ε : Type} (ctr : AesCtr)

def createAesInstance (method : EncryptMethod) (key iv : Bytes) : Outcome ε (Nat → UInt8) :=
  match method with
  | .aes128Ctr =>
    if 16 ≤ key.length then .ok (ctr .keySize128 (key.take 16) iv) else .panic .indexOutOfBounds
  | .aes256Ctr => .ok (ctr .keySize256 key iv)

/-- The size of the write buffer. -/
def bufferSize : Nat := 4096

/-- `aes::encrypt`, in at most `rounds` rounds of its loop -/
def encrypt (rounds : Nat) (method : EncryptMethod) (data key iv : Bytes) : Outcome ε Bytes := do
  let encryptor ← createAesInstance ctr method key iv
  processAll encryptor bufferSize rounds ⟨0, data⟩ []

/-- `aes::decrypt` -/
def decrypt (rounds : Nat) (method : EncryptMethod) (encryptedData key iv : Bytes) :
    Outcome ε Bytes := do
  let decryptor ← createAesInstance ctr method key iv
  processAll decryptor bufferSize rounds ⟨0, encryptedData⟩ []

/-- The rounds that the loops need for data of a length. -/
def roundsFor (length : Nat) : Nat := length / bufferSize + 1

variable {ctr} {rounds : Nat} {method : EncryptMethod} {data key iv : Bytes}
  {keystream : Nat → UInt8}

theorem exists_createAesInstance (hkey : 16 ≤ key.length) (method : EncryptMethod) (iv : Bytes) :
    ∃ keystream, (createAesInstance ctr method key iv : Outcome ε _) = .ok keystream := by
  cases method with
  | aes128Ctr => exact ⟨_, if_pos hkey⟩
  | aes256Ctr => exact ⟨_, rfl⟩

theorem encrypt_eq (hrounds : roundsFor data.length ≤ rounds)
    (h : (createAesInstance ctr method key iv : Outcome ε _) = .ok keystream) :
    (encrypt ctr rounds method data key iv : Outcome ε Bytes) =
      .ok (xorStream keystream 0 data) := by
  unfold encrypt
  rw [h, Outcome.ok_bind, processAll_eq (by decide) hrounds, List.nil_append]

theorem decrypt_eq (hrounds : roundsFor data.length ≤ rounds)
    (h : (createAesInstance ctr method key iv : Outcome ε _) = .ok keystream) :
    (decrypt ctr rounds method data key iv : Outcome ε Bytes) =
      .ok (xorStream keystream 0 data) := by
  unfold decrypt
  rw [h, Outcome.ok_bind, processAll_eq (by decide) hrounds, List.nil_append]

end Aes

end Cashbox.Crypto
