import Cashbox.Eth.Sign
import Cashbox.Lib.Text

/-!
# Texts as bytes and amounts

The conversions that a payload goes through: hexadecimal text to bytes, decimal
text to 256-bit numbers, and an amount in units of a token to its smallest units.
-/

namespace Cashbox.Eth

open Cashbox.Lib

/-! ## Hexadecimal text -/

inductive FromHexError where
  | invalidHexCharacter (c : Char) (index : Nat)
  | oddLength
  deriving DecidableEq, Repr

/-- The value of one digit. -/
def hexVal (b : UInt8) (index : Nat) : Outcome FromHexError UInt8 :=
  if 65 ≤ b ∧ b ≤ 70 then .ok (b - 65 + 10)
  else if 97 ≤ b ∧ b ≤ 102 then .ok (b - 97 + 10)
  else if 48 ≤ b ∧ b ≤ 57 then .ok (b - 48)
  else .err (.invalidHexCharacter (Char.ofNat b.toNat) index)

/-- Two digits a byte, from position `index` on. -/
def hexPairs : Nat → Bytes → Outcome FromHexError Bytes
  | index, high :: low :: rest => do
    let h ← hexVal high index
    let l ← hexVal low (index + 1)
    let bytes ← hexPairs (index + 2) rest
    .ok ((h <<< 4 ||| l) :: bytes)
  | _, _ => .ok []

/-- `hex::decode` -/
def hexDecode (bytes : Bytes) : Outcome FromHexError Bytes :=
  if bytes.length % 2 ≠ 0 then .err .oddLength else hexPairs 0 bytes

def hexstrToVec (hexstr : Text) : Outcome FromHexError Bytes :=
  hexDecode (((hexstr.trimMatches (· = '\"')).trimStartMatches ['0', 'x']).trim).asBytes

/-! ## Decimal text -/

inductive FromDecStrErr where
  | invalidCharacter
  | invalidLength
  deriving DecidableEq, Repr

def FromDecStrErr.toString : FromDecStrErr → String
  | .invalidCharacter => "a character is not in the range 0-9"
  | .invalidLength => "the number is too large for the type"

/-- The digits that follow the number `n`. -/
def decDigits : Bytes → Nat → Outcome FromDecStrErr U256
  | [], n => .ok (BitVec.ofNat 256 n)
  | b :: rest, n =>
    if n * 10 + (b - 48).toNat < 2 ^ 256 then decDigits rest (n * 10 + (b - 48).toNat)
    else .err .invalidLength

/-- `U256::from_dec_str`; the empty text is zero. -/
def fromDecStr (value : Text) : Outcome FromDecStrErr U256 :=
  if value.asBytes.all fun b => 48 ≤ b ∧ b ≤ 57 then decDigits value.asBytes 0
  else .err .invalidCharacter

/-- `Result::ok` -/
def okValue {ε α : Type} : Outcome ε α → Option α
  | .ok a => some a
  | _ => none

/-- `U256::exp10`, where `10 ^ 77 < 2 ^ 256 < 10 ^ 78`. -/
def exp10 {ε : Type} (n : Nat) : Outcome ε U256 :=
  if n ≤ 77 then .ok (BitVec.ofNat 256 (10 ^ n)) else .panic .mulOverflow

/-- `U256::checked_mul` -/
def u256CheckedMul (a b : U256) : Option U256 :=
  if a.toNat * b.toNat < 2 ^ 256 then some (a * b) else none

/-! ## Amounts -/

section Amount

variable {ε : Type}

/-- An amount in units of `10 ^ decimal`. -/
def scaled (amount : U256) (decimal : Nat) : Outcome ε (Option U256) := do
  let base ← exp10 decimal
  .ok (u256CheckedMul amount base)

/-- The digits after the point at `index`, at most `decimal` of them. -/
def decimalPart (value : Text) (index decimal : Nat) : Option Text :=
  let maxDistance :=
    if value.byteLen - index ≤ decimal then value.byteLen else index + 1 + decimal
  value.get (index + 1) maxDistance

/-- What is left of the conversion when the digits before the point are no number:
the digits after it are returned alone, or nothing is, since the integer part is
missing in the sum. -/
def convertDecimalPart (value : Text) (index decimal : Nat) : Outcome ε (Option U256) :=
  match decimalPart value index decimal with
  | none => .ok none
  | some part =>
    match okValue (fromDecStr part) with
    | none => .ok none
    | some amount => do
      let exponent ← checkedSub decimal part.byteLen
      scaled amount exponent

/-- The input text as an amount in the smallest units of a token. With a point in the
text, an integer part that is a number is returned at once. -/
def convertToken (value : Text) (decimal : Nat) : Outcome ε (Option U256) :=
  match value.find '.' with
  | none => scaled ((okValue (fromDecStr value)).getD 0) decimal
  | some index =>
    match (value.get 0 index).bind fun part => okValue (fromDecStr part) with
    | some amount => scaled amount decimal
    | none => convertDecimalPart value index decimal

end Amount

/-! ## Hexadecimal numbers -/

inductive ParseIntError where
  | empty
  | invalidDigit
  | posOverflow
  deriving DecidableEq, Repr

/-- The value of a digit in base 16. -/
def toDigit16 (c : Char) : Option Nat :=
  if '0' ≤ c ∧ c ≤ '9' then some (c.toNat - 48)
  else if 'a' ≤ c ∧ c ≤ 'f' then some (c.toNat - 87)
  else if 'A' ≤ c ∧ c ≤ 'F' then some (c.toNat - 55)
  else none

def radix16Digits : Text → Nat → Outcome ParseIntError UInt64
  | [], n => .ok (UInt64.ofNat n)
  | c :: rest, n =>
    match toDigit16 c with
    | none => .err .invalidDigit
    | some d =>
      if n * 16 + d < 2 ^ 64 then radix16Digits rest (n * 16 + d) else .err .posOverflow

/-- `u64::from_str_radix(_, 16)`: one leading plus is read over. -/
def fromStrRadix16 : Text → Outcome ParseIntError UInt64
  | [] => .err .empty
  | ['+'] => .err .invalidDigit
  | ['-'] => .err .invalidDigit
  | '+' :: digits => radix16Digits digits 0
  | digits => radix16Digits digits 0

end Cashbox.Eth
