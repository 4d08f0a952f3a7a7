import Mathlib.Data.Nat.Digits.Defs
import Mathlib.Data.Nat.Digits.Lemmas

/-!
# Numbers as bytes

Little-endian and big-endian byte strings of natural numbers. A big-endian string
is either of a fixed width or minimal, that is without leading zeros.
-/

namespace Cashbox.Lib

abbrev Bytes := List UInt8

/-! ## Fixed width -/

/-- The `k` low bytes of `n`, the least significant first. -/
def leBytes (k n : Nat) : Bytes := (List.range k).map fun i => UInt8.ofNat (n / 256 ^ i)

/-- The `k` low bytes of `n`, the most significant first. -/
def beBytes (k n : Nat) : Bytes := (leBytes k n).reverse

@[simp] theorem leBytes_length (k n : Nat) : (leBytes k n).length = k := by simp [leBytes]

@[simp] theorem beBytes_length (k n : Nat) : (beBytes k n).length = k := by simp [beBytes]

/-- The low byte comes first. -/
theorem leBytes_succ (k n : Nat) :
    leBytes (k + 1) n = UInt8.ofNat n :: leBytes k (n / 256) := by
  unfold leBytes
  rw [List.range_succ_eq_map, List.map_cons, List.map_map, Nat.pow_zero, Nat.div_one]
  apply congrArg
  apply List.map_congr_left
  intro i _
  show UInt8.ofNat (n / 256 ^ (i + 1)) = UInt8.ofNat (n / 256 / 256 ^ i)
  rw [Nat.pow_succ', Nat.div_div_eq_div_mul]

/-! ## Values -/

/-- The number that big-endian bytes denote. -/
def ofBe (bytes : Bytes) : Nat := Nat.ofDigits 256 (bytes.reverse.map UInt8.toNat)

theorem ofBe_append (bytes : Bytes) (b : UInt8) :
    ofBe (bytes ++ [b]) = b.toNat + 256 * ofBe bytes := by
  simp [ofBe, Nat.ofDigits_cons]

theorem ofBe_lt (bytes : Bytes) : ofBe bytes < 256 ^ bytes.length := by
  -- bytes are digits to the base 256
  have hdigits : ∀ d ∈ bytes.reverse.map UInt8.toNat, d < 256 := by
    intro d hd
    obtain ⟨b, _, rfl⟩ := List.mem_map.mp hd
    exact b.toNat_lt
  have h := Nat.ofDigits_lt_base_pow_length (by decide : 1 < 256) hdigits
  simpa [ofBe] using h

/-- A leading zero does not change the value. -/
theorem ofBe_zero_cons (bytes : Bytes) : ofBe (0 :: bytes) = ofBe bytes := by
  unfold ofBe
  rw [List.reverse_cons, List.map_append, Nat.ofDigits_append]
  simp

/-- The value of the low bytes of a number that fits them. -/
theorem ofBe_beBytes (k n : Nat) (h : n < 256 ^ k) : ofBe (beBytes k n) = n := by
  induction k generalizing n with
  | zero =>
    have hn : n = 0 := by simpa using h
    rw [hn]
    rfl
  | succ k ih =>
    -- the low byte is cut off, the rest fits one byte less
    have hdiv : n / 256 < 256 ^ k := by
      apply Nat.div_lt_of_lt_mul
      rwa [← Nat.pow_succ']
    have hrec : ofBe (beBytes k (n / 256)) = n / 256 := ih (n / 256) hdiv
    have hsplit : beBytes (k + 1) n = beBytes k (n / 256) ++ [UInt8.ofNat n] := by
      simp [beBytes, leBytes_succ]
    rw [hsplit, ofBe_append, hrec, UInt8.toNat_ofNat']
    show n % 256 + 256 * (n / 256) = n
    omega

/-- Bytes are the low bytes of their value. -/
theorem beBytes_ofBe (bytes : Bytes) : beBytes bytes.length (ofBe bytes) = bytes := by
  -- the low byte is the last one
  induction bytes using List.reverseRecOn with
  | nil => rfl
  | append_singleton bytes b ih =>
    have hlow : UInt8.ofNat (b.toNat + 256 * ofBe bytes) = b := by
      apply UInt8.toNat_inj.mp
      rw [UInt8.toNat_ofNat']
      have hb := b.toNat_lt
      show (b.toNat + 256 * ofBe bytes) % 256 = b.toNat
      omega
    have hhigh : (b.toNat + 256 * ofBe bytes) / 256 = ofBe bytes := by
      have hb := b.toNat_lt
      omega
    have hlength : (bytes ++ [b]).length = bytes.length + 1 := by simp
    rw [hlength, ofBe_append]
    show (leBytes (bytes.length + 1) (b.toNat + 256 * ofBe bytes)).reverse = bytes ++ [b]
    rw [leBytes_succ, hlow, hhigh, List.reverse_cons]
    show beBytes bytes.length (ofBe bytes) ++ [b] = bytes ++ [b]
    rw [ih]

/-! ## Minimal strings -/

/-- The big-endian bytes of `n` without leading zeros. -/
def beMinimal (n : Nat) : Bytes := ((Nat.digits 256 n).map UInt8.ofNat).reverse

theorem ofBe_beMinimal (n : Nat) : ofBe (beMinimal n) = n := by
  have hdigits : ((Nat.digits 256 n).map UInt8.ofNat).map UInt8.toNat = Nat.digits 256 n := by
    rw [List.map_map]
    apply (List.map_congr_left ?_).trans (List.map_id _)
    intro d hd
    exact UInt8.toNat_ofNat_of_lt (Nat.digits_lt_base (by decide) hd)
  unfold ofBe beMinimal
  rw [List.reverse_reverse, hdigits, Nat.ofDigits_digits]

/-- Bytes without a leading zero are the minimal bytes of their value. -/
theorem beMinimal_ofBe {bytes : Bytes} (h : bytes.head? ≠ some 0) :
    beMinimal (ofBe bytes) = bytes := by
  have hlt : ∀ d ∈ bytes.reverse.map UInt8.toNat, d < 256 := by
    intro d hd
    obtain ⟨b, _, rfl⟩ := List.mem_map.mp hd
    exact b.toNat_lt
  -- the most significant digit, the last one of `Nat.digits`, is not zero
  have hlast : ∀ hne : bytes.reverse.map UInt8.toNat ≠ [],
      (bytes.reverse.map UInt8.toNat).getLast hne ≠ 0 := by
    intro hne hzero
    cases bytes with
    | nil => exact hne rfl
    | cons b bytes =>
      have hb : b = 0 := by
        apply UInt8.toNat_inj.mp
        simpa using hzero
      exact h (by rw [hb, List.head?_cons])
  unfold beMinimal ofBe
  rw [Nat.digits_ofDigits 256 (by decide) _ hlt hlast, List.map_map, List.map_id'']
  · exact List.reverse_reverse bytes
  · intro b
    exact UInt8.ofNat_toNat

theorem head?_beMinimal (n : Nat) : (beMinimal n).head? ≠ some 0 := by
  intro h
  cases hbytes : beMinimal n with
  | nil =>
    rw [hbytes] at h
    cases h
  | cons b bytes =>
    rw [hbytes, List.head?_cons, Option.some.injEq] at h
    -- the value with the zero cut off has other minimal bytes
    have hvalue : n = ofBe bytes := by
      rw [← ofBe_beMinimal n, hbytes, h, ofBe_zero_cons]
    -- but their number says that the value is larger
    have hlong : 256 ^ bytes.length ≤ n := by
      have hlen := Nat.lt_digits_length_iff (b := 256) (k := bytes.length) (by decide) n
      apply hlen.mp
      have hcount : (beMinimal n).length = (Nat.digits 256 n).length := by simp [beMinimal]
      rw [← hcount, hbytes]
      exact Nat.lt_succ_self _
    have hshort := ofBe_lt bytes
    omega

/-- A number below `256 ^ k` has at most `k` minimal bytes. -/
theorem length_beMinimal_le_iff (n k : Nat) : (beMinimal n).length ≤ k ↔ n < 256 ^ k := by
  have h := Nat.digits_length_le_iff (b := 256) (k := k) (by decide) n
  simpa [beMinimal] using h

end Cashbox.Lib
