import Cashbox.Lib.Outcome
import Cashbox.Lib.Bytes

/-!
# Programs that read bytes

A decoder asks its source for exact numbers of bytes and ends in an outcome. As a tree of
its reads it runs on a list of bytes, where it either ends or runs short, and on any other
source. What it does on a list decides what it does on a source that holds these bytes.
-/

namespace Cashbox.Lib

/-- A decoder over `io::Read`: an outcome, or a `read_exact` and what follows it. -/
inductive Reader (ε α : Type) where
  | done (result : Outcome ε α)
  | read (n : Nat) (next : Bytes → Reader ε α)

namespace Reader

variable {ε α β σ : Type}

protected def bind : Reader ε α → (α → Reader ε β) → Reader ε β
  | .done (.ok a), f => f a
  | .done (.err e), _ => .done (.err e)
  | .done (.panic p), _ => .done (.panic p)
  | .read n next, f => .read n fun bytes => (next bytes).bind f

instance : Monad (Reader ε) where
  pure a := .done (.ok a)
  bind := Reader.bind

def lift (x : Outcome ε α) : Reader ε α := .done x

/-- `read_exact` into a buffer of `n` bytes. -/
def take (n : Nat) : Reader ε Bytes := .read n fun bytes => .done (.ok bytes)

/-- The loop that decodes `n` values. -/
def times (m : Reader ε α) : Nat → Reader ε (List α)
  | 0 => pure []
  | n + 1 => do
    let a ← m
    let as ← times m n
    return a :: as

/-! ## On a list of bytes -/

/-- The outcome and the bytes left, or `none` where a read finds too few bytes. -/
def parse : Reader ε α → Bytes → Option (Outcome ε α × Bytes)
  | .done x, bytes => some (x, bytes)
  | .read n next, bytes =>
    if n ≤ bytes.length then (next (bytes.take n)).parse (bytes.drop n) else none

/-- The outcome on a cursor over `bytes`; `eof` is the error of a read that finds too few. -/
def decode (eof : ε) (r : Reader ε α) (bytes : Bytes) : Outcome ε α :=
  match r.parse bytes with
  | some (x, _) => x
  | none => .err eof

@[simp] theorem parse_done (x : Outcome ε α) (bytes : Bytes) :
    (Reader.done x).parse bytes = some (x, bytes) := rfl

theorem parse_read_of_le {n : Nat} {next : Bytes → Reader ε α} {bytes : Bytes}
    (h : n ≤ bytes.length) :
    (Reader.read n next).parse bytes = (next (bytes.take n)).parse (bytes.drop n) := if_pos h

theorem parse_read_of_lt {n : Nat} {next : Bytes → Reader ε α} {bytes : Bytes}
    (h : bytes.length < n) : (Reader.read n next).parse bytes = none := if_neg (by omega)

/-- A sequence: what follows an `Ok` goes on with the bytes that are left. -/
theorem parse_bind (r : Reader ε α) (f : α → Reader ε β) (bytes : Bytes) :
    (r >>= f).parse bytes =
      match r.parse bytes with
      | some (.ok a, rest) => (f a).parse rest
      | some (.err e, rest) => some (.err e, rest)
      | some (.panic p, rest) => some (.panic p, rest)
      | none => none := by
  induction r generalizing bytes with
  | done x => cases x <;> rfl
  | read n next ih =>
    show (Reader.read n fun b => (next b).bind f).parse bytes = _
    by_cases h : n ≤ bytes.length
    · rw [parse_read_of_le h, parse_read_of_le h]
      exact ih _ _
    · rw [parse_read_of_lt (by omega), parse_read_of_lt (by omega)]

theorem parse_bind_of_ok {r : Reader ε α} {f : α → Reader ε β} {bytes rest : Bytes} {a : α}
    (h : r.parse bytes = some (.ok a, rest)) : (r >>= f).parse bytes = (f a).parse rest := by
  rw [parse_bind, h]

theorem parse_bind_of_none {r : Reader ε α} {f : α → Reader ε β} {bytes : Bytes}
    (h : r.parse bytes = none) : (r >>= f).parse bytes = none := by
  rw [parse_bind, h]

theorem parse_take_of_le {n : Nat} {bytes : Bytes} (h : n ≤ bytes.length) :
    (take n : Reader ε Bytes).parse bytes = some (.ok (bytes.take n), bytes.drop n) := by
  rw [take, parse_read_of_le h, parse_done]

theorem parse_take_of_lt {n : Nat} {bytes : Bytes} (h : bytes.length < n) :
    (take n : Reader ε Bytes).parse bytes = none := parse_read_of_lt h

/-- What is left is an end of what was there. -/
theorem parse_suffix {r : Reader ε α} {bytes rest : Bytes} {x : Outcome ε α}
    (h : r.parse bytes = some (x, rest)) : rest <:+ bytes := by
  induction r generalizing bytes with
  | done y =>
    rw [parse_done] at h
    cases h
    exact List.suffix_rfl
  | read n next ih =>
    rw [parse] at h
    split_ifs at h with hle
    exact (ih _ h).trans (List.drop_suffix _ _)

/-- More bytes after those that were there do not change the outcome. -/
theorem parse_append {r : Reader ε α} {bytes rest : Bytes} {x : Outcome ε α}
    (h : r.parse bytes = some (x, rest)) (more : Bytes) :
    r.parse (bytes ++ more) = some (x, rest ++ more) := by
  induction r generalizing bytes with
  | done y =>
    rw [parse_done] at h
    cases h
    rfl
  | read n next ih =>
    rw [parse] at h
    split_ifs at h with hle
    rw [parse_read_of_le (by rw [List.length_append]; omega), List.take_append_of_le_length hle,
      List.drop_append_of_le_length hle]
    exact ih _ h

/-- A decoder that ends beyond `bytes` runs short on `bytes`. -/
theorem parse_eq_none_of_append {r : Reader ε α} {bytes more rest : Bytes} {x : Outcome ε α}
    (h : r.parse (bytes ++ more) = some (x, rest)) (hlt : rest.length < more.length) :
    r.parse bytes = none := by
  cases hp : r.parse bytes with
  | none => rfl
  | some y =>
    obtain ⟨y, left⟩ := y
    rw [parse_append hp more] at h
    cases h
    rw [List.length_append] at hlt
    omega

/-! ## Errors -/

/-- No outcome of the decoder itself is the error `e`. -/
def NeverFails (e : ε) : Reader ε α → Prop
  | .done x => x ≠ .err e
  | .read _ next => ∀ bytes, (next bytes).NeverFails e

section NeverFails

variable {e : ε} {r : Reader ε α} {f : α → Reader ε β}

theorem NeverFails.pure (a : α) : NeverFails e (Pure.pure a : Reader ε α) := by
  intro h
  cases h

theorem NeverFails.take (n : Nat) : NeverFails e (Reader.take n) := fun bytes => .pure bytes

theorem NeverFails.lift {x : Outcome ε α} (h : x ≠ .err e) : NeverFails e (Reader.lift x) := h

theorem NeverFails.bind (hr : NeverFails e r) (hf : ∀ a, NeverFails e (f a)) :
    NeverFails e (r >>= f) := by
  induction r with
  | done x =>
    cases x with
    | ok a => exact hf a
    | err e' => exact fun h => hr (by cases h; rfl)
    | panic p => exact fun h => nomatch h
  | read n next ih => exact fun bytes => ih bytes (hr bytes)

theorem NeverFails.times (hr : NeverFails e r) (n : Nat) : NeverFails e (r.times n) := by
  induction n with
  | zero => exact .pure []
  | succ n ih => exact hr.bind fun _ => ih.bind fun _ => .pure _

theorem NeverFails.ite {c : Prop} [Decidable c] {r' : Reader ε α} (hr : NeverFails e r)
    (hr' : NeverFails e r') : NeverFails e (if c then r else r') := by
  split_ifs
  · exact hr
  · exact hr'

theorem NeverFails.parse_ne (hr : NeverFails e r) {bytes rest : Bytes} {x : Outcome ε α}
    (h : r.parse bytes = some (x, rest)) : x ≠ .err e := by
  induction r generalizing bytes with
  | done y =>
    rw [parse_done] at h
    cases h
    exact hr
  | read n next ih =>
    rw [parse] at h
    split_ifs at h with hle
    exact ih _ (hr _) h

end NeverFails

-- the rules above are the way to prove it
attribute [irreducible] NeverFails

/-! ## On a source -/

/-- Runs on a source with its own `read_exact`, which fails where it returns `none`. -/
def run (readExact : Nat → σ → σ × Option Bytes) (eof : ε) : Reader ε α → σ → σ × Outcome ε α
  | .done x, s => (s, x)
  | .read n next, s =>
    match readExact n s with
    | (s, some bytes) => (next bytes).run readExact eof s
    | (s, none) => (s, .err eof)

/-- `read_exact` of the source takes bytes from its `content`, and keeps `Inv`. -/
structure Serves (readExact : Nat → σ → σ × Option Bytes) (content : σ → Bytes)
    (Inv : σ → Prop) : Prop where
  inv : ∀ n s, Inv s → Inv (readExact n s).1
  enough : ∀ n s, Inv s → n ≤ (content s).length →
    (readExact n s).2 = some ((content s).take n) ∧
      content (readExact n s).1 = (content s).drop n
  short : ∀ n s, Inv s → (content s).length < n → (readExact n s).2 = none

variable {readExact : Nat → σ → σ × Option Bytes} {content : σ → Bytes} {Inv : σ → Prop}

/-- **Runs on a source** end as on the list of its bytes. -/
theorem Serves.run (h : Serves readExact content Inv) (eof : ε) (r : Reader ε α) {s : σ}
    (hs : Inv s) : Inv (r.run readExact eof s).1 ∧
      match r.parse (content s) with
      | some (x, rest) => (r.run readExact eof s).2 = x ∧ content (r.run readExact eof s).1 = rest
      | none => (r.run readExact eof s).2 = .err eof := by
  induction r generalizing s with
  | done x => exact ⟨hs, rfl, rfl⟩
  | read n next ih =>
    have hinv := h.inv n s hs
    rw [Reader.run]
    by_cases hn : n ≤ (content s).length
    · obtain ⟨hbytes, hrest⟩ := h.enough n s hs hn
      rcases hr : readExact n s with ⟨s', bytes⟩
      rw [hr] at hbytes hrest hinv
      cases hbytes
      have hnext := ih ((content s).take n) hinv
      rw [parse_read_of_le hn, ← hrest]
      exact hnext
    · have hnone := h.short n s hs (by omega)
      rcases hr : readExact n s with ⟨s', bytes⟩
      rw [hr] at hnone hinv
      cases hnone
      rw [parse_read_of_lt (by omega)]
      exact ⟨hinv, rfl⟩

end Reader

end Cashbox.Lib
