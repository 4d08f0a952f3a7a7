import Cashbox.Lib.Reader

/-!
# Streams of frames

A stream of encoded messages arrives in pieces. Where the decoder takes exactly the bytes
of each encoding, draining what has arrived gives the messages whose last byte is there,
and leaves a beginning of the next one, on which the decoder runs short.
-/

namespace Cashbox.Lib.Reader

variable {ε α : Type} {r : Reader ε α}

/-- The messages at the front of `bytes`, up to `fuel` of them, and the bytes after them. -/
def drain (r : Reader ε α) : Nat → Bytes → List α × Bytes
  | 0, bytes => ([], bytes)
  | fuel + 1, bytes =>
    match r.parse bytes with
    | some (.ok a, rest) => (a :: (r.drain fuel rest).1, (r.drain fuel rest).2)
    | _ => ([], bytes)

/-- The decoder takes the encoding of `a`, and all of it. -/
def Frames (r : Reader ε α) (encode : α → Bytes) (a : α) : Prop :=
  r.parse (encode a) = some (.ok a, [])

variable {encode : α → Bytes} {a : α} {as : List α}

theorem Frames.parse_append (h : Frames r encode a) (rest : Bytes) :
    r.parse (encode a ++ rest) = some (.ok a, rest) := Reader.parse_append h rest

theorem Frames.ne_nil (h : Frames r encode a) (hr : r.parse [] = none) : encode a ≠ [] := by
  intro hnil
  rw [Frames, hnil, hr] at h
  cases h

/-- What has arrived of a stream either has its first message complete or is a proper
beginning of it. -/
theorem Frames.prefix_cases (h : Frames r encode a) {tail u : Bytes}
    (hu : u <+: encode a ++ tail) :
    (∃ u', u = encode a ++ u' ∧ u' <+: tail) ∨ r.parse u = none := by
  obtain ⟨later, hlater⟩ := hu
  rcases List.append_eq_append_iff.mp hlater with ⟨more, hmore, _⟩ | ⟨u', rfl, htail⟩
  · cases more with
    | nil => exact .inl ⟨[], by rw [hmore, List.append_nil, List.append_nil], List.nil_prefix⟩
    | cons b more =>
      rw [Frames, hmore] at h
      exact .inr (parse_eq_none_of_append h (Nat.succ_pos _))
  · exact .inl ⟨u', rfl, later, htail.symm⟩

/-- **Draining a part of a stream**: the messages that are complete come out, and what is
left is a part of the stream of the others that the decoder waits to see completed. -/
theorem drain_of_prefix (hr : r.parse [] = none) (has : ∀ a ∈ as, Frames r encode a)
    {u : Bytes} (hu : u <+: as.flatMap encode) {fuel : Nat} (hfuel : u.length < fuel) :
    ∃ done left rest, as = done ++ left ∧ u = done.flatMap encode ++ rest ∧
      rest <+: left.flatMap encode ∧ r.parse rest = none ∧ r.drain fuel u = (done, rest) := by
  induction as generalizing u fuel with
  | nil =>
    rw [List.flatMap_nil, List.prefix_nil] at hu
    subst hu
    obtain ⟨fuel, rfl⟩ : ∃ n, fuel = n + 1 := ⟨fuel - 1, by omega⟩
    exact ⟨[], [], [], rfl, rfl, List.nil_prefix, hr, by rw [drain, hr]⟩
  | cons a as ih =>
    obtain ⟨fuel, rfl⟩ : ∃ n, fuel = n + 1 := ⟨fuel - 1, by omega⟩
    have ha := has a List.mem_cons_self
    rw [List.flatMap_cons] at hu
    rcases ha.prefix_cases hu with ⟨u', rfl, htail⟩ | hnone
    · have hpos : 0 < (encode a).length := List.length_pos_iff.mpr (ha.ne_nil hr)
      rw [List.length_append] at hfuel
      obtain ⟨done, left, rest, rfl, rfl, hrest, hwait, hdrain⟩ :=
        @ih (fun b hb => has b (List.mem_cons_of_mem _ hb)) u' htail fuel (by omega)
      refine ⟨a :: done, left, rest, rfl, ?_, hrest, hwait, ?_⟩
      · rw [List.flatMap_cons, List.append_assoc]
      · rw [drain, ha.parse_append]
        dsimp only
        rw [hdrain]
    · refine ⟨[], a :: as, u, rfl, rfl, ?_, hnone, by rw [drain, hnone]⟩
      rwa [List.flatMap_cons]

end Cashbox.Lib.Reader
