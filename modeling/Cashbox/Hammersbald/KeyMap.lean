import Cashbox.Hammersbald.Slots

/-!
# The map of the keys

The slots of the memtable are a hash table of the keys that were put and not forgotten: each key
has one slot, which is in the bucket of its hash and leads to its record in the data file.
Putting, forgetting and growing keep this, and so a key is found with what was put last.
-/

namespace Cashbox.Hammersbald

open Cashbox.Lib LinearHash

/-- The key of the record at a pref. -/
def keyAt (data : Bytes) (pref : Nat) : Option Bytes :=
  match payloadAt data pref with
  | some (.indexed key _) => some key
  | _ => none

def slotHash (slot : Slot) : Nat := slot.1.toNat

def slotKey (data : Bytes) (slot : Slot) : Option Bytes := keyAt data slot.2

/-- The slots are those of the entries: a key has its pref and its data. -/
structure Keeps (hashOf : Bytes → UInt32) (logMod step : Nat) (data : Bytes)
    (slots : Nat → List Slot) (entries : Bytes → Option (Nat × Bytes)) : Prop where
  ok : Ok logMod step slotHash (slotKey data) slots
  reads : ∀ s, Has slots s → ∃ key d, payloadAt data s.2 = some (.indexed key d) ∧
    s.1 = hashOf key ∧ entries key = some (s.2, d)
  has : ∀ key pref d, entries key = some (pref, d) →
    payloadAt data pref = some (.indexed key d) ∧ Has slots (hashOf key, pref)

namespace Keeps

variable {hashOf : Bytes → UInt32} {logMod step n pref : Nat} {data key d : Bytes}
  {slots : Nat → List Slot} {entries : Bytes → Option (Nat × Bytes)} {s : Slot}

theorem keyAt_eq_some {k : Bytes} : keyAt data pref = some k ↔
    ∃ d, payloadAt data pref = some (.indexed k d) := by
  unfold keyAt
  split
  · simp_all
  · simp_all

/-- A slot of a key is the slot of its entry. -/
theorem entry_of_slotKey (h : Keeps hashOf logMod step data slots entries) (hs : Has slots s)
    (hkey : slotKey data s = some key) :
    s.1 = hashOf key ∧ ∃ d, entries key = some (s.2, d) := by
  obtain ⟨k, d, hpayload, hhash, hentry⟩ := h.reads s hs
  obtain ⟨d', hpayload'⟩ := keyAt_eq_some.mp hkey
  rw [hpayload] at hpayload'
  cases hpayload'
  exact ⟨hhash, d, hentry⟩

/-- **A key** has its slot in the bucket of its hash, and only there. -/
theorem place (h : Keeps hashOf logMod step data slots entries) (m : Nat) (hs : s ∈ slots m)
    (hkey : slotKey data s = some key) : m = address logMod step (hashOf key).toNat := by
  rw [← h.ok.place m s hs, ← (h.entry_of_slotKey ⟨m, hs⟩ hkey).1]
  rfl

theorem exists_slot (h : Keeps hashOf logMod step data slots entries)
    (hentry : entries key = some (pref, d)) :
    (hashOf key, pref) ∈ slots (address logMod step (hashOf key).toNat) ∧
      slotKey data (hashOf key, pref) = some key := by
  obtain ⟨hpayload, hhas⟩ := h.has key pref d hentry
  exact ⟨h.ok.has_iff.mp hhas, keyAt_eq_some.mpr ⟨d, hpayload⟩⟩

/-! ### Changes of the slots -/

/-- **Forgetting** a key removes its slot. -/
theorem remove (h : Keeps hashOf logMod step data slots entries)
    (hn : address logMod step (hashOf key).toNat = n) :
    Keeps hashOf logMod step data (remove (slotKey data) n (some key) slots)
      (Function.update entries key none) := by
  have hplace : ∀ m, ∀ s ∈ slots m, slotKey data s = some key → m = n := fun m s hs hkey =>
    (h.place m hs hkey).trans hn
  refine ⟨h.ok.remove n _, ?_, ?_⟩
  · intro s hs
    obtain ⟨hs, hne⟩ := (has_remove hplace).mp hs
    obtain ⟨k, d, hpayload, hhash, hentry⟩ := h.reads s hs
    have hk : k ≠ key := fun heq => hne (keyAt_eq_some.mpr ⟨d, heq ▸ hpayload⟩)
    exact ⟨k, d, hpayload, hhash, by simp [hk, hentry]⟩
  · intro k pref d hentry
    have hk : k ≠ key := by
      rintro rfl
      simp at hentry
    rw [Function.update_of_ne hk] at hentry
    obtain ⟨hpayload, hhas⟩ := h.has k pref d hentry
    refine ⟨hpayload, (has_remove hplace).mpr ⟨hhas, fun hkey => hk ?_⟩⟩
    have hkey' : slotKey data (hashOf k, pref) = some k := keyAt_eq_some.mpr ⟨d, hpayload⟩
    rw [hkey'] at hkey
    exact Option.some.inj hkey

/-- **Putting** a key that is not there adds its slot. -/
theorem push (h : Keeps hashOf logMod step data slots entries)
    (hn : address logMod step (hashOf key).toNat = n) (hnew : entries key = none)
    (hpayload : payloadAt data pref = some (.indexed key d)) :
    Keeps hashOf logMod step data (push n (hashOf key, pref) slots)
      (Function.update entries key (some (pref, d))) := by
  have hkey : slotKey data (hashOf key, pref) = some key := keyAt_eq_some.mpr ⟨d, hpayload⟩
  refine ⟨h.ok.push hn fun s hs hsame => ?_, ?_, ?_⟩
  · obtain ⟨_, d', hentry⟩ := h.entry_of_slotKey ⟨n, hs⟩ (hsame.trans hkey)
    rw [hnew] at hentry
    cases hentry
  · intro s hs
    rcases has_push.mp hs with hs | rfl
    · obtain ⟨k, d', hpayload', hhash, hentry⟩ := h.reads s hs
      have hk : k ≠ key := by
        rintro rfl
        rw [hnew] at hentry
        cases hentry
      exact ⟨k, d', hpayload', hhash, by simp [hk, hentry]⟩
    · exact ⟨key, d, hpayload, rfl, by simp⟩
  · intro k pref' d' hentry
    by_cases hk : k = key
    · subst hk
      rw [Function.update_self] at hentry
      cases hentry
      exact ⟨hpayload, has_push.mpr (.inr rfl)⟩
    · rw [Function.update_of_ne hk] at hentry
      obtain ⟨hpayload', hhas⟩ := h.has k pref' d' hentry
      exact ⟨hpayload', has_push.mpr (.inl hhas)⟩

/-- Where the slots stay the same the entries do. -/
theorem of_has {logMod' step' : Nat} {slots' : Nat → List Slot}
    (h : Keeps hashOf logMod step data slots entries)
    (hok : Ok logMod' step' slotHash (slotKey data) slots')
    (hhas : ∀ s, Has slots' s ↔ Has slots s) :
    Keeps hashOf logMod' step' data slots' entries :=
  ⟨hok, fun s hs => h.reads s ((hhas s).mp hs), fun key pref d hentry =>
    ⟨(h.has key pref d hentry).1, (hhas _).mpr (h.has key pref d hentry).2⟩⟩

/-- More data changes no entry. -/
theorem append (h : Keeps hashOf logMod step data slots entries) (more : Bytes) :
    Keeps hashOf logMod step (data ++ more) slots entries := by
  have hkey (s : Slot) (hs : Has slots s) : slotKey (data ++ more) s = slotKey data s := by
    obtain ⟨k, d, hpayload, _⟩ := h.reads s hs
    rw [show slotKey data s = some k from keyAt_eq_some.mpr ⟨d, hpayload⟩]
    exact keyAt_eq_some.mpr ⟨d, payloadAt_append hpayload more⟩
  refine ⟨⟨h.ok.place, fun m => ?_⟩, ?_, ?_⟩
  · refine (h.ok.keys m).imp_of_mem fun {s s'} hs hs' hne => ?_
    rwa [hkey s ⟨m, hs⟩, hkey s' ⟨m, hs'⟩]
  · intro s hs
    obtain ⟨k, d, hpayload, hrest⟩ := h.reads s hs
    exact ⟨k, d, payloadAt_append hpayload more, hrest⟩
  · intro k pref d hentry
    obtain ⟨hpayload, hhas⟩ := h.has k pref d hentry
    exact ⟨payloadAt_append hpayload more, hhas⟩

/-- Without slots there are no entries. -/
theorem empty : Keeps hashOf logMod step data (fun _ => []) fun _ => none := by
  refine ⟨⟨by simp, by simp⟩, ?_, by simp⟩
  intro s hs
  obtain ⟨n, hn⟩ := hs
  cases hn

end Keeps

end Cashbox.Hammersbald
