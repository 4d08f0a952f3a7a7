import Cashbox.Lib.Run
import Cashbox.Eee.SyncTxs

/-!
# The history that is synchronised

The record of an account should only get to a height when every block up to there that
touches the account is saved for it. A round passes a block over where saving it fails, where
the current account is another one, or where the block has no extrinsic but the first, and the
record goes on nevertheless.
-/

namespace Cashbox.Eee.SyncTxs

open Cashbox.Lib

/-! ## The chain -/

/-- The chain behind the node, with the two storage keys of each account. -/
structure Chain where
  hash : Nat → Text
  eeeKey : Text → Text
  tokenXKey : Text → Text
  /-- a storage key changed in the block of a height -/
  Changed : Text → Nat → Prop
  /-- The first block has no block before it that it could differ from. -/
  genesis : ∀ key, ¬ Changed key 0

namespace Chain

variable (c : Chain)

/-- One of the storage keys of the account changed. -/
def Touches (account : Text) (height : Nat) : Prop :=
  c.Changed (c.eeeKey account) height ∨ c.Changed (c.tokenXKey account) height

/-- A storage key is the right one, or blank where it could not be made. -/
def KeyOk (right key : Text) : Prop := key = right ∨ key.trim = []

/-- The hash of the block of a height, or of none. -/
def HashOk (height : Nat) (hash : Text) : Prop := hash = c.hash height ∨ ∀ h, hash ≠ c.hash h

/-- What the node and the library answer is so: hashes and keys are the right ones, and the
changes between two blocks of the chain have every block in which one of the keys changed. -/
def Gives (it : Instance) : Waiting → Answer → Prop
  | .eeeStorageKey _, .storageKey key => KeyOk (c.eeeKey it.address) key
  | .tokenXStorageKey _, .storageKey key => KeyOk (c.tokenXKey it.address) key
  | .startBlockHash w, .blockHash hash => c.HashOk w.currentStartBlockNum hash
  | .endBlockHash w _, .blockHash hash => c.HashOk w.endBlockHeight hash
  | .queryStorage _ startBlockHash endBlockHash, .changes storageChanges =>
    (∃ first last, startBlockHash = c.hash first ∧ endBlockHash = c.hash last) ∧
      ∀ first last, startBlockHash = c.hash first → endBlockHash = c.hash last →
        ∀ h, first ≤ h → h ≤ last →
          c.Changed it.eeeStorageKey h ∨ c.Changed it.tokenXStorageKey h →
          some (c.hash h) ∈ storageChanges
  | _, _ => True

def GivesStart (it : Instance) : Starting → Answer → Prop
  | .eeeStorageKey, .storageKey key => KeyOk (c.eeeKey it.address) key
  | .tokenXStorageKey, .storageKey key => KeyOk (c.tokenXKey it.address) key
  | _, _ => True

/-- The answers of a run are those of the chain. -/
def Answers (s : State) : Action → Prop
  | .started k answer => ∀ it starting, s.instances[k]? = some it → it.starting = some starting →
      c.GivesStart it starting answer
  | .resume k answer _ => ∀ it waiting, s.instances[k]? = some it → it.round = some waiting →
      c.Gives it waiting answer
  | _ => True

end Chain

/-! ## What is synchronised -/

variable (c : Chain)

/-- The block of a height is saved if it touches the account, and a window with it was queried. -/
def Done (s : State) (account : Text) (h : Nat) : Prop :=
  (c.Touches account h → (account, c.hash h) ∈ s.saved) ∧
    (1 ≤ h → ∃ q ∈ s.queried, q.address = account ∧ q.first ≤ h ∧ h ≤ q.last)

/-- The account is synchronised up to a height. -/
def UpTo (s : State) (account : Text) (height : Nat) : Prop := ∀ h ≤ height, Done c s account h

/-- No record is past a block that it should have saved. -/
def NeverSkips (s : State) : Prop := ∀ record ∈ s.records, UpTo c s record.account record.blockNo

/-- The condition where the record of a window is written: the blocks that were passed over need
not be saved or have been saved otherwise, and the height that the round started from is that of
its own account, or one that its account got to as well. -/
def Passed (s : State) (account : Text) (pass : Pass) : Prop :=
  (∀ n ≤ pass.window.endBlockHeight, c.hash n ∈ pass.missed → c.Touches account n →
    (account, c.hash n) ∈ s.saved) ∧
  (pass.window.startedFrom = some account ∨ UpTo c s account pass.window.startBlockHeight)

/-- The condition on an answer: where the loop over the changes is through with it, and the record
of the window is written. -/
def ResumeOk (toLowerCase : Text → Text) (s : State) (it : Instance) (lib : Library)
    (waiting : Waiting) (answer : Answer) : Prop :=
  lib.updateSyncRecord = true → ∀ s' it' pass rest,
    advance toLowerCase s it lib waiting answer = (s', it', .elements pass rest) →
    (∀ x ∈ rest, x = none) → Passed c s' it.address pass

/-- The condition on an action. -/
def Action.Ok (toLowerCase : Text → Text) (s : State) : Action → Prop
  | .resume k answer lib => ∀ it waiting, s.instances[k]? = some it → it.round = some waiting →
      ResumeOk c toLowerCase s it lib waiting answer
  | _ => True

/-! ## States that grow -/

section Grows

variable {c} {s s' s'' : State}

/-- Nothing that was saved or queried is forgotten. -/
structure Grows (s s' : State) : Prop where
  saved : ∀ x ∈ s.saved, x ∈ s'.saved
  queried : ∀ q ∈ s.queried, q ∈ s'.queried

theorem Grows.refl (s : State) : Grows s s := ⟨fun _ h => h, fun _ h => h⟩

theorem Done.grows {account : Text} {h : Nat} (hdone : Done c s account h) (hs : Grows s s') :
    Done c s' account h := by
  refine ⟨fun htouches => hs.saved _ (hdone.1 htouches), fun hpos => ?_⟩
  obtain ⟨q, hq, hcovers⟩ := hdone.2 hpos
  exact ⟨q, hs.queried q hq, hcovers⟩

theorem UpTo.grows {account : Text} {height : Nat} (h : UpTo c s account height)
    (hs : Grows s s') : UpTo c s' account height := fun n hn => (h n hn).grows hs

theorem NeverSkips.grows (h : NeverSkips c s) (hs : Grows s s')
    (hrecords : s'.records = s.records) :
    NeverSkips c s' := by
  intro record hrecord
  rw [hrecords] at hrecord
  exact (h record hrecord).grows hs

end Grows

/-! ## Rounds -/

section Rounds

variable {c} {s s' : State} {it it' : Instance} {w : Window} {pass : Pass}
  {rest : List (Option Text)} {lib : Library} {toLowerCase : Text → Text}

variable (c) in
/-- The storage keys of an instance are those of its account. -/
structure KeysOk (it : Instance) : Prop where
  eee : Chain.KeyOk (c.eeeKey it.address) it.eeeStorageKey
  tokenX : Chain.KeyOk (c.tokenXKey it.address) it.tokenXStorageKey

variable (c) in
/-- A round in the loop over the windows: what is between its start and its window is done. -/
structure InWindow (s : State) (it : Instance) (w : Window) : Prop where
  more : w.i < w.queryCount
  eee : it.eeeStorageKey = c.eeeKey it.address
  tokenX : it.tokenXStorageKey = c.tokenXKey it.address
  between : ∀ h, w.startBlockHeight < h → h ≤ w.startBlockHeight + w.i * onceCount →
    Done c s it.address h
  own : w.startedFrom = some it.address → UpTo c s it.address w.startBlockHeight

variable (c) in
/-- A round in the loop over the changes of a window: a block that touches the account is still
to come, was passed over, or is saved. -/
structure InPass (s : State) (it : Instance) (pass : Pass) (rest : List (Option Text)) : Prop where
  window : InWindow c s it pass.window
  queried : ⟨it.address, pass.window.currentStartBlockNum, pass.window.endBlockHeight⟩ ∈ s.queried
  blocks : ∀ h, pass.window.currentStartBlockNum ≤ h → h ≤ pass.window.endBlockHeight →
    c.Touches it.address h → some (c.hash h) ∈ rest ∨ c.hash h ∈ pass.missed ∨
      (it.address, c.hash h) ∈ s.saved

variable (c) in
def RoundOk (s : State) (it : Instance) : Waiting → Prop
  | .config | .chainHeader | .eeeStorageKey _ | .tokenXStorageKey _ => True
  | .startBlockHash w => InWindow c s it w
  | .endBlockHash w startBlockHash => InWindow c s it w ∧
      c.HashOk w.currentStartBlockNum startBlockHash
  | .queryStorage w startBlockHash endBlockHash => InWindow c s it w ∧
      c.HashOk w.currentStartBlockNum startBlockHash ∧ c.HashOk w.endBlockHeight endBlockHash
  | .block pass blockHash rest | .stateStorage pass blockHash rest =>
    InPass c s it pass (some blockHash :: rest)

theorem InWindow.grows (h : InWindow c s it w) (hs : Grows s s') : InWindow c s' it w where
  more := h.more
  eee := h.eee
  tokenX := h.tokenX
  between n hfirst hlast := (h.between n hfirst hlast).grows hs
  own hfrom := (h.own hfrom).grows hs

theorem InPass.grows (h : InPass c s it pass rest) (hs : Grows s s') :
    InPass c s' it pass rest where
  window := h.window.grows hs
  queried := hs.queried _ h.queried
  blocks n hfirst hlast htouches :=
    (h.blocks n hfirst hlast htouches).imp_right (Or.imp_right (hs.saved _))

theorem RoundOk.grows {waiting : Waiting} (h : RoundOk c s it waiting) (hs : Grows s s') :
    RoundOk c s' it waiting := by
  cases waiting with
  | config | chainHeader | eeeStorageKey | tokenXStorageKey => trivial
  | startBlockHash w => exact InWindow.grows h hs
  | endBlockHash w start => exact ⟨h.1.grows hs, h.2⟩
  | queryStorage w start end_ => exact ⟨h.1.grows hs, h.2⟩
  | block pass blockHash rest | stateStorage pass blockHash rest => exact InPass.grows h hs

/-- What holds of a round is about the account and the keys of the instance only. -/
theorem RoundOk.congr {waiting : Waiting} (h : RoundOk c s it waiting)
    (haddress : it'.address = it.address) (heee : it'.eeeStorageKey = it.eeeStorageKey)
    (htokenX : it'.tokenXStorageKey = it.tokenXStorageKey) : RoundOk c s it' waiting := by
  have hwindow : ∀ {w}, InWindow c s it w → InWindow c s it' w := by
    intro w hw
    refine ⟨hw.more, ?_, ?_, ?_, ?_⟩
    · rw [heee, haddress, hw.eee]
    · rw [htokenX, haddress, hw.tokenX]
    · rw [haddress]
      exact hw.between
    · rw [haddress]
      exact hw.own
  cases waiting with
  | config | chainHeader | eeeStorageKey | tokenXStorageKey => trivial
  | startBlockHash w => exact hwindow h
  | endBlockHash w start => exact ⟨hwindow h.1, h.2⟩
  | queryStorage w start end_ => exact ⟨hwindow h.1, h.2⟩
  | block pass blockHash rest | stateStorage pass blockHash rest =>
    obtain ⟨hw, hqueried, hblocks⟩ := h
    refine ⟨hwindow hw, ?_, ?_⟩ <;> rw [haddress]
    · exact hqueried
    · exact hblocks

/-- The heights of a window that there is. -/
theorem InWindow.heights (h : InWindow c s it w) :
    w.startBlockHeight + w.i * onceCount < w.latestBlockHeight ∧
      w.currentStartBlockNum ≤ w.endBlockHeight := by
  have hmore := h.more
  unfold Window.queryCount onceCount at hmore
  unfold Window.endBlockHeight Window.currentStartBlockNum onceCount
  omega

/-! ### The end of a window -/

/-- A window that is passed through is done to its end. -/
theorem InPass.upTo (h : InPass c s it pass rest) (hrest : ∀ x ∈ rest, x = none)
    (hpassed : Passed c s it.address pass) :
    UpTo c s it.address pass.window.endBlockHeight := by
  intro n hn
  by_cases hstart : n ≤ pass.window.startBlockHeight
  · rcases hpassed.2 with hown | hupTo
    · exact h.window.own hown n hstart
    · exact hupTo n hstart
  by_cases hbefore : n ≤ pass.window.startBlockHeight + pass.window.i * onceCount
  · exact h.window.between n (Nat.lt_of_not_le hstart) hbefore
  · have hfirst : pass.window.currentStartBlockNum ≤ n := Nat.lt_of_not_le hbefore
    refine ⟨fun htouches => ?_, fun _ => ⟨_, h.queried, rfl, hfirst, hn⟩⟩
    rcases h.blocks n hfirst hn htouches with hrest' | hmissed | hsaved
    · cases hrest _ hrest'
    · exact hpassed.1 n hn hmissed htouches
    · exact hsaved

/-- A window that is done to its end was passed through. -/
theorem InPass.passed (h : InPass c s it pass rest)
    (hupTo : UpTo c s it.address pass.window.endBlockHeight) : Passed c s it.address pass := by
  obtain ⟨hlatest, hend⟩ := h.window.heights
  refine ⟨fun n hn _ htouches => (hupTo n hn).1 htouches, .inr fun n hn => hupTo n ?_⟩
  unfold Window.currentStartBlockNum at hend
  omega

theorem mem_updateSyncRecord (r : AccountInfoSyncProg) (records : List AccountInfoSyncProg) :
    r ∈ updateSyncRecord r records ∧
      ∀ record ∈ updateSyncRecord r records, record = r ∨ record ∈ records := by
  induction records with
  | nil => simp [updateSyncRecord]
  | cons record records ih =>
    unfold updateSyncRecord
    split
    · refine ⟨List.mem_cons_self, fun x hx => ?_⟩
      rcases List.mem_cons.mp hx with rfl | hx
      · exact .inl rfl
      · exact .inr (List.mem_cons_of_mem _ hx)
    · refine ⟨List.mem_cons_of_mem _ ih.1, fun x hx => ?_⟩
      rcases List.mem_cons.mp hx with rfl | hx
      · exact .inr List.mem_cons_self
      · exact (ih.2 x hx).imp_right (List.mem_cons_of_mem _)

/-- The window after one that is done. -/
theorem InWindow.next (h : InWindow c s it w) (hupTo : UpTo c s it.address w.endBlockHeight)
    (hmore : w.i + 1 < w.queryCount) : InWindow c s it { w with i := w.i + 1 } where
  more := hmore
  eee := h.eee
  tokenX := h.tokenX
  between n _ hlast := by
    refine hupTo n ?_
    unfold Window.queryCount at hmore
    unfold Window.endBlockHeight Window.currentStartBlockNum
    unfold onceCount at hmore hlast ⊢
    dsimp only at hlast
    omega
  own := h.own

/-- **The loop over the changes** keeps what holds of the round, and where it is through and the
record is written, the record skips nothing exactly if the window was passed through. -/
theorem loopElements_cases (lib : Library) (h : InPass c s it pass rest) (hskips : NeverSkips c s) :
    (∃ waiting, loopElements s it lib pass rest = (s, some waiting) ∧ RoundOk c s it waiting ∧
        ¬ ∀ x ∈ rest, x = none) ∨
      (loopElements s it lib pass rest = (s, none) ∧ lib.updateSyncRecord = false) ∨
      (lib.updateSyncRecord = true ∧ (∀ x ∈ rest, x = none) ∧ ∃ records round,
        loopElements s it lib pass rest = ({ s with records := records }, round) ∧
        (Passed c s it.address pass → NeverSkips c { s with records := records } ∧
          ∀ waiting, round = some waiting → RoundOk c { s with records := records } it waiting) ∧
        (NeverSkips c { s with records := records } → Passed c s it.address pass)) := by
  induction rest with
  | nil =>
    unfold loopElements
    cases hlib : lib.updateSyncRecord with
    | false => exact .inr (.inl ⟨rfl, rfl⟩)
    | true =>
      -- the record of the window is written, and is the only one that is new
      rw [if_pos rfl]
      obtain ⟨hmem, hall⟩ := mem_updateSyncRecord
        ⟨it.address, pass.window.endBlockHeight, pass.endBlockHash⟩ s.records
      refine .inr (.inr ⟨rfl, (fun _ hx => nomatch hx), _, _, rfl, fun hpassed => ?_,
        fun hnext => ?_⟩)
      · have hupTo := h.upTo (fun _ hx => nomatch hx) hpassed
        constructor
        · intro record hrecord
          rcases hall record hrecord with rfl | hold
          · exact hupTo.grows ⟨fun _ hx => hx, fun _ hq => hq⟩
          · exact (hskips record hold).grows ⟨fun _ hx => hx, fun _ hq => hq⟩
        · intro waiting hwaiting
          unfold nextWindow at hwaiting
          split at hwaiting
          · rename_i next hnext
            split at hnext
            · rename_i hmore
              cases hnext
              cases hwaiting
              exact (h.window.next hupTo hmore).grows ⟨fun _ hx => hx, fun _ hq => hq⟩
            · cases hnext
          · cases hwaiting
      · exact h.passed fun n hn => (hnext _ hmem n hn).grows ⟨fun _ hx => hx, fun _ hq => hq⟩
  | cons x rest ih =>
    cases x with
    -- a change that is no block is passed over
    | none =>
      have hrest : InPass c s it pass rest := by
        refine ⟨h.window, h.queried, fun n hfirst hlast htouches => ?_⟩
        refine (h.blocks n hfirst hlast htouches).imp_left fun hmem => ?_
        rcases List.mem_cons.mp hmem with heq | hmem
        · cases heq
        · exact hmem
      simpa only [loopElements, List.forall_mem_cons, true_and] using ih hrest
    | some blockHash =>
      -- the loop waits for the block
      refine .inl ⟨_, rfl, h, fun hnone => ?_⟩
      cases hnone _ List.mem_cons_self

/-! ### An answer -/

variable (c) in
/-- What holds of the way a round goes on. -/
def NextOk (s : State) (it : Instance) : Next → Prop
  | .ends => True
  | .awaits waiting => RoundOk c s it waiting
  | .elements pass rest => InPass c s it pass rest

theorem Chain.KeyOk.eq {right key : Text} (h : Chain.KeyOk right key)
    (hkey : key.trim.isEmpty = false) : key = right := by
  refine h.resolve_right fun hblank => ?_
  rw [hblank] at hkey
  cases hkey

/-- The start is that of a record. -/
theorem startWindow_own (latest : Nat) (hskips : NeverSkips c s)
    (h : (startWindow toLowerCase s it latest lib).startedFrom = some it.address) :
    UpTo c s it.address (startWindow toLowerCase s it latest lib).startBlockHeight := by
  unfold startWindow at h ⊢
  dsimp only at h ⊢
  split at h
  · rename_i record hrecord
    split at h
    · have hfound : findByAccount s.current s.records = some record := by
        split at hrecord
        · exact hrecord
        · cases hrecord
      have hown : record.account = it.address := Option.some.inj h
      rw [if_pos (by assumption), ← hown]
      exact hskips record (List.mem_of_find?_eq_some hfound)
    · cases h
  · cases h

theorem withKeys_ok (latest : Nat) (hskips : NeverSkips c s) (hkeys : KeysOk c it) :
    NextOk c s it (withKeys toLowerCase s it latest lib) := by
  unfold withKeys
  split
  · trivial
  rename_i hblank
  simp only [Bool.or_eq_true, not_or, Bool.not_eq_true] at hblank
  unfold nextWindow
  split
  · rename_i hmore
    have hi : (startWindow toLowerCase s it latest lib).i = 0 := by
      unfold startWindow
      dsimp only
      split
      · split <;> rfl
      · rfl
    refine ⟨hmore, hkeys.eee.eq hblank.1, hkeys.tokenX.eq hblank.2, fun h hfirst hlast => ?_,
      startWindow_own latest hskips⟩
    rw [hi] at hlast
    omega
  · trivial

theorem loadTokenXKey_ok (latest : Nat) (hskips : NeverSkips c s) (hkeys : KeysOk c it) :
    NextOk c s it (loadTokenXKey toLowerCase s it latest lib) := by
  unfold loadTokenXKey
  split
  · trivial
  · exact withKeys_ok latest hskips hkeys

theorem loadEeeKey_ok (latest : Nat) (hskips : NeverSkips c s) (hkeys : KeysOk c it) :
    NextOk c s it (loadEeeKey toLowerCase s it latest lib) := by
  unfold loadEeeKey
  split
  · trivial
  · exact loadTokenXKey_ok latest hskips hkeys

/-- A block that is passed over is remembered. -/
theorem InPass.missed {blockHash : Text} (h : InPass c s it pass (some blockHash :: rest)) :
    InPass c s it { pass with missed := blockHash :: pass.missed } rest := by
  refine ⟨⟨h.window.more, h.window.eee, h.window.tokenX, h.window.between, h.window.own⟩,
    h.queried, fun n hfirst hlast htouches => ?_⟩
  rcases h.blocks n hfirst hlast htouches with hmem | hmissed | hsaved
  · rcases List.mem_cons.mp hmem with heq | hmem
    · exact .inr (.inl (by simp [Option.some.inj heq]))
    · exact .inl hmem
  · exact .inr (.inl (List.mem_cons_of_mem _ hmissed))
  · exact .inr (.inr hsaved)

/-- A block that is saved for the account of the round needs no more. -/
theorem InPass.save {blockHash : Text} (h : InPass c s it pass (some blockHash :: rest))
    (hs : Grows s s') (hsaved : (it.address, blockHash) ∈ s'.saved) : InPass c s' it pass rest := by
  obtain ⟨hwindow, hqueried, hblocks⟩ := h.grows hs
  refine ⟨hwindow, hqueried, fun n hfirst hlast htouches => ?_⟩
  rcases hblocks n hfirst hlast htouches with hmem | hrest
  · rcases List.mem_cons.mp hmem with heq | hmem
    · exact .inr (.inr (Option.some.inj heq ▸ hsaved))
    · exact .inl hmem
  · exact .inr hrest

theorem saveExtrinsicDetail_ok (lib : Library) {blockHash : Text}
    (h : InPass c s it pass (some blockHash :: rest)) :
    Grows s (saveExtrinsicDetail s it pass blockHash lib).1 ∧
      InPass c (saveExtrinsicDetail s it pass blockHash lib).1 it
        (saveExtrinsicDetail s it pass blockHash lib).2 rest := by
  unfold saveExtrinsicDetail
  dsimp only
  cases lib.saveExtrinsicDetail with
  | false => exact ⟨Grows.refl s, by simpa using h.missed⟩
  | true =>
    have hs : Grows s { s with saved := (s.current, blockHash) :: s.saved } :=
      ⟨fun _ hx => List.mem_cons_of_mem _ hx, fun _ hq => hq⟩
    refine ⟨hs, ?_⟩
    by_cases hcurrent : s.current = it.address
    · simpa [hcurrent] using h.save hs (by simp [hcurrent])
    · simpa [hcurrent] using h.missed.grows hs

/-- What one answer keeps. -/
structure Kept (s s' : State) (it it' : Instance) : Prop where
  grows : Grows s s'
  records : s'.records = s.records
  instances : s'.instances = s.instances
  address : it'.address = it.address
  starting : it'.starting = it.starting

theorem Kept.refl (s : State) (it : Instance) : Kept s s it it :=
  ⟨Grows.refl s, rfl, rfl, rfl, rfl⟩

/-- The changes of a window have the blocks that touch the account. -/
theorem InWindow.changes {w : Window} {start end_ : Text} {storageChanges : List (Option Text)}
    (h : InWindow c s it w) (hstart : c.HashOk w.currentStartBlockNum start)
    (hend : c.HashOk w.endBlockHeight end_)
    (hgives : c.Gives it (.queryStorage w start end_) (.changes storageChanges))
    {n : Nat} (hfirst : w.currentStartBlockNum ≤ n) (hlast : n ≤ w.endBlockHeight)
    (htouches : c.Touches it.address n) : some (c.hash n) ∈ storageChanges := by
  obtain ⟨⟨first, last, heqFirst, heqLast⟩, hcomplete⟩ := hgives
  have hstart' : start = c.hash w.currentStartBlockNum :=
    hstart.resolve_right fun hno => hno first heqFirst
  have hend' : end_ = c.hash w.endBlockHeight := hend.resolve_right fun hno => hno last heqLast
  refine hcomplete _ _ hstart' hend' n hfirst hlast ?_
  rw [h.eee, h.tokenX]
  exact htouches

/-- **An answer** keeps what holds of the round. -/
theorem advance_ok {waiting : Waiting} {answer : Answer} (hskips : NeverSkips c s)
    (hkeys : KeysOk c it) (hround : RoundOk c s it waiting) (hgives : c.Gives it waiting answer)
    {next : Next} (h : advance toLowerCase s it lib waiting answer = (s', it', next)) :
    Kept s s' it it' ∧ KeysOk c it' ∧ NextOk c s' it' next := by
  unfold advance at h
  split at h
  · cases h
    exact ⟨.refl s it, hkeys, trivial⟩
  · cases h
    exact ⟨.refl s it, hkeys, loadEeeKey_ok _ hskips hkeys⟩
  · rename_i key
    cases h
    have hkeys' : KeysOk c { it with eeeStorageKey := key } := ⟨hgives, hkeys.tokenX⟩
    exact ⟨⟨Grows.refl s, rfl, rfl, rfl, rfl⟩, hkeys', loadTokenXKey_ok _ hskips hkeys'⟩
  · rename_i key
    cases h
    have hkeys' : KeysOk c { it with tokenXStorageKey := key } := ⟨hkeys.eee, hgives⟩
    exact ⟨⟨Grows.refl s, rfl, rfl, rfl, rfl⟩, hkeys', withKeys_ok _ hskips hkeys'⟩
  · -- the hash of the first block, then that of the last, then the changes between them
    cases h
    refine ⟨.refl s it, hkeys, ?_⟩
    split
    · trivial
    · exact ⟨hround, hgives⟩
  · cases h
    refine ⟨.refl s it, hkeys, ?_⟩
    split
    · trivial
    · exact ⟨hround.1, hround.2, hgives⟩
  · rename_i w start end_ storageChanges
    -- the window has been queried from here on
    cases h
    obtain ⟨hwindow, hstart, hend⟩ := hround
    have hs : Grows s { s with
        queried := ⟨it.address, w.currentStartBlockNum, w.endBlockHeight⟩ :: s.queried } :=
      ⟨fun _ hx => hx, fun _ hq => List.mem_cons_of_mem _ hq⟩
    refine ⟨⟨hs, rfl, rfl, rfl, rfl⟩, hkeys, ?_⟩
    split
    · trivial
    · exact ⟨hwindow.grows hs, List.mem_cons_self, fun n hfirst hlast htouches =>
        .inl (hwindow.changes hstart hend hgives hfirst hlast htouches)⟩
  · cases h
    refine ⟨.refl s it, hkeys, ?_⟩
    split
    · exact InPass.missed hround
    · exact hround
  · cases h
    obtain ⟨hs, hpass⟩ := saveExtrinsicDetail_ok lib hround
    refine ⟨⟨hs, ?_, ?_, rfl, rfl⟩, hkeys, hpass⟩
    all_goals split <;> rfl
  · cases h
    exact ⟨.refl s it, hkeys, trivial⟩

variable (c) in
/-- What holds of an instance: before it is started it has no timer and no round. -/
structure InstanceOk (s : State) (it : Instance) : Prop where
  keys : KeysOk c it
  idle : it.starting.isSome → it.round = none ∧ it.timer = false
  round : ∀ waiting, it.round = some waiting → RoundOk c s it waiting

theorem InstanceOk.grows (h : InstanceOk c s it) (hs : Grows s s') : InstanceOk c s' it :=
  ⟨h.keys, h.idle, fun waiting hwaiting => (h.round waiting hwaiting).grows hs⟩

/-- An answer for a round. -/
theorem resume_ok (toLowerCase : Text → Text) (lib : Library) {waiting : Waiting} {answer : Answer}
    (hskips : NeverSkips c s)
    (h : InstanceOk c s it) (hround : it.round = some waiting)
    (hgives : c.Gives it waiting answer) :
    ∃ s' it', resume toLowerCase s it lib waiting answer = (s', it') ∧ Grows s s' ∧
      -- a waiting request excludes the start of an instance
      s'.instances = s.instances ∧
      (ResumeOk c toLowerCase s it lib waiting answer → NeverSkips c s' ∧ InstanceOk c s' it') ∧
      (NeverSkips c s' → ResumeOk c toLowerCase s it lib waiting answer) := by
  have hstarting : it.starting = none := by
    by_contra hsome
    rw [(h.idle (Option.isSome_iff_ne_none.mpr hsome)).1] at hround
    cases hround
  obtain ⟨s', it', next, hadvance⟩ :
      ∃ s' it' next, advance toLowerCase s it lib waiting answer = (s', it', next) :=
    ⟨_, _, _, rfl⟩
  obtain ⟨hkept, hkeys, hnext⟩ := advance_ok hskips h.keys (h.round _ hround) hgives hadvance
  have hskips' : NeverSkips c s' := hskips.grows hkept.grows hkept.records
  have hinstance : ∀ {s'' : State} {round : Option Waiting},
      (∀ waiting, round = some waiting → RoundOk c s'' it' waiting) →
      -- what is left to show of the instance when `advance` has kept the rest
      InstanceOk c s'' { it' with round := round } := by
    intro s'' round hwaiting
    refine ⟨⟨hkeys.eee, hkeys.tokenX⟩, fun hsome => ?_, fun waiting hsome => ?_⟩
    · rw [hkept.starting, hstarting] at hsome
      cases hsome
    · exact (hwaiting waiting hsome).congr rfl rfl rfl
  unfold resume
  rw [hadvance]
  cases next with
  | ends =>
    refine ⟨_, _, rfl, hkept.grows, hkept.instances, fun _ => ⟨hskips', hinstance ?_⟩, ?_⟩
    · exact fun _ hwaiting => nomatch hwaiting
    · intro _ _ s'' it'' pass rest hother
      rw [hadvance] at hother
      cases hother
  | awaits waiting' =>
    refine ⟨_, _, rfl, hkept.grows, hkept.instances, fun _ => ⟨hskips', hinstance ?_⟩, ?_⟩
    · intro waiting hwaiting
      cases hwaiting
      exact hnext
    · intro _ _ s'' it'' pass rest hother
      rw [hadvance] at hother
      -- the pass is checked when its elements are gone over
      cases hother
  | elements pass rest =>
    have hresume : ResumeOk c toLowerCase s it lib waiting answer ↔
        (lib.updateSyncRecord = true → (∀ x ∈ rest, x = none) →
          Passed c s' it.address pass) := by
      unfold ResumeOk
      rw [hadvance]
      constructor
      · exact fun h hlib hrest => h hlib _ _ _ _ rfl hrest
      · intro h hlib s'' it'' pass' rest' heq hrest
        cases heq
        exact h hlib hrest
    rw [hresume, ← hkept.address]
    rcases loopElements_cases lib hnext hskips' with
      ⟨waiting', heq, hok, hmore⟩ | ⟨heq, hlib⟩ | ⟨hlib, hrest, records, round, heq, hgood, hbad⟩
    · simp only [heq]
      refine ⟨_, _, rfl, hkept.grows, hkept.instances, fun _ => ⟨hskips', hinstance ?_⟩,
        fun _ _ hrest => absurd hrest hmore⟩
      intro waiting hwaiting
      cases hwaiting
      exact hok
    · simp only [heq]
      refine ⟨_, _, rfl, hkept.grows, hkept.instances, fun _ => ⟨hskips', hinstance ?_⟩, ?_⟩
      · exact fun _ hwaiting => nomatch hwaiting
      · intro _ hlib'
        rw [hlib] at hlib'
        cases hlib'
    · simp only [heq]
      refine ⟨_, _, rfl, ⟨hkept.grows.saved, hkept.grows.queried⟩, hkept.instances,
        fun hpassed => ?_, fun hnever _ _ => hbad hnever⟩
      obtain ⟨hnever, hrounds⟩ := hgood (hpassed hlib hrest)
      exact ⟨hnever, hinstance hrounds⟩

end Rounds

/-! ## Runs -/

section Runs

variable {c} {s s' : State} {toLowerCase : Text → Text}

variable (c) in
structure Inv (s : State) : Prop where
  skips : NeverSkips c s
  instances : ∀ it ∈ s.instances, InstanceOk c s it

theorem Inv.new (current : Text) : Inv c (State.new current) :=
  ⟨(fun _ hrecord => nomatch hrecord), (fun _ hit => nomatch hit)⟩

/-- An instance that is replaced. -/
theorem Inv.set {k : Nat} {it : Instance} (h : Inv c s) (hs : Grows s s')
    (hskips : NeverSkips c s') (hinstances : s'.instances = s.instances)
    (hit : InstanceOk c s' it) :
    Inv c { s' with instances := s'.instances.set k it } := by
  have hsame : Grows s' { s' with instances := s'.instances.set k it } :=
    ⟨fun _ hx => hx, fun _ hq => hq⟩
  refine ⟨hskips.grows hsame rfl, fun x hx => ?_⟩
  rcases List.mem_or_eq_of_mem_set hx with hold | rfl
  · rw [hinstances] at hold
    exact ((h.instances x hold).grows hs).grows hsame
  · exact hit.grows hsame

theorem Inv.stop (h : Inv c s) (k : Nat) : Inv c (s.stop k) := by
  have hs : Grows s (s.stop k) := ⟨fun _ hx => hx, fun _ hq => hq⟩
  refine ⟨h.skips.grows hs rfl, fun x hx => ?_⟩
  obtain ⟨i, hi, rfl⟩ := List.mem_iff_getElem.mp hx
  have hlength : i < s.instances.length := by simpa [State.stop] using hi
  have hold := (h.instances _ (List.getElem_mem hlength)).grows hs
  simp only [State.stop, List.getElem_modify] at hold ⊢
  split
  · refine ⟨⟨hold.keys.eee, hold.keys.tokenX⟩, fun hstarting => ⟨(hold.idle hstarting).1, rfl⟩, ?_⟩
    exact fun waiting hround => (hold.round waiting hround).congr rfl rfl rfl
  · exact hold

theorem Inv.startOnce (h : Inv c s) (address : Text) : Inv c (s.startOnce address) := by
  have hstopped : ∀ (others : List (Text × Nat)) {s : State}, Inv c s →
      Inv c (others.foldl (fun s r => s.stop r.2) s) := by
    intro others
    induction others with
    | nil => exact fun h => h
    | cons r others ih => exact fun h => ih (h.stop r.2)
  have hbefore := hstopped (s.registered.filter fun r => r.1 ≠ address) h
  unfold State.startOnce
  dsimp only at hbefore ⊢
  generalize List.foldl (fun (s : State) (r : Text × Nat) => s.stop r.2) s
    (s.registered.filter fun r => r.1 ≠ address) = stopped at hbefore ⊢
  split
  · refine ⟨hbefore.skips.grows ⟨fun _ hx => hx, fun _ hq => hq⟩ rfl, fun x hx => ?_⟩
    rcases List.mem_append.mp hx with hold | hnew
    · exact (hbefore.instances x hold).grows ⟨fun _ hx => hx, fun _ hq => hq⟩
    · rw [List.mem_singleton.mp hnew]
      exact ⟨⟨.inr rfl, .inr rfl⟩, fun _ => ⟨rfl, rfl⟩, fun _ hround => nomatch hround⟩
  · refine ⟨hbefore.skips.grows ⟨fun _ hx => hx, fun _ hq => hq⟩ rfl, fun x hx => ?_⟩
    exact (hbefore.instances x hx).grows ⟨fun _ hx => hx, fun _ hq => hq⟩

/-- An answer for `_start`, with which the timer may start. -/
theorem InstanceOk.started {it : Instance} {starting : Starting} {answer : Answer}
    (h : InstanceOk c s it) (hstarting : it.starting = some starting)
    (hgives : c.GivesStart it starting answer) : InstanceOk c s (it.started starting answer) := by
  obtain ⟨hround, htimer⟩ := h.idle (by rw [hstarting]; rfl)
  unfold Instance.started
  split
  · exact ⟨⟨h.keys.eee, h.keys.tokenX⟩, fun _ => ⟨hround, htimer⟩,
      fun _ hwaiting => by cases hround.symm.trans hwaiting⟩
  · exact ⟨⟨hgives, h.keys.tokenX⟩, fun _ => ⟨hround, htimer⟩,
      fun _ hwaiting => by cases hround.symm.trans hwaiting⟩
  · exact ⟨⟨h.keys.eee, hgives⟩, (fun hsome => nomatch hsome),
      fun _ hwaiting => by cases hround.symm.trans hwaiting⟩
  · exact ⟨⟨h.keys.eee, h.keys.tokenX⟩, (fun hsome => nomatch hsome),
      fun _ hwaiting => by cases hround.symm.trans hwaiting⟩

/-- **One action**: the condition keeps the invariant, and without it a block is skipped. -/
theorem step_ok {a : Action} (h : Inv c s) (hanswers : c.Answers s a) :
    (a.Ok c toLowerCase s → Inv c (step toLowerCase s a)) ∧
      (NeverSkips c (step toLowerCase s a) → a.Ok c toLowerCase s) := by
  cases a with
  | selectWallet address =>
    refine ⟨fun _ => ⟨h.skips.grows ⟨fun _ hx => hx, fun _ hq => hq⟩ rfl, fun x hx => ?_⟩,
      fun _ => trivial⟩
    exact (h.instances x hx).grows ⟨fun _ hx => hx, fun _ hq => hq⟩
  -- an instance starts with no round and no height, so that there is nothing to show
  | startOnce address => exact ⟨fun _ => h.startOnce address, fun _ => trivial⟩
  | started k answer =>
    refine ⟨fun _ => ?_, fun _ => trivial⟩
    unfold step
    dsimp only
    split
    · rename_i it hit
      split
      · rename_i starting hstarting
        have hok := h.instances it (List.mem_of_getElem? hit)
        exact h.set (Grows.refl s) h.skips rfl (hok.started hstarting (hanswers it _ hit hstarting))
      · exact h
    · exact h
  | tick k =>
    refine ⟨fun _ => ?_, fun _ => trivial⟩
    unfold step
    dsimp only
    split
    · rename_i it hit
      split
      · rename_i htick
        have hok := h.instances it (List.mem_of_getElem? hit)
        refine h.set (Grows.refl s) h.skips rfl ⟨⟨hok.keys.eee, hok.keys.tokenX⟩, ?_, ?_⟩
        · -- the timer is set only when the instance is started
          intro hstarting
          simp [(hok.idle hstarting).2] at htick
        · intro waiting hwaiting
          cases hwaiting
          trivial
      · exact h
    · exact h
  | resume k answer lib =>
    unfold step Action.Ok
    dsimp only
    cases hit : s.instances[k]? with
    | none => exact ⟨fun _ => h, fun _ _ _ hsome => nomatch hsome⟩
    | some it =>
      dsimp only
      cases hround : it.round with
      | none =>
        refine ⟨fun _ => h, fun _ it' waiting hsome hwaiting => ?_⟩
        cases hsome
        cases hround.symm.trans hwaiting
      -- only a round that goes on writes records
      | some waiting =>
        have hok := h.instances it (List.mem_of_getElem? hit)
        obtain ⟨s', it', heq, hs, hinstances, hgood, hbad⟩ :=
          resume_ok toLowerCase lib h.skips hok hround (hanswers it waiting hit hround)
        dsimp only
        rw [heq]
        constructor
        · intro hresume
          obtain ⟨hskips, hit'⟩ := hgood (hresume it waiting rfl hround)
          exact h.set hs hskips hinstances hit'
        · intro hskips it'' waiting' hsome hwaiting
          cases hsome
          cases hround.symm.trans hwaiting
          exact hbad (hskips.grows ⟨fun _ hx => hx, fun _ hq => hq⟩ rfl)

/-- **What is synchronised**: with what a node and the library answer, no record of a run is ever
past a block that touches its account and is not saved for it, exactly if whenever a record is
written the blocks that were passed over need not be saved and the round started from the height
of its own account. -/
theorem neverSkips_run_iff (c : Chain) (toLowerCase : Text → Text) (current : Text)
    (as : List Action) (has : Guarded (step toLowerCase) c.Answers (State.new current) as) :
    (∀ pre, pre <+: as → NeverSkips c (run (step toLowerCase) (State.new current) pre)) ↔
      Guarded (step toLowerCase) (Action.Ok c toLowerCase) (State.new current) as := by
  have hgood : ∀ s, Inv c s → NeverSkips c s := fun _ h => h.skips
  have hstep : ∀ s a, Inv c s → c.Answers s a → a.Ok c toLowerCase s →
      Inv c (step toLowerCase s a) := fun _ _ h hanswers => (step_ok h hanswers).1
  have hbad : ∀ s a, Inv c s → c.Answers s a → ¬ a.Ok c toLowerCase s →
      ¬ NeverSkips c (step toLowerCase s a) :=
    fun _ _ h hanswers hno hnever => hno ((step_ok h hanswers).2 hnever)
  exact forall_prefix_iff_guarded_of_valid hgood hstep hbad (Inv.new current) has

end Runs

/-! ## One window -/

/-- The hash of a height with this many digits. -/
def Chain.tally (n : Nat) : Text := List.replicate (n + 1) 'b'

/-- A chain in which every account is touched by the block of height 3. -/
def Chain.third : Chain where
  hash := tally
  eeeKey _ := ['e']
  tokenXKey _ := ['t']
  Changed _ h := h = 3
  genesis _ := by decide

/-- The first round of an account on a chain of height 5, in which saving is tried. -/
def firstRound (save : Bool) : List Action :=
  let lib : Library := ⟨true, true, true⟩
  [.startOnce ['a'], .started 0 .config, .started 0 (.storageKey ['e']),
    .started 0 (.storageKey ['t']), .tick 0, .resume 0 .config lib, .resume 0 (.header 5) lib,
    .resume 0 (.blockHash (Chain.tally 1)) lib, .resume 0 (.blockHash (Chain.tally 5)) lib,
    .resume 0 (.changes [some (Chain.tally 3)]) lib, .resume 0 (.block [['x'], ['y']]) lib,
    .resume 0 .events { lib with saveExtrinsicDetail := save }]

theorem Chain.answers_started {c : Chain} {s : State} {k : Nat} {answer : Answer} {it : Instance}
    {starting : Starting} (hit : s.instances[k]? = some it)
    (hstarting : it.starting = some starting)
    (h : c.GivesStart it starting answer) : c.Answers s (.started k answer) := by
  intro it' starting' hit' hstarting'
  cases hit.symm.trans hit'
  cases hstarting.symm.trans hstarting'
  exact h

theorem Chain.answers_resume {c : Chain} {s : State} {k : Nat} {answer : Answer} {lib : Library}
    {it : Instance} {waiting : Waiting} (hit : s.instances[k]? = some it)
    (hround : it.round = some waiting) (h : c.Gives it waiting answer) :
    c.Answers s (.resume k answer lib) := by
  intro it' waiting' hit' hround'
  cases hit.symm.trans hit'
  cases hround.symm.trans hround'
  exact h

theorem answers_firstRound (save : Bool) :
    Guarded (step id) Chain.third.Answers (State.new ['a']) (firstRound save) := by
  have hchanges : ∀ it w, Chain.third.Gives it (.queryStorage w (Chain.tally 1) (Chain.tally 5))
      (.changes [some (Chain.tally 3)]) := by
    refine fun it w => ⟨⟨1, 5, rfl, rfl⟩, fun _ _ _ _ h _ _ hchanged => ?_⟩
    rcases hchanged with hthird | hthird
    all_goals
      rw [show h = 3 from hthird]
      exact List.mem_singleton.mpr rfl
  refine ⟨trivial, Chain.answers_started rfl rfl trivial, Chain.answers_started rfl rfl (.inl rfl),
    Chain.answers_started rfl rfl (.inl rfl), trivial, Chain.answers_resume rfl rfl trivial,
    Chain.answers_resume rfl rfl trivial, Chain.answers_resume rfl rfl (.inl rfl),
    Chain.answers_resume rfl rfl (.inl rfl), Chain.answers_resume rfl rfl (hchanges _ _),
    Chain.answers_resume rfl rfl trivial, Chain.answers_resume rfl rfl trivial, trivial⟩

theorem neverSkips_firstRound :
    (∀ pre, pre <+: firstRound true →
        NeverSkips Chain.third (run (step id) (State.new ['a']) pre)) ↔
      Guarded (step id) (Action.Ok Chain.third id) (State.new ['a']) (firstRound true) :=
  neverSkips_run_iff Chain.third id ['a'] (firstRound true) (answers_firstRound true)

/-- The block of height 3 could not be saved, and the record of its account is at height 5. -/
theorem not_neverSkips_saveFailed : ¬ ∀ (c : Chain) (toLowerCase : Text → Text) (current : Text)
    (as : List Action), Guarded (step toLowerCase) c.Answers (State.new current) as →
    ∀ pre, pre <+: as → NeverSkips c (run (step toLowerCase) (State.new current) pre) := by
  intro hall
  have hnever := hall Chain.third id ['a'] (firstRound false) (answers_firstRound false)
    (firstRound false) List.prefix_rfl
  have hrecord : (run (step id) (State.new ['a']) (firstRound false)).records =
      [⟨['a'], 5, Chain.tally 5⟩] := by decide +kernel
  have hnone : (run (step id) (State.new ['a']) (firstRound false)).saved = [] := by
    decide +kernel
  have hmem : ⟨['a'], 5, Chain.tally 5⟩ ∈
      (run (step id) (State.new ['a']) (firstRound false)).records := by
    rw [hrecord]
    exact List.mem_singleton.mpr rfl
  have hdone : Done Chain.third _ ['a'] 3 := hnever _ hmem 3 (Nat.le_add_left 3 2)
  have hsaved := hdone.1 (.inl rfl)
  rw [hnone] at hsaved
  cases hsaved

end Cashbox.Eee.SyncTxs
