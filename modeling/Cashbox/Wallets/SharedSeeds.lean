import Cashbox.Lib.Run
import Cashbox.Wallets.CreateEffect

/-!
# Wallets with the same seed

A mnemonic is compared by a digest of its text, but a wallet is what is derived from its seed,
and a phrase may be spelled in several ways. A wallet shares its seed with a normal one only
where the same phrase was spelled in two ways.
-/

namespace Cashbox.Wallets

open Cashbox.Lib Cashbox.Crypto

/-! ## Runs -/

inductive WalletCall where
  /-- With the network of the context, and the encryption with its random bytes. -/
  | createWallet (netType : NetType) (parameters : CreateWalletParameters)
      (encryptMnemonic : Bytes → Bytes → Text)
  | removeWallet (walletId password : Text)

/-- The databases, and the phrase that each wallet was created with. -/
structure WalletsRun where
  session : Session Databases
  mnemonicOf : Text → Text

namespace WalletsRun

/-- There are no wallets yet. -/
def start (db : Databases) : WalletsRun where
  session := ⟨{ db with walletsDb := { db.walletsDb with wallet := [], address := [] } }, 0⟩
  mnemonicOf _ := []

abbrev wallets (s : WalletsRun) : List (Saved MWallet) := s.session.store.secrets.wallet

abbrev addresses (s : WalletsRun) : List (Saved MAddress) := s.session.store.secrets.address

variable (env : Surroundings) (lib : Libraries)
  (getMnemonicContext : Text → Bytes → Except Eee.Error Bytes)

def step (s : WalletsRun) : WalletCall → WalletsRun
  | .createWallet netType parameters encryptMnemonic =>
    { session :=
        ((createWallet env { lib with encryptMnemonic } netType parameters).run s.session).1
      -- a wallet that was not there has this phrase
      mnemonicOf := fun id =>
        if id ∈ s.wallets.map fun w => w.shared.id then s.mnemonicOf id else parameters.mnemonic }
  | .removeWallet walletId password =>
    { s with
      session := ((removeWallet env getMnemonicContext walletId password).run s.session).1 }

/-! ## No seed of a normal wallet is shared -/

variable (seed : Text → Option Bytes)

/-- Two phrases from which the same seed is derived. -/
def SameSeed (mn mn' : Text) : Prop := ∃ x, seed mn = some x ∧ seed mn' = some x

def IsNormal (w : Saved MWallet) : Prop := w.row.walletType = WalletType.normal.toString

instance (w : Saved MWallet) : Decidable (IsNormal w) :=
  inferInstanceAs (Decidable (w.row.walletType = WalletType.normal.toString))

/-- No two wallets of which one is normal have the same seed. -/
def SeedsApart (s : WalletsRun) : Prop :=
  ∀ w ∈ s.wallets, ∀ w' ∈ s.wallets, w ≠ w' → IsNormal w ∨ IsNormal w' →
    ¬ SameSeed seed (s.mnemonicOf w.shared.id) (s.mnemonicOf w'.shared.id)

/-- No mnemonic is shared with a normal wallet: no seed is, and no address of a normal wallet is
one of another wallet. -/
structure NoneShared (s : WalletsRun) : Prop where
  seeds : SeedsApart seed s
  addresses : ∀ a ∈ s.addresses, ∀ a' ∈ s.addresses, a.row.address = a'.row.address →
    ∀ w ∈ s.wallets, ∀ w' ∈ s.wallets, w.shared.id = a.row.walletId →
      w'.shared.id = a'.row.walletId → IsNormal w → w = w'

/-- The wallets that a new one may not share its seed with. -/
def Rival (parameters : CreateWalletParameters) (w : Saved MWallet) : Prop :=
  IsNormal w ∨ WalletType.ofText parameters.walletType = .normal

/-- Where the seed of a new wallet is that of a rival, its phrase is spelled as that of a rival. -/
def SpelledAlike (s : WalletsRun) : WalletCall → Prop
  | .createWallet netType parameters _ =>
    (WalletType.ofText parameters.walletType).checkChainTypeMatch netType = true →
      (∃ w ∈ s.wallets, Rival parameters w ∧
        SameSeed seed (s.mnemonicOf w.shared.id) parameters.mnemonic) →
      ∃ w ∈ s.wallets, Rival parameters w ∧ s.mnemonicOf w.shared.id = parameters.mnemonic
  | .removeWallet _ _ => True

/-- What holds of the stored wallets after any calls. -/
structure Recorded (s : WalletsRun) : Prop where
  ids : DrawnIds env s.session
  digest : ∀ w ∈ s.wallets, w.row.mnemonicDigest = mnemonicDigest lib (s.mnemonicOf w.shared.id)
  owned : ∀ a ∈ s.addresses, a.row.walletId ∈ s.wallets.map fun w => w.shared.id
  derived : ∀ a ∈ s.addresses, AddressOf lib (s.mnemonicOf a.row.walletId) a.row.walletId a

/-- The invariant of the runs. -/
structure KeptApart (s : WalletsRun) : Prop where
  recorded : Recorded env lib s
  seeds : SeedsApart seed s

end WalletsRun

/-- An address is derived from one seed only. -/
def Libraries.TellsSeeds (lib : Libraries) (seed : Text → Option Bytes) : Prop :=
  ∀ mn mn' walletId walletId' a a', AddressOf lib mn walletId a → AddressOf lib mn' walletId' a' →
    a.row.address = a'.row.address → WalletsRun.SameSeed seed mn mn'

/-! ## Removals -/

section Removal

variable {env : Surroundings} {s₀ s : Session Databases}

/-- The rows of other wallets, and all backups. -/
def Secrets.withoutWallet (walletId : Text) (secrets : Secrets) : Secrets :=
  { secrets with
    wallet := secrets.wallet.filter fun w => w.shared.id ≠ walletId
    address := secrets.address.filter fun a => a.row.walletId ≠ walletId }

/-- A removal takes a wallet and its addresses, or nothing. -/
def RemoveEffect (walletId : Text) (s s' : Session Databases) : Prop :=
  KeepsSecrets s s' ∨
    s.calls ≤ s'.calls ∧ s'.store.secrets = s.store.secrets.withoutWallet walletId

theorem leaves_removeData (walletId : Text) (netTypes : List NetType) (h : KeepsSecrets s₀ s) :
    Leaves (removeData env walletId netTypes) s (KeepsSecrets s₀) fun _ => KeepsSecrets s₀ := by
  induction netTypes generalizing s with
  | nil => exact Leaves.pure h h
  | cons netType netTypes ih =>
    have hstep : ∀ (f : DataDb → DataDb) {s : Session Databases}, KeepsSecrets s₀ s →
        Leaves (onDataDb env netType f) s (KeepsSecrets s₀) fun _ => KeepsSecrets s₀ :=
      fun f _ h => Leaves.execute (h.step rfl) (h.step rfl) (h.step rfl)
    refine Leaves.bind (hstep _ h) fun _ _ h₁ => ?_
    refine Leaves.bind (hstep _ h₁) fun _ _ h₂ => ?_
    refine Leaves.bind (hstep _ h₂) fun _ _ h₃ => ?_
    exact Leaves.bind (hstep _ h₃) fun _ _ h₄ => ih h₄

theorem leaves_removeRows (walletId : Text) (h : KeepsSecrets s₀ s) :
    Leaves (removeRows env walletId) s (RemoveEffect walletId s₀) fun _ _ => True := by
  have hkeeps : ∀ s', KeepsSecrets s₀ s' → RemoveEffect walletId s₀ s' := fun _ => .inl
  refine Leaves.bind (Q := fun tx s' => KeepsSecrets s₀ s' ∧ tx = s.store.walletsDb)
    (Leaves.beginTx (hkeeps _ (h.step rfl)) ⟨h.step rfl, rfl⟩) ?_
  rintro _ s₁ ⟨h₁, rfl⟩
  refine Leaves.bind (Q := fun tx s' => KeepsSecrets s₀ s' ∧
    tx = s.store.walletsDb.removeWallet walletId)
    (Leaves.inTx (hkeeps _ (h₁.step rfl)) ⟨h₁.step rfl, rfl⟩) ?_
  rintro _ s₂ ⟨h₂, rfl⟩
  refine Leaves.bind (Q := fun tx s' => KeepsSecrets s₀ s' ∧
    tx = (s.store.walletsDb.removeWallet walletId).removeAddress walletId)
    (Leaves.inTx (hkeeps _ (h₂.step rfl)) ⟨h₂.step rfl, rfl⟩) ?_
  rintro _ s₃ ⟨h₃, rfl⟩
  have hremoved : Databases.secrets { s₃.store with
      walletsDb := (s.store.walletsDb.removeWallet walletId).removeAddress walletId } =
        s₀.store.secrets.withoutWallet walletId := by
    have hmnemonic : s₃.store.mnemonicDb = s.store.mnemonicDb :=
      congrArg Secrets.mnemonic (h₃.secrets.trans h.secrets.symm)
    rw [← h.secrets]
    unfold Databases.secrets
    rw [hmnemonic]
    rfl
  refine Leaves.bind (Q := fun _ s' => s₀.calls ≤ s'.calls ∧
    s'.store.secrets = s₀.store.secrets.withoutWallet walletId)
    (Leaves.commitTx (hkeeps _ (h₃.step rfl)) (.inr ⟨Nat.le_succ_of_le h₃.calls, hremoved⟩)
      ⟨Nat.le_succ_of_le h₃.calls, hremoved⟩) ?_
  rintro _ s₄ ⟨hcalls, hsecrets⟩
  exact (leaves_removeData walletId NetType.iter (KeepsSecrets.refl s₄)).mono
    (fun s' h' => .inr ⟨Nat.le_trans hcalls h'.calls, h'.secrets.trans hsecrets⟩)
    fun _ _ _ => trivial

theorem removeEffect_run (getMnemonicContext : Text → Bytes → Except Eee.Error Bytes)
    (walletId password : Text) (s : Session Databases) :
    RemoveEffect walletId s ((removeWallet env getMnemonicContext walletId password).run s).1 := by
  have h := KeepsSecrets.refl s
  have hkeeps : ∀ s', KeepsSecrets s s' → RemoveEffect walletId s s' := fun _ => .inl
  have hleaves : Leaves (removeWallet env getMnemonicContext walletId password) s
      (RemoveEffect walletId s) fun _ _ => True := by
    refine Leaves.bind ((leaves_getSetting _ h).mono hkeeps fun _ _ hQ => hQ) ?_
    intro setting s₁ h₁
    split
    · exact Leaves.lift (.inl h₁) fun _ _ => trivial
    · refine Leaves.bind (Q := fun _ => KeepsSecrets s)
        (Leaves.query (.inl (h₁.step rfl)) fun _ _ => h₁.step rfl) ?_
      intro mWallet s₂ h₂
      unfold removeFound
      split
      · exact Leaves.lift (.inl h₂) fun _ _ => trivial
      · split
        · exact Leaves.lift (.inl h₂) fun _ _ => trivial
        · exact leaves_removeRows walletId h₂
  exact hleaves.ends

end Removal

/-! ## One call -/

namespace WalletsRun

section Step

variable {env : Surroundings} {lib : Libraries} {seed : Text → Option Bytes} {s : WalletsRun}

theorem addressOf_encryptMnemonic {encryptMnemonic : Bytes → Bytes → Text} {mn walletId : Text}
    {a : Saved MAddress} (h : AddressOf { lib with encryptMnemonic } mn walletId a) :
    AddressOf lib mn walletId a := by
  obtain ⟨hid, chain, walletType, netType, addr, haddr, haddress⟩ := h
  refine ⟨hid, chain, walletType, netType, addr, ?_, haddress⟩
  cases chain <;> exact haddr

theorem SameSeed.symm {mn mn' : Text} (h : SameSeed seed mn mn') : SameSeed seed mn' mn := by
  obtain ⟨x, hx, hx'⟩ := h
  exact ⟨x, hx', hx⟩

/-- The addresses follow the seeds. -/
theorem Recorded.noneShared (h : Recorded env lib s) (htells : lib.TellsSeeds seed)
    (hseeds : SeedsApart seed s) : NoneShared seed s where
  seeds := hseeds
  addresses := by
    intro a ha a' ha' haddress w hw w' hw' hid hid' hnormal
    by_contra hne
    have hsame : SameSeed seed (s.mnemonicOf w.shared.id) (s.mnemonicOf w'.shared.id) := by
      rw [hid, hid']
      exact htells _ _ _ _ a a' (h.derived a ha) (h.derived a' ha') haddress
    exact hseeds w hw w' hw' hne (.inl hnormal) hsame

/-! ### Wallets that stay -/

/-- Some wallets and addresses stay, each address with its wallet. -/
structure Stay (s s' : WalletsRun) : Prop where
  calls : s.session.calls ≤ s'.session.calls
  wallets : s'.wallets.Sublist s.wallets
  addresses : s'.addresses ⊆ s.addresses
  owned : ∀ a ∈ s'.addresses, a.row.walletId ∈ s'.wallets.map fun w => w.shared.id
  mnemonicOf : ∀ id ∈ s.wallets.map (fun w => w.shared.id), s'.mnemonicOf id = s.mnemonicOf id

theorem Recorded.stay (h : Recorded env lib s) {s' : WalletsRun} (hstay : Stay s s') :
    Recorded env lib s' where
  ids := h.ids.sublist hstay.calls (hstay.wallets.map _)
  digest w hw := by
    have hw := hstay.wallets.subset hw
    rw [hstay.mnemonicOf _ (List.mem_map_of_mem hw)]
    exact h.digest w hw
  owned := hstay.owned
  derived a ha := by
    have ha := hstay.addresses ha
    rw [hstay.mnemonicOf _ (h.owned a ha)]
    exact h.derived a ha

theorem SeedsApart.stay (h : SeedsApart seed s) {s' : WalletsRun} (hstay : Stay s s') :
    SeedsApart seed s' := by
  intro w hw w' hw' hne hnormal
  have hw := hstay.wallets.subset hw
  have hw' := hstay.wallets.subset hw'
  rw [hstay.mnemonicOf _ (List.mem_map_of_mem hw), hstay.mnemonicOf _ (List.mem_map_of_mem hw')]
  exact h w hw w' hw' hne hnormal

/-- No wallet and no address is gone. -/
theorem Recorded.stay_of_secrets (h : Recorded env lib s) {s' : WalletsRun}
    (hcalls : s.session.calls ≤ s'.session.calls)
    (hwallets : s'.wallets = s.wallets) (haddresses : s'.addresses = s.addresses)
    (hmnemonic : ∀ id ∈ s.wallets.map (fun w => w.shared.id), s'.mnemonicOf id = s.mnemonicOf id) :
    Stay s s' where
  calls := hcalls
  wallets := by
    rw [hwallets]
  addresses := by
    rw [haddresses]
    exact List.Subset.refl _
  owned a ha := by
    rw [haddresses] at ha
    rw [hwallets]
    exact h.owned a ha
  mnemonicOf := hmnemonic

/-- One wallet is gone, and its addresses. -/
theorem Recorded.stay_of_filter (h : Recorded env lib s) {s' : WalletsRun} {walletId : Text}
    (hcalls : s.session.calls ≤ s'.session.calls)
    (hwallets : s'.wallets = s.wallets.filter fun w => w.shared.id ≠ walletId)
    (haddresses : s'.addresses = s.addresses.filter fun a => a.row.walletId ≠ walletId)
    (hmnemonic : ∀ id ∈ s.wallets.map (fun w => w.shared.id), s'.mnemonicOf id = s.mnemonicOf id) :
    Stay s s' where
  calls := hcalls
  wallets := by
    rw [hwallets]
    exact List.filter_sublist
  addresses := by
    rw [haddresses]
    exact List.filter_subset_self _
  owned a ha := by
    rw [haddresses] at ha
    obtain ⟨ha, hne⟩ := List.mem_filter.mp ha
    obtain ⟨w, hw, hid⟩ := List.mem_map.mp (h.owned a ha)
    rw [hwallets]
    refine List.mem_map.mpr ⟨w, List.mem_filter.mpr ⟨hw, ?_⟩, hid⟩
    rw [hid]
    exact hne
  mnemonicOf := hmnemonic

theorem Recorded.stay_removeWallet (h : Recorded env lib s)
    (getMnemonicContext : Text → Bytes → Except Eee.Error Bytes) (walletId password : Text) :
    Stay s (step env lib getMnemonicContext s (.removeWallet walletId password)) := by
  have heffect : RemoveEffect walletId s.session
      ((removeWallet env getMnemonicContext walletId password).run s.session).1 :=
    removeEffect_run getMnemonicContext walletId password s.session
  rcases heffect with hkeeps | ⟨hcalls, hsecrets⟩
  · exact h.stay_of_secrets hkeeps.calls (congrArg Secrets.wallet hkeeps.secrets)
      (congrArg Secrets.address hkeeps.secrets) fun _ _ => rfl
  · exact h.stay_of_filter hcalls (congrArg Secrets.wallet hsecrets)
      (congrArg Secrets.address hsecrets) fun _ _ => rfl

/-! ### A wallet more -/

/-- A phrase that passes the checks has the seed of no rival. -/
theorem Recorded.not_sameSeed (h : Recorded env lib s) {netType : NetType}
    {parameters : CreateWalletParameters} {encryptMnemonic : Bytes → Bytes → Text}
    (hpasses : Passes lib netType parameters s.session.store)
    (hspelled : SpelledAlike seed s (.createWallet netType parameters encryptMnemonic)) :
    ∀ w ∈ s.wallets, Rival parameters w →
      ¬ SameSeed seed (s.mnemonicOf w.shared.id) parameters.mnemonic := by
  intro w hw hrival hsame
  obtain ⟨w', hw', hrival', hmnemonic⟩ := hspelled hpasses.chainTypeMatch ⟨w, hw, hrival, hsame⟩
  have hdigest : w'.row.mnemonicDigest = mnemonicDigest lib parameters.mnemonic := by
    rw [h.digest w' hw', hmnemonic]
  have hduplicate : w' ∈ duplicates (mnemonicDigest lib parameters.mnemonic)
      (WalletType.ofText parameters.walletType) s.session.store.walletsDb := by
    unfold duplicates
    split
    · rename_i htest
      have hnormal : IsNormal w' := by
        refine hrival'.resolve_right fun hnormal => ?_
        rw [htest] at hnormal
        cases hnormal
      exact List.mem_filter.mpr ⟨hw', decide_eq_true ⟨hdigest, hnormal⟩⟩
    · exact List.mem_filter.mpr ⟨hw', decide_eq_true hdigest⟩
  rw [hpasses.isNew] at hduplicate
  cases hduplicate

/-- A wallet is added, with its phrase and its addresses. -/
structure Adds (s s' : WalletsRun) (mWallet : Saved MWallet) (addresses : List (Saved MAddress))
    (mn : Text) : Prop where
  wallets : s'.wallets = s.wallets ++ [mWallet]
  addresses : s'.addresses = s.addresses ++ addresses
  /-- No wallet has its identifier. -/
  id : mWallet.shared.id ∉ s.wallets.map fun w => w.shared.id
  mnemonicOf : ∀ id ∈ s.wallets.map (fun w => w.shared.id), s'.mnemonicOf id = s.mnemonicOf id
  mnemonic : s'.mnemonicOf mWallet.shared.id = mn

section Added

variable {s' : WalletsRun} {mWallet : Saved MWallet} {addresses : List (Saved MAddress)} {mn : Text}

theorem Recorded.adds (h : Recorded env lib s) (hadds : Adds s s' mWallet addresses mn)
    (hids : DrawnIds env s'.session)
    (hdigest : mWallet.row.mnemonicDigest = mnemonicDigest lib mn)
    (hderived : ∀ a ∈ addresses, AddressOf lib mn mWallet.shared.id a) :
    Recorded env lib s' where
  ids := hids
  digest := by
    rw [hadds.wallets, List.forall_mem_append]
    refine ⟨fun w hw => ?_, ?_⟩
    · rw [hadds.mnemonicOf _ (List.mem_map_of_mem hw)]
      exact h.digest w hw
    · simpa [hadds.mnemonic] using hdigest
  owned := by
    rw [hadds.addresses, hadds.wallets, List.map_append, List.forall_mem_append]
    refine ⟨fun a ha => List.mem_append_left _ (h.owned a ha), fun a ha => ?_⟩
    rw [(hderived a ha).1]
    exact List.mem_append_right _ (List.mem_singleton_self _)
  derived := by
    rw [hadds.addresses, List.forall_mem_append]
    refine ⟨fun a ha => ?_, fun a ha => ?_⟩
    · rw [hadds.mnemonicOf _ (h.owned a ha)]
      exact h.derived a ha
    · rw [(hderived a ha).1, hadds.mnemonic]
      exact hderived a ha

theorem SeedsApart.adds (h : SeedsApart seed s) (hadds : Adds s s' mWallet addresses mn)
    (hnew : ∀ w ∈ s.wallets, IsNormal w ∨ IsNormal mWallet →
      ¬ SameSeed seed (s.mnemonicOf w.shared.id) mn) : SeedsApart seed s' := by
  intro w hw w' hw' hne hnormal
  rw [hadds.wallets, List.mem_append, List.mem_singleton] at hw hw'
  rcases hw with hw | rfl <;> rcases hw' with hw' | rfl
  · rw [hadds.mnemonicOf _ (List.mem_map_of_mem hw), hadds.mnemonicOf _ (List.mem_map_of_mem hw')]
    exact h w hw w' hw' hne hnormal
  · rw [hadds.mnemonicOf _ (List.mem_map_of_mem hw), hadds.mnemonic]
    exact hnew w hw hnormal
  · rw [hadds.mnemonicOf _ (List.mem_map_of_mem hw'), hadds.mnemonic]
    exact fun hsame => hnew w' hw' hnormal.symm hsame.symm
  · exact absurd rfl hne

end Added

/-! ### All calls -/

variable (getMnemonicContext : Text → Bytes → Except Eee.Error Bytes)

/-- A creation that passes its checks adds the wallet, or no wallet. -/
theorem KeptApart.createWallet (hdraws : env.DrawsOnce) (h : KeptApart env lib seed s)
    {netType : NetType} {parameters : CreateWalletParameters}
    {encryptMnemonic : Bytes → Bytes → Text}
    (hspelled : SpelledAlike seed s (.createWallet netType parameters encryptMnemonic)) :
    KeptApart env lib seed (step env lib getMnemonicContext s
      (.createWallet netType parameters encryptMnemonic)) := by
  obtain ⟨s', hs'⟩ : ∃ s', s' = step env lib getMnemonicContext s
      (.createWallet netType parameters encryptMnemonic) := ⟨_, rfl⟩
  have hsession : s'.session = ((Wallets.createWallet env { lib with encryptMnemonic } netType
      parameters).run s.session).1 := by
    rw [hs']
    rfl
  have hmnemonic : ∀ id ∈ s.wallets.map (fun w => w.shared.id),
      s'.mnemonicOf id = s.mnemonicOf id := by
    intro id hid
    rw [hs']
    exact if_pos hid
  have heffect := createEffect_run hdraws.ne_nil { lib with encryptMnemonic } netType parameters
    s.session
  rw [← hsession] at heffect
  rw [← hs']
  -- without a new wallet the rows are as they were
  have hstays (hcalls : s.session.calls ≤ s'.session.calls) (hwallets : s'.wallets = s.wallets)
      (haddresses : s'.addresses = s.addresses) : KeptApart env lib seed s' := by
    have hstay := h.recorded.stay_of_secrets hcalls hwallets haddresses hmnemonic
    exact ⟨h.recorded.stay hstay, h.seeds.stay hstay⟩
  rcases heffect with hkeeps | ⟨backup, hcalls, hsecrets⟩ | ⟨mWallet, addresses, backup, hadds⟩
  · exact hstays hkeeps.calls (congrArg Secrets.wallet hkeeps.secrets)
      (congrArg Secrets.address hkeeps.secrets)
  · have hwallets : s'.wallets = s.wallets := (congrArg Secrets.wallet hsecrets).trans rfl
    have haddresses : s'.addresses = s.addresses := (congrArg Secrets.address hsecrets).trans rfl
    exact hstays hcalls hwallets haddresses
  · -- the new wallet has an id that was never drawn
    have hnew := h.recorded.ids.not_mem hdraws hadds
    have hadds' : Adds s s' mWallet addresses parameters.mnemonic := by
      refine ⟨congrArg Secrets.wallet hadds.secrets, congrArg Secrets.address hadds.secrets, hnew,
        hmnemonic, ?_⟩
      rw [hs']
      exact if_neg hnew
    have hpasses : Passes lib netType parameters s.session.store :=
      ⟨hadds.passes.chainTypeMatch, hadds.passes.isNew⟩
    constructor
    · refine h.recorded.adds hadds' (h.recorded.ids.adds hdraws hadds) ?_ fun a ha =>
        addressOf_encryptMnemonic (hadds.derived a ha)
      rw [hadds.row]
      rfl
    · refine h.seeds.adds hadds' fun w hw hnormal =>
        h.recorded.not_sameSeed hpasses hspelled w hw ?_
      refine hnormal.imp_right fun hnormal => WalletType.toString_injective ?_
      rw [IsNormal, hadds.row] at hnormal
      exact hnormal

theorem keptApart_start (db : Databases) : KeptApart env lib seed (start db) where
  recorded :=
    { ids := ⟨fun _ hid => (nomatch hid), List.nodup_nil⟩
      digest := fun _ hw => nomatch hw
      owned := fun _ ha => nomatch ha
      derived := fun _ ha => nomatch ha }
  seeds _ hw := nomatch hw

/-- Every call keeps the seeds apart, if a seed is spelled in one way. -/
theorem keptApart_step (hdraws : env.DrawsOnce) (call : WalletCall)
    (h : KeptApart env lib seed s) (hspelled : SpelledAlike seed s call) :
    KeptApart env lib seed (step env lib getMnemonicContext s call) := by
  cases call with
  | createWallet netType parameters encryptMnemonic =>
    exact h.createWallet getMnemonicContext hdraws hspelled
  | removeWallet walletId password =>
    have hstay := h.recorded.stay_removeWallet getMnemonicContext walletId password
    exact ⟨h.recorded.stay hstay, h.seeds.stay hstay⟩

end Step

/-- **No mnemonic is shared with a normal wallet** at any time, if a phrase is never spelled in
a second way where the first or the second wallet is normal. -/
theorem noneShared_of_spelledAlike (env : Surroundings) (lib : Libraries)
    (getMnemonicContext : Text → Bytes → Except Eee.Error Bytes) (seed : Text → Option Bytes)
    (hdraws : env.DrawsOnce) (htells : lib.TellsSeeds seed) (db : Databases)
    (calls : List WalletCall)
    (h : Guarded (step env lib getMnemonicContext) (SpelledAlike seed) (start db) calls) :
    ∀ calls', calls' <+: calls →
      NoneShared seed (run (step env lib getMnemonicContext) (start db) calls') := by
  rintro calls' ⟨rest, rfl⟩
  have hguarded := (guarded_append.mp h).1
  have hkept : KeptApart env lib seed (run (step env lib getMnemonicContext) (start db) calls') :=
    hguarded.invariant (fun _ => keptApart_step getMnemonicContext hdraws) (keptApart_start db)
  exact hkept.recorded.noneShared htells hkept.seeds

/-! ### A phrase in two spellings -/

/-- A seed for which blanks do not matter. -/
def unspaced (mn : Text) : Bytes := mn.asBytes.filter (· ≠ 32)

/-- Libraries that derive everything from the seed. -/
def seedAddress : Libraries where
  keccak256 := id
  encryptMnemonic _ _ := ['m']
  generateEthAddress mn := .ok (hexEncode (unspaced mn), ['p'])
  generateEeeAddress mn := some (hexEncode (unspaced mn), ['p'])
  generateBtcAddress mn _ := .ok (hexEncode (mn.filter (· ≠ 32)), ['p'])

theorem addressOf_seedAddress {mn walletId : Text} {a : Saved MAddress}
    (h : AddressOf seedAddress mn walletId a) : a.row.address = hexEncode (unspaced mn) := by
  obtain ⟨-, chain, walletType, netType, addr, haddr, haddress⟩ := h
  rw [haddress]
  cases chain <;> cases haddr <;> rfl

theorem tellsSeeds_seedAddress : seedAddress.TellsSeeds fun mn => some (unspaced mn) := by
  intro mn mn' walletId walletId' a a' h h' haddress
  rw [addressOf_seedAddress h, addressOf_seedAddress h'] at haddress
  have hseed : unspaced mn = unspaced mn' := by
    have hdecoded := hexDecode_hexEncode (unspaced mn)
    rw [haddress, hexDecode_hexEncode] at hdecoded
    exact (Outcome.ok.inj hdecoded).symm
  exact ⟨unspaced mn, rfl, hseed ▸ rfl⟩

/-- No wallet, and no default token. -/
def noTokens : Databases where
  walletsDb := ⟨[], [], [], [], [], [], [], [], [], [], [], [], []⟩
  mnemonicDb := []
  dataDb _ := ⟨[], [], [], [], [], [], []⟩

/-- A normal wallet is created. -/
def createNormal (mn : Text) : WalletCall :=
  .createWallet .main ⟨['n'], ['p'], mn, "Normal".toList⟩ fun _ _ => ['m']

def afterCalls (calls : List WalletCall) : WalletsRun :=
  run (step (failsAt 100) seedAddress fun _ _ => .ok []) (start noTokens) calls

def phrase : Text :=
  "legal winner thank year wave sausage worth useful legal winner thank yellow".toList

/-- The phrase of a normal wallet is refused if it is spelled alike. -/
theorem noneShared_of_same_phrase :
    NoneShared (fun mn => some (unspaced mn))
      (afterCalls [createNormal phrase, createNormal phrase]) :=
  noneShared_of_spelledAlike (failsAt 100) seedAddress (fun _ _ => .ok [])
    (fun mn => some (unspaced mn)) (drawsOnce_failsAt 100) tellsSeeds_seedAddress noTokens
    [createNormal phrase, createNormal phrase] (by
      refine guarded_cons.mpr ⟨fun _ ⟨_, hw, _⟩ => (nomatch hw), ?_⟩
      refine guarded_cons.mpr ⟨fun _ _ => ?_, guarded_nil _ _ _⟩
      exact ⟨(afterCalls [createNormal phrase]).wallets.head (by decide), List.head_mem _,
        .inr (by decide), by decide⟩) _ List.prefix_rfl

/-- The same phrase with a blank before it makes a second normal wallet. -/
theorem not_noneShared_of_blank :
    (failsAt 100).DrawsOnce ∧ seedAddress.TellsSeeds (fun mn => some (unspaced mn)) ∧
      ¬ NoneShared (fun mn => some (unspaced mn))
        (afterCalls [createNormal phrase, createNormal (' ' :: phrase)]) := by
  refine ⟨drawsOnce_failsAt 100, tellsSeeds_seedAddress, fun h => ?_⟩
  have hfirst := List.head_mem (show (afterCalls
    [createNormal phrase, createNormal (' ' :: phrase)]).wallets ≠ [] by decide)
  have hlast := List.getLast_mem (show (afterCalls
    [createNormal phrase, createNormal (' ' :: phrase)]).wallets ≠ [] by decide)
  exact h.seeds _ hfirst _ hlast (by decide) (.inl (by decide))
    ⟨unspaced phrase, by decide, by decide⟩

end WalletsRun

end Cashbox.Wallets
