import Cashbox.Wallets.AddressRows
import Cashbox.Wallets.ResetPassword

/-!
# The phrases of the stored wallets

Whatever the calls on a store of wallets are, an address that is stored is one of the phrase
that its wallet was created with, and the keystore of the wallet opens to that phrase.
-/

namespace Cashbox.Wallets

open Cashbox.Lib Cashbox.Crypto

/-! ## Runs -/

inductive StoreCall where
  /-- With the random bytes that the encryption draws. -/
  | createWallet (netType : NetType) (parameters : CreateWalletParameters) (salt iv : Bytes)
  | removeWallet (walletId password : Text)
  | renameWallet (name walletId : Text)
  | resetWalletPassword (walletId oldPassword newPassword : Text) (salt iv : Bytes)
  /-- Any other call leaves the wallets, their addresses and the backups as they are. The tables
  of the settings, the tokens, the balances and the transactions become those of `db`. -/
  | other (db : Databases) (operations : Nat)

/-- The databases with the secrets of others. -/
def Databases.withSecrets (secrets : Secrets) (db : Databases) : Databases :=
  { db with
    walletsDb := { db.walletsDb with wallet := secrets.wallet, address := secrets.address }
    mnemonicDb := secrets.mnemonic }

/-- The check of the password before a removal. -/
def openKeystore (klib : Eee.KeyringLibraries) (rounds : Nat) (keystore : Text) (password : Bytes) :
    Except Eee.Error Bytes :=
  match Eee.getMnemonicContext klib rounds keystore password with
  | .ok mn => .ok mn
  | .err e => .error e
  -- of what is stored, with enough rounds, the check does not panic
  | .panic _ => .error .account

namespace WalletsRun

section Step

variable (env : Surroundings) (lib : Libraries) (klib : Eee.KeyringLibraries) (rounds : Nat)

def storeStep (s : WalletsRun) : StoreCall → WalletsRun
  | .createWallet netType parameters salt iv =>
    let lib := { lib with encryptMnemonic := keystoreOf klib rounds salt iv }
    { session := ((createWallet env lib netType parameters).run s.session).1
      -- a wallet that was not there has this phrase
      mnemonicOf := fun id =>
        if id ∈ s.session.store.secrets.walletIds then s.mnemonicOf id else parameters.mnemonic }
  | .removeWallet walletId password =>
    { s with
      session :=
        ((removeWallet env (openKeystore klib rounds) walletId password).run s.session).1 }
  | .renameWallet name walletId =>
    { s with session := ((renameWallet env name walletId).run s.session).1 }
  | .resetWalletPassword walletId oldPassword newPassword salt iv =>
    { s with
      session := ((resetWalletPassword env klib rounds salt iv walletId oldPassword newPassword).run
        s.session).1 }
  | .other db operations =>
    { s with
      session := ⟨db.withSecrets s.session.store.secrets, s.session.calls + operations⟩ }

end Step

end WalletsRun

/-- No other password gives the key that a call encrypts with. -/
def StoreCall.Separated (klib : Eee.KeyringLibraries) : StoreCall → Prop
  | createWallet _ parameters salt _ => klib.Separates salt parameters.password.asBytes
  | resetWalletPassword _ _ newPassword salt _ => klib.Separates salt newPassword.asBytes
  | _ => True

/-- The rounds that a call needs. -/
def StoreCall.rounds : StoreCall → Nat
  | createWallet _ parameters _ _ => roundsFor parameters.mnemonic.asBytes.length
  | _ => 0

/-! ## The invariant -/

namespace WalletsRun

/-- Every address is derived from the phrase of its wallet, and to that phrase its keystore
opens. -/
structure PhrasesKept (env : Surroundings) (lib : Libraries) (klib : Eee.KeyringLibraries)
    (rounds : Nat) (s : WalletsRun) : Prop where
  ids : DrawnIds env s.session
  enough : ∀ id ∈ s.session.store.secrets.walletIds,
    roundsFor (s.mnemonicOf id).asBytes.length ≤ rounds
  opens : ∀ w ∈ s.wallets, ∃ password : Text, Eee.OpensWith klib rounds w.row.mnemonic
    password.asBytes (s.mnemonicOf w.shared.id).asBytes
  owned : ∀ a ∈ s.addresses, a.row.walletId ∈ s.session.store.secrets.walletIds
  rows : ∀ a ∈ s.addresses, RowOf lib (s.mnemonicOf a.row.walletId) a

section Invariant

variable {env : Surroundings} {lib : Libraries} {klib : Eee.KeyringLibraries} {rounds : Nat}
  {s s' : WalletsRun}

theorem phrasesKept_start (db : Databases) : PhrasesKept env lib klib rounds (start db) where
  ids := ⟨fun _ hid => (nomatch hid), List.nodup_nil⟩
  enough _ hid := nomatch hid
  opens _ hw := nomatch hw
  owned _ ha := nomatch ha
  rows _ ha := nomatch ha

/-- No phrase is forgotten, and no wallet comes in. -/
structure Survives (klib : Eee.KeyringLibraries) (rounds : Nat) (s s' : WalletsRun) : Prop where
  calls : s.session.calls ≤ s'.session.calls
  ids : s'.session.store.secrets.walletIds.Sublist s.session.store.secrets.walletIds
  addresses : s'.addresses ⊆ s.addresses
  owned : ∀ a ∈ s'.addresses, a.row.walletId ∈ s'.session.store.secrets.walletIds
  mnemonicOf : ∀ id ∈ s.session.store.secrets.walletIds, s'.mnemonicOf id = s.mnemonicOf id
  opens : ∀ w ∈ s'.wallets, ∃ password : Text, Eee.OpensWith klib rounds w.row.mnemonic
    password.asBytes (s.mnemonicOf w.shared.id).asBytes

theorem PhrasesKept.survives (h : PhrasesKept env lib klib rounds s)
    (hsurvives : Survives klib rounds s s') : PhrasesKept env lib klib rounds s' where
  ids := h.ids.sublist hsurvives.calls hsurvives.ids
  enough id hid := by
    have hid := hsurvives.ids.subset hid
    rw [hsurvives.mnemonicOf id hid]
    exact h.enough id hid
  opens w hw := by
    have hid := hsurvives.ids.subset (List.mem_map_of_mem hw)
    rw [hsurvives.mnemonicOf _ hid]
    exact hsurvives.opens w hw
  owned := hsurvives.owned
  rows a ha := by
    have ha := hsurvives.addresses ha
    rw [hsurvives.mnemonicOf _ (h.owned a ha)]
    exact h.rows a ha

/-- The wallets and the addresses are the same. -/
theorem PhrasesKept.same (h : PhrasesKept env lib klib rounds s)
    (hcalls : s.session.calls ≤ s'.session.calls) (hwallets : s'.wallets = s.wallets)
    (haddresses : s'.addresses = s.addresses)
    (hmnemonic : ∀ id ∈ s.session.store.secrets.walletIds, s'.mnemonicOf id = s.mnemonicOf id) :
    PhrasesKept env lib klib rounds s' := by
  have hids : s'.session.store.secrets.walletIds = s.session.store.secrets.walletIds :=
    congrArg (List.map fun w : Saved MWallet => w.shared.id) hwallets
  apply h.survives
  refine ⟨hcalls, ?_, ?_, ?_, hmnemonic, ?_⟩
  · rw [hids]
  · rw [haddresses]
    exact List.Subset.refl _
  · rw [haddresses, hids]
    exact h.owned
  · rw [hwallets]
    exact h.opens

/-- One row is written, under the same identifier and with a keystore of the same phrase. -/
theorem PhrasesKept.updateById (h : PhrasesKept env lib klib rounds s) {m : Saved MWallet}
    (hopens : ∃ password : Text, Eee.OpensWith klib rounds m.row.mnemonic password.asBytes
      (s.mnemonicOf m.shared.id).asBytes)
    (hcalls : s.session.calls ≤ s'.session.calls)
    (hstore : s'.session.store =
      s.session.store.setWallets (Wallets.updateById m s.session.store.walletsDb.wallet))
    (hmnemonic : s'.mnemonicOf = s.mnemonicOf) : PhrasesKept env lib klib rounds s' := by
  have hids : s'.session.store.secrets.walletIds = s.session.store.secrets.walletIds := by
    rw [hstore, walletIds_updateById]
  have haddresses : s'.addresses = s.addresses := by
    rw [addresses, hstore]
    rfl
  apply h.survives
  refine ⟨hcalls, ?_, ?_, ?_, fun _ _ => by rw [hmnemonic], ?_⟩
  · rw [hids]
  · rw [haddresses]
    exact List.Subset.refl _
  · rw [haddresses, hids]
    exact h.owned
  · intro w hw
    rw [wallets, hstore] at hw
    rcases mem_updateById hw with rfl | ⟨hw, _⟩
    · exact hopens
    · exact h.opens w hw

/-! ### Creations -/

theorem rowOf_encryptMnemonic {encryptMnemonic : Bytes → Bytes → Text} {mn : Text}
    {a : Saved MAddress} (h : RowOf { lib with encryptMnemonic } mn a) : RowOf lib mn a := by
  have hsame : ∀ (chain : Chain) (walletType : WalletType) (netType : NetType),
      chain.generateAddress { lib with encryptMnemonic } mn walletType netType =
        chain.generateAddress lib mn walletType netType := by
    intro chain walletType netType
    cases chain <;> rfl
  obtain ⟨⟨chain, walletType, netType, addr, haddr, hrow⟩, hall⟩ := h
  refine ⟨⟨chain, walletType, netType, addr, hsame .. ▸ haddr, hrow⟩, fun chain => ?_⟩
  obtain ⟨walletType, netType, addr, haddr⟩ := hall chain
  exact ⟨walletType, netType, addr, hsame .. ▸ haddr⟩

theorem PhrasesKept.createWallet (h : PhrasesKept env lib klib rounds s) (hdraws : env.DrawsOnce)
    (hlib : klib.Reliable) {netType : NetType} {parameters : CreateWalletParameters}
    {salt iv : Bytes} (hseparates : klib.Separates salt parameters.password.asBytes)
    (hrounds : roundsFor parameters.mnemonic.asBytes.length ≤ rounds) :
    PhrasesKept env lib klib rounds
      (storeStep env lib klib rounds s (.createWallet netType parameters salt iv)) := by
  obtain ⟨s', hs'⟩ : ∃ s', s' = storeStep env lib klib rounds s
      (.createWallet netType parameters salt iv) := ⟨_, rfl⟩
  obtain ⟨lib', hlib'⟩ : ∃ lib' : Libraries,
      lib' = { lib with encryptMnemonic := keystoreOf klib rounds salt iv } := ⟨_, rfl⟩
  have hsession : s'.session =
      ((Wallets.createWallet env lib' netType parameters).run s.session).1 := by
    rw [hs', hlib']
    rfl
  have hmnemonic : ∀ id ∈ s.session.store.secrets.walletIds,
      s'.mnemonicOf id = s.mnemonicOf id := by
    intro id hid
    rw [hs']
    exact if_pos hid
  have heffect := createEffect_run hdraws.ne_nil lib' netType parameters s.session
  have hrows := addsRows_run env lib' netType parameters s.session
  rw [← hsession] at heffect hrows
  rw [← hs']
  rcases heffect with hkeeps | ⟨backup, hcalls, hsecrets⟩ | ⟨mWallet, addresses, backup, hadds⟩
  · exact h.same hkeeps.calls (congrArg Secrets.wallet hkeeps.secrets)
      (congrArg Secrets.address hkeeps.secrets) hmnemonic
  · have hwallets : s'.wallets = s.wallets := (congrArg Secrets.wallet hsecrets).trans rfl
    have haddresses : s'.addresses = s.addresses := (congrArg Secrets.address hsecrets).trans rfl
    exact h.same hcalls hwallets haddresses hmnemonic
  · have hnew := h.ids.not_mem hdraws hadds
    have hwallets : s'.wallets = s.wallets ++ [mWallet] := congrArg Secrets.wallet hadds.secrets
    have haddresses : s'.addresses = s.addresses ++ addresses :=
      congrArg Secrets.address hadds.secrets
    have hids : s'.session.store.secrets.walletIds =
        s.session.store.secrets.walletIds ++ [mWallet.shared.id] := by
      unfold Secrets.walletIds
      rw [hadds.secrets, List.map_append]
      rfl
    have hphrase : s'.mnemonicOf mWallet.shared.id = parameters.mnemonic := by
      rw [hs']
      exact if_neg hnew
    refine ⟨h.ids.adds hdraws hadds, ?_, ?_, ?_, ?_⟩
    · rw [hids, List.forall_mem_append]
      refine ⟨fun id hid => ?_, ?_⟩
      · rw [hmnemonic id hid]
        exact h.enough id hid
      · simpa [hphrase] using hrounds
    · rw [hwallets, List.forall_mem_append]
      refine ⟨fun w hw => ?_, ?_⟩
      · rw [hmnemonic _ (List.mem_map_of_mem hw)]
        exact h.opens w hw
      · intro w hw
        obtain rfl := List.mem_singleton.mp hw
        rw [hphrase, hadds.row, hlib']
        exact ⟨parameters.password, PasswordRun.opensWith_keystoreOf hlib iv hseparates hrounds⟩
    · rw [haddresses, hids, List.forall_mem_append]
      refine ⟨fun a ha => List.mem_append_left _ (h.owned a ha), fun a ha => ?_⟩
      rw [(hadds.derived a ha).1]
      exact List.mem_append_right _ (List.mem_singleton_self _)
    · rw [haddresses, List.forall_mem_append]
      refine ⟨fun a ha => ?_, fun a ha => ?_⟩
      · rw [hmnemonic _ (h.owned a ha)]
        exact h.rows a ha
      · have hid := (hadds.derived a ha).1
        -- its wallet is new, so the row was not there
        have hmem : a ∈ addressRows s'.session := by
          show a ∈ s'.addresses
          rw [haddresses]
          exact List.mem_append_right _ ha
        rcases hrows a hmem with hold | hrow
        · exact absurd (hid ▸ h.owned a hold) hnew
        · rw [hid, hphrase]
          exact rowOf_encryptMnemonic (hlib' ▸ hrow)

/-! ### The other calls -/

theorem PhrasesKept.removeWallet (h : PhrasesKept env lib klib rounds s)
    (walletId password : Text) :
    PhrasesKept env lib klib rounds
      (storeStep env lib klib rounds s (.removeWallet walletId password)) := by
  obtain ⟨s', hs'⟩ : ∃ s', s' = storeStep env lib klib rounds s
      (.removeWallet walletId password) := ⟨_, rfl⟩
  have hmnemonic : s'.mnemonicOf = s.mnemonicOf := by
    rw [hs']
    rfl
  have heffect : RemoveEffect walletId s.session s'.session := by
    rw [hs']
    exact removeEffect_run (openKeystore klib rounds) walletId password s.session
  rw [← hs']
  rcases heffect with hkeeps | ⟨hcalls, hsecrets⟩
  · exact h.same hkeeps.calls (congrArg Secrets.wallet hkeeps.secrets)
      (congrArg Secrets.address hkeeps.secrets) fun _ _ => by rw [hmnemonic]
  · have hwallets : s'.wallets = s.wallets.filter fun w => w.shared.id ≠ walletId :=
      congrArg Secrets.wallet hsecrets
    have haddresses : s'.addresses = s.addresses.filter fun a => a.row.walletId ≠ walletId :=
      congrArg Secrets.address hsecrets
    -- the wallet is gone with its addresses, and nothing else
    apply h.survives
    refine ⟨hcalls, ?_, ?_, ?_, fun _ _ => by rw [hmnemonic], ?_⟩
    · unfold Secrets.walletIds
      rw [hsecrets]
      exact List.filter_sublist.map _
    · rw [haddresses]
      exact List.filter_subset_self _
    · -- the wallet of an address that stays is another one
      intro a ha
      rw [haddresses] at ha
      obtain ⟨ha, hne⟩ := List.mem_filter.mp ha
      obtain ⟨w, hw, hid⟩ := List.mem_map.mp (h.owned a ha)
      have hw' : w ∈ s'.wallets := by
        rw [hwallets]
        exact List.mem_filter.mpr ⟨hw, hid ▸ hne⟩
      exact List.mem_map.mpr ⟨w, hw', hid⟩
    · intro w hw
      rw [hwallets] at hw
      exact h.opens w (List.mem_of_mem_filter hw)

theorem PhrasesKept.renameWallet (h : PhrasesKept env lib klib rounds s) (name walletId : Text) :
    PhrasesKept env lib klib rounds
      (storeStep env lib klib rounds s (.renameWallet name walletId)) := by
  have hsame (hcalls : s.session.calls ≤
        ((Wallets.renameWallet env name walletId).run s.session).1.calls)
      (hstore : ((Wallets.renameWallet env name walletId).run s.session).1.store =
        s.session.store) : PhrasesKept env lib klib rounds
      (storeStep env lib klib rounds s (.renameWallet name walletId)) :=
    h.same hcalls (congrArg (fun db => db.walletsDb.wallet) hstore)
      (congrArg (fun db => db.walletsDb.address) hstore) fun _ _ => rfl
  rcases performs_renameWallet env name walletId s.session with
    ⟨e, hperforms⟩ | ⟨w, rows, hfound, hperforms⟩
  · exact hsame hperforms.calls_le (hperforms.of_read rfl).2
  · obtain ⟨hw, -⟩ := mem_of_walletUnder hfound
    rcases hperforms.of_write with ⟨-, hstore, -⟩ | ⟨hrun, -⟩
    · exact hsame hperforms.calls_le hstore
    · exact h.updateById (m := ⟨w.shared, { w.row with name }⟩) (h.opens w hw) hperforms.calls_le
        (congrArg (fun r => r.1.store) hrun) rfl

theorem PhrasesKept.resetWalletPassword (h : PhrasesKept env lib klib rounds s)
    (hdraws : env.DrawsOnce) (hlib : klib.Reliable) {salt iv : Bytes}
    {walletId oldPassword newPassword : Text}
    (hseparates : klib.Separates salt newPassword.asBytes) :
    PhrasesKept env lib klib rounds (storeStep env lib klib rounds s
      (.resetWalletPassword walletId oldPassword newPassword salt iv)) := by
  have hsame (hcalls : s.session.calls ≤ ((Wallets.resetWalletPassword env klib rounds salt iv
        walletId oldPassword newPassword).run s.session).1.calls)
      (hstore : ((Wallets.resetWalletPassword env klib rounds salt iv walletId oldPassword
        newPassword).run s.session).1.store = s.session.store) :
      PhrasesKept env lib klib rounds (storeStep env lib klib rounds s
        (.resetWalletPassword walletId oldPassword newPassword salt iv)) :=
    h.same hcalls (congrArg (fun db => db.walletsDb.wallet) hstore)
      (congrArg (fun db => db.walletsDb.address) hstore) fun _ _ => rfl
  by_cases hre : ∃ w mnData keystore, Reencrypts klib rounds salt iv walletId oldPassword
      newPassword s.session.store w mnData keystore
  · obtain ⟨w, mnData, keystore, hre⟩ := hre
    obtain ⟨hw, -⟩ := mem_of_walletUnder hre.found
    have hid : w.shared.id ∈ s.session.store.secrets.walletIds := List.mem_map_of_mem hw
    have hperforms := performs_resetWalletPassword env hre
    rcases hperforms.of_write with ⟨-, hstore, -⟩ | ⟨hrun, -⟩
    · exact hsame hperforms.calls_le hstore
    · have hstore := congrArg (fun r => r.1.store) hrun
      rw [h.ids.saveUpdate_eq hdraws hid] at hstore
      -- what is encrypted anew is the phrase
      obtain ⟨password, hopens⟩ := h.opens w hw
      have hphrase : mnData = (s.mnemonicOf w.shared.id).asBytes :=
        hopens.eq_of_opens hre.context
      have hnew : Eee.OpensWith klib rounds keystore newPassword.asBytes
          (s.mnemonicOf w.shared.id).asBytes := by
        have hkeystore := PasswordRun.opensWith_keystoreOf hlib iv hseparates (h.enough _ hid)
        rw [keystoreOf, ← hphrase, hre.encrypted] at hkeystore
        rw [← hphrase]
        exact hkeystore
      exact h.updateById (m := ⟨beforeUpdate env (s.session.calls + 1) w.shared,
        { w.row with mnemonic := keystore }⟩) ⟨newPassword, hnew⟩ hperforms.calls_le hstore rfl
  · obtain ⟨r, hr, hperforms⟩ := run_resetWalletPassword_of_not env hre
    exact hsame hperforms.calls_le (hperforms.of_read hr).2

/-! ### All calls -/

theorem PhrasesKept.step (h : PhrasesKept env lib klib rounds s) (hdraws : env.DrawsOnce)
    (hlib : klib.Reliable) {call : StoreCall} (hseparated : call.Separated klib)
    (hrounds : call.rounds ≤ rounds) :
    PhrasesKept env lib klib rounds (storeStep env lib klib rounds s call) := by
  cases call with
  | createWallet netType parameters salt iv => exact h.createWallet hdraws hlib hseparated hrounds
  | removeWallet walletId password => exact h.removeWallet walletId password
  | renameWallet name walletId => exact h.renameWallet name walletId
  | resetWalletPassword walletId oldPassword newPassword salt iv =>
    exact h.resetWalletPassword hdraws hlib hseparated
  | other db operations => exact h.same (Nat.le_add_right _ _) rfl rfl fun _ _ => rfl

theorem PhrasesKept.run (h : PhrasesKept env lib klib rounds s) (hdraws : env.DrawsOnce)
    (hlib : klib.Reliable) {calls : List StoreCall}
    (hseparated : ∀ call ∈ calls, call.Separated klib)
    (hrounds : ∀ call ∈ calls, call.rounds ≤ rounds) :
    PhrasesKept env lib klib rounds (Lib.run (storeStep env lib klib rounds) s calls) := by
  induction calls generalizing s with
  | nil => exact h
  | cons call calls ih =>
    obtain ⟨hcall, hrest⟩ := List.forall_mem_cons.mp hseparated
    obtain ⟨hcall', hrest'⟩ := List.forall_mem_cons.mp hrounds
    exact ih (h.step hdraws hlib hcall hcall') hrest hrest'

end Invariant

end WalletsRun

end Cashbox.Wallets
