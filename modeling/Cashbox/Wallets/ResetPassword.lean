import Mathlib.Algebra.Order.BigOperators.Group.List
import Cashbox.Lib.Run
import Cashbox.Lib.UniqueTable
import Cashbox.Eee.Keyring
import Cashbox.Wallets.Settings
import Cashbox.Wallets.SharedSeeds

/-!
# The password of a wallet

A mnemonic is stored twice, in the row of the wallet and in the backup of another database,
both times encrypted with the password of the creation. `reset_wallet_password` encrypts the
first copy anew and leaves the backup as it is.
-/

namespace Cashbox.Wallets

open Cashbox.Lib Cashbox.Crypto

/-! ## The functions -/

section Functions

variable (env : Surroundings) (klib : Eee.KeyringLibraries) (rounds : Nat)

/-- `eee::Sr25519::get_mnemonic_context`, with its error -/
def mnemonicContext (mWallet : Saved MWallet) (password : Text) : Outcome WalletError Bytes :=
  (Eee.getMnemonicContext klib rounds mWallet.row.mnemonic password.asBytes).mapErr .substrateTx

/-- `reset_wallet_password`, with the random bytes that the encryption draws -/
def resetWalletPassword (salt iv : Bytes) (walletId oldPassword newPassword : Text) :
    Method (Session Databases) WalletError Unit := do
  match ← mWalletById env walletId with
  | none => Method.lift (.err (.noRecord (String.ofList walletId)))
  | some mWallet => do
    let mnData ← Method.lift (mnemonicContext klib rounds mWallet oldPassword)
    let encryptStr ← Method.lift
      ((Eee.encryptMnemonic klib rounds salt iv mnData newPassword.asBytes).mapErr .substrateTx)
    execute env.fails .rbatisError fun n db =>
      let m : Saved MWallet := ⟨mWallet.shared, { mWallet.row with mnemonic := encryptStr }⟩
      { db with
        walletsDb := { db.walletsDb with wallet := (saveUpdate env n m db.walletsDb.wallet).2 } }

/-- `export_wallet` -/
def exportWallet (walletId password : Text) : Method (Session Databases) WalletError Text := do
  match ← mWalletById env walletId with
  | none => Method.lift (.err (.noRecord (String.ofList walletId)))
  | some mWallet => do
    let mnData ← Method.lift (mnemonicContext klib rounds mWallet password)
    Method.lift (Outcome.okOr (.fromUtf8 mnData) (Text.fromUtf8 mnData))

/-- `rename_wallet`: the rows affected are returned. -/
def renameWallet (name walletId : Text) : Method (Session Databases) WalletError Nat := do
  match ← mWalletById env walletId with
  | none => Method.lift (.err (.noRecord ""))
  | some mWallet =>
    let m : Saved MWallet := ⟨mWallet.shared, { mWallet.row with name }⟩
    operation env.fails .rbatisError fun _ db =>
      ({ db with walletsDb := { db.walletsDb with wallet := updateById m db.walletsDb.wallet } },
        .ok (db.walletsDb.wallet.filter fun w => w.shared.id = m.shared.id).length)

end Functions

/-! ## Runs -/

inductive PasswordCall where
  | createWallet (netType : NetType) (parameters : CreateWalletParameters) (salt iv : Bytes)
  | renameWallet (name walletId : Text)
  | resetWalletPassword (walletId oldPassword newPassword : Text) (salt iv : Bytes)

/-- What a wallet was created with. -/
structure Creation where
  mnemonic : Text
  password : Text
  /-- The place of its backup. -/
  backup : Nat

/-- The databases, and of each wallet what it was created with, and its password. -/
structure PasswordRun where
  session : Session Databases
  creation : Text → Creation
  passwordOf : Text → Text

/-- What is stored of a mnemonic. With reliable libraries and enough rounds there is always a
keystore. -/
def keystoreOf (klib : Eee.KeyringLibraries) (rounds : Nat) (salt iv mn password : Bytes) : Text :=
  match Eee.encryptMnemonic klib rounds salt iv mn password with
  | .ok keystore => keystore
  | _ => []

namespace PasswordRun

/-- There are no wallets yet. -/
def start (db : Databases) : PasswordRun where
  session := ⟨{ db with walletsDb := { db.walletsDb with wallet := [] } }, 0⟩
  creation _ := ⟨[], [], 0⟩
  passwordOf _ := []

abbrev wallets (s : PasswordRun) : List (Saved MWallet) := s.session.store.secrets.wallet

abbrev backups (s : PasswordRun) : List (Saved MMnemonic) := s.session.store.secrets.mnemonic

variable (env : Surroundings) (lib : Libraries) (klib : Eee.KeyringLibraries) (rounds : Nat)

def step (s : PasswordRun) : PasswordCall → PasswordRun
  | .createWallet netType parameters salt iv =>
    let lib := { lib with encryptMnemonic := keystoreOf klib rounds salt iv }
    { session := ((createWallet env lib netType parameters).run s.session).1
      -- a wallet that was not there is recorded
      creation := fun id =>
        if id ∈ s.session.store.secrets.walletIds then s.creation id
        else ⟨parameters.mnemonic, parameters.password, s.backups.length⟩
      passwordOf := fun id =>
        if id ∈ s.session.store.secrets.walletIds then s.passwordOf id else parameters.password }
  | .renameWallet name walletId =>
    { s with session := ((renameWallet env name walletId).run s.session).1 }
  | .resetWalletPassword walletId oldPassword newPassword salt iv =>
    let result :=
      (resetWalletPassword env klib rounds salt iv walletId oldPassword newPassword).run s.session
    { s with
      session := result.1
      passwordOf := fun id =>
        if result.2.isOk ∧ id = walletId then newPassword else s.passwordOf id }

/-- Every copy of the mnemonic of a wallet opens with its password, and with no other. -/
structure OpensAnew (s : PasswordRun) (w : Saved MWallet) : Prop where
  exports : ((exportWallet env.calm klib rounds w.shared.id
    (s.passwordOf w.shared.id)).run s.session).2 = .ok (s.creation w.shared.id).mnemonic
  refuses : ∀ password, password ≠ s.passwordOf w.shared.id →
    ((exportWallet env.calm klib rounds w.shared.id password).run
      s.session).2.IsErr
  wallet : Eee.OpensWith klib rounds w.row.mnemonic (s.passwordOf w.shared.id).asBytes
    (s.creation w.shared.id).mnemonic.asBytes
  backup : ∃ backup, s.backups[(s.creation w.shared.id).backup]? = some backup ∧
    Eee.OpensWith klib rounds backup.row.mnemonic (s.passwordOf w.shared.id).asBytes
      (s.creation w.shared.id).mnemonic.asBytes

def UpToDate (s : PasswordRun) : Prop := ∀ w ∈ s.wallets, OpensAnew env klib rounds s w

/-- A reset that fails changes nothing. -/
def FailsCleanly (s : PasswordRun) : PasswordCall → Prop
  | .resetWalletPassword walletId oldPassword newPassword salt iv =>
    let result :=
      (resetWalletPassword env klib rounds salt iv walletId oldPassword newPassword).run s.session
    result.2.isOk = false → result.1.store = s.session.store
  | _ => True

/-- A reset of a wallet that opens with the password of its creation sets this password again,
or one of its two operations fails. -/
def KeepsPassword (s : PasswordRun) : PasswordCall → Prop
  | .resetWalletPassword walletId oldPassword newPassword _ _ =>
    walletId ∈ s.session.store.secrets.walletIds →
      oldPassword = (s.creation walletId).password →
        newPassword = oldPassword ∨ env.fails s.session.calls = true ∨
          env.fails (s.session.calls + 1) = true
  | _ => True

end PasswordRun

/-! ## One call of each function -/

section Calls

variable {env : Surroundings} {klib : Eee.KeyringLibraries} {rounds : Nat}
  {s : Session Databases} {w : Saved MWallet} {walletId : Text}

def Databases.walletUnder (db : Databases) (walletId : Text) : Option (Saved MWallet) :=
  (db.walletsDb.wallet.filter fun w => w.shared.id = walletId).head?

/-- The wallets become these. -/
def Databases.setWallets (db : Databases) (wallet : List (Saved MWallet)) : Databases :=
  { db with walletsDb := { db.walletsDb with wallet } }

theorem performs_mWalletById (env : Surroundings) (walletId : Text) (s : Session Databases) :
    Performs env.fails (mWalletById env walletId) s [s.store]
      (.ok (s.store.walletUnder walletId)) := Performs.read ..

/-- With its identifier a wallet is found. -/
theorem walletUnder_of_mem (hnodup : s.store.secrets.walletIds.Nodup)
    (hw : w ∈ s.store.secrets.wallet) : s.store.walletUnder w.shared.id = some w :=
  head?_filter_key hnodup hw

theorem mem_of_walletUnder {db : Databases} {walletId : Text} {w : Saved MWallet}
    (h : db.walletUnder walletId = some w) :
    w ∈ db.secrets.wallet ∧ w.shared.id = walletId := by
  obtain ⟨hw, hid⟩ := List.mem_filter.mp (List.mem_of_head? h)
  exact ⟨hw, of_decide_eq_true hid⟩

theorem walletIds_updateById (m : Saved MWallet) (db : Databases) :
    (db.setWallets (updateById m db.walletsDb.wallet)).secrets.walletIds = db.secrets.walletIds :=
  map_id_updateById m _

/-- A wallet that is stored has an identifier, so that it is updated. -/
theorem DrawnIds.saveUpdate_eq {s : Session Databases} (h : DrawnIds env s)
    (hdraws : env.DrawsOnce) {shared : Shared} (hmem : shared.id ∈ s.store.secrets.walletIds)
    (row : MWallet) (n : Nat) (rows : List (Saved MWallet)) :
    saveUpdate env n ⟨shared, row⟩ rows =
      (⟨beforeUpdate env n shared, row⟩,
        updateById ⟨beforeUpdate env n shared, row⟩ rows) := by
  obtain ⟨n', _, hdrawn⟩ := h.drawn _ hmem
  have hne : shared.id ≠ [] := by
    rw [hdrawn]
    exact hdraws.ne_nil n' 0
  exact if_neg hne

theorem run_exportWallet (hfound : s.store.walletUnder walletId = some w) (password : Text) :
    ((exportWallet env.calm klib rounds walletId password).run s).2 =
      (mnemonicContext klib rounds w password >>= fun mnData =>
        Outcome.okOr (.fromUtf8 mnData) (Text.fromUtf8 mnData)) := by
  have hread : Performs env.calm.fails (mWalletById env.calm walletId) s
      [s.store] (.ok (some w)) := hfound ▸ performs_mWalletById _ walletId s
  unfold exportWallet
  rw [Method.run_bind_of_ok (hread.ends fun _ _ => rfl)]
  dsimp only
  rw [Method.run_lift_bind_lift]

/-- The rows of the wallets, with another name in one of them. -/
theorem performs_renameWallet (env : Surroundings) (name walletId : Text) (s : Session Databases) :
    (∃ e, Performs env.fails (renameWallet env name walletId) s [s.store] (.err e)) ∨
      ∃ w rows, s.store.walletUnder walletId = some w ∧
        Performs env.fails (renameWallet env name walletId) s
          [s.store, s.store.setWallets
            (updateById ⟨w.shared, { w.row with name }⟩ s.store.walletsDb.wallet)] (.ok rows) := by
  have hread := performs_mWalletById env walletId s
  cases hfound : s.store.walletUnder walletId with
  | none =>
    rw [hfound] at hread
    exact .inl ⟨_, hread.bind (Performs.lift _ _)⟩
  | some w =>
    rw [hfound] at hread
    exact .inr ⟨w, _, rfl, hread.bind (Performs.operation _ _ ⟨s.store, _⟩)⟩

/-- A reset gets as far as to the statement that saves the wallet. -/
structure Reencrypts (klib : Eee.KeyringLibraries) (rounds : Nat) (salt iv : Bytes)
    (walletId oldPassword newPassword : Text) (db : Databases) (w : Saved MWallet) (mnData : Bytes)
    (keystore : Text) : Prop where
  found : db.walletUnder walletId = some w
  context : Eee.getMnemonicContext klib rounds w.row.mnemonic oldPassword.asBytes = .ok mnData
  encrypted : Eee.encryptMnemonic klib rounds salt iv mnData newPassword.asBytes = .ok keystore

variable {salt iv : Bytes} {oldPassword newPassword : Text}

theorem performs_resetWalletPassword (env : Surroundings) {mnData : Bytes} {keystore : Text}
    (h : Reencrypts klib rounds salt iv walletId oldPassword newPassword s.store w mnData
      keystore) :
    Performs env.fails
      (resetWalletPassword env klib rounds salt iv walletId oldPassword newPassword) s
      [s.store, s.store.setWallets (saveUpdate env (s.calls + 1)
        ⟨w.shared, { w.row with mnemonic := keystore }⟩ s.store.walletsDb.wallet).2] (.ok ()) := by
  have hread := performs_mWalletById env walletId s
  rw [h.found] at hread
  have hcontext : mnemonicContext klib rounds w oldPassword = .ok mnData := by
    rw [mnemonicContext, h.context]
    rfl
  have hencrypted : (Eee.encryptMnemonic klib rounds salt iv mnData
      newPassword.asBytes).mapErr WalletError.substrateTx = .ok keystore := by
    rw [h.encrypted]
    rfl
  refine hread.bind ?_
  exact .lift_bind hcontext (.lift_bind hencrypted (.execute _ _ ⟨s.store, _⟩))

/-- A reset that does not get there reads only. -/
theorem run_resetWalletPassword_of_not (env : Surroundings) (hnot : ¬ ∃ w mnData keystore,
      Reencrypts klib rounds salt iv walletId oldPassword newPassword s.store w mnData keystore) :
    ∃ r : Outcome WalletError Unit, r.isOk = false ∧ Performs env.fails
      (resetWalletPassword env klib rounds salt iv walletId oldPassword newPassword) s
      [s.store] r := by
  have hread := performs_mWalletById env walletId s
  cases hfound : s.store.walletUnder walletId with
  | none =>
    rw [hfound] at hread
    exact ⟨_, rfl, hread.bind (Performs.lift _ _)⟩
  | some w =>
    rw [hfound] at hread
    by_cases hcontext : (mnemonicContext klib rounds w oldPassword).isOk = true
    · obtain ⟨mnData, hmnData⟩ := Outcome.isOk_iff.mp hcontext
      by_cases hencrypted : ((Eee.encryptMnemonic klib rounds salt iv mnData
          newPassword.asBytes).mapErr WalletError.substrateTx).isOk = true
      · obtain ⟨keystore, hkeystore⟩ := Outcome.isOk_iff.mp hencrypted
        exact absurd ⟨w, mnData, keystore, hfound, Outcome.mapErr_eq_ok.mp hmnData,
          Outcome.mapErr_eq_ok.mp hkeystore⟩ hnot
      · obtain ⟨r, hr, hends⟩ := Performs.lift_bind_of_not_ok _
          (Bool.eq_false_iff.mpr hencrypted) ⟨s.store, s.calls + 1⟩
        exact ⟨r, hr, hread.bind (.lift_bind hmnData hends)⟩
    · obtain ⟨r, hr, hends⟩ := Performs.lift_bind_of_not_ok _
        (Bool.eq_false_iff.mpr hcontext) ⟨s.store, s.calls + 1⟩
      exact ⟨r, hr, hread.bind hends⟩

end Calls

/-! ## The invariant -/

/-- No other password gives the key that a call encrypts with. -/
def PasswordCall.Separated (klib : Eee.KeyringLibraries) : PasswordCall → Prop
  | createWallet _ parameters salt _ => klib.Separates salt parameters.password.asBytes
  | renameWallet _ _ => True
  | resetWalletPassword _ _ newPassword salt _ => klib.Separates salt newPassword.asBytes

/-- The rounds that a call needs. -/
def PasswordCall.rounds : PasswordCall → Nat
  | createWallet _ parameters _ _ => roundsFor parameters.mnemonic.asBytes.length
  | _ => 0

namespace PasswordRun

/-- Every wallet still has the password that it was created with. -/
structure Secured (env : Surroundings) (klib : Eee.KeyringLibraries) (rounds : Nat)
    (s : PasswordRun) : Prop where
  ids : DrawnIds env s.session
  password : ∀ id ∈ s.session.store.secrets.walletIds, s.passwordOf id = (s.creation id).password
  enough : ∀ id ∈ s.session.store.secrets.walletIds,
    roundsFor (s.creation id).mnemonic.asBytes.length ≤ rounds
  wallet : ∀ w ∈ s.wallets, Eee.OpensWith klib rounds w.row.mnemonic
    (s.creation w.shared.id).password.asBytes (s.creation w.shared.id).mnemonic.asBytes
  backup : ∀ id ∈ s.session.store.secrets.walletIds, ∃ backup,
    s.backups[(s.creation id).backup]? = some backup ∧
      Eee.OpensWith klib rounds backup.row.mnemonic (s.creation id).password.asBytes
        (s.creation id).mnemonic.asBytes

section Invariant

variable {env : Surroundings} {lib : Libraries} {klib : Eee.KeyringLibraries} {rounds : Nat}
  {s s' : PasswordRun}

theorem secured_start (db : Databases) : Secured env klib rounds (start db) where
  ids := ⟨fun _ hid => (nomatch hid), List.nodup_nil⟩
  password _ hid := nomatch hid
  enough _ hid := nomatch hid
  wallet _ hw := nomatch hw
  backup _ hid := nomatch hid

theorem mem_walletIds {w : Saved MWallet} (hw : w ∈ s.wallets) :
    w.shared.id ∈ s.session.store.secrets.walletIds := List.mem_map_of_mem hw

/-- Under the invariant every copy opens with the password of the wallet. -/
theorem Secured.upToDate (h : Secured env klib rounds s) : UpToDate env klib rounds s := by
  intro w hw
  have hid := mem_walletIds hw
  have hpassword := h.password _ hid
  have hopens := h.wallet w hw
  have hfound := walletUnder_of_mem h.ids.nodup hw
  refine ⟨?_, ?_, ?_, ?_⟩
  · rw [run_exportWallet hfound, hpassword, mnemonicContext, hopens.opens]
    simp only [Outcome.mapErr, Outcome.ok_bind, Text.fromUtf8_asBytes, Outcome.okOr]
  · intro password hne
    rw [hpassword] at hne
    have hrejects := hopens.rejects password.asBytes fun heq => hne (Text.asBytes_injective heq)
    rw [run_exportWallet hfound, mnemonicContext]
    cases hcontext : Eee.getMnemonicContext klib rounds w.row.mnemonic password.asBytes with
    | err e => trivial
    | ok mnData =>
      rw [hcontext] at hrejects
      exact hrejects.elim
    | panic why =>
      rw [hcontext] at hrejects
      exact hrejects.elim
  · rw [hpassword]
    exact hopens
  · rw [hpassword]
    exact h.backup _ hid

/-- A call that leaves the identifiers, the backups and the passwords as they are. -/
structure Keeps (s s' : PasswordRun) : Prop where
  calls : s.session.calls ≤ s'.session.calls
  ids : s'.session.store.secrets.walletIds = s.session.store.secrets.walletIds
  backups : s'.backups = s.backups
  creation : s'.creation = s.creation
  password : ∀ id ∈ s.session.store.secrets.walletIds, s'.passwordOf id = s.passwordOf id

theorem Secured.keeps (h : Secured env klib rounds s) (hkeeps : Keeps s s')
    (hwallet : ∀ w ∈ s'.wallets, Eee.OpensWith klib rounds w.row.mnemonic
      (s.creation w.shared.id).password.asBytes (s.creation w.shared.id).mnemonic.asBytes) :
    Secured env klib rounds s' where
  ids := h.ids.sublist hkeeps.calls (by rw [hkeeps.ids])
  password := by
    rw [hkeeps.ids, hkeeps.creation]
    intro id hid
    rw [hkeeps.password id hid]
    exact h.password id hid
  enough := by
    rw [hkeeps.ids, hkeeps.creation]
    exact h.enough
  wallet := by
    rw [hkeeps.creation]
    exact hwallet
  backup := by
    rw [hkeeps.ids, hkeeps.creation, hkeeps.backups]
    exact h.backup

/-- The store is the same. -/
theorem Secured.same (h : Secured env klib rounds s)
    (hcalls : s.session.calls ≤ s'.session.calls) (hstore : s'.session.store = s.session.store)
    (hcreation : s'.creation = s.creation) (hpassword : s'.passwordOf = s.passwordOf) :
    Secured env klib rounds s' := by
  refine h.keeps ⟨hcalls, ?_, ?_, hcreation, fun _ _ => by rw [hpassword]⟩ ?_
  · rw [hstore]
  · rw [backups, hstore]
  · rw [wallets, hstore]
    exact h.wallet

/-! ### Creations -/

/-- What is stored of a mnemonic opens with the password. -/
theorem opensWith_keystoreOf (hlib : klib.Reliable) {salt mn password : Bytes} (iv : Bytes)
    (hseparates : klib.Separates salt password) (hrounds : roundsFor mn.length ≤ rounds) :
    Eee.OpensWith klib rounds (keystoreOf klib rounds salt iv mn password) password mn := by
  obtain ⟨keystore, hkeystore⟩ := Eee.exists_opensWith hlib salt iv mn password hseparates
  obtain ⟨hencrypt, hopens⟩ := hkeystore rounds hrounds
  rw [keystoreOf, hencrypt]
  exact hopens

/-- What a new wallet brings with it. -/
structure SecuredNew (klib : Eee.KeyringLibraries) (rounds : Nat) (s : PasswordRun)
    (w : Saved MWallet) : Prop where
  password : s.passwordOf w.shared.id = (s.creation w.shared.id).password
  enough : roundsFor (s.creation w.shared.id).mnemonic.asBytes.length ≤ rounds
  wallet : Eee.OpensWith klib rounds w.row.mnemonic (s.creation w.shared.id).password.asBytes
    (s.creation w.shared.id).mnemonic.asBytes
  backup : ∃ backup, s.backups[(s.creation w.shared.id).backup]? = some backup ∧
    Eee.OpensWith klib rounds backup.row.mnemonic (s.creation w.shared.id).password.asBytes
      (s.creation w.shared.id).mnemonic.asBytes

/-- Wallets and backups are added. -/
theorem Secured.append (h : Secured env klib rounds s) (new : List (Saved MWallet))
    (more : List (Saved MMnemonic)) (hids : DrawnIds env s'.session)
    (hwallets : s'.wallets = s.wallets ++ new) (hbackups : s'.backups = s.backups ++ more)
    (hold : ∀ id ∈ s.session.store.secrets.walletIds,
      s'.creation id = s.creation id ∧ s'.passwordOf id = s.passwordOf id)
    (hnew : ∀ w ∈ new, SecuredNew klib rounds s' w) : Secured env klib rounds s' := by
  -- what is new was created with a password of its own, the rest stays
  have hmem : ∀ id ∈ s'.session.store.secrets.walletIds,
      id ∈ s.session.store.secrets.walletIds ∨ ∃ w ∈ new, w.shared.id = id := by
    intro id hid
    obtain ⟨w, hw, rfl⟩ := List.mem_map.mp hid
    have hw : w ∈ s.wallets ++ new := by
      rw [← hwallets]
      exact hw
    rcases List.mem_append.mp hw with hw | hw
    · exact .inl (mem_walletIds hw)
    · exact .inr ⟨w, hw, rfl⟩
  refine ⟨hids, ?_, ?_, ?_, ?_⟩
  · intro id hid
    rcases hmem id hid with hid | ⟨w, hw, rfl⟩
    · rw [(hold id hid).1, (hold id hid).2]
      exact h.password id hid
    · exact (hnew w hw).password
  · intro id hid
    rcases hmem id hid with hid | ⟨w, hw, rfl⟩
    · rw [(hold id hid).1]
      exact h.enough id hid
    · exact (hnew w hw).enough
  · intro w hw
    rw [hwallets] at hw
    rcases List.mem_append.mp hw with hw | hw
    · rw [(hold _ (mem_walletIds hw)).1]
      exact h.wallet w hw
    · exact (hnew w hw).wallet
  · intro id hid
    rcases hmem id hid with hid | ⟨w, hw, rfl⟩
    · obtain ⟨backup, hbackup, hopens⟩ := h.backup id hid
      obtain ⟨hlt, -⟩ := List.getElem?_eq_some_iff.mp hbackup
      rw [(hold id hid).1, hbackups, List.getElem?_append_left hlt]
      exact ⟨backup, hbackup, hopens⟩
    · exact (hnew w hw).backup

theorem Secured.createWallet (h : Secured env klib rounds s) (hdraws : env.DrawsOnce)
    (hlib : klib.Reliable) {netType : NetType} {parameters : CreateWalletParameters}
    {salt iv : Bytes} (hseparates : klib.Separates salt parameters.password.asBytes)
    (hrounds : roundsFor parameters.mnemonic.asBytes.length ≤ rounds) :
    Secured env klib rounds
      (step env lib klib rounds s (.createWallet netType parameters salt iv)) := by
  obtain ⟨s', hs'⟩ : ∃ s', s' = step env lib klib rounds s
      (.createWallet netType parameters salt iv) := ⟨_, rfl⟩
  have hold : ∀ id ∈ s.session.store.secrets.walletIds,
      s'.creation id = s.creation id ∧ s'.passwordOf id = s.passwordOf id := by
    intro id hid
    rw [hs']
    exact ⟨if_pos hid, if_pos hid⟩
  have heffect := createEffect_run hdraws.ne_nil
    { lib with encryptMnemonic := keystoreOf klib rounds salt iv } netType parameters s.session
  have hsession : s'.session = ((Wallets.createWallet env
      { lib with encryptMnemonic := keystoreOf klib rounds salt iv } netType parameters).run
        s.session).1 := by
    rw [hs']
    rfl
  rw [← hsession] at heffect
  rw [← hs']
  rcases heffect with hkeeps | ⟨backup, hcalls, hsecrets⟩ | ⟨mWallet, addresses, backup, hadds⟩
  · have hids : DrawnIds env s'.session := h.ids.sublist hkeeps.calls (by rw [hkeeps.secrets])
    refine h.append [] [] hids ?_ ?_ hold fun _ hw => absurd hw List.not_mem_nil
    · rw [wallets, hkeeps.secrets, List.append_nil]
    · rw [backups, hkeeps.secrets, List.append_nil]
  · have hids : DrawnIds env s'.session := h.ids.sublist hcalls (by rw [hsecrets]; rfl)
    refine h.append [] [backup] hids ?_ ?_ hold fun _ hw => absurd hw List.not_mem_nil
    · rw [wallets, hsecrets, List.append_nil]
    · rw [backups, hsecrets]
  · have hnew := h.ids.not_mem hdraws hadds
    have hcreation : s'.creation mWallet.shared.id =
        ⟨parameters.mnemonic, parameters.password, s.backups.length⟩ := by
      rw [hs']
      exact if_neg hnew
    have hpassword : s'.passwordOf mWallet.shared.id = parameters.password := by
      rw [hs']
      exact if_neg hnew
    -- the row and its backup have the same keystore
    have hopens : Eee.OpensWith klib rounds (parameters.mWallet { lib with
        encryptMnemonic := keystoreOf klib rounds salt iv }).mnemonic
          parameters.password.asBytes parameters.mnemonic.asBytes :=
      opensWith_keystoreOf hlib iv hseparates hrounds
    refine h.append [mWallet] [backup] (h.ids.adds hdraws hadds)
      (congrArg Secrets.wallet hadds.secrets)
      (congrArg Secrets.mnemonic hadds.secrets) hold fun w hw => ?_
    obtain rfl := List.mem_singleton.mp hw
    refine ⟨?_, ?_, ?_, ?_⟩
    · rw [hpassword, hcreation]
    · rw [hcreation]
      exact hrounds
    · rw [hcreation, hadds.row]
      exact hopens
    · refine ⟨backup, ?_, ?_⟩
      · rw [hcreation, backups, hadds.secrets]
        exact List.getElem?_concat_length
      · rw [hcreation, hadds.copied]
        exact hopens

/-! ### Renames -/

/-- One row is written, under the same identifier and with a mnemonic that opens alike. -/
theorem Secured.updateById (h : Secured env klib rounds s) {w m : Saved MWallet}
    (hid : m.shared.id = w.shared.id)
    (hopens : Eee.OpensWith klib rounds m.row.mnemonic
      (s.creation w.shared.id).password.asBytes (s.creation w.shared.id).mnemonic.asBytes)
    (hcalls : s.session.calls ≤ s'.session.calls)
    (hstore : s'.session.store =
      s.session.store.setWallets (Wallets.updateById m s.session.store.walletsDb.wallet))
    (hcreation : s'.creation = s.creation)
    (hpassword : ∀ id ∈ s.session.store.secrets.walletIds, s'.passwordOf id = s.passwordOf id) :
    Secured env klib rounds s' := by
  refine h.keeps ⟨hcalls, ?_, ?_, hcreation, hpassword⟩ ?_
  · rw [hstore, walletIds_updateById]
  · rw [backups, hstore]
    rfl
  · intro w' hw'
    rw [wallets, hstore] at hw'
    rcases mem_updateById hw' with rfl | ⟨hw', _⟩
    · rw [hid]
      exact hopens
    · exact h.wallet w' hw'

theorem Secured.renameWallet (h : Secured env klib rounds s) (name walletId : Text) :
    Secured env klib rounds (step env lib klib rounds s (.renameWallet name walletId)) := by
  rcases performs_renameWallet env name walletId s.session with
    ⟨e, hperforms⟩ | ⟨w, rows, hfound, hperforms⟩
  · exact h.same hperforms.calls_le (hperforms.of_read rfl).2 rfl rfl
  · obtain ⟨hw, -⟩ := mem_of_walletUnder hfound
    rcases hperforms.of_write with ⟨-, hstore, -⟩ | ⟨hrun, -⟩
    · exact h.same hperforms.calls_le hstore rfl rfl
    · refine h.updateById (m := ⟨w.shared, { w.row with name }⟩) rfl (h.wallet w hw)
        hperforms.calls_le ?_ rfl fun _ _ => rfl
      exact congrArg (fun r => r.1.store) hrun

/-! ### Resets -/

section Reset

variable {salt iv : Bytes} {walletId oldPassword newPassword : Text}

/-- A reset gets as far as to its statement exactly with the password of the wallet. -/
theorem Secured.reencrypts_iff (h : Secured env klib rounds s) (hlib : klib.Reliable) :
    (∃ w mnData keystore, Reencrypts klib rounds salt iv walletId oldPassword newPassword
        s.session.store w mnData keystore) ↔
      walletId ∈ s.session.store.secrets.walletIds ∧
        oldPassword = (s.creation walletId).password := by
  constructor
  · rintro ⟨w, mnData, keystore, hre⟩
    obtain ⟨hw, rfl⟩ := mem_of_walletUnder hre.found
    refine ⟨mem_walletIds hw, ?_⟩
    by_contra hne
    have hrejects := (h.wallet w hw).rejects oldPassword.asBytes fun heq =>
      hne (Text.asBytes_injective heq)
    rw [hre.context] at hrejects
    exact hrejects
  · rintro ⟨hid, rfl⟩
    obtain ⟨w, hw, rfl⟩ := List.mem_map.mp hid
    obtain ⟨keystore, hkeystore⟩ := Eee.exists_encryptMnemonic hlib salt iv newPassword.asBytes
      (h.enough _ hid)
    exact ⟨w, _, keystore, walletUnder_of_mem h.ids.nodup hw, (h.wallet w hw).opens, hkeystore⟩

theorem failsCleanly (s : PasswordRun) (call : PasswordCall) :
    FailsCleanly env klib rounds s call := by
  cases call with
  | createWallet netType parameters salt iv => trivial
  | renameWallet name walletId => trivial
  | resetWalletPassword walletId oldPassword newPassword salt iv =>
    intro hfails
    by_cases hre : ∃ w mnData keystore, Reencrypts klib rounds salt iv walletId oldPassword
        newPassword s.session.store w mnData keystore
    · obtain ⟨w, mnData, keystore, hre⟩ := hre
      rcases (performs_resetWalletPassword env hre).of_write with
        ⟨-, hstore, -⟩ | ⟨hrun, -⟩
      · exact hstore
      · have hok := congrArg (fun r => r.2.isOk) hrun
        exact absurd (hfails.symm.trans hok) Bool.false_ne_true
    · obtain ⟨r, hr, hperforms⟩ := run_resetWalletPassword_of_not env hre
      exact (hperforms.of_read hr).2

/-- A reset that does not return `Ok` keeps the invariant. -/
theorem Secured.reset_of_not_ok (h : Secured env klib rounds s)
    (hcalls : s.session.calls ≤ ((Wallets.resetWalletPassword env klib rounds salt iv walletId
      oldPassword newPassword).run s.session).1.calls)
    (hok : ((Wallets.resetWalletPassword env klib rounds salt iv walletId oldPassword
      newPassword).run s.session).2.isOk = false)
    (hstore : ((Wallets.resetWalletPassword env klib rounds salt iv walletId oldPassword
      newPassword).run s.session).1.store = s.session.store) :
    Secured env klib rounds (step env lib klib rounds s
      (.resetWalletPassword walletId oldPassword newPassword salt iv)) := by
  refine h.same hcalls hstore rfl ?_
  funext id
  exact if_neg fun hif => absurd (hok.symm.trans hif.1) Bool.false_ne_true

/-- A reset to the password of the creation keeps the invariant. -/
theorem Secured.resetWalletPassword (h : Secured env klib rounds s) (hdraws : env.DrawsOnce)
    (hlib : klib.Reliable) (hseparates : klib.Separates salt newPassword.asBytes)
    (hkeeps : KeepsPassword env s
      (.resetWalletPassword walletId oldPassword newPassword salt iv)) :
    Secured env klib rounds (step env lib klib rounds s
      (.resetWalletPassword walletId oldPassword newPassword salt iv)) := by
  by_cases hre : ∃ w mnData keystore, Reencrypts klib rounds salt iv walletId oldPassword
      newPassword s.session.store w mnData keystore
  · obtain ⟨hmem, hold⟩ := (h.reencrypts_iff hlib).mp hre
    obtain ⟨w, mnData, keystore, hre⟩ := hre
    obtain ⟨hw, hid⟩ := mem_of_walletUnder hre.found
    have hperforms := performs_resetWalletPassword env hre
    rcases hperforms.of_write with ⟨hok, hstore, -⟩ | ⟨hrun, hfails, hfails'⟩
    · exact h.reset_of_not_ok hperforms.calls_le hok hstore
    · obtain rfl : newPassword = oldPassword := by
        rcases hkeeps hmem hold with hnew | hfails'' | hfails''
        · exact hnew
        · exact absurd (hfails.symm.trans hfails'') Bool.false_ne_true
        · exact absurd (hfails'.symm.trans hfails'') Bool.false_ne_true
      subst hid
      have hstore := congrArg (fun r => r.1.store) hrun
      rw [h.ids.saveUpdate_eq hdraws hmem] at hstore
      -- what it had is what was encrypted anew
      have hmn : mnData = (s.creation w.shared.id).mnemonic.asBytes := by
        have hopens := (h.wallet w hw).opens
        rw [← hold, hre.context] at hopens
        exact Outcome.ok.inj hopens
      have hopens : Eee.OpensWith klib rounds keystore
          (s.creation w.shared.id).password.asBytes
          (s.creation w.shared.id).mnemonic.asBytes := by
        have hkeystore := opensWith_keystoreOf hlib iv hseparates (h.enough _ hmem)
        rw [keystoreOf, ← hmn, hre.encrypted] at hkeystore
        rw [← hold, ← hmn]
        exact hkeystore
      refine h.updateById (m := ⟨beforeUpdate env (s.session.calls + 1) w.shared,
        { w.row with mnemonic := keystore }⟩) rfl hopens hperforms.calls_le hstore rfl
        fun id _ => ?_
      show (if _ then newPassword else s.passwordOf id) = s.passwordOf id
      split
      · rename_i hif
        rw [hif.2, h.password _ hmem, hold]
      · rfl
  · obtain ⟨r, hr, hperforms⟩ := run_resetWalletPassword_of_not env hre
    obtain ⟨hok, hstore⟩ := hperforms.of_read hr
    exact h.reset_of_not_ok hperforms.calls_le hok hstore

/-- The backup still has the password of the creation. -/
theorem Secured.keepsPassword_of_upToDate (h : Secured env klib rounds s)
    (hdraws : env.DrawsOnce) (hlib : klib.Reliable)
    (hdate : UpToDate env klib rounds (step env lib klib rounds s
      (.resetWalletPassword walletId oldPassword newPassword salt iv))) :
    KeepsPassword env s (.resetWalletPassword walletId oldPassword newPassword salt iv) := by
  intro hmem hold
  have hre : ∃ w mnData keystore, Reencrypts klib rounds salt iv walletId oldPassword newPassword
      s.session.store w mnData keystore := (h.reencrypts_iff hlib).mpr ⟨hmem, hold⟩
  obtain ⟨w, mnData, keystore, hre⟩ := hre
  obtain ⟨hw, rfl⟩ := mem_of_walletUnder hre.found
  rcases (performs_resetWalletPassword env hre).of_write with ⟨-, -, hfails⟩ | ⟨hrun, -⟩
  · exact .inr hfails
  · left
    obtain ⟨s', hs'⟩ : ∃ s', s' = step env lib klib rounds s
        (.resetWalletPassword w.shared.id oldPassword newPassword salt iv) := ⟨_, rfl⟩
    rw [← hs'] at hdate
    have hstore : s'.session.store = s.session.store.setWallets (Wallets.updateById
        ⟨beforeUpdate env (s.session.calls + 1) w.shared, { w.row with mnemonic := keystore }⟩
        s.session.store.walletsDb.wallet) := by
      rw [hs']
      have hstore := congrArg (fun r => r.1.store) hrun
      rwa [h.ids.saveUpdate_eq hdraws hmem] at hstore
    have hcreation : s'.creation = s.creation := by
      rw [hs']
      rfl
    have hpassword : s'.passwordOf w.shared.id = newPassword := by
      rw [hs']
      exact if_pos ⟨congrArg (fun r => r.2.isOk) hrun, rfl⟩
    have hmem' : w.shared.id ∈ s'.session.store.secrets.walletIds := by
      rw [hstore, walletIds_updateById]
      exact hmem
    obtain ⟨w', hw', hid⟩ := List.mem_map.mp hmem'
    obtain ⟨backup, hbackup, hopens⟩ := h.backup _ hmem
    obtain ⟨backup', hbackup', hopens'⟩ := (hdate w' hw').backup
    -- it is one backup, which opens with one password
    rw [hid, hcreation, backups, hstore] at hbackup'
    obtain rfl : backup = backup' := Option.some.inj (hbackup.symm.trans hbackup')
    rw [hid, hcreation, hpassword] at hopens'
    rw [hold]
    by_contra hne
    have hrejects := hopens.rejects newPassword.asBytes fun heq =>
      hne (Text.asBytes_injective heq)
    rw [hopens'.opens] at hrejects
    exact hrejects

end Reset

/-! ### All calls -/

theorem Secured.step (h : Secured env klib rounds s) (hdraws : env.DrawsOnce)
    (hlib : klib.Reliable) {call : PasswordCall} (hseparated : call.Separated klib)
    (hrounds : call.rounds ≤ rounds) (hkeeps : KeepsPassword env s call) :
    Secured env klib rounds (step env lib klib rounds s call) := by
  cases call with
  | createWallet netType parameters salt iv =>
    exact h.createWallet hdraws hlib hseparated hrounds
  | renameWallet name walletId => exact h.renameWallet name walletId
  | resetWalletPassword walletId oldPassword newPassword salt iv =>
    exact h.resetWalletPassword hdraws hlib hseparated hkeeps

/-- After a call every copy opens with the password exactly if the call keeps the password. -/
theorem Secured.upToDate_step_iff (h : Secured env klib rounds s) (hdraws : env.DrawsOnce)
    (hlib : klib.Reliable) {call : PasswordCall} (hseparated : call.Separated klib)
    (hrounds : call.rounds ≤ rounds) :
    UpToDate env klib rounds (PasswordRun.step env lib klib rounds s call) ↔
      KeepsPassword env s call := by
  refine ⟨fun hdate => ?_, fun hkeeps =>
    (h.step hdraws hlib hseparated hrounds hkeeps).upToDate⟩
  cases call with
  | createWallet netType parameters salt iv => trivial
  | renameWallet name walletId => trivial
  | resetWalletPassword walletId oldPassword newPassword salt iv =>
    exact h.keepsPassword_of_upToDate hdraws hlib hdate

theorem guarded_upToDate_iff (h : Secured env klib rounds s) (hdraws : env.DrawsOnce)
    (hlib : klib.Reliable) (calls : List PasswordCall)
    (hseparated : ∀ call ∈ calls, call.Separated klib)
    (hrounds : ∀ call ∈ calls, call.rounds ≤ rounds) :
    Guarded (step env lib klib rounds) (fun s call =>
        UpToDate env klib rounds (step env lib klib rounds s call) ∧
          FailsCleanly env klib rounds s call) s calls ↔
      Guarded (step env lib klib rounds) (KeepsPassword env) s calls := by
  induction calls generalizing s with
  | nil => exact Iff.rfl
  | cons call calls ih =>
    obtain ⟨hcall, hrest⟩ := List.forall_mem_cons.mp hseparated
    obtain ⟨hcall', hrest'⟩ := List.forall_mem_cons.mp hrounds
    rw [guarded_cons, guarded_cons, h.upToDate_step_iff hdraws hlib hcall hcall',
      and_iff_left (failsCleanly s call)]
    refine and_congr_right fun hkeeps => ?_
    exact ih (h.step hdraws hlib hcall hcall' hkeeps) hrest hrest'

end Invariant

end PasswordRun

open PasswordRun in
/-- **A new password reaches every copy**, in a run from enough rounds of the loops on, exactly
if no reset that gets through sets another password than that of the creation: the backup keeps
that one. -/
theorem upToDate_iff_keepsPassword (env : Surroundings) (lib : Libraries)
    (klib : Eee.KeyringLibraries) (hdraws : env.DrawsOnce) (hlib : klib.Reliable)
    (db : Databases) (calls : List PasswordCall)
    (hseparated : ∀ call ∈ calls, call.Separated klib) :
    ∃ n, ∀ rounds, n ≤ rounds →
      (Guarded (step env lib klib rounds) (fun s call =>
          UpToDate env klib rounds (step env lib klib rounds s call) ∧
            FailsCleanly env klib rounds s call) (start db) calls ↔
        Guarded (step env lib klib rounds) (KeepsPassword env) (start db) calls) := by
  refine ⟨(calls.map PasswordCall.rounds).sum, fun rounds hrounds => ?_⟩
  refine guarded_upToDate_iff (secured_start db) hdraws hlib calls hseparated fun call hcall => ?_
  have hmem : call.rounds ∈ calls.map PasswordCall.rounds := List.mem_map_of_mem hcall
  exact Nat.le_trans (List.single_le_sum (fun _ _ => Nat.zero_le _) _ hmem) hrounds

/-! ### One wallet -/

namespace PasswordRun

open WalletsRun (phrase noTokens seedAddress)

/-- A normal wallet with the password `p`. -/
def createP : PasswordCall :=
  .createWallet .main ⟨['n'], ['p'], phrase, "Normal".toList⟩ (List.replicate 32 0)
    (List.replicate 16 0)

def resetTo (oldPassword newPassword : Text) : PasswordCall :=
  .resetWalletPassword ['u', 'u', 'u'] oldPassword newPassword (List.replicate 32 0)
    (List.replicate 16 0)

theorem separates_p : Eee.KeyringLibraries.one.Separates (List.replicate 32 0)
    (Text.asBytes ['p']) := Eee.KeyringLibraries.separates_one _

/-- The password is set again, and another one is refused. -/
theorem upToDate_iff_keepsPassword_p :
    ∃ n, ∀ rounds, n ≤ rounds →
      (Guarded (step (failsAt 100) seedAddress .one rounds) (fun s call =>
          UpToDate (failsAt 100) .one rounds
              (step (failsAt 100) seedAddress .one rounds s call) ∧
            FailsCleanly (failsAt 100) .one rounds s call) (start noTokens)
          [createP, resetTo ['p'] ['p'], resetTo ['q'] ['p']] ↔
        Guarded (step (failsAt 100) seedAddress .one rounds) (KeepsPassword (failsAt 100))
          (start noTokens) [createP, resetTo ['p'] ['p'], resetTo ['q'] ['p']]) := by
  refine upToDate_iff_keepsPassword (failsAt 100) seedAddress .one (drawsOnce_failsAt 100)
    Eee.KeyringLibraries.reliable_one noTokens _ ?_
  simp only [List.forall_mem_cons]
  exact ⟨separates_p, separates_p, separates_p, fun _ h => nomatch h⟩

def afterP (rounds : Nat) : PasswordRun :=
  step (failsAt 100) seedAddress .one rounds (start noTokens) createP

theorem walletIds_afterP (rounds : Nat) :
    (afterP rounds).session.store.secrets.walletIds = [['u', 'u', 'u']] := rfl

theorem calls_afterP (rounds : Nat) : (afterP rounds).session.calls = 37 := rfl

/-- After the password becomes `q`, the backup does not open with it. -/
theorem not_upToDate_of_reset :
    ∃ n, ∀ rounds, n ≤ rounds →
      ¬ Guarded (step (failsAt 100) seedAddress .one rounds) (fun s call =>
          UpToDate (failsAt 100) .one rounds
              (step (failsAt 100) seedAddress .one rounds s call) ∧
            FailsCleanly (failsAt 100) .one rounds s call) (start noTokens)
          [createP, resetTo ['p'] ['q']] := by
  refine ⟨createP.rounds, fun rounds hrounds h => ?_⟩
  have hsecured : Secured (failsAt 100) .one rounds (afterP rounds) :=
    (secured_start noTokens).step (drawsOnce_failsAt 100) Eee.KeyringLibraries.reliable_one
      separates_p hrounds trivial
  have hkeeps := hsecured.keepsPassword_of_upToDate (drawsOnce_failsAt 100)
    Eee.KeyringLibraries.reliable_one h.2.1.1
  have hmem : ['u', 'u', 'u'] ∈ (afterP rounds).session.store.secrets.walletIds := by
    rw [walletIds_afterP]
    exact List.mem_singleton_self _
  rcases hkeeps hmem rfl with hnew | hfails | hfails
  · exact absurd hnew (by decide)
  · rw [calls_afterP] at hfails
    exact absurd hfails (by decide)
  · rw [calls_afterP] at hfails
    exact absurd hfails (by decide)

end PasswordRun


end Cashbox.Wallets
