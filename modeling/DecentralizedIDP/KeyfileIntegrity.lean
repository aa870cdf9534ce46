import DecentralizedIDP.CryptoKeyfile
import DecentralizedIDP.LedgerTable
import DecentralizedIDP.SamplePrimitives

/-! The keyfile read back: what comes out of a file whose fields were edited. The private
key is sealed, the public key beside it is plain text. -/
namespace DecentralizedIDP
open Foundations

/-! ## Loading -/

/-- `bytes.fromhex(payload[key])`. -/
def keyfileField (payload : Json) (key : String) : Except PyError Bytes := do
  let value ← Ledger.subscript payload key
  Ledger.bytesFromhex value

def loadKeyfile (prim : Primitives) (path password : String) (files : Files) :
    Except PyError (Bytes × Bytes) :=
  match files path with
  | none => .error (.osError ("Keyfile not found: " ++ path))
  | some text =>
    match loads text with
    | none => .error (.valueError "JSONDecodeError")
    | some payload => do
      let salt ← keyfileField payload "salt"
      let nonce ← keyfileField payload "nonce"
      let ciphertext ← keyfileField payload "ciphertext"
      let publicKeyBytes ← keyfileField payload "public_key"
      -- a nonce of a refused length raises inside the same `try` as a wrong tag
      match prim.decrypt (deriveAesKey password salt) nonce ciphertext none with
      | none => .error (.valueError "Wrong password or corrupted keyfile")
      | some privateKeyBytes => return (privateKeyBytes, publicKeyBytes)

/-- The document with these texts in its fields. -/
def keyfileJson (alg salt nonce ciphertext publicKey : String) : Json :=
  .obj [("version", .int 1), ("alg", .str alg), ("salt", .str salt), ("nonce", .str nonce),
    ("ciphertext", .str ciphertext), ("public_key", .str publicKey)]

theorem keyfileField_str (ms : List (String × Json)) (key text : String)
    (h : (Json.obj ms).get? key = some (.str text)) :
    keyfileField (.obj ms) key = Ledger.bytesFromhex (.str text) := by
  have hvalue : Ledger.subscript (.obj ms) key = .ok (.str text) := by
    simp only [Ledger.subscript, h]
  rw [keyfileField, hvalue]
  rfl

theorem bind_ok_iff {α β ε : Type} (x : Except ε α) (f : α → Except ε β) (b : β) :
    (x >>= f) = .ok b ↔ ∃ a, x = .ok a ∧ f a = .ok b := by
  cases x with
  | error e => simp [bind, Except.bind]
  | ok a => simp [bind, Except.bind]

theorem bytesFromhex_ok_iff (text : String) (bs : Bytes) :
    Ledger.bytesFromhex (.str text) = .ok bs ↔ fromhex text = some bs := by
  unfold Ledger.bytesFromhex
  cases hhex : fromhex text with
  | none => simp [hhex]
  | some bs' => simp [hhex]

section Load
variable (prim : Primitives) (path password : String) (files : Files)
  (alg salt nonce ciphertext publicKey : String)
  (hfile : files path = some (dumps (keyfileJson alg salt nonce ciphertext publicKey)))
include hfile

/-- Loading succeeds exactly when all four fields are hexadecimal and the ciphertext opens;
then it returns what it opened to and what stands in the last field. -/
theorem loadKeyfile_ok_iff (privateKey publicKeyBytes : Bytes) :
    loadKeyfile prim path password files = .ok (privateKey, publicKeyBytes) ↔
      ∃ saltBytes nonceBytes ciphertextBytes, fromhex salt = some saltBytes ∧
        fromhex nonce = some nonceBytes ∧ fromhex ciphertext = some ciphertextBytes ∧
        fromhex publicKey = some publicKeyBytes ∧
        prim.decrypt (deriveAesKey password saltBytes) nonceBytes ciphertextBytes none =
          some privateKey := by
  have hvalid : (keyfileJson alg salt nonce ciphertext publicKey).Valid := by
    simp [keyfileJson, Json.Valid, ValidMembers]
  have hfield (key text : String)
      (h : (keyfileJson alg salt nonce ciphertext publicKey).get? key = some (.str text)) :
      keyfileField (keyfileJson alg salt nonce ciphertext publicKey) key =
        Ledger.bytesFromhex (.str text) := keyfileField_str _ key text h
  rw [loadKeyfile, hfile]
  simp only [loads_dumps _ hvalid, hfield "salt" salt (by simp [keyfileJson, Json.get?]),
    hfield "nonce" nonce (by simp [keyfileJson, Json.get?]),
    hfield "ciphertext" ciphertext (by simp [keyfileJson, Json.get?]),
    hfield "public_key" publicKey (by simp [keyfileJson, Json.get?]), bind_ok_iff,
    bytesFromhex_ok_iff]
  -- what is left on both sides are the four fields and the decryption
  constructor
  · intro h
    obtain ⟨saltBytes, hsalt, nonceBytes, hnonce, ciphertextBytes, hciphertext, publicBytes,
      hpublic, hopen⟩ := h
    cases hdecrypt : prim.decrypt (deriveAesKey password saltBytes) nonceBytes ciphertextBytes
        none with
    | none =>
      rw [hdecrypt] at hopen
      cases hopen
    | some opened =>
      rw [hdecrypt] at hopen
      cases hopen
      exact ⟨saltBytes, nonceBytes, ciphertextBytes, hsalt, hnonce, hciphertext, hpublic, hdecrypt⟩
  · intro h
    obtain ⟨saltBytes, nonceBytes, ciphertextBytes, hsalt, hnonce, hciphertext, hpublic,
      hdecrypt⟩ := h
    refine ⟨saltBytes, hsalt, nonceBytes, hnonce, ciphertextBytes, hciphertext, publicKeyBytes,
      hpublic, ?_⟩
    rw [hdecrypt]
    rfl

end Load

/-! ## What was sealed -/

/-- One call of `save_keyfile`. -/
structure KeyfileSave where
  inp : KeyfileInputs
  privateKey : Bytes
  publicKey : Bytes
  password : String

namespace KeyfileSave
variable (prim : Primitives) (save : KeyfileSave)

def aesKey : Bytes := deriveAesKey save.password save.inp.salt

def ciphertext : Bytes := prim.encrypt save.aesKey save.inp.nonce save.privateKey none

/-- The text that the call writes. -/
def text (alg : String) : String :=
  dumps (keyfileJson alg (hex save.inp.salt) (hex save.inp.nonce) (hex (save.ciphertext prim))
    (hex save.publicKey))

theorem saveKeyfile_written (path alg : String) (files : Files)
    (hwrite : save.inp.write = .written) :
    saveKeyfile prim save.inp save.privateKey save.publicKey save.password path alg files =
      (.ok (), fun f => if f = path then some (save.text prim alg) else files f) := by
  rw [saveKeyfile, hwrite]
  rfl

end KeyfileSave

theorem KeyfileSave.decrypt_ciphertext (prim : Primitives) (hdec : prim.DecryptsEncrypted)
    (save : KeyfileSave) :
    prim.decrypt save.aesKey save.inp.nonce (save.ciphertext prim) none = some save.privateKey := by
  have hlen : save.aesKey.length = 32 := by rw [KeyfileSave.aesKey, deriveAesKey, pbkdf2Sha3_length]
  exact hdec ⟨save.aesKey, hlen⟩ save.inp.nonce save.privateKey none

/-- The ciphertext of a file is no forgery: under the nonce of the file and the key that password
and salt derive it does not open, unless one of the saves has made it under the two. -/
def Sealed (prim : Primitives) (saves : List KeyfileSave)
    (password salt nonce ciphertext : String) : Prop :=
  ∀ saltBytes nonceBytes ciphertextBytes, fromhex salt = some saltBytes →
    fromhex nonce = some nonceBytes → fromhex ciphertext = some ciphertextBytes →
    prim.decrypt (deriveAesKey password saltBytes) nonceBytes ciphertextBytes none ≠ none →
    ∃ save ∈ saves, save.aesKey = deriveAesKey password saltBytes ∧
      save.inp.nonce.val = nonceBytes ∧ save.ciphertext prim = ciphertextBytes

/-- What loading returns was sealed by a save, whose nonce, ciphertext and derived key the
file and the password bring together. -/
theorem loadKeyfile_sealed (prim : Primitives) (hdec : prim.DecryptsEncrypted)
    (saves : List KeyfileSave) (path password : String) (files : Files)
    (alg salt nonce ciphertext publicKey : String)
    (hfile : files path = some (dumps (keyfileJson alg salt nonce ciphertext publicKey)))
    (hsealed : Sealed prim saves password salt nonce ciphertext)
    (privateKey publicKeyBytes : Bytes)
    (hload : loadKeyfile prim path password files = .ok (privateKey, publicKeyBytes)) :
    fromhex publicKey = some publicKeyBytes ∧ ∃ kept ∈ saves, privateKey = kept.privateKey ∧
      fromhex nonce = some kept.inp.nonce.val ∧
      fromhex ciphertext = some (kept.ciphertext prim) ∧
      ∃ saltBytes, fromhex salt = some saltBytes ∧
        deriveAesKey password saltBytes = kept.aesKey := by
  rw [loadKeyfile_ok_iff prim path password files alg salt nonce ciphertext publicKey hfile]
    at hload
  obtain ⟨saltBytes, nonceBytes, ciphertextBytes, hsalt, hnonce, hciphertext, hpublic,
    hdecrypt⟩ := hload
  obtain ⟨kept, hkept, hkey, hkeptNonce, hkeptCiphertext⟩ :=
    hsealed saltBytes nonceBytes ciphertextBytes hsalt hnonce hciphertext
      (by rw [hdecrypt]; exact Option.some_ne_none _)
  -- the save that was found opens to its own private key
  have hopens := kept.decrypt_ciphertext prim hdec
  rw [hkey, hkeptNonce, hkeptCiphertext, hdecrypt, Option.some.injEq] at hopens
  refine ⟨hpublic, kept, hkept, hopens, ?_, ?_, saltBytes, hsalt, hkey.symm⟩
  · rw [hkeptNonce, hnonce]
  · rw [hkeptCiphertext, hciphertext]

/-- What is saved is loaded under the same password. From a file with any texts in the four
fields and under any password, if the ciphertext in the file is no forgery, loading raises or
returns the bytes of the public key as they stand there, beside the private key of the save
whose nonce, ciphertext and derived key are given; and the saved pair, if no other save is put
in its place and the public key is left as it was. -/
theorem keyfile_integrity (prim : Primitives) (hdec : prim.DecryptsEncrypted)
    (saves : List KeyfileSave) (save : KeyfileSave) (path alg : String) :
    (∀ files, save.inp.write = .written →
      ∃ files', saveKeyfile prim save.inp save.privateKey save.publicKey save.password path alg
          files = (.ok (), files') ∧
        loadKeyfile prim path save.password files' = .ok (save.privateKey, save.publicKey)) ∧
    ∀ (salt nonce ciphertext publicKey password : String) (files : Files),
      files path = some (dumps (keyfileJson alg salt nonce ciphertext publicKey)) →
      Sealed prim saves password salt nonce ciphertext →
      ((∃ e, loadKeyfile prim path password files = .error e) ∨
        ∃ publicKeyBytes, fromhex publicKey = some publicKeyBytes ∧
          ∃ kept ∈ saves,
            loadKeyfile prim path password files = .ok (kept.privateKey, publicKeyBytes) ∧
            fromhex nonce = some kept.inp.nonce.val ∧
            fromhex ciphertext = some (kept.ciphertext prim) ∧
            ∃ saltBytes, fromhex salt = some saltBytes ∧
              deriveAesKey password saltBytes = kept.aesKey) ∧
      ((∀ other ∈ saves, fromhex nonce = some other.inp.nonce.val →
          fromhex ciphertext = some (other.ciphertext prim) → other = save) →
        fromhex publicKey = some save.publicKey →
        (∃ e, loadKeyfile prim path password files = .error e) ∨
          loadKeyfile prim path password files = .ok (save.privateKey, save.publicKey)) := by
  constructor
  · intro files hwrite
    refine ⟨_, save.saveKeyfile_written prim path alg files hwrite, ?_⟩
    -- the file that was written holds the two draws, the ciphertext and the public key
    rw [loadKeyfile_ok_iff prim path save.password _ alg _ _ _ _ (if_pos rfl)]
    exact ⟨_, _, _, fromhex_hex _, fromhex_hex _, fromhex_hex _, fromhex_hex _,
      save.decrypt_ciphertext prim hdec⟩
  · intro salt nonce ciphertext publicKey password files hfile hsealed
    cases hload : loadKeyfile prim path password files with
    | error e => exact ⟨Or.inl ⟨e, rfl⟩, fun _ _ => Or.inl ⟨e, rfl⟩⟩
    | ok pair =>
      obtain ⟨hpublic, kept, hkept, hprivate, hnonce, hciphertext, hkey⟩ :=
        loadKeyfile_sealed prim hdec saves path password files alg salt nonce ciphertext
          publicKey hfile hsealed pair.1 pair.2 hload
      constructor
      · exact Or.inr ⟨pair.2, hpublic, kept, hkept, by rw [← hprivate], hnonce, hciphertext, hkey⟩
      · intro hother hsaved
        right
        rw [hpublic, Option.some.injEq] at hsaved
        have hsame := hother kept hkept hnonce hciphertext
        rw [← hsaved, ← hsame, ← hprivate]

/-! ## Two keyfiles of one user -/

def keyfileInputs (b : UInt8) : KeyfileInputs :=
  ⟨⟨List.replicate 32 b, rfl⟩, ⟨List.replicate 12 b, rfl⟩, .written⟩

def firstSave : KeyfileSave := ⟨keyfileInputs 1, [1], [2], "pw"⟩

def secondSave : KeyfileSave := ⟨keyfileInputs 3, [3], [4], "pw"⟩

/-- The fields that save the private key, with this public key beside them. -/
def KeyfileSave.withPublicKey (save : KeyfileSave) (publicKey : Bytes) : Files := fun _ =>
  some (dumps (keyfileJson "Ed25519" (hex save.inp.salt) (hex save.inp.nonce)
    (hex (save.ciphertext samplePrimitives)) (hex publicKey)))

theorem loadKeyfile_withPublicKey (save : KeyfileSave) (publicKey : Bytes) :
    loadKeyfile samplePrimitives "k" save.password (save.withPublicKey publicKey) =
      .ok (save.privateKey, publicKey) := by
  have hfile : save.withPublicKey publicKey "k" = some (dumps (keyfileJson "Ed25519"
      (hex save.inp.salt) (hex save.inp.nonce) (hex (save.ciphertext samplePrimitives))
      (hex publicKey))) := rfl
  rw [loadKeyfile_ok_iff samplePrimitives "k" save.password _ "Ed25519" _ _ _ _ hfile]
  exact ⟨_, _, _, fromhex_hex _, fromhex_hex _, fromhex_hex _, fromhex_hex _,
    save.decrypt_ciphertext samplePrimitives SamplePrimitives.decryptsEncrypted⟩

/-- The fields as a save has written them are sealed by that save. -/
theorem sealed_saved (prim : Primitives) (saves : List KeyfileSave) (save : KeyfileSave)
    (hsave : save ∈ saves) :
    Sealed prim saves save.password (hex save.inp.salt) (hex save.inp.nonce)
      (hex (save.ciphertext prim)) := by
  intro saltBytes nonceBytes ciphertextBytes hsalt hnonce hciphertext _
  rw [fromhex_hex, Option.some.injEq] at hsalt hnonce hciphertext
  exact ⟨save, hsave, by rw [← hsalt]; rfl, hnonce, hciphertext⟩

/-- With another public key in the file of the first keyfile, and with the first public key
in the file of the second, loading returns and does not return the first pair. -/
theorem edited_keyfile_loads :
    (∀ save ∈ [firstSave, secondSave], Sealed samplePrimitives [firstSave, secondSave]
      save.password (hex save.inp.salt) (hex save.inp.nonce)
        (hex (save.ciphertext samplePrimitives))) ∧
    saveKeyfile samplePrimitives firstSave.inp [1] [2] "pw" "k" "Ed25519" (fun _ => none) =
      (.ok (), fun f => if f = "k" then firstSave.withPublicKey [2] f else none) ∧
    loadKeyfile samplePrimitives "k" "pw" (firstSave.withPublicKey [2]) = .ok ([1], [2]) ∧
    loadKeyfile samplePrimitives "k" "pw" (firstSave.withPublicKey [5]) = .ok ([1], [5]) ∧
    loadKeyfile samplePrimitives "k" "pw" (secondSave.withPublicKey [2]) = .ok ([3], [2]) :=
  ⟨sealed_saved samplePrimitives _, rfl, loadKeyfile_withPublicKey firstSave [2],
    loadKeyfile_withPublicKey firstSave [5], loadKeyfile_withPublicKey secondSave [2]⟩

/-- The file of the first keyfile is written and loaded; with another public key in it, loading
raises or returns a private key that was saved. -/
theorem keyfile_integrity_single :
    (∃ files', saveKeyfile samplePrimitives firstSave.inp firstSave.privateKey
        firstSave.publicKey firstSave.password "k" "Ed25519" (fun _ => none) = (.ok (), files') ∧
      loadKeyfile samplePrimitives "k" firstSave.password files' =
        .ok (firstSave.privateKey, firstSave.publicKey)) ∧
    ((∃ e, loadKeyfile samplePrimitives "k" "pw" (firstSave.withPublicKey [5]) = .error e) ∨
      ∃ publicKeyBytes, fromhex (hex [5]) = some publicKeyBytes ∧
        ∃ kept ∈ [firstSave, secondSave],
          loadKeyfile samplePrimitives "k" "pw" (firstSave.withPublicKey [5]) =
            .ok (kept.privateKey, publicKeyBytes)) := by
  obtain ⟨hsaved, hedited⟩ := keyfile_integrity samplePrimitives SamplePrimitives.decryptsEncrypted
    [firstSave, secondSave] firstSave "k" "Ed25519"
  refine ⟨hsaved (fun _ => none) rfl, ?_⟩
  have hfile := (hedited _ _ _ (hex [5]) "pw" (firstSave.withPublicKey [5]) rfl
    (sealed_saved samplePrimitives _ firstSave List.mem_cons_self)).1
  refine hfile.imp_right ?_
  intro hloads
  obtain ⟨publicKeyBytes, hpublic, kept, hkept, hload, -⟩ := hloads
  exact ⟨publicKeyBytes, hpublic, kept, hkept, hload⟩

end DecentralizedIDP
