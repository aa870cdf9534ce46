import DecentralizedIDP.ShareStoreRefinement

/-! The integrity check of a stored share. The tag of the encryption covers `y` and the
DID; `x` is tied to `y` by the hash of their decimal texts, which run together. -/
namespace DecentralizedIDP
open Foundations

/-- The text that is hashed for a share. -/
def shareText (x y : ℤ) : String := decimal x ++ decimal y

/-- The texts of two shares differ and have one digest. -/
def TextsCollide (a b : ℤ × ℤ) : Prop :=
  shareText a.1 a.2 ≠ shareText b.1 b.2 ∧
    sha3_256 (encode (shareText a.1 a.2)) = sha3_256 (encode (shareText b.1 b.2))

/-- `x` and `y` were passed together in a call of `store_share`. -/
def PassedTogether (did : String) (x y : ℤ) (calls : List StoreCall) : Prop :=
  ∃ feldmanCommitment nonce, .storeShare did x y feldmanCommitment nonce ∈ calls

/-- They were, and the call got as far as encrypting `y`. -/
def Encrypted (did : String) (x y : ℤ) (calls : List StoreCall) : Prop :=
  (0 ≤ y ∧ y < 2^256) ∧ PassedTogether did x y calls

/-- The row that such a call made. -/
def MadeRow (prim : Primitives) (aesKey : Token 32) (did : String) (x y : ℤ)
    (calls : List StoreCall) (row : ShareRow) : Prop :=
  (0 ≤ y ∧ y < 2^256) ∧ ∃ feldmanCommitment nonce,
    .storeShare did x y feldmanCommitment nonce ∈ calls ∧
    row = ShareStore.shareRow prim aesKey nonce did x y (toBytes 32 y.toNat) feldmanCommitment

/-- `UPDATE` of the row of a DID, behind the back of the store: another `x`, the
ciphertext and nonce of one row and the hash of another. -/
def ShareStore.splice (did : String) (x : ℤ) (sealedRow hashedRow : ShareRow)
    (store : ShareStore) : ShareStore :=
  { store with shares := fun d =>
      if d = did then (store.shares d).map (fun row =>
        { row with
          xCoord := x
          yCoordEncrypted := sealedRow.yCoordEncrypted
          aesNonce := sealedRow.aesNonce
          shareHash := hashedRow.shareHash })
      else store.shares d }

/-- A read of the DID raises, or returns a pair that was passed together. -/
def ReadsPassed (prim : Primitives) (did : String) (calls : List StoreCall) (store : ShareStore) :
    Prop :=
  (∃ e, store.getShare prim did = .error e) ∨
    ∃ x y, store.getShare prim did = .ok (some (x, y)) ∧ PassedTogether did x y calls

namespace StoreSession

/-- Directory and handle hold the key. -/
def Keyed (key : Token 32) (s : StoreSession) : Prop :=
  s.store.aesKey = key ∧ s.dir.storeKey = some key

variable {key : Token 32} {s : StoreSession} (h : s.Keyed key)
include h

theorem Keyed.commit (store : ShareStore) (hkey : store.aesKey = s.store.aesKey) :
    (s.commit store).Keyed key := by
  rw [StoreSession.commit]
  split_ifs
  · exact ⟨hkey.trans h.1, h.2⟩
  · exact ⟨hkey.trans h.1, h.2⟩

theorem Keyed.openStore (drawn : Token 32) (readers : Bool) :
    (s.dir.openStore drawn readers).Keyed key := by
  rw [NodeDir.openStore, h.2]
  exact ⟨rfl, rfl⟩

theorem Keyed.reopen (drawn : Token 32) (closed : Bool) : (s.reopen drawn closed).1.Keyed key := by
  rw [StoreSession.reopen]
  split_ifs
  · exact h.openStore drawn _
  · exact h
  · exact h.openStore drawn _

end StoreSession

section Spliced
variable {prim : Primitives} (hdec : prim.DecryptsEncrypted)

variable (prim) in
/-- The key drawn when the directory was new stays that of the store. -/
theorem storeSession_aesKey (drawn : Token 32) (calls : List StoreCall) :
    (storeSession prim drawn calls).store.aesKey = drawn := by
  have hkeyed : (storeSession prim drawn calls).Keyed drawn := by
    apply Machine.final_invariant (shareStoreMachine prim) (StoreSession.Keyed drawn)
    · intro s call hs
      cases call with
      | storeShare did x y feldmanCommitment nonce =>
        by_cases hfits : ShareFits x y
        · rw [shareStore_fits prim s did x y feldmanCommitment nonce hfits]
          exact hs.commit _ rfl
        · obtain ⟨e, he⟩ := shareStore_unfit prim s did x y feldmanCommitment nonce hfits
          rw [he]
          split_ifs
          · exact hs
          · exact hs
      | deleteShare did =>
        rw [shareStore_deleteShare]
        exact hs.commit _ rfl
      | reopen drawn' closed => exact hs.reopen drawn' closed
      | _ => exact hs
    · exact ⟨rfl, rfl⟩
  exact hkeyed.1

include hdec

/-- What is read from a spliced row: its own `x` and the encrypted `y`, when the hash is
that of their text. -/
theorem getShare_splice (store : ShareStore) (did : String) (hhas : store.hasShare did = true)
    (x x₁ y₁ x₂ y₂ : ℤ) (calls : List StoreCall) (sealedRow hashedRow : ShareRow)
    (hsealed : MadeRow prim store.aesKey did x₁ y₁ calls sealedRow)
    (hhashed : MadeRow prim store.aesKey did x₂ y₂ calls hashedRow) :
    (store.splice did x sealedRow hashedRow).getShare prim did =
      if shareHash x y₁ ≠ shareHash x₂ y₂ then
        .error (.valueError ("Share integrity check failed for DID " ++ prim.reprStr did ++
          " — data may be tampered"))
      else .ok (some (x, y₁)) := by
  obtain ⟨⟨h0, hlt⟩, feldmanCommitment, nonce, -, rfl⟩ := hsealed
  obtain ⟨-, feldmanCommitment', nonce', -, rfl⟩ := hhashed
  have hval := fromBytes_toBytes_int 32 y₁ h0 (hlt.trans_eq (by norm_num))
  have hplain := hdec store.aesKey nonce (toBytes 32 y₁.toNat) (some (encode did))
  obtain ⟨row, hrow⟩ := Option.isSome_iff_exists.mp hhas
  simp only [ShareStore.getShare, ShareStore.splice, ↓reduceIte, hrow, Option.map_some,
    ShareStore.shareRow, hplain, hval]

omit hdec in
variable (prim) in
theorem madeRow_exists (aesKey : Token 32) (did : String) (x y : ℤ) (calls : List StoreCall)
    (h : Encrypted did x y calls) : ∃ row, MadeRow prim aesKey did x y calls row := by
  obtain ⟨hy, feldmanCommitment, nonce, hcall⟩ := h
  exact ⟨_, hy, feldmanCommitment, nonce, hcall, rfl⟩

omit hdec in
theorem MadeRow.encrypted {aesKey : Token 32} {did : String} {x y : ℤ} {calls : List StoreCall}
    {row : ShareRow} (h : MadeRow prim aesKey did x y calls row) : Encrypted did x y calls := by
  obtain ⟨hy, feldmanCommitment, nonce, hcall, -⟩ := h
  exact ⟨hy, feldmanCommitment, nonce, hcall⟩

end Spliced

/-- Whichever integers the column is set to, every splice of rows made for the DID is
refused, reads as a pair that was passed, or shows a collision, exactly when each text of
such an integer and an encrypted `y` that is the text of another share was passed. -/
theorem spliced_read_iff (prim : Primitives) (hdec : prim.DecryptsEncrypted) (drawn : Token 32)
    (calls : List StoreCall) (did : String)
    (hhas : (storeSession prim drawn calls).store.hasShare did = true) (column : Set ℤ) :
    (∀ x ∈ column, ∀ x₁ y₁ sealedRow, MadeRow prim drawn did x₁ y₁ calls sealedRow →
      ∀ x₂ y₂ hashedRow, MadeRow prim drawn did x₂ y₂ calls hashedRow →
      ReadsPassed prim did calls
        ((storeSession prim drawn calls).store.splice did x sealedRow hashedRow) ∨
      TextsCollide (x, y₁) (x₂, y₂)) ↔
    ∀ x ∈ column, ∀ x₁ y₁, Encrypted did x₁ y₁ calls → ∀ x₂ y₂, Encrypted did x₂ y₂ calls →
      shareText x y₁ = shareText x₂ y₂ → PassedTogether did x y₁ calls := by
  have hkey := storeSession_aesKey prim drawn calls
  have hread (x x₁ y₁ x₂ y₂ : ℤ) (sealedRow hashedRow : ShareRow)
      (hsealed : MadeRow prim drawn did x₁ y₁ calls sealedRow)
      (hhashed : MadeRow prim drawn did x₂ y₂ calls hashedRow) :=
    getShare_splice hdec (storeSession prim drawn calls).store did hhas x x₁ y₁ x₂ y₂ calls
      sealedRow hashedRow (hkey.symm ▸ hsealed) (hkey.symm ▸ hhashed)
  constructor
  · intro hall x hx x₁ y₁ h₁ x₂ y₂ h₂ htext
    obtain ⟨sealedRow, hsealed⟩ := madeRow_exists prim drawn did x₁ y₁ calls h₁
    obtain ⟨hashedRow, hhashed⟩ := madeRow_exists prim drawn did x₂ y₂ calls h₂
    have hhash : shareHash x y₁ = shareHash x₂ y₂ :=
      congrArg (fun text => sha3Hex (encode text)) htext
    have hread := hread x x₁ y₁ x₂ y₂ sealedRow hashedRow hsealed hhashed
    rw [if_neg (not_not.mpr hhash)] at hread
    -- the splice is read, and one text is no collision
    rcases hall x hx x₁ y₁ sealedRow hsealed x₂ y₂ hashedRow hhashed with
      (⟨e, he⟩ | ⟨x', y', hshare, hpassed⟩) | ⟨hne, -⟩
    · rw [hread] at he
      cases he
    · rw [hread, Except.ok.injEq, Option.some.injEq, Prod.mk.injEq] at hshare
      rwa [hshare.1, hshare.2]
    · exact absurd htext hne
  · intro hcond x hx x₁ y₁ sealedRow hsealed x₂ y₂ hashedRow hhashed
    have hread := hread x x₁ y₁ x₂ y₂ sealedRow hashedRow hsealed hhashed
    -- a splice passes the check when the hashes agree, with one text or by a collision
    by_cases hhash : shareHash x y₁ = shareHash x₂ y₂
    · rw [if_neg (not_not.mpr hhash)] at hread
      by_cases htext : shareText x y₁ = shareText x₂ y₂
      · left; right
        exact ⟨x, y₁, hread, hcond x hx x₁ y₁ hsealed.encrypted x₂ y₂ hhashed.encrypted htext⟩
      · right
        exact ⟨htext, hex_injective hhash⟩
    · left; left
      rw [if_pos hhash] at hread
      exact ⟨_, hread⟩

def oneNonce : Token 12 := ⟨List.replicate 12 1, rfl⟩

/-- Two shares for one DID, whose texts are `123` and `53`. -/
def mixedCalls : List StoreCall :=
  [.storeShare "a" 1 23 none zeroNonce, .storeShare "a" 5 3 none oneNonce]

/-- With the ciphertext of the second and the hash of the first, `x` can be set to 12:
the text of 12 and 3 is that of the first share again. -/
theorem splice_reads_unpassed : ∃ sealedRow hashedRow,
    MadeRow samplePrimitives zeroKey "a" 5 3 mixedCalls sealedRow ∧
    MadeRow samplePrimitives zeroKey "a" 1 23 mixedCalls hashedRow ∧
    (storeSession samplePrimitives zeroKey mixedCalls).store.hasShare "a" = true ∧
    ((storeSession samplePrimitives zeroKey mixedCalls).store.splice "a" 12 sealedRow
      hashedRow).getShare samplePrimitives "a" = .ok (some (12, 3)) ∧
    ¬PassedTogether "a" 12 3 mixedCalls ∧ ¬TextsCollide (12, 3) (1, 23) := by
  have hkey := storeSession_aesKey samplePrimitives zeroKey mixedCalls
  have htext : shareText 12 3 = shareText 1 23 := by decide
  have hhash : shareHash 12 3 = shareHash 1 23 :=
    congrArg (fun text => sha3Hex (encode text)) htext
  have hhas : (storeSession samplePrimitives zeroKey mixedCalls).store.hasShare "a" = true := by
    have hunlocked : Unlocked mixedCalls := by
      apply unlocked_of_closed
      simp [mixedCalls, StoreCall.LeavesOpen]
    apply hasShare_of_lastStored SamplePrimitives.decryptsEncrypted zeroKey hunlocked "a" 5 3
    exact ⟨[.storeShare "a" 1 23 none zeroNonce], [], none, oneNonce, by norm_num [ShareFits], rfl,
      by simp⟩
  obtain ⟨sealedRow, hsealed⟩ := madeRow_exists samplePrimitives zeroKey "a" 5 3
    mixedCalls ⟨by norm_num, none, oneNonce, by simp [mixedCalls]⟩
  obtain ⟨hashedRow, hhashed⟩ := madeRow_exists samplePrimitives zeroKey "a" 1 23
    mixedCalls ⟨by norm_num, none, zeroNonce, by simp [mixedCalls]⟩
  refine ⟨sealedRow, hashedRow, hsealed, hhashed, hhas, ?_, ?_, fun h => h.1 htext⟩
  · rw [getShare_splice SamplePrimitives.decryptsEncrypted _ "a" hhas 12 5 3 1 23 mixedCalls
      sealedRow hashedRow (hkey.symm ▸ hsealed) (hkey.symm ▸ hhashed)]
    exact if_neg (not_not.mpr hhash)
  · rintro ⟨feldmanCommitment, nonce, hcall⟩
    simp [mixedCalls] at hcall

def aloneCalls : List StoreCall := [.storeShare "a" 1 23 none zeroNonce]

theorem passed_alone (x y : ℤ) : PassedTogether "a" x y aloneCalls ↔ x = 1 ∧ y = 23 := by
  simp [PassedTogether, aloneCalls]

/-- A share that was stored alone cannot be read with another `x`. -/
theorem spliced_read_iff_alone :
    (storeSession samplePrimitives zeroKey aloneCalls).store.hasShare "a" = true ∧
    ∀ x ∈ (Set.univ : Set ℤ), ∀ x₁ y₁ sealedRow,
      MadeRow samplePrimitives zeroKey "a" x₁ y₁ aloneCalls sealedRow →
      ∀ x₂ y₂ hashedRow, MadeRow samplePrimitives zeroKey "a" x₂ y₂ aloneCalls hashedRow →
      ReadsPassed samplePrimitives "a" aloneCalls
        ((storeSession samplePrimitives zeroKey aloneCalls).store.splice "a" x sealedRow
          hashedRow) ∨
      TextsCollide (x, y₁) (x₂, y₂) := by
  have hhas : (storeSession samplePrimitives zeroKey aloneCalls).store.hasShare "a" = true := by
    have hunlocked : Unlocked aloneCalls := by
      apply unlocked_of_closed
      simp [aloneCalls, StoreCall.LeavesOpen]
    apply hasShare_of_lastStored SamplePrimitives.decryptsEncrypted zeroKey hunlocked "a" 1 23
    exact ⟨[], [], none, zeroNonce, by norm_num [ShareFits], rfl, by simp⟩
  refine ⟨hhas, ?_⟩
  apply (spliced_read_iff samplePrimitives SamplePrimitives.decryptsEncrypted zeroKey aloneCalls
    "a" hhas Set.univ).mpr
  rintro x - x₁ y₁ ⟨-, h₁⟩ x₂ y₂ ⟨-, h₂⟩ htext
  obtain ⟨rfl, rfl⟩ := (passed_alone x₁ y₁).mp h₁
  obtain ⟨rfl, rfl⟩ := (passed_alone x₂ y₂).mp h₂
  -- without the common end the texts are the numerals of `x` and 1
  have hx : x = 1 := by
    have hchars := congrArg String.toList htext
    simp only [shareText, String.toList_append, List.append_left_inj, decimal,
      String.toList_ofList] at hchars
    exact intChars_injective hchars
  exact (passed_alone x 23).mpr ⟨hx, rfl⟩

end DecentralizedIDP
