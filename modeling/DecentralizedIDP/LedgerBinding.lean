import DecentralizedIDP.LedgerTable
import DecentralizedIDP.SamplePrimitives

/-! How far the head of a valid ledger binds its rows. The hash runs the columns
together without separators, so it fixes their concatenation, and the columns
themselves once their lengths are known. -/
namespace DecentralizedIDP
open Foundations

namespace Ledger
variable {τ : Type} (repr : τ → String)

/-- The bytes a row is hashed from. -/
def rowPreimage (row : Entry τ) : Bytes :=
  hashPreimage repr row.previousHash row.entryType row.did row.dataJson row.timestamp

/-- The columns of a row that enter its hash. -/
def rowColumns (row : Entry τ) : String × String × String × String × τ :=
  (row.previousHash, row.entryType, row.did, row.dataJson, row.timestamp)

def hashedColumns (ledger : Ledger τ) : List (String × String × String × String × τ) :=
  ledger.map rowColumns

/-- Rows of the tables with different contents and one digest, or a row whose digest
is all zeros. -/
def Exhibits (a b : Ledger τ) : Prop :=
  (∃ x ∈ a, ∃ y ∈ b, rowPreimage repr x ≠ rowPreimage repr y ∧
    sha3_256 (rowPreimage repr x) = sha3_256 (rowPreimage repr y)) ∨
  ∃ x ∈ a ++ b, sha3_256 (rowPreimage repr x) = List.replicate 32 0

/-- The text columns of two rows have the same lengths in bytes. -/
def SameLengths (x y : Entry τ) : Prop :=
  (encode x.entryType).length = (encode y.entryType).length ∧
    (encode x.did).length = (encode y.did).length ∧
    (encode x.dataJson).length = (encode y.dataJson).length

theorem zeroHash_eq : zeroHash = hex (List.replicate 32 0) := by decide

/-- Rows of one preimage and one previous hash agree when their lengths do. -/
theorem columns_agree (hrepr : Function.Injective repr) (x y : Entry τ)
    (hpre : rowPreimage repr x = rowPreimage repr y) (hlink : x.previousHash = y.previousHash)
    (hlen : SameLengths x y) : x.entryType = y.entryType ∧ x.did = y.did ∧
      x.dataJson = y.dataJson ∧ x.timestamp = y.timestamp := by
  -- peel the columns off the common preimage, each by its known length
  simp only [rowPreimage, hashPreimage, hlink, List.append_assoc] at hpre
  have hrest := List.append_cancel_left hpre
  obtain ⟨htype, hrest⟩ := List.append_inj hrest hlen.1
  obtain ⟨hdid, hrest⟩ := List.append_inj hrest hlen.2.1
  obtain ⟨hjson, hrest⟩ := List.append_inj hrest hlen.2.2
  exact ⟨encode_injective htype, encode_injective hdid, encode_injective hjson,
    hrepr (encode_injective hrest)⟩

/-- The previous hash is the first 64 bytes of what a row is hashed from. -/
theorem chainFormat_readable :
    (chainFormat repr).Readable (fun d => (encode d).length = 64) zeroHash where
  digest := encode_sha3Hex_length
  genesis := by rw [zeroHash_eq, encode_hex_length, List.length_replicate]
  link := by
    intro x y hx hy hpre
    -- both previous hashes are 64 bytes long, so the two texts split at one place
    simp only [chainFormat, hashPreimage, List.append_assoc] at hx hy hpre
    exact encode_injective (List.append_inj hpre (hx.trans hy.symm)).1

theorem collisionFree (a b : Ledger τ) (hnone : ¬Exhibits repr a b) :
    (chainFormat repr).CollisionFree zeroHash a b := by
  have hzero (x : Entry τ) (hx : x ∈ a ++ b) : sha3Hex (rowPreimage repr x) ≠ zeroHash := by
    rw [zeroHash_eq, sha3Hex]
    exact fun h => hnone (Or.inr ⟨x, hx, hex_injective h⟩)
  refine ⟨fun x hx => hzero x (List.mem_append_left b hx),
    fun y hy => hzero y (List.mem_append_right a hy), ?_⟩
  intro x hx y hy hdigest
  by_contra hne
  exact hnone (Or.inl ⟨x, hx, y, hy, hne, hex_injective hdigest⟩)

/-- Two valid tables with one head hash the same bytes row by row, from the last row
back to the first. -/
theorem preimages_agree (a b : Ledger τ) (ha : verifyChain repr a = true)
    (hb : verifyChain repr b = true) (hhead : a.lastHash = b.lastHash)
    (hnone : ¬Exhibits repr a b) :
    List.Forall₂ (fun x y => rowPreimage repr x = rowPreimage repr y ∧
      x.previousHash = y.previousHash ∧ x.entryHash = y.entryHash) a b := by
  rw [verifyChain_iff] at ha hb
  exact (chainFormat repr).preimages_agree _ zeroHash (chainFormat_readable repr) a b ha hb hhead
    (collisionFree repr a b hnone)

theorem forall₂_and {α β : Type*} {R S : α → β → Prop} {xs : List α} {ys : List β}
    (hR : List.Forall₂ R xs ys) (hS : List.Forall₂ S xs ys) :
    List.Forall₂ (fun x y => R x y ∧ S x y) xs ys := by
  induction hR with
  | nil => exact List.Forall₂.nil
  | cons hxy _ ih =>
    obtain ⟨hxy', hrest⟩ := List.forall₂_cons.mp hS
    exact List.Forall₂.cons ⟨hxy, hxy'⟩ (ih hrest)

/-- Two valid tables with one head agree in every hashed column exactly when the
lengths of their text columns agree row by row, unless they exhibit a collision or
a preimage of zero. -/
theorem hashedColumns_eq_iff (hrepr : Function.Injective repr) (a b : Ledger τ)
    (ha : verifyChain repr a = true) (hb : verifyChain repr b = true)
    (hhead : a.lastHash = b.lastHash) (hnone : ¬Exhibits repr a b) :
    a.hashedColumns = b.hashedColumns ↔ List.Forall₂ SameLengths a b := by
  constructor
  · intro h
    have hcolumns : List.Forall₂ (fun x y : Entry τ => rowColumns x = rowColumns y) a b :=
      List.forall₂_map_left_iff.mp (List.forall₂_map_right_iff.mp
        (show List.Forall₂ Eq a.hashedColumns b.hashedColumns by
          rw [h]; exact List.forall₂_same.mpr (fun _ _ => rfl)))
    apply hcolumns.imp
    intro x y hxy
    simp only [rowColumns, Prod.mk.injEq] at hxy
    obtain ⟨-, htype, hdid, hjson, -⟩ := hxy
    exact ⟨by rw [htype], by rw [hdid], by rw [hjson]⟩
  · intro hlen
    -- the heads fix the preimages, the lengths fix the columns within them
    have hrows := forall₂_and (preimages_agree repr a b ha hb hhead hnone) hlen
    clear ha hb hhead hnone hlen
    induction hrows with
    | nil => rfl
    | cons hxy _ ih =>
      obtain ⟨⟨hpre, hlink, -⟩, hlen⟩ := hxy
      obtain ⟨htype, hdid, hjson, htime⟩ := columns_agree repr hrepr _ _ hpre hlink hlen
      rw [hashedColumns, List.map_cons, hashedColumns, List.map_cons, rowColumns, rowColumns,
        hlink, htype, hdid, hjson, htime]
      exact congrArg _ ih

/-- A table made of rows of a valid one is valid exactly when it is a beginning of it,
unless the valid one exhibits a collision or a preimage of zero. So no row can be taken
out but from the end, and none moved or repeated. -/
theorem rearranged_iff (table rows : Ledger τ) (htable : verifyChain repr table = true)
    (hrows : ∀ row ∈ rows, row ∈ table) (hnone : ¬Exhibits repr table table) :
    (verifyChain repr rows = true ↔ rows <+: table) ∧
      (rows.Sublist table → ¬rows <+: table → verifyChain repr rows = false) ∧
      (rows.Perm table → rows ≠ table → verifyChain repr rows = false) ∧
      (¬rows.Nodup → verifyChain repr rows = false) := by
  have hread := chainFormat_readable repr
  have hfree := collisionFree repr table table hnone
  have hlinked := (verifyChain_iff repr table).mp htable
  have hiff : verifyChain repr rows = true ↔ rows <+: table := by
    rw [verifyChain_iff]
    exact (chainFormat repr).linked_iff_initial _ zeroHash hread table hlinked hfree rows hrows
  have hfalse (hno : ¬rows <+: table) : verifyChain repr rows = false := by
    rw [← Bool.not_eq_true, hiff]
    exact hno
  -- a permutation is as long as the table, so it cannot be a shorter beginning of it
  refine ⟨hiff, fun _ => hfalse, ?_, ?_⟩
  · intro hperm hne
    exact hfalse (fun hinit => hne (hinit.eq_of_length hperm.length_eq))
  · intro hdup
    have hnodup := (chainFormat repr).nodup_of_linked _ zeroHash hread table hlinked hfree
    exact hfalse (fun hinit => hdup (hnodup.sublist hinit.sublist))

/-! ## Where the column boundary moves -/

/-- A table of one row, hashed as `append` hashes it. -/
def singleRow (entryType did : String) : Ledger ℚ :=
  [{ entryType := entryType, did := did, dataJson := "\x7b\x7d", timestamp := 0,
     entryHash := computeHash samplePrimitives.repr zeroHash entryType did "\x7b\x7d" 0,
     previousHash := zeroHash }]

theorem singleRow_valid (entryType did : String) :
    verifyChain samplePrimitives.repr (singleRow entryType did) = true := by
  simp [verifyChain, singleRow, verifyFrom]

theorem singleRow_preimage (entryType did : String) :
    ∀ x ∈ singleRow entryType did, rowPreimage samplePrimitives.repr x =
      hashPreimage samplePrimitives.repr zeroHash entryType did "\x7b\x7d" 0 := by
  intro x hx
  rw [singleRow, List.mem_singleton] at hx
  rw [hx]
  rfl

theorem singleRow_digest :
    sha3_256 (hashPreimage samplePrimitives.repr zeroHash "AUTH_FAIL" "did:decidp:0" "\x7b\x7d" 0) ≠
      List.replicate 32 0 := by
  decide +kernel

/-- The last letter of the entry type can move into the DID. -/
theorem shifted_preimage :
    hashPreimage samplePrimitives.repr zeroHash "AUTH_FAI" "Ldid:decidp:0" "\x7b\x7d" 0 =
      hashPreimage samplePrimitives.repr zeroHash "AUTH_FAIL" "did:decidp:0" "\x7b\x7d" 0 := by
  have htype : encode "AUTH_FAIL" = encode "AUTH_FAI" ++ encode "L" := by decide
  have hdid : encode "Ldid:decidp:0" = encode "L" ++ encode "did:decidp:0" := by decide
  simp only [hashPreimage, htype, hdid, List.append_assoc]

/-- Tables whose rows are hashed from two contents of different digests exhibit nothing. -/
theorem not_exhibits (first second : Bytes) (hne : sha3_256 first ≠ sha3_256 second)
    (hfirst : sha3_256 first ≠ List.replicate 32 0)
    (hsecond : sha3_256 second ≠ List.replicate 32 0) (a b : Ledger τ)
    (ha : ∀ x ∈ a, rowPreimage repr x = first ∨ rowPreimage repr x = second)
    (hb : ∀ x ∈ b, rowPreimage repr x = first ∨ rowPreimage repr x = second) :
    ¬Exhibits repr a b := by
  rintro (⟨x, hx, y, hy, hpre, hdigest⟩ | ⟨x, hx, hzero⟩)
  · rcases ha x hx with hx | hx <;> rcases hb y hy with hy | hy <;> rw [hx, hy] at hpre hdigest
    · exact hpre rfl
    · exact hne hdigest
    · exact hne hdigest.symm
    · exact hpre rfl
  · rcases (List.mem_append.mp hx).elim (ha x) (hb x) with hx | hx <;> rw [hx] at hzero
    · exact hfirst hzero
    · exact hsecond hzero

/-- A row after it. -/
def secondRow : Bytes :=
  hashPreimage samplePrimitives.repr (sha3Hex (hashPreimage samplePrimitives.repr zeroHash
    "AUTH_FAIL" "did:decidp:0" "\x7b\x7d" 0)) "DID_REGISTER" "did:decidp:1" "\x7b\x7d" 1

theorem secondRow_digest : sha3_256 secondRow ≠ List.replicate 32 0 ∧
    sha3_256 (hashPreimage samplePrimitives.repr zeroHash "AUTH_FAIL" "did:decidp:0" "\x7b\x7d" 0) ≠
      sha3_256 secondRow := by
  decide +kernel

theorem singleRow_exhibits (a b : Ledger ℚ)
    (ha : ∀ x ∈ a, rowPreimage samplePrimitives.repr x =
      hashPreimage samplePrimitives.repr zeroHash "AUTH_FAIL" "did:decidp:0" "\x7b\x7d" 0)
    (hb : ∀ x ∈ b, rowPreimage samplePrimitives.repr x =
      hashPreimage samplePrimitives.repr zeroHash "AUTH_FAIL" "did:decidp:0" "\x7b\x7d" 0) :
    ¬Exhibits samplePrimitives.repr a b :=
  not_exhibits samplePrimitives.repr _ secondRow secondRow_digest.2 singleRow_digest
    secondRow_digest.1 a b (fun x hx => Or.inl (ha x hx)) (fun x hx => Or.inl (hb x hx))

/-- Two valid tables with one head and no exhibit that differ in two hashed columns. -/
theorem shifted_rows_share_head :
    verifyChain samplePrimitives.repr (singleRow "AUTH_FAIL" "did:decidp:0") = true ∧
    verifyChain samplePrimitives.repr (singleRow "AUTH_FAI" "Ldid:decidp:0") = true ∧
    (singleRow "AUTH_FAIL" "did:decidp:0").lastHash =
      (singleRow "AUTH_FAI" "Ldid:decidp:0").lastHash ∧
    ¬Exhibits samplePrimitives.repr (singleRow "AUTH_FAIL" "did:decidp:0")
      (singleRow "AUTH_FAI" "Ldid:decidp:0") ∧
    (singleRow "AUTH_FAIL" "did:decidp:0").hashedColumns ≠
      (singleRow "AUTH_FAI" "Ldid:decidp:0").hashedColumns := by
  refine ⟨singleRow_valid _ _, singleRow_valid _ _, ?_, ?_, ?_⟩
  · exact (congrArg sha3Hex shifted_preimage).symm
  · exact singleRow_exhibits _ _ (singleRow_preimage _ _)
      (fun x hx => (singleRow_preimage _ _ x hx).trans shifted_preimage)
  · simp [hashedColumns, rowColumns, singleRow]

/-- The same table with a row appended to it. -/
def twoRows (entryType did : String) : Ledger ℚ :=
  singleRow entryType did ++ [newEntry samplePrimitives.repr 1 "DID_REGISTER" "did:decidp:1" []
    (singleRow entryType did)]

theorem twoRows_valid (entryType did : String) :
    verifyChain samplePrimitives.repr (twoRows entryType did) = true := by
  rw [verifyChain_iff]
  apply linked_newEntry
  rw [← verifyChain_iff]
  exact singleRow_valid entryType did

/-- Where the first row is hashed from the bytes of `AUTH_FAIL` and `did:decidp:0`, the second
one is hashed from the same bytes too. -/
theorem twoRows_preimage (entryType did : String)
    (hfirst : hashPreimage samplePrimitives.repr zeroHash entryType did "\x7b\x7d" 0 =
      hashPreimage samplePrimitives.repr zeroHash "AUTH_FAIL" "did:decidp:0" "\x7b\x7d" 0) :
    ∀ x ∈ twoRows entryType did, rowPreimage samplePrimitives.repr x =
        hashPreimage samplePrimitives.repr zeroHash "AUTH_FAIL" "did:decidp:0" "\x7b\x7d" 0 ∨
      rowPreimage samplePrimitives.repr x = secondRow := by
  intro x hx
  rcases List.mem_append.mp hx with hx | hx
  · exact Or.inl ((singleRow_preimage entryType did x hx).trans hfirst)
  · rw [List.mem_singleton] at hx
    have hjson : dumpsSorted [] = "\x7b\x7d" := by decide
    have hlast : (singleRow entryType did).lastHash = sha3Hex (hashPreimage samplePrimitives.repr
        zeroHash "AUTH_FAIL" "did:decidp:0" "\x7b\x7d" 0) := congrArg sha3Hex hfirst
    right
    rw [hx, newEntry, rowPreimage, secondRow, hlast, hjson]

/-- Two tables of two rows, with one head and different first rows. -/
theorem hashedColumns_eq_iff_shifted :
    ((twoRows "AUTH_FAIL" "did:decidp:0").hashedColumns =
        (twoRows "AUTH_FAI" "Ldid:decidp:0").hashedColumns ↔
      List.Forall₂ SameLengths (twoRows "AUTH_FAIL" "did:decidp:0")
        (twoRows "AUTH_FAI" "Ldid:decidp:0")) ∧
    twoRows "AUTH_FAIL" "did:decidp:0" ≠ twoRows "AUTH_FAI" "Ldid:decidp:0" := by
  have hlast : (singleRow "AUTH_FAI" "Ldid:decidp:0").lastHash =
      (singleRow "AUTH_FAIL" "did:decidp:0").lastHash := congrArg sha3Hex shifted_preimage
  have hhead : (twoRows "AUTH_FAIL" "did:decidp:0").lastHash =
      (twoRows "AUTH_FAI" "Ldid:decidp:0").lastHash := by
    simp only [twoRows, newEntry, hlast]
    rfl
  refine ⟨?_, by simp [twoRows, singleRow]⟩
  exact hashedColumns_eq_iff samplePrimitives.repr SamplePrimitives.repr_injective _ _
    (twoRows_valid _ _) (twoRows_valid _ _) hhead
    (not_exhibits samplePrimitives.repr _ secondRow secondRow_digest.2 singleRow_digest
      secondRow_digest.1 _ _ (twoRows_preimage _ _ rfl) (twoRows_preimage _ _ shifted_preimage))

/-- The row of a table cannot stand in it twice. -/
theorem rearranged_iff_twice :
    verifyChain samplePrimitives.repr (singleRow "AUTH_FAIL" "did:decidp:0" ++
      singleRow "AUTH_FAIL" "did:decidp:0") = false :=
  (rearranged_iff samplePrimitives.repr (singleRow "AUTH_FAIL" "did:decidp:0") _
    (singleRow_valid _ _) (fun _ hrow => (List.mem_append.mp hrow).elim id id)
    (singleRow_exhibits _ _ (singleRow_preimage _ _) (singleRow_preimage _ _))).2.2.2
    (by simp [singleRow])

end Ledger

end DecentralizedIDP
