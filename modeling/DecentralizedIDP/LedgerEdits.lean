import DecentralizedIDP.LedgerBinding

/-! Edits of single columns in a valid ledger. A new content no longer fits the row's own
hash, and neither does a new hash; a new link no longer fits the row before. -/
namespace DecentralizedIDP
open Foundations

/-- An `UPDATE` of one column, to a value of its type. -/
inductive ColumnEdit (τ : Type) where
  | entryType (value : String)
  | did (value : String)
  | dataJson (value : String)
  | timestamp (value : τ)
  | entryHash (value : String)
  | previousHash (value : String)

namespace ColumnEdit
variable {τ : Type}

def apply (edit : ColumnEdit τ) (row : Entry τ) : Entry τ :=
  match edit with
  | .entryType value => { row with entryType := value }
  | .did value => { row with did := value }
  | .dataJson value => { row with dataJson := value }
  | .timestamp value => { row with timestamp := value }
  | .entryHash value => { row with entryHash := value }
  | .previousHash value => { row with previousHash := value }

end ColumnEdit

namespace Ledger
variable {τ : Type} (repr : τ → String)

/-- The rows have different contents and one digest. -/
def RowsCollide (x y : Entry τ) : Prop :=
  rowPreimage repr x ≠ rowPreimage repr y ∧
    sha3_256 (rowPreimage repr x) = sha3_256 (rowPreimage repr y)

/-- What an edit that changes the row does to its link, its content and its hash. -/
theorem edit_effect (hrepr : Function.Injective repr) (edit : ColumnEdit τ) (row : Entry τ)
    (hedit : edit.apply row ≠ row) :
    (edit.apply row).previousHash ≠ row.previousHash ∨
    ((edit.apply row).entryHash = row.entryHash ∧
      rowPreimage repr (edit.apply row) ≠ rowPreimage repr row) ∨
    ((edit.apply row).entryHash ≠ row.entryHash ∧
      rowPreimage repr (edit.apply row) = rowPreimage repr row) := by
  -- the other columns stay, so the bytes of the edited one can be read off the content
  cases edit with
  | entryHash value =>
    right; right
    refine ⟨fun hhash => hedit ?_, rfl⟩
    simp only [ColumnEdit.apply] at hhash ⊢
    rw [hhash]
  | previousHash value =>
    left
    intro hlink
    apply hedit
    simp only [ColumnEdit.apply] at hlink ⊢
    rw [hlink]
  | timestamp value =>
    right; left
    refine ⟨rfl, fun hpre => hedit ?_⟩
    simp only [ColumnEdit.apply, rowPreimage, hashPreimage, List.append_right_inj] at hpre ⊢
    rw [hrepr (encode_injective hpre)]
  | _ value =>
    -- the three text columns that are hashed
    right; left
    refine ⟨rfl, fun hpre => hedit ?_⟩
    simp only [ColumnEdit.apply, rowPreimage, hashPreimage, List.append_left_inj,
      List.append_right_inj] at hpre ⊢
    rw [encode_injective hpre]

/-- A row that replaces another in a valid table either fails it or has the same link,
and its own hash is right. -/
theorem verifyChain_replaced (table : Ledger τ) (hvalid : verifyChain repr table = true) (i : ℕ)
    (row edited : Entry τ) (hrow : table[i]? = some row)
    (hedited : verifyChain repr (table.set i edited) = true) :
    edited.previousHash = row.previousHash ∧ sha3Hex (rowPreimage repr row) = row.entryHash ∧
      sha3Hex (rowPreimage repr edited) = edited.entryHash := by
  obtain ⟨hi, hget⟩ := List.getElem?_eq_some_iff.mp hrow
  have hsplit : table = table.take i ++ row :: table.drop (i+1) := by
    rw [← hget, List.getElem_cons_drop, List.take_append_drop]
  -- both tables are chains, with the same rows around the place of the edit
  rw [verifyChain_iff] at hvalid hedited
  rw [List.set_eq_take_append_cons_drop, if_pos hi] at hedited
  rw [hsplit] at hvalid
  exact (chainFormat repr).linked_replaced zeroHash _ _ row edited hvalid hedited

/-- An edit of one column of any row of a valid table makes it invalid, or its content and
the old one collide. -/
theorem edited_column_detected (hrepr : Function.Injective repr) (table : Ledger τ)
    (hvalid : verifyChain repr table = true) (i : ℕ) (row : Entry τ) (hrow : table[i]? = some row)
    (edit : ColumnEdit τ) (hedit : edit.apply row ≠ row) :
    verifyChain repr (table.set i (edit.apply row)) = false ∨
      RowsCollide repr (edit.apply row) row := by
  cases hafter : verifyChain repr (table.set i (edit.apply row)) with
  | false => exact Or.inl rfl
  | true =>
    right
    obtain ⟨hlink, hrowHash, heditHash⟩ :=
      verifyChain_replaced repr table hvalid i row (edit.apply row) hrow hafter
    rcases edit_effect repr hrepr edit row hedit with
      hnewLink | ⟨hsameHash, hpre⟩ | ⟨hnewHash, hpre⟩
    · exact absurd hlink hnewLink
    · -- one hash for two contents
      refine ⟨hpre, hex_injective ?_⟩
      calc sha3Hex (rowPreimage repr (edit.apply row))
          = (edit.apply row).entryHash := heditHash
        _ = row.entryHash := hsameHash
        _ = sha3Hex (rowPreimage repr row) := hrowHash.symm
    · rw [hpre] at heditHash
      exact absurd (heditHash.symm.trans hrowHash) hnewHash

/-- A third row. -/
def threeRows : Ledger ℚ :=
  twoRows "AUTH_FAIL" "did:decidp:0" ++ [newEntry samplePrimitives.repr 2 "AUTH_FAIL"
    "did:decidp:1" [("reason", .str "quorum_not_reached")] (twoRows "AUTH_FAIL" "did:decidp:0")]

/-- The DID of the row in the middle is replaced. -/
theorem edited_column_detected_did :
    ∃ row, threeRows[1]? = some row ∧
      (verifyChain samplePrimitives.repr
          (threeRows.set 1 ((ColumnEdit.did "did:decidp:2").apply row)) = false ∨
        RowsCollide samplePrimitives.repr ((ColumnEdit.did "did:decidp:2").apply row) row) := by
  have hvalid : verifyChain samplePrimitives.repr threeRows = true := by
    rw [verifyChain_iff]
    apply linked_newEntry
    rw [← verifyChain_iff]
    exact twoRows_valid _ _
  exact ⟨_, rfl, edited_column_detected samplePrimitives.repr SamplePrimitives.repr_injective _
    hvalid 1 _ rfl _ (by simp [ColumnEdit.apply, newEntry])⟩

end Ledger

end DecentralizedIDP
