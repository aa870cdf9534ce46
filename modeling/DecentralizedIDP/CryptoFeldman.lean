import DecentralizedIDP.CryptoHKDF

/-! Salted hash commitments to the share values, one for each node. -/
namespace DecentralizedIDP
open Foundations

/-- The digest of one value under its position. -/
def feldmanDigest (salt : Bytes) (i value : ℤ) : Except PyError Bytes := do
  let index ← intToBytes 4 i
  let body ← intToBytes 32 value
  return sha3_256 (salt ++ index ++ body)

/-- `salt` is the caller's, or the one drawn when the caller gives none. -/
def generateCommitments (coefficients : List ℤ) (salt : Bytes) :
    Except PyError (List Bytes × Bytes) := do
  let commitments ← coefficients.zipIdx.mapM (fun vi => feldmanDigest salt vi.2 vi.1)
  return (commitments, salt)

def verifyShare (share : ℤ × ℤ) (commitments : List Bytes) (salt : Bytes) : Except PyError Bool :=
  let idx := share.1-1
  -- an index that no commitment stands for is refused before anything is hashed
  if idx < 0 ∨ (commitments.length : ℤ) ≤ idx then .ok false
  else do
    let digest ← feldmanDigest salt idx share.2
    return commitments[idx.toNat]? == some digest

/-- The digest where both numbers fit. -/
def feldmanCommitment (salt : Bytes) (i value : ℕ) : Bytes :=
  sha3_256 (salt ++ toBytes 4 i ++ toBytes 32 value)

theorem feldmanDigest_ok (salt : Bytes) (i : ℕ) (value : ℤ) (hi : i < 256^4)
    (hv : 0 ≤ value ∧ value < 256^32) :
    feldmanDigest salt i value = .ok (feldmanCommitment salt i value.toNat) := by
  rw [feldmanDigest, intToBytes_ok 4 i (by omega) (by exact_mod_cast hi),
    intToBytes_ok 32 value hv.1 hv.2]
  rfl

theorem mapM_ok {α β ε : Type*} (f : α → Except ε β) (g : α → β) (l : List α)
    (h : ∀ a ∈ l, f a = .ok (g a)) : l.mapM f = .ok (l.map g) := by
  induction l with
  | nil => rfl
  | cons a l ih =>
    rw [List.mapM_cons, h a List.mem_cons_self, ih (fun b hb => h b (List.mem_cons_of_mem _ hb))]
    rfl

theorem mapM_mem {α β ε : Type*} (f : α → Except ε β) (l : List α) (bs : List β)
    (h : l.mapM f = .ok bs) : ∀ b ∈ bs, ∃ a ∈ l, f a = .ok b := by
  induction l generalizing bs with
  | nil =>
    cases h
    simp
  | cons a l ih =>
    rw [List.mapM_cons] at h
    cases hfirst : f a with
    | error e =>
      rw [hfirst] at h
      cases h
    | ok first =>
      cases hrest : l.mapM f with
      | error e =>
        rw [hfirst, hrest] at h
        cases h
      | ok rest =>
        rw [hfirst, hrest] at h
        cases h
        rw [List.forall_mem_cons]
        refine ⟨⟨a, List.mem_cons_self, hfirst⟩, ?_⟩
        intro b hb
        obtain ⟨a', ha', hb'⟩ := ih rest hrest b hb
        exact ⟨a', List.mem_cons_of_mem _ ha', hb'⟩

theorem generateCommitments_ok (values : List ℤ) (salt : Bytes) (hlen : values.length ≤ 256^4)
    (hv : ∀ v ∈ values, 0 ≤ v ∧ v < 256^32) :
    generateCommitments values salt =
      .ok (values.zipIdx.map (fun vi => feldmanCommitment salt vi.2 vi.1.toNat), salt) := by
  rw [generateCommitments, mapM_ok _ (fun vi => feldmanCommitment salt vi.2 vi.1.toNat)]
  · rfl
  · rintro ⟨v, i⟩ hmem
    have hi := List.mem_zipIdx' hmem
    exact feldmanDigest_ok salt i v (by omega) (hv v (List.fst_mem_of_mem_zipIdx hmem))

theorem commitments_getElem? (values : List ℤ) (salt : Bytes) (i : ℕ) (v : ℤ)
    (hi : values[i]? = some v) :
    (values.zipIdx.map (fun vi => feldmanCommitment salt vi.2 vi.1.toNat))[i]? =
      some (feldmanCommitment salt i v.toNat) := by
  rw [List.getElem?_map, List.getElem?_zipIdx, hi]
  simp

/-- Every committed value verifies under its one-based index. -/
theorem verifyShare_committed (values : List ℤ) (salt : Bytes) (i : ℕ) (v : ℤ)
    (hlen : values.length ≤ 256^4) (hv : ∀ v ∈ values, 0 ≤ v ∧ v < 256^32)
    (hi : values[i]? = some v) :
    verifyShare ((i : ℤ)+1, v)
      (values.zipIdx.map (fun vi => feldmanCommitment salt vi.2 vi.1.toNat)) salt = .ok true := by
  have hlt := (List.getElem?_eq_some_iff.mp hi).1
  -- shares count from one, the commitments from zero
  have hidx : (i : ℤ)+1-1 = i := by omega
  rw [verifyShare]
  simp only [hidx, List.length_map, List.length_zipIdx]
  rw [if_neg (by omega), feldmanDigest_ok salt i v (by omega) (hv v (List.mem_of_getElem? hi)),
    Int.toNat_natCast, commitments_getElem? values salt i v hi]
  simp [pure, Except.pure, bind, Except.bind]

end DecentralizedIDP
