import DecentralizedIDP.CryptoFeldman

/-! Share commitments: what is committed verifies and nothing else does, and two salts give
digests of their own, up to an exhibited collision of the hash. -/
namespace DecentralizedIDP
open Foundations

/-- What is hashed for the value at a position. -/
def commitmentInput (salt : Bytes) (i value : ℕ) : Bytes := salt ++ toBytes 4 i ++ toBytes 32 value

/-- Two messages that collide under the hash. -/
def Collides (m m' : Bytes) : Prop := m ≠ m' ∧ sha3_256 m = sha3_256 m'

theorem feldmanCommitment_eq (salt : Bytes) (i value : ℕ) :
    feldmanCommitment salt i value = sha3_256 (commitmentInput salt i value) := rfl

/-- The numbers take up 36 bytes, whatever the length of the salt. -/
theorem commitmentInput_salt (salt salt' : Bytes) (i value i' value' : ℕ)
    (h : commitmentInput salt i value = commitmentInput salt' i' value') : salt = salt' := by
  unfold commitmentInput at h
  obtain ⟨hfront, -⟩ := List.append_inj' h (by simp only [toBytes_length])
  obtain ⟨hsalt, -⟩ := List.append_inj' hfront (by simp only [toBytes_length])
  exact hsalt

theorem commitmentInput_value (salt : Bytes) (i : ℕ) (y v : ℤ) (hy : 0 ≤ y ∧ y < 256^32)
    (hv : 0 ≤ v ∧ v < 256^32)
    (h : commitmentInput salt i y.toNat = commitmentInput salt i v.toNat) : y = v := by
  have hbytes : toBytes 32 y.toNat = toBytes 32 v.toNat := List.append_cancel_left h
  calc y = ((fromBytes (toBytes 32 y.toNat) : ℕ) : ℤ) :=
        (fromBytes_toBytes_int 32 y hy.1 hy.2).symm
    _ = ((fromBytes (toBytes 32 v.toNat) : ℕ) : ℤ) := by rw [hbytes]
    _ = v := fromBytes_toBytes_int 32 v hv.1 hv.2

/-- Equal digests of one position stand for equal values or for a collision. -/
theorem feldmanCommitment_eq_iff (salt : Bytes) (i : ℕ) (y v : ℤ) (hy : 0 ≤ y ∧ y < 256^32)
    (hv : 0 ≤ v ∧ v < 256^32) :
    feldmanCommitment salt i y.toNat = feldmanCommitment salt i v.toNat ↔
      y = v ∨ Collides (commitmentInput salt i y.toNat) (commitmentInput salt i v.toNat) := by
  rw [feldmanCommitment_eq, feldmanCommitment_eq]
  constructor
  · intro h
    by_cases hinput : commitmentInput salt i y.toNat = commitmentInput salt i v.toNat
    · exact Or.inl (commitmentInput_value salt i y v hy hv hinput)
    · exact Or.inr ⟨hinput, h⟩
  · intro h
    rcases h with heq | hcollides
    · rw [heq]
    · exact hcollides.2

/-- A digest comes out only if both numbers fit. -/
theorem feldmanDigest_inv (salt : Bytes) (i : ℕ) (value : ℤ) (digest : Bytes)
    (h : feldmanDigest salt i value = .ok digest) :
    digest = sha3_256 (commitmentInput salt i value.toNat) := by
  -- either number raises if it does not fit
  by_cases hi : i < 256^4
  · by_cases hv : 0 ≤ value ∧ value < 256^32
    · rw [feldmanDigest_ok salt i value hi hv, Except.ok.injEq] at h
      rw [← h, feldmanCommitment_eq]
    · obtain ⟨e, he⟩ := intToBytes_error 32 value (by exact_mod_cast hv)
      rw [feldmanDigest, intToBytes_ok 4 i (by omega) (by exact_mod_cast hi), he] at h
      cases h
  · obtain ⟨e, he⟩ := intToBytes_error 4 i (fun hfits => hi (by exact_mod_cast hfits.2))
    rw [feldmanDigest, he] at h
    cases h

/-- Every digest of a commitment list is that of a value at its position. -/
theorem generateCommitments_mem (values : List ℤ) (salt salt' : Bytes) (commitments : List Bytes)
    (h : generateCommitments values salt = .ok (commitments, salt')) :
    ∀ digest ∈ commitments, ∃ (i : ℕ) (value : ℤ), values[i]? = some value ∧
      digest = sha3_256 (commitmentInput salt i value.toNat) := by
  rw [generateCommitments] at h
  cases hmap : values.zipIdx.mapM (fun vi => feldmanDigest salt vi.2 vi.1) with
  | error e =>
    rw [hmap] at h
    cases h
  | ok digests =>
    rw [hmap] at h
    cases h
    intro digest hmem
    obtain ⟨vi, hvi, hdigest⟩ := mapM_mem _ _ _ hmap digest hmem
    exact ⟨vi.2, vi.1, List.mem_zipIdx_iff_getElem?.mp hvi,
      feldmanDigest_inv salt vi.2 vi.1 digest hdigest⟩

/-- For the list that was generated the check answers for every index, and says yes
exactly to the value committed there, or to one that collides with it. -/
theorem verifyShare_iff (values : List ℤ) (salt : Bytes) (hlen : values.length ≤ 256^4)
    (hv : ∀ v ∈ values, 0 ≤ v ∧ v < 256^32) (x y : ℤ) (hy : 0 ≤ y ∧ y < 256^32) :
    ∃ accepted, verifyShare (x, y)
        (values.zipIdx.map (fun vi => feldmanCommitment salt vi.2 vi.1.toNat)) salt =
          .ok accepted ∧
      (accepted = true ↔ 1 ≤ x ∧ x ≤ values.length ∧ ∃ v, values[(x-1).toNat]? = some v ∧
        (y = v ∨ Collides (commitmentInput salt (x-1).toNat y.toNat)
          (commitmentInput salt (x-1).toNat v.toNat))) := by
  unfold verifyShare
  simp only [List.length_map, List.length_zipIdx]
  by_cases hx : 1 ≤ x ∧ x ≤ values.length
  · -- inside the list: positions count from zero, shares from one
    obtain ⟨i, hi⟩ := Int.eq_ofNat_of_zero_le (show 0 ≤ x-1 by omega)
    have hlt : i < values.length := by omega
    have hvalue : values[i]? = some values[i] := List.getElem?_eq_getElem hlt
    rw [if_neg (by omega), hi, feldmanDigest_ok salt i y (by omega) hy, Int.toNat_natCast,
      commitments_getElem? values salt i _ hvalue, hvalue]
    refine ⟨_, rfl, ?_⟩
    rw [beq_iff_eq, Option.some.injEq, eq_comm,
      feldmanCommitment_eq_iff salt i y values[i] hy (hv _ (List.getElem_mem hlt))]
    constructor
    · intro h
      exact ⟨hx.1, hx.2, values[i], rfl, h⟩
    · intro h
      obtain ⟨-, -, v, hsome, h⟩ := h
      rwa [Option.some.inj hsome]
  · rw [if_pos (by omega)]
    refine ⟨false, rfl, ?_⟩
    constructor
    · intro h
      cases h
    · intro h
      exact absurd ⟨h.1, h.2.1⟩ hx

/-- The list of commitments is made, and to every pair of a share the check answers, with yes
exactly for the value at that index unless two named messages collide. The digests made
with another salt are others, unless two named messages collide. -/
theorem commitments_complete_binding (values : List ℤ) (salt : Bytes)
    (hlen : values.length ≤ 2^32) (hv : ∀ v ∈ values, 0 ≤ v ∧ v < 2^256) :
    ∃ commitments, generateCommitments values salt = .ok (commitments, salt) ∧
      (∀ x y : ℤ, 0 ≤ y → y < 2^256 →
        ∃ accepted, verifyShare (x, y) commitments salt = .ok accepted ∧
          (accepted = true ↔ 1 ≤ x ∧ x ≤ values.length ∧ ∃ v, values[(x-1).toNat]? = some v ∧
            (y = v ∨ Collides (commitmentInput salt (x-1).toNat y.toNat)
              (commitmentInput salt (x-1).toNat v.toNat)))) ∧
      ∀ (values' : List ℤ) (salt' : Bytes) (commitments' : List Bytes), salt ≠ salt' →
        generateCommitments values' salt' = .ok (commitments', salt') →
        ∀ digest, digest ∈ commitments → digest ∈ commitments' →
          ∃ (i i' : ℕ) (v v' : ℤ), values[i]? = some v ∧ values'[i']? = some v' ∧
            Collides (commitmentInput salt i v.toNat) (commitmentInput salt' i' v'.toNat) := by
  have hmade := generateCommitments_ok values salt (by omega) (by norm_num at hv ⊢; exact hv)
  refine ⟨_, hmade, ?_, ?_⟩
  · intro x y h0 hlt
    exact verifyShare_iff values salt (by omega) (by norm_num at hv ⊢; exact hv) x y
      ⟨h0, by norm_num at hlt ⊢; exact hlt⟩
  · intro values' salt' commitments' hne hmade' digest hmem hmem'
    obtain ⟨i, v, hvalue, hdigest⟩ := generateCommitments_mem values salt salt _ hmade digest hmem
    obtain ⟨i', v', hvalue', hdigest'⟩ :=
      generateCommitments_mem values' salt' salt' commitments' hmade' digest hmem'
    -- behind a salt of any length stand 36 bytes, so equal messages have equal salts
    refine ⟨i, i', v, v', hvalue, hvalue', ?_, hdigest.symm.trans hdigest'⟩
    intro hinput
    exact hne (commitmentInput_salt salt salt' i v.toNat i' v'.toNat hinput)

theorem commitments_complete_binding_two :
    ∃ commitments, generateCommitments [5, 2^256-1] [1] = .ok (commitments, [1]) ∧
      verifyShare (2, 2^256-1) commitments [1] = .ok true ∧
      verifyShare (-3, 5) commitments [1] = .ok false := by
  obtain ⟨commitments, hmade, hverify, -⟩ :=
    commitments_complete_binding [5, 2^256-1] [1] (by decide) (by decide)
  refine ⟨commitments, hmade, ?_, ?_⟩
  · obtain ⟨accepted, haccepted, hiff⟩ := hverify 2 (2^256-1) (by norm_num) (by norm_num)
    rw [haccepted, hiff.mpr ⟨by norm_num, by simp, 2^256-1, rfl, Or.inl rfl⟩]
  · obtain ⟨accepted, haccepted, hiff⟩ := hverify (-3) 5 (by norm_num) (by norm_num)
    cases accepted with
    | true =>
      have hrange := (hiff.mp rfl).1
      norm_num at hrange
    | false => exact haccepted

end DecentralizedIDP
