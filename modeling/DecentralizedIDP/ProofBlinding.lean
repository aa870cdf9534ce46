import DecentralizedIDP.SampleRuns

/-! What the answers of a node say about its share. A proof carries the factor `H` next
to the value that is multiplied by it. -/
namespace DecentralizedIDP
open Foundations

/-- The proof dicts that a node with this share sends out in sessions with these nonces. -/
def observedProofs (share : ℤ × ℤ) (nodeId : ℤ) (nonces : List Bytes) : List PartialProof :=
  nonces.map (fun nonce => computePartialProof share nonce nodeId P)

/-- What the recovery does to each proof, done to one proof alone. -/
def unblindProof (proof : PartialProof) : ℤ × ℤ := unblind P (powInt proof.H (P-2) P) proof

/-- One proof of a session gives the share away. -/
theorem unblindProof_computed (x y nodeId : ℤ) (hy : 0 ≤ y ∧ y < P) (nonce : Bytes)
    (hnonce : fromBytes (sha3_256 nonce) % P ≠ 0) :
    unblindProof (computePartialProof (x, y) nonce nodeId P) = (x, y) := by
  have hH := sessionH_ne_zero nonce hnonce
  have hcast := unblind_compute_cast P (x, y) nonce nodeId hH
  have hP : (0:ℤ) < P := by exact_mod_cast (Fact.out : P.Prime).pos
  have hvalue := residue_unique P _ y ⟨Int.emod_nonneg _ hP.ne', Int.emod_lt_of_pos _ hP⟩ hy hcast
  exact Prod.ext rfl hvalue

/-- Who has seen one proof can answer any later challenge in the node's place. -/
theorem answer_from_observed (x y nodeId : ℤ) (hy : 0 ≤ y ∧ y < P) (nonce next : Bytes)
    (hnonce : fromBytes (sha3_256 nonce) % P ≠ 0) :
    computePartialProof (unblindProof (computePartialProof (x, y) nonce nodeId P)) next nodeId P =
      computePartialProof (x, y) next nodeId P := by
  rw [unblindProof_computed x y nodeId hy nonce hnonce]

/-- No other value fits the proofs of a session. -/
theorem observedProofs_determine (x y y' nodeId : ℤ) (hy : 0 ≤ y ∧ y < P)
    (hy' : 0 ≤ y' ∧ y' < P) (nonce : Bytes) (nonces : List Bytes)
    (hnonce : fromBytes (sha3_256 nonce) % P ≠ 0)
    (h : observedProofs (x, y') nodeId (nonce :: nonces) =
      observedProofs (x, y) nodeId (nonce :: nonces)) : y' = y := by
  have hproof : computePartialProof (x, y') nonce nodeId P =
      computePartialProof (x, y) nonce nodeId P := by
    rw [observedProofs, observedProofs, List.map_cons, List.map_cons] at h
    exact (List.cons.inj h).1
  have hshare := congrArg unblindProof hproof
  rw [unblindProof_computed x y' nodeId hy' nonce hnonce,
    unblindProof_computed x y nodeId hy nonce hnonce] at hshare
  exact congrArg Prod.snd hshare

/-- The proofs leave another value possible exactly as long as there are none. -/
theorem blinding_iff (x y nodeId : ℤ) (hy : 0 ≤ y ∧ y < P) (nonces : List Bytes)
    (hnonces : ∀ nonce ∈ nonces, fromBytes (sha3_256 nonce) % P ≠ 0) :
    (∃ y' : ℤ, 0 ≤ y' ∧ y' ≤ P-1 ∧ y' ≠ y ∧
      observedProofs (x, y') nodeId nonces = observedProofs (x, y) nodeId nonces) ↔
      nonces = [] := by
  constructor
  · rintro ⟨y', h0, hle, hne, hproofs⟩
    cases nonces with
    | nil => rfl
    | cons nonce nonces =>
      have hy' : 0 ≤ y' ∧ y' < P := ⟨h0, by omega⟩
      exact absurd (observedProofs_determine x y y' nodeId hy hy' nonce nonces
        (hnonces nonce List.mem_cons_self) hproofs) hne
  · rintro rfl
    have hp : (1 : ℤ) < P := by exact_mod_cast one_lt_P
    by_cases hzero : y = 0
    · exact ⟨1, by omega, by omega, by omega, rfl⟩
    · exact ⟨0, by omega, by omega, Ne.symm hzero, rfl⟩

theorem blinding_iff_sample :
    (∃ y' : ℤ, 0 ≤ y' ∧ y' ≤ P-1 ∧ y' ≠ 1 ∧
      observedProofs (2, y') 2 [zeroToken 32] = observedProofs (2, 1) 2 [zeroToken 32]) ↔
      [(zeroToken 32).val] = [] := by
  apply blinding_iff 2 1 2 ⟨zero_le_one, by exact_mod_cast one_lt_P⟩
  intro nonce hnonce
  rw [List.mem_singleton.mp hnonce]
  exact zeroToken_hash

/-- One session on the zero nonce pins the value of the share `(2, 1)`. -/
theorem one_session_reveals : fromBytes (sha3_256 (zeroToken 32)) % P ≠ 0 ∧
    ¬∃ y' : ℤ, 0 ≤ y' ∧ y' ≤ P-1 ∧ y' ≠ 1 ∧
      observedProofs (2, y') 2 [zeroToken 32] = observedProofs (2, 1) 2 [zeroToken 32] := by
  have hp : (1 : ℤ) < P := by exact_mod_cast one_lt_P
  refine ⟨zeroToken_hash, ?_⟩
  rintro ⟨y', h0, hle, hne, hproofs⟩
  exact hne (observedProofs_determine 2 1 y' 2 ⟨zero_le_one, hp⟩ ⟨h0, by omega⟩ (zeroToken 32) []
    zeroToken_hash hproofs)

end DecentralizedIDP
