import DecentralizedIDP.CryptoSSS

/-! Partial proofs: a node's share blinded by the hash of a challenge nonce, and the
recovery of the secret from a threshold of them. -/
namespace DecentralizedIDP
open Foundations

/-- The proof dict a node answers with. -/
structure PartialProof where
  nodeId : ℤ
  x : ℤ
  partialValue : ℤ
  H : ℤ
  challengeHash : String
  deriving DecidableEq, Repr

/-- The session's challenge hash and its residue, which every honest proof carries. -/
def sessionHash (challengeNonce : Bytes) : String := sha3Hex challengeNonce

def sessionH (challengeNonce : Bytes) (p : ℕ) : ℤ := (intOfHex (sessionHash challengeNonce) : ℤ) % p

def computePartialProof (share : ℤ × ℤ) (challengeNonce : Bytes) (nodeId : ℤ) (p : ℕ) :
    PartialProof where
  nodeId := nodeId
  x := share.1
  partialValue := share.2*sessionH challengeNonce p % p
  H := sessionH challengeNonce p
  challengeHash := sessionHash challengeNonce

/-- A proof with the factor `H` taken out of its value. -/
def unblind (p : ℕ) (Hinv : ℤ) (proof : PartialProof) : ℤ × ℤ :=
  (proof.x, proof.partialValue*Hinv % p)

def recoverSecretFromPartialProofs (proofs : List PartialProof) (p : ℕ) : Except PyError ℤ :=
  if proofs.length < threshold then
    .error (.valueError ("Need at least " ++ decimal threshold ++
      " partial proofs to reconstruct secret, got " ++ decimal proofs.length))
  else
    match proofs with
    | [] => .error (.indexError "list index out of range")
    | first :: _ =>
      -- one `H` for all, taken from the first proof
      let Hinv := powInt first.H (p-2) p
      lagrangeInterpolate (proofs.map (unblind p Hinv)) p

theorem sessionH_eq (challengeNonce : Bytes) (p : ℕ) :
    sessionH challengeNonce p = (fromBytes (sha3_256 challengeNonce) : ℤ) % p := by
  rw [sessionH, sessionHash, sha3Hex, intOfHex_hex]

section Field
variable (p : ℕ) [Fact p.Prime]

omit [Fact p.Prime] in
theorem recover_unfold (proofs : List PartialProof) (hlen : threshold ≤ proofs.length) :
    ∃ Hinv, recoverSecretFromPartialProofs proofs p =
        lagrangeInterpolate (proofs.map (unblind p Hinv)) p ∧
      ∀ h : ℤ, (∀ proof ∈ proofs, proof.H = h) → Hinv = powInt h (p-2) p := by
  cases proofs with
  | nil => simp [threshold] at hlen
  | cons first rest =>
    refine ⟨powInt first.H (p-2) p, ?_, fun h hall => ?_⟩
    · rw [recoverSecretFromPartialProofs.eq_def, if_neg (by omega)]
    · rw [hall first List.mem_cons_self]

theorem map_unblind_fst (proofs : List PartialProof) (Hinv : ℤ) :
    (proofs.map (unblind p Hinv)).map (fun s => (s.1 : ZMod p)) =
      proofs.map (fun proof => (proof.x : ZMod p)) := by
  rw [List.map_map]
  rfl

/-- Unblinding divides by an invertible `H`. -/
theorem unblind_cast_eq_iff (proof : PartialProof) (h : ℤ) (hh : (h : ZMod p) ≠ 0) (v : ZMod p) :
    ((unblind p (powInt h (p-2) p) proof).2 : ZMod p) = v ↔
      (proof.partialValue : ZMod p) = v*h := by
  rw [unblind, cast_mod, Int.cast_mul, powInt_inv p h hh, mul_inv_eq_iff_eq_mul₀ hh]

/-- What blinding multiplied in, an invertible `H` takes out. -/
theorem unblind_compute_cast (share : ℤ × ℤ) (challengeNonce : Bytes) (nodeId : ℤ)
    (hH : (sessionH challengeNonce p : ZMod p) ≠ 0) :
    ((unblind p (powInt (sessionH challengeNonce p) (p-2) p)
      (computePartialProof share challengeNonce nodeId p)).2 : ZMod p) = (share.2 : ZMod p) := by
  rw [unblind_cast_eq_iff p _ _ hH, computePartialProof, cast_mod, Int.cast_mul]

/-- Recovery returns a residue when the `x` are pairwise incongruent. -/
theorem recover_ok (proofs : List PartialProof) (hlen : threshold ≤ proofs.length)
    (hx : (proofs.map (fun proof => (proof.x : ZMod p))).Nodup) :
    ∃ v, recoverSecretFromPartialProofs proofs p = .ok v ∧ 0 ≤ v ∧ v < p := by
  obtain ⟨Hinv, heq, -⟩ := recover_unfold p proofs hlen
  obtain ⟨v, hv, h0, hlt, -⟩ := lagrangeInterpolate_ok p (proofs.map (unblind p Hinv))
    (by rwa [map_unblind_fst])
  exact ⟨v, heq.trans hv, h0, hlt⟩

/-- Recovery raises when two `x` are congruent. -/
theorem recover_error (proofs : List PartialProof) (hlen : threshold ≤ proofs.length)
    (hx : ¬(proofs.map (fun proof => (proof.x : ZMod p))).Nodup) :
    recoverSecretFromPartialProofs proofs p =
      .error (.valueError "Cannot compute modular inverse of 0") := by
  obtain ⟨Hinv, heq, -⟩ := recover_unfold p proofs hlen
  rw [heq, lagrangeInterpolate_error]
  rwa [map_unblind_fst]

/-- Recovery does not depend on the order of proofs that carry one `H`. -/
theorem recover_perm (proofs proofs' : List PartialProof) (hperm : proofs.Perm proofs')
    (hlen : threshold ≤ proofs.length) (h : ℤ) (hH : ∀ proof ∈ proofs, proof.H = h) :
    recoverSecretFromPartialProofs proofs p = recoverSecretFromPartialProofs proofs' p := by
  obtain ⟨Hinv, heq, hval⟩ := recover_unfold p proofs hlen
  obtain ⟨Hinv', heq', hval'⟩ := recover_unfold p proofs' (hperm.length_eq ▸ hlen)
  have hinv : Hinv' = Hinv := by
    rw [hval h hH, hval' h (fun proof hproof => hH proof (hperm.mem_iff.mpr hproof))]
  rw [heq, heq', hinv]
  exact lagrangeInterpolate_perm p _ _ ((hperm.map (unblind p Hinv)).map (fieldPoint p))

/-- Proofs of points on the polynomial, all blinded by one invertible `H`, give back
the secret. -/
theorem recover_honest (secret h : ℤ) (coeffs : List ℤ) (proofs : List PartialProof)
    (hsecret : 0 ≤ secret ∧ secret < p) (hlen : threshold ≤ proofs.length)
    (hcoeffs : coeffs.length+1 ≤ proofs.length)
    (hx : (proofs.map (fun proof => (proof.x : ZMod p))).Nodup) (hh : (h : ZMod p) ≠ 0)
    (hH : ∀ proof ∈ proofs, proof.H = h)
    (hon : ∀ proof ∈ proofs, (proof.partialValue : ZMod p) =
      (sharePoly p (secret :: coeffs)).eval (proof.x : ZMod p)*h) :
    recoverSecretFromPartialProofs proofs p = .ok secret := by
  obtain ⟨Hinv, heq, hval⟩ := recover_unfold p proofs hlen
  have hinv : (Hinv : ZMod p) = (h : ZMod p)⁻¹ := by
    rw [hval h hH, powInt_inv p h hh]
  rw [heq]
  apply reconstructSecret_ok p secret coeffs _ hsecret
  · rwa [List.length_map]
  · rwa [map_unblind_fst]
  · intro s hs
    obtain ⟨proof, hproof, rfl⟩ := List.mem_map.mp hs
    calc ((proof.partialValue*Hinv % p : ℤ) : ZMod p)
        = (proof.partialValue : ZMod p)*(Hinv : ZMod p) := by rw [cast_mod, Int.cast_mul]
      _ = (sharePoly p (secret :: coeffs)).eval (proof.x : ZMod p)*h*(h : ZMod p)⁻¹ := by
        rw [hon proof hproof, hinv]
      _ = (sharePoly p (secret :: coeffs)).eval (proof.x : ZMod p) :=
        mul_inv_cancel_right₀ hh _

/-- One value off the polynomial, blinded like the others, moves what is recovered. -/
theorem recover_off (f : Polynomial (ZMod p)) (h : ℤ) (proofs : List PartialProof)
    (hlen : threshold ≤ proofs.length) (hdeg : f.degree < proofs.length)
    (hx : (proofs.map (fun proof => (proof.x : ZMod p))).Nodup)
    (h0 : ∀ proof ∈ proofs, (proof.x : ZMod p) ≠ 0) (hh : (h : ZMod p) ≠ 0)
    (hH : ∀ proof ∈ proofs, proof.H = h) (lie : PartialProof) (hlie : lie ∈ proofs)
    (hoff : (lie.partialValue : ZMod p) ≠ f.eval (lie.x : ZMod p)*h)
    (hon : ∀ proof ∈ proofs, proof ≠ lie →
      (proof.partialValue : ZMod p) = f.eval (proof.x : ZMod p)*h) :
    ∃ v, recoverSecretFromPartialProofs proofs p = .ok v ∧ 0 ≤ v ∧ v < p ∧
      (v : ZMod p) ≠ f.eval 0 := by
  obtain ⟨Hinv, heq, hval⟩ := recover_unfold p proofs hlen
  obtain rfl := hval h hH
  have hpoint (proof : PartialProof) (v : ZMod p) := unblind_cast_eq_iff p proof h hh v
  rw [← map_unblind_fst p proofs (powInt h (p-2) p)] at hx
  obtain ⟨v, hv, hv0, hvp, hcast⟩ := lagrangeInterpolate_ok p _ hx
  refine ⟨v, heq.trans hv, hv0, hvp, ?_⟩
  rw [hcast]
  apply interpolateAtZero_ne_of_off _ _ _ f _ (fieldPoint p (unblind p (powInt h (p-2) p) lie))
  · exact List.mem_map_of_mem (List.mem_map_of_mem hlie)
  · exact fun heval => hoff ((hpoint lie _).mp heval.symm)
  · intro pt hpt hne
    rw [List.map_map] at hpt
    obtain ⟨proof, hproof, rfl⟩ := List.mem_map.mp hpt
    apply Eq.symm
    apply (hpoint proof _).mpr
    apply hon proof hproof
    rintro rfl
    exact hne rfl
  · rw [List.map_map]
    exact hx
  · intro pt hpt
    rw [List.map_map] at hpt
    obtain ⟨proof, hproof, rfl⟩ := List.mem_map.mp hpt
    exact h0 proof hproof
  · rwa [List.length_map, List.length_map]

end Field

end DecentralizedIDP
