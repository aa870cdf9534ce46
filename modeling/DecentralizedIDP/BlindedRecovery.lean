import DecentralizedIDP.Registration

/-! Reconstruction from blinded shares against reconstruction from the shares
themselves, for any points and not only those of one polynomial. -/
namespace DecentralizedIDP
open Foundations

/-- What the nodes with these ids make of their shares. -/
def blindedProofs (challengeNonce : Bytes) (p : ℕ) (held : List ((ℤ × ℤ) × ℤ)) :
    List PartialProof :=
  held.map (fun h => computePartialProof h.1 challengeNonce h.2 p)

section Field
variable (p : ℕ) (challengeNonce : Bytes) (held : List ((ℤ × ℤ) × ℤ))

theorem blindedProofs_H : ∀ proof ∈ blindedProofs challengeNonce p held,
    proof.H = sessionH challengeNonce p := by
  intro proof hproof
  obtain ⟨h, -, rfl⟩ := List.mem_map.mp hproof
  rfl

theorem blindedProofs_length : (blindedProofs challengeNonce p held).length = held.length :=
  List.length_map _

theorem blindedProofs_x : (blindedProofs challengeNonce p held).map
    (fun proof => (proof.x : ZMod p)) =
      (held.map Prod.fst).map (fun share => (share.1 : ZMod p)) := by
  rw [blindedProofs, List.map_map, List.map_map]
  rfl

/-- With at least a threshold of shares, recovery interpolates what unblinding leaves. -/
theorem recover_blinded (hlen : threshold ≤ held.length) :
    recoverSecretFromPartialProofs (blindedProofs challengeNonce p held) p =
      lagrangeInterpolate ((blindedProofs challengeNonce p held).map
        (unblind p (powInt (sessionH challengeNonce p) (p-2) p))) p := by
  obtain ⟨Hinv, heq, hval⟩ := recover_unfold p (blindedProofs challengeNonce p held)
    (by rwa [blindedProofs_length])
  rw [heq, hval _ (blindedProofs_H p challengeNonce held)]

variable [Fact p.Prime]

theorem blinded_points (value : ℤ × ℤ → ZMod p)
    (h : ∀ share nodeId, ((unblind p (powInt (sessionH challengeNonce p) (p-2) p)
      (computePartialProof share challengeNonce nodeId p)).2 : ZMod p) = value share) :
    ((blindedProofs challengeNonce p held).map
      (unblind p (powInt (sessionH challengeNonce p) (p-2) p))).map (fieldPoint p) =
      (held.map Prod.fst).map (fun share => ((share.1 : ZMod p), value share)) := by
  rw [blindedProofs, List.map_map, List.map_map, List.map_map]
  apply List.map_congr_left
  intro share _
  exact Prod.ext rfl (h share.1 share.2)

/-- An invertible `H` is taken out again. -/
theorem recover_blinded_of_ne (hlen : threshold ≤ held.length)
    (hH : (sessionH challengeNonce p : ZMod p) ≠ 0) :
    recoverSecretFromPartialProofs (blindedProofs challengeNonce p held) p =
      reconstructSecret (held.map Prod.fst) p := by
  have hpoints := blinded_points p challengeNonce held (fun share => (share.2 : ZMod p))
    (fun share nodeId => unblind_compute_cast p share challengeNonce nodeId hH)
  rw [recover_blinded p challengeNonce held hlen, reconstructSecret]
  exact lagrangeInterpolate_perm p _ _ (List.Perm.of_eq hpoints)

/-- The degenerate `H` blinds every value to zero. -/
theorem recover_blinded_of_zero (hlen : threshold ≤ held.length)
    (hx : ((held.map Prod.fst).map (fun share => (share.1 : ZMod p))).Nodup)
    (hH : (sessionH challengeNonce p : ZMod p) = 0) :
    recoverSecretFromPartialProofs (blindedProofs challengeNonce p held) p = .ok 0 := by
  have hpoints := blinded_points p challengeNonce held (fun _ => 0) (by
    intro share nodeId
    simp only [unblind, computePartialProof]
    rw [cast_mod, Int.cast_mul, cast_mod, Int.cast_mul, hH, mul_zero, zero_mul])
  have hp : (0:ℤ) < p := by exact_mod_cast (Fact.out : p.Prime).pos
  rw [recover_blinded p challengeNonce held hlen]
  rw [← blindedProofs_x p challengeNonce held, ← map_unblind_fst p _
    (powInt (sessionH challengeNonce p) (p-2) p)] at hx
  obtain ⟨v, hv, h0, hlt, hval⟩ := lagrangeInterpolate_ok p _ hx
  have hzero : (v : ZMod p) = ((0 : ℤ) : ZMod p) := by
    rw [hval, hpoints, Int.cast_zero]
    apply interpolateAtZero_zero
    intro pt hpt
    obtain ⟨share, -, rfl⟩ := List.mem_map.mp hpt
    rfl
  rw [hv, residue_unique p v 0 ⟨h0, hlt⟩ ⟨le_rfl, hp⟩ hzero]

end Field

/-- Fewer shares than the threshold raise; otherwise, over every prime, recovery does
what reconstruction does, or gives zero when the digest of the nonce is zero, which
no registration has as its secret. -/
theorem recover_agrees (p : ℕ) (hp : p.Prime) (challengeNonce : Bytes)
    (held : List ((ℤ × ℤ) × ℤ)) :
    (held.length < threshold → ∃ message, recoverSecretFromPartialProofs
      (blindedProofs challengeNonce p held) p = .error (.valueError message)) ∧
    (threshold ≤ held.length → held.Pairwise (fun a b => ¬a.1.1 ≡ b.1.1 [ZMOD p]) →
      (fromBytes (sha3_256 challengeNonce) % p ≠ 0 → ∃ v,
        recoverSecretFromPartialProofs (blindedProofs challengeNonce p held) p = .ok v ∧
        reconstructSecret (held.map Prod.fst) p = .ok v) ∧
      (fromBytes (sha3_256 challengeNonce) % p = 0 →
        recoverSecretFromPartialProofs (blindedProofs challengeNonce p held) p = .ok 0)) ∧
    ∀ (prim : Primitives) (reg : RegisterInputs) (password : String),
      reg.secret prim password ≠ 0 := by
  have : Fact p.Prime := ⟨hp⟩
  refine ⟨?_, ?_, ?_⟩
  · intro hfew
    rw [recoverSecretFromPartialProofs.eq_def, if_pos (by rwa [blindedProofs_length])]
    exact ⟨_, rfl⟩
  · intro hlen hpairwise
    -- incongruent indices are different ones in the field
    have hx : ((held.map Prod.fst).map (fun share => (share.1 : ZMod p))).Nodup := by
      rw [List.map_map, List.Nodup, List.pairwise_map]
      apply hpairwise.imp
      intro a b hab heq
      exact hab ((ZMod.intCast_eq_intCast_iff _ _ p).mp heq)
    have hcast : (sessionH challengeNonce p : ZMod p) =
        ((fromBytes (sha3_256 challengeNonce) : ℕ) : ZMod p) := by
      rw [sessionH_eq, cast_mod, Int.cast_natCast]
    have hzero : (sessionH challengeNonce p : ZMod p) = 0 ↔
        fromBytes (sha3_256 challengeNonce) % p = 0 := by
      rw [hcast, ZMod.natCast_eq_zero_iff, Nat.dvd_iff_mod_eq_zero]
    constructor
    · intro hH
      rw [recover_blinded_of_ne p challengeNonce held hlen (hH ∘ hzero.mp)]
      obtain ⟨v, hv, -⟩ := lagrangeInterpolate_ok p (held.map Prod.fst) hx
      exact ⟨v, hv, hv⟩
    · intro hH
      exact recover_blinded_of_zero p challengeNonce held hlen hx (hzero.mpr hH)
  · intro prim reg password hzero
    have hrange := reg.secret_range prim password
    omega

/-- Three points that no line and no secret of their own call accounts for. -/
theorem recover_agrees_three : ∃ v,
    recoverSecretFromPartialProofs (blindedProofs [7] 11 [((1, 5), 1), ((-3, 40), 1), ((9, 0), 2)])
      11 = .ok v ∧ reconstructSecret [(1, 5), (-3, 40), (9, 0)] 11 = .ok v :=
  ((recover_agrees 11 (by norm_num) [7] [((1, 5), 1), ((-3, 40), 1), ((9, 0), 2)]).2.1 (by decide)
    (by decide)).1 (by decide +kernel)

end DecentralizedIDP
