import DecentralizedIDP.CryptoSSS

/-! What different shares of one call reconstruct: the secret, when there are as many
of them as the threshold, and another value, when there is one less. -/
namespace DecentralizedIDP
open Foundations

section Field
variable (p : ℕ) [Fact p.Prime]

section Shares
variable {secret : ℤ} {t n : ℕ} {draws : Fin (t-1) → Fin (p-1)} {shares : List (ℤ × ℤ)}
  (hsecret : 1 ≤ secret ∧ secret ≤ p-1) (ht : 1 ≤ t ∧ t ≤ n)
  (hshares : generateShares secret t n p draws = .ok shares)
include hsecret ht hshares

omit [Fact p.Prime] in
theorem mem_generateShares (share : ℤ × ℤ) (h : share ∈ shares) : ∃ i : ℕ, 1 ≤ i ∧ i ≤ n ∧
    share = ((i : ℤ), shareValue (shareCoefficients secret t p draws) p i) := by
  rw [generateShares_ok secret t n p draws hsecret ht, Except.ok.injEq] at hshares
  rw [← hshares] at h
  obtain ⟨i, hi, rfl⟩ := List.mem_map.mp h
  rw [List.mem_range'_1] at hi
  exact ⟨i, hi.1, by omega, rfl⟩

/-- A share is a point of the polynomial, and not the one at zero. -/
theorem share_point (share : ℤ × ℤ) (h : share ∈ shares) (hnp : n < p) :
    (share.1 : ZMod p) ≠ 0 ∧ (share.2 : ZMod p) =
      (sharePoly p (shareCoefficients secret t p draws)).eval (share.1 : ZMod p) := by
  obtain ⟨i, hi, hin, rfl⟩ := mem_generateShares p hsecret ht hshares share h
  constructor
  · exact cast_ne_zero p _ (by omega)
  · rw [shareValue_cast, Int.cast_natCast]

/-- Different shares have incongruent indices. -/
theorem share_index_nodup (hnp : n < p) (subset : List (ℤ × ℤ)) (hsub : subset ⊆ shares)
    (hnodup : subset.Nodup) : (subset.map (fun s => (s.1 : ZMod p))).Nodup := by
  apply List.Nodup.map_on _ hnodup
  intro a ha b hb heq
  obtain ⟨i, -, hi, rfl⟩ := mem_generateShares p hsecret ht hshares a (hsub ha)
  obtain ⟨j, -, hj, rfl⟩ := mem_generateShares p hsecret ht hshares b (hsub hb)
  rw [Int.cast_natCast, Int.cast_natCast] at heq
  rw [natCast_inj_of_lt p i j (by omega) (by omega) heq]

/-- As many different shares as the threshold give back the secret. -/
theorem reconstructSecret_of_threshold (hnp : n < p) (subset : List (ℤ × ℤ))
    (hsub : subset ⊆ shares) (hnodup : subset.Nodup) (hlen : t ≤ subset.length) :
    reconstructSecret subset p = .ok secret := by
  apply reconstructSecret_ok p secret (List.ofFn (fun k => ((draws k).val : ℤ)+1)) subset (by omega)
  · rw [List.length_ofFn]
    omega
  · exact share_index_nodup p hsecret ht hshares hnp subset hsub hnodup
  · exact fun s hs => (share_point p hsecret ht hshares s (hsub hs) hnp).2

/-- One share less gives another value: the polynomial has no smaller degree than it
seems, so the one through these shares is not it, and then not at zero either. -/
theorem reconstructSecret_one_short (hnp : n < p) (subset : List (ℤ × ℤ))
    (hsub : subset ⊆ shares) (hnodup : subset.Nodup) (hlen : subset.length+1 = t) :
    ∃ v, reconstructSecret subset p = .ok v ∧ 0 ≤ v ∧ v < p ∧ v ≠ secret := by
  have hx := share_index_nodup p hsecret ht hshares hnp subset hsub hnodup
  obtain ⟨v, hv, h0, hlt, hval⟩ := lagrangeInterpolate_ok p subset hx
  refine ⟨v, hv, h0, hlt, ?_⟩
  rintro rfl
  have hpoint (pt : ZMod p × ZMod p) (hpt : pt ∈ subset.map (fieldPoint p)) :
      pt.1 ≠ 0 ∧ pt.2 = (sharePoly p (shareCoefficients v t p draws)).eval pt.1 := by
    obtain ⟨s, hs, rfl⟩ := List.mem_map.mp hpt
    exact share_point p hsecret ht hshares s (hsub hs) hnp
  apply interpolateAtZero_ne_of_degree (subset.map (fieldPoint p)) _
    (fun pt hpt => (hpoint pt hpt).1) (sharePoly p (shareCoefficients v t p draws))
  · rw [shareCoefficients_degree p v hsecret t, List.length_map, ← hlen, Nat.add_sub_cancel]
  · exact fun pt hpt => (hpoint pt hpt).2.symm
  · rw [← hval, shareCoefficients_eval_zero]
  · rw [List.map_map]
    exact hx

end Shares

end Field

/-- Over every prime, any different shares that reach the threshold give back the secret. -/
theorem threshold_reconstructs (p : ℕ) (hp : p.Prime) (t n : ℕ) (ht : 1 ≤ t) (htn : t ≤ n)
    (hnp : n < p) (secret : ℤ) (hsecret : 1 ≤ secret ∧ secret ≤ p-1)
    (draws : Fin (t-1) → Fin (p-1)) :
    P.Prime ∧ ∃ shares, generateShares secret t n p draws = .ok shares ∧ shares.length = n ∧
      (∀ subset : List (ℤ × ℤ), subset ⊆ shares → subset.Nodup → t ≤ subset.length →
        reconstructSecret subset p = .ok secret) ∧
      reconstructSecret shares p = .ok secret := by
  have : Fact p.Prime := ⟨hp⟩
  have hshares := generateShares_ok secret t n p draws hsecret ⟨ht, htn⟩
  have hany := reconstructSecret_of_threshold p hsecret ⟨ht, htn⟩ hshares hnp
  refine ⟨Fact.out, _, hshares, ?_, hany, ?_⟩
  · rw [List.length_map, List.length_range']
  · apply hany _ (List.Subset.refl _)
    · apply List.Nodup.map _ List.nodup_range'
      intro i j hij
      exact Nat.cast_injective (Prod.mk.inj hij).1
    · rwa [List.length_map, List.length_range']

theorem threshold_reconstructs_five :
    ∃ shares, generateShares 4 3 5 7 (fun _ => 0) = .ok shares ∧
      ∀ subset : List (ℤ × ℤ), subset ⊆ shares → subset.Nodup → 3 ≤ subset.length →
        reconstructSecret subset 7 = .ok 4 := by
  obtain ⟨-, shares, hshares, -, hany, -⟩ := threshold_reconstructs 7 (by norm_num) 3 5 (by decide)
    (by decide) (by decide) 4 (by decide) (fun _ => 0)
  exact ⟨shares, hshares, hany⟩

end DecentralizedIDP
