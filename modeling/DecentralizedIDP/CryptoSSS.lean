import DecentralizedIDP.CryptoLagrange

/-! Shamir sharing of a secret, and its reconstruction by interpolation. -/
namespace DecentralizedIDP
open Foundations

/-- The coefficients, from the draws of `secrets.randbelow(p-1)`. -/
def shareCoefficients (secret : ℤ) (t p : ℕ) (draws : Fin (t-1) → Fin (p-1)) : List ℤ :=
  -- the draw is raised by one, so no coefficient above the secret is ever zero
  secret :: List.ofFn (fun k => ((draws k).val : ℤ)+1)

def shareValue (coeffs : List ℤ) (p i : ℕ) : ℤ :=
  coeffs.zipIdx.foldl (fun y ce => (y+ce.1*powInt i ce.2 p) % p) 0

def generateShares (secret : ℤ) (t n p : ℕ) (draws : Fin (t-1) → Fin (p-1)) :
    Except PyError (List (ℤ × ℤ)) :=
  if ¬(1 ≤ secret ∧ secret ≤ p-1) then .error (.valueError "secret must be in [1, p-1]")
  else if t < 1 ∨ t > n then .error (.valueError "threshold t must satisfy 1 <= t <= n")
  else
    let coeffs := shareCoefficients secret t p draws
    .ok ((List.range' 1 n).map (fun i : ℕ => ((i : ℤ), shareValue coeffs p i)))

def reconstructSecret (shares : List (ℤ × ℤ)) (p : ℕ) : Except PyError ℤ :=
  lagrangeInterpolate shares p

/-! ## Shares lie on the polynomial -/

section Field
variable (p : ℕ) [Fact p.Prime]

/-- The polynomial whose constant coefficient is the secret. -/
noncomputable def sharePoly (coeffs : List ℤ) : Polynomial (ZMod p) :=
  listPoly (coeffs.map (fun c : ℤ => (c : ZMod p)))

theorem shareValue_fold (i : ℕ) (es : List (ℤ × ℕ)) (acc : ℤ) :
    ((es.foldl (fun y ce => (y+ce.1*powInt i ce.2 p) % p) acc : ℤ) : ZMod p) =
      (es.map (fun ce => ((ce.1 : ZMod p), ce.2))).foldl (fun y ce => y+ce.1*(i : ZMod p)^ce.2)
        (acc : ZMod p) := by
  have hp := (Fact.out : p.Prime).pos
  -- the loop reduces after every term, which the field does not see
  induction es generalizing acc with
  | nil => rfl
  | cons ce es ih =>
    rw [List.foldl_cons, ih, List.map_cons, List.foldl_cons, cast_mod, Int.cast_add, Int.cast_mul,
      powInt_cast _ _ _ hp, Int.cast_natCast]

theorem shareValue_cast (coeffs : List ℤ) (i : ℕ) :
    ((shareValue coeffs p i : ℤ) : ZMod p) = (sharePoly p coeffs).eval (i : ZMod p) := by
  have hzip : coeffs.zipIdx.map (fun ce => ((ce.1 : ZMod p), ce.2)) =
      (coeffs.map (fun c : ℤ => (c : ZMod p))).zipIdx := by
    rw [List.zipIdx_map]
    rfl
  rw [shareValue, shareValue_fold, hzip, listPoly_fold, Int.cast_zero, zero_add, pow_zero, one_mul,
    sharePoly]

theorem shareValue_range (coeffs : List ℤ) (i : ℕ) :
    0 ≤ shareValue coeffs p i ∧ shareValue coeffs p i < p := by
  have hp : (0:ℤ) < p := by exact_mod_cast (Fact.out : p.Prime).pos
  have hfold (es : List (ℤ × ℕ)) (acc : ℤ) (hacc : 0 ≤ acc ∧ acc < p) :
      0 ≤ es.foldl (fun y ce => (y+ce.1*powInt i ce.2 p) % p) acc ∧
        es.foldl (fun y ce => (y+ce.1*powInt i ce.2 p) % p) acc < p := by
    induction es generalizing acc with
    | nil => exact hacc
    | cons ce es ih => exact ih _ ⟨Int.emod_nonneg _ hp.ne', Int.emod_lt_of_pos _ hp⟩
  exact hfold _ 0 ⟨le_rfl, hp⟩

theorem shareCoefficients_coeff (secret : ℤ) (t : ℕ) (draws : Fin (t-1) → Fin (p-1))
    (k : Fin (t-1)) : (sharePoly p (shareCoefficients secret t p draws)).coeff (k+1) =
      ((draws k).val+1 : ZMod p) := by
  rw [sharePoly, listPoly_coeff, shareCoefficients, List.map_cons, List.getD_cons_succ,
    List.getD_eq_getElem?_getD, List.getElem?_map, List.getElem?_ofFn, dif_pos k.isLt]
  simp

theorem shareCoefficients_degree_lt (secret : ℤ) (t : ℕ) (ht : 1 ≤ t)
    (draws : Fin (t-1) → Fin (p-1)) :
    (sharePoly p (shareCoefficients secret t p draws)).degree < (t : ℕ) := by
  have hlen :
      ((shareCoefficients secret t p draws).map (fun c : ℤ => (c : ZMod p))).length = t := by
    rw [List.length_map, shareCoefficients, List.length_cons, List.length_ofFn]
    omega
  have hdeg := listPoly_degree_lt ((shareCoefficients secret t p draws).map
    (fun c : ℤ => (c : ZMod p)))
  rwa [hlen] at hdeg

theorem shareCoefficients_eval_zero (secret : ℤ) (t : ℕ) (draws : Fin (t-1) → Fin (p-1)) :
    (sharePoly p (shareCoefficients secret t p draws)).eval 0 = (secret : ZMod p) := by
  rw [sharePoly, shareCoefficients, List.map_cons, listPoly_eval_zero]

/-- The secret and the draws are nonzero residues. -/
theorem shareCoefficients_cast_ne_zero (secret : ℤ) (hsecret : 1 ≤ secret ∧ secret ≤ p-1) (t : ℕ)
    (draws : Fin (t-1) → Fin (p-1)) :
    ∀ c ∈ shareCoefficients secret t p draws, (c : ZMod p) ≠ 0 := by
  intro c hc
  rcases List.mem_cons.mp hc with rfl | hc
  · exact cast_ne_zero p c hsecret
  · obtain ⟨k, rfl⟩ := List.mem_ofFn.mp hc
    have hk := (draws k).isLt
    exact cast_ne_zero p _ (by omega)

/-- The polynomial of a call has degree `t-1`, not only less than `t`. -/
theorem shareCoefficients_degree (secret : ℤ) (hsecret : 1 ≤ secret ∧ secret ≤ p-1) (t : ℕ)
    (draws : Fin (t-1) → Fin (p-1)) :
    (sharePoly p (shareCoefficients secret t p draws)).degree = ((t-1 : ℕ) : WithBot ℕ) := by
  apply listPoly_degree
  · rw [List.length_map, shareCoefficients, List.length_cons, List.length_ofFn]
  · intro c hc
    obtain ⟨c, hmem, rfl⟩ := List.mem_map.mp hc
    exact shareCoefficients_cast_ne_zero p secret hsecret t draws c hmem

/-- As many points of the polynomial as it has coefficients give back the secret. -/
theorem reconstructSecret_ok (secret : ℤ) (coeffs : List ℤ) (shares : List (ℤ × ℤ))
    (hsecret : 0 ≤ secret ∧ secret < p) (hlen : coeffs.length+1 ≤ shares.length)
    (hx : (shares.map (fun s => (s.1 : ZMod p))).Nodup)
    (hon : ∀ s ∈ shares, (s.2 : ZMod p) = (sharePoly p (secret :: coeffs)).eval (s.1 : ZMod p)) :
    reconstructSecret shares p = .ok secret := by
  obtain ⟨v, hv, h0, hlt, hval⟩ := lagrangeInterpolate_ok p shares hx
  have hpoint : interpolateAtZero (shares.map (fieldPoint p)) =
      (sharePoly p (secret :: coeffs)).eval 0 := by
    apply interpolateAtZero_eq_eval
    · rw [List.map_map]
      exact hx
    · apply lt_of_lt_of_le (listPoly_degree_lt _)
      rw [List.length_map, List.length_map, List.length_cons]
      exact_mod_cast hlen
    · intro pt hpt
      obtain ⟨s, hs, rfl⟩ := List.mem_map.mp hpt
      exact (hon s hs).symm
  have hcast : (v : ZMod p) = (secret : ZMod p) := calc
    (v : ZMod p) = interpolateAtZero (shares.map (fieldPoint p)) := hval
    _ = (sharePoly p (secret :: coeffs)).eval 0 := hpoint
    _ = (secret : ZMod p) := by rw [sharePoly, List.map_cons, listPoly_eval_zero]
  -- both are residues, so congruent means equal
  have heq : v = secret := residue_unique p v secret ⟨h0, hlt⟩ hsecret hcast
  rw [reconstructSecret, hv, heq]

end Field

theorem generateShares_ok (secret : ℤ) (t n p : ℕ) (draws : Fin (t-1) → Fin (p-1))
    (hsecret : 1 ≤ secret ∧ secret ≤ p-1) (ht : 1 ≤ t ∧ t ≤ n) :
    generateShares secret t n p draws = .ok ((List.range' 1 n).map (fun i : ℕ =>
      ((i : ℤ), shareValue (shareCoefficients secret t p draws) p i))) := by
  rw [generateShares, if_neg (not_not.mpr hsecret), if_neg (by omega)]

end DecentralizedIDP
