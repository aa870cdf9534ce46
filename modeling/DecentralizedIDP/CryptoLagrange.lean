import DecentralizedIDP.CryptoPrimitives
import DecentralizedIDP.FoundationsSharing
import Mathlib.FieldTheory.Finite.Basic

/-! Lagrange interpolation at zero over integers reduced modulo a prime. -/
namespace DecentralizedIDP
open Foundations

def modInverse (a : ℤ) (p : ℕ) : Except PyError ℤ :=
  -- the caller has reduced `a`, so this refuses every multiple of `p`
  if a = 0 then .error (.valueError "Cannot compute modular inverse of 0")
  else .ok (powInt a (p-2) p)

/-- One turn of the inner loop: the factor of the point at position `j`. -/
def basisStep (p i : ℕ) (xi : ℤ) (basis : ℤ) (xj : (ℤ × ℤ) × ℕ) : Except PyError ℤ :=
  -- the source compares positions: two equal points at different ones divide by zero
  if i ≠ xj.2 then do
    let num := (-xj.1.1) % p
    let den ← modInverse ((xi-xj.1.1) % p) p
    return (basis*num % p)*den % p
  else return basis

def lagrangeInterpolate (shares : List (ℤ × ℤ)) (p : ℕ) : Except PyError ℤ :=
  shares.zipIdx.foldlM (fun result xi => do
    let basis ← shares.zipIdx.foldlM (basisStep p xi.2 xi.1.1) 1
    return (result+xi.1.2*basis) % p) 0

/-! ## The loops in the field -/

section Loops
variable (p : ℕ) [Fact p.Prime]

/-- By Fermat the power that the code computes is the inverse. -/
theorem powInt_inv (a : ℤ) (ha : (a : ZMod p) ≠ 0) :
    ((powInt a (p-2) p : ℤ) : ZMod p) = (a : ZMod p)⁻¹ := by
  have hp := (Fact.out : p.Prime).two_le
  rw [powInt_cast a (p-2) p (by omega)]
  apply eq_inv_of_mul_eq_one_left
  rw [← pow_succ, show p-2+1 = p-1 by omega, ZMod.pow_card_sub_one_eq_one ha]

theorem modInverse_ok (a : ℤ) (ha : (a : ZMod p) ≠ 0) :
    ∃ v, modInverse a p = .ok v ∧ (v : ZMod p) = (a : ZMod p)⁻¹ := by
  have hne : a ≠ 0 := by
    rintro rfl
    exact ha Int.cast_zero
  exact ⟨powInt a (p-2) p, if_neg hne, powInt_inv p a ha⟩

/-- What the point `xj` contributes to the basis value at position `i`. -/
def basisFactor (i : ℕ) (xi : ℤ) (xj : (ℤ × ℤ) × ℕ) : ZMod p :=
  if i ≠ xj.2 then -(xj.1.1 : ZMod p)*((xi : ZMod p)-(xj.1.1 : ZMod p))⁻¹ else 1

theorem cast_mod (a : ℤ) : ((a % (p : ℤ) : ℤ) : ZMod p) = (a : ZMod p) := ZMod.intCast_mod a p

theorem mod_eq_zero_iff (a : ℤ) : a % (p : ℤ) = 0 ↔ (a : ZMod p) = 0 := by
  rw [ZMod.intCast_zmod_eq_zero_iff_dvd, Int.dvd_iff_emod_eq_zero]

/-- Congruent residues are equal. -/
theorem residue_unique (a b : ℤ) (ha : 0 ≤ a ∧ a < p) (hb : 0 ≤ b ∧ b < p)
    (h : (a : ZMod p) = (b : ZMod p)) : a = b := by
  have hmod := (ZMod.intCast_eq_intCast_iff' a b p).mp h
  rwa [Int.emod_eq_of_lt ha.1 ha.2, Int.emod_eq_of_lt hb.1 hb.2] at hmod

theorem cast_ne_zero (a : ℤ) (ha : 1 ≤ a ∧ a ≤ p-1) : (a : ZMod p) ≠ 0 := by
  rw [ne_eq, ZMod.intCast_zmod_eq_zero_iff_dvd]
  intro hdvd
  have := Int.le_of_dvd (by omega) hdvd
  omega

theorem basisStep_ok (i : ℕ) (xi basis : ℤ) (xj : (ℤ × ℤ) × ℕ)
    (h : i ≠ xj.2 → (xi : ZMod p) ≠ (xj.1.1 : ZMod p)) :
    ∃ v, basisStep p i xi basis xj = .ok v ∧ (v : ZMod p) = basis*basisFactor p i xi xj := by
  rw [basisStep, basisFactor]
  split_ifs with hij
  · have hne : (((xi-xj.1.1) % p : ℤ) : ZMod p) ≠ 0 := by
      rw [cast_mod, Int.cast_sub]
      exact sub_ne_zero.mpr (h hij)
    obtain ⟨den, hden, hval⟩ := modInverse_ok p _ hne
    refine ⟨_, by rw [hden]; rfl, ?_⟩
    rw [cast_mod, Int.cast_mul, cast_mod, Int.cast_mul, cast_mod, hval, cast_mod]
    push_cast
    ring
  · exact ⟨basis, rfl, (mul_one _).symm⟩

theorem basisStep_error (i : ℕ) (xi basis : ℤ) (xj : (ℤ × ℤ) × ℕ) (hij : i ≠ xj.2)
    (h : (xi : ZMod p) = (xj.1.1 : ZMod p)) :
    basisStep p i xi basis xj = .error (.valueError "Cannot compute modular inverse of 0") := by
  have hzero : (xi-xj.1.1) % (p : ℤ) = 0 := by
    rw [mod_eq_zero_iff, Int.cast_sub, h, sub_self]
  rw [basisStep, if_pos hij, hzero]
  rfl

theorem basis_fold_ok (i : ℕ) (xi : ℤ) (pts : List ((ℤ × ℤ) × ℕ)) (acc : ℤ)
    (h : ∀ xj ∈ pts, i ≠ xj.2 → (xi : ZMod p) ≠ (xj.1.1 : ZMod p)) :
    ∃ v, pts.foldlM (basisStep p i xi) acc = .ok v ∧
      (v : ZMod p) = acc*(pts.map (basisFactor p i xi)).prod := by
  induction pts generalizing acc with
  | nil => exact ⟨acc, rfl, by simp⟩
  | cons xj pts ih =>
    obtain ⟨b, hb, hbval⟩ := basisStep_ok p i xi acc xj (h xj List.mem_cons_self)
    obtain ⟨v, hv, hval⟩ := ih b (fun x hx => h x (List.mem_cons_of_mem _ hx))
    refine ⟨v, ?_, ?_⟩
    · rw [List.foldlM_cons, hb]
      exact hv
    · rw [hval, hbval, List.map_cons, List.prod_cons, mul_assoc]

theorem basis_fold_error (i : ℕ) (xi : ℤ) (pts : List ((ℤ × ℤ) × ℕ)) (acc : ℤ)
    (h : ∃ xj ∈ pts, i ≠ xj.2 ∧ (xi : ZMod p) = (xj.1.1 : ZMod p)) :
    pts.foldlM (basisStep p i xi) acc =
      .error (.valueError "Cannot compute modular inverse of 0") := by
  induction pts generalizing acc with
  | nil => simp at h
  | cons xj pts ih =>
    -- points before the first congruent one give a factor, that one raises
    rw [List.foldlM_cons]
    by_cases hj : i ≠ xj.2 ∧ (xi : ZMod p) = (xj.1.1 : ZMod p)
    · rw [basisStep_error p i xi acc xj hj.1 hj.2]
      rfl
    · obtain ⟨b, hb, -⟩ := basisStep_ok p i xi acc xj (fun hij heq => hj ⟨hij, heq⟩)
      rw [hb]
      apply ih
      obtain ⟨x, hx, hbad⟩ := h
      rcases List.mem_cons.mp hx with rfl | hx
      · exact absurd hbad hj
      · exact ⟨x, hx, hbad⟩

theorem result_fold_ok (pts es : List ((ℤ × ℤ) × ℕ)) (acc : ℤ) (hacc : 0 ≤ acc ∧ acc < p)
    (h : ∀ xi ∈ es, ∀ xj ∈ pts, xi.2 ≠ xj.2 → (xi.1.1 : ZMod p) ≠ (xj.1.1 : ZMod p)) :
    ∃ v, es.foldlM (fun result xi => do
        let basis ← pts.foldlM (basisStep p xi.2 xi.1.1) 1
        return (result+xi.1.2*basis) % p) acc = Except.ok v ∧ 0 ≤ v ∧ v < p ∧
      (v : ZMod p) = acc+
        (es.map (fun xi => (xi.1.2 : ZMod p)*(pts.map (basisFactor p xi.2 xi.1.1)).prod)).sum := by
  have hp : (0:ℤ) < p := by exact_mod_cast (Fact.out : p.Prime).pos
  induction es generalizing acc with
  | nil => exact ⟨acc, rfl, hacc.1, hacc.2, by simp⟩
  | cons xi es ih =>
    obtain ⟨b, hb, hbval⟩ := basis_fold_ok p xi.2 xi.1.1 pts 1 (h xi List.mem_cons_self)
    obtain ⟨v, hv, h0, hlt, hval⟩ := ih ((acc+xi.1.2*b) % p)
      ⟨Int.emod_nonneg _ hp.ne', Int.emod_lt_of_pos _ hp⟩
      (fun x hx => h x (List.mem_cons_of_mem _ hx))
    refine ⟨v, ?_, h0, hlt, ?_⟩
    · rw [List.foldlM_cons, hb]
      exact hv
    · rw [hval, cast_mod, Int.cast_add, Int.cast_mul, hbval, List.map_cons, List.sum_cons,
        Int.cast_one, one_mul, add_assoc]

theorem result_fold_error (pts es : List ((ℤ × ℤ) × ℕ)) (acc : ℤ)
    (h : ∃ xi ∈ es, ∃ xj ∈ pts, xi.2 ≠ xj.2 ∧ (xi.1.1 : ZMod p) = (xj.1.1 : ZMod p)) :
    es.foldlM (fun result xi => do
        let basis ← pts.foldlM (basisStep p xi.2 xi.1.1) 1
        return (result+xi.1.2*basis) % p) acc =
      Except.error (.valueError "Cannot compute modular inverse of 0") := by
  induction es generalizing acc with
  | nil => simp at h
  | cons xi es ih =>
    -- the same for the outer loop: the first row with a congruent point raises
    rw [List.foldlM_cons]
    by_cases hi : ∃ xj ∈ pts, xi.2 ≠ xj.2 ∧ (xi.1.1 : ZMod p) = (xj.1.1 : ZMod p)
    · rw [basis_fold_error p xi.2 xi.1.1 pts 1 hi]
      rfl
    · obtain ⟨b, hb, -⟩ := basis_fold_ok p xi.2 xi.1.1 pts 1
        (fun xj hxj hne heq => hi ⟨xj, hxj, hne, heq⟩)
      rw [hb]
      apply ih
      obtain ⟨x, hx, hbad⟩ := h
      rcases List.mem_cons.mp hx with rfl | hx
      · exact absurd hbad hi
      · exact ⟨x, hx, hbad⟩

end Loops

/-! ## Interpolation -/

section Interpolation
variable (p : ℕ) [Fact p.Prime]

/-- A point with its coordinates in the field. -/
def fieldPoint (s : ℤ × ℤ) : ZMod p × ZMod p := ((s.1 : ZMod p), (s.2 : ZMod p))

theorem zipIdx_eq_map_finRange {α : Type*} (l : List α) :
    l.zipIdx = (List.finRange l.length).map (fun i => (l[i], i.val)) := by
  apply List.ext_getElem
  · simp
  · intro k h1 h2
    simp

theorem sum_basis_eq_interpolateAtZero (shares : List (ℤ × ℤ)) :
    (shares.zipIdx.map (fun xi => (xi.1.2 : ZMod p)*
      (shares.zipIdx.map (basisFactor p xi.2 xi.1.1)).prod)).sum =
      interpolateAtZero (shares.map (fieldPoint p)) := by
  -- the factor of the point itself is one, so each product runs over the other points
  have hprod (i : Fin shares.length) :
      (shares.zipIdx.map (basisFactor p i.val shares[i].1)).prod =
        ∏ j ∈ Finset.univ.erase i, -(shares[j].1 : ZMod p)*
          ((shares[i].1 : ZMod p)-(shares[j].1 : ZMod p))⁻¹ := by
    rw [zipIdx_eq_map_finRange, List.map_map, ← List.ofFn_eq_map, List.prod_ofFn,
      ← Finset.mul_prod_erase _ _ (Finset.mem_univ i)]
    simp only [Function.comp_apply, basisFactor, ne_eq, not_true_eq_false, ↓reduceIte, one_mul]
    apply Finset.prod_congr rfl
    intro j hj
    rw [if_pos (fun h => (Finset.mem_erase.mp hj).1 (Fin.ext h.symm))]
  have hlen : (shares.map (fieldPoint p)).length = shares.length := List.length_map _
  rw [interpolateAtZero, zipIdx_eq_map_finRange, List.map_map, ← List.ofFn_eq_map, List.sum_ofFn]
  refine Fintype.sum_equiv (finCongr hlen.symm) _ _ ?_
  intro i
  rw [Function.comp_apply, ← zipIdx_eq_map_finRange, hprod]
  simp only [finCongr_apply, Fin.getElem_fin, Fin.val_cast, List.getElem_map, fieldPoint]
  congr 1
  refine Finset.prod_bij (fun j _ => finCongr hlen.symm j) ?_ ?_ ?_ ?_
  · intro j hj
    rw [Finset.mem_erase] at hj ⊢
    exact ⟨fun h => hj.1 ((finCongr hlen.symm).injective h), Finset.mem_univ _⟩
  · intro a _ b _ h
    exact (finCongr hlen.symm).injective h
  · intro j hj
    refine ⟨finCongr hlen j, ?_, by simp⟩
    rw [Finset.mem_erase] at hj ⊢
    refine ⟨fun h => hj.1 ?_, Finset.mem_univ _⟩
    rw [← h]
    simp
  · intro j _
    simp only [finCongr_apply, Fin.val_cast]

theorem getElem_ne_of_nodup (shares : List (ℤ × ℤ))
    (hx : (shares.map (fun s => (s.1 : ZMod p))).Nodup) :
    ∀ xi ∈ shares.zipIdx, ∀ xj ∈ shares.zipIdx, xi.2 ≠ xj.2 →
      (xi.1.1 : ZMod p) ≠ (xj.1.1 : ZMod p) := by
  rintro ⟨si, i⟩ hi ⟨sj, j⟩ hj hne heq
  obtain ⟨hi, hsi⟩ := List.getElem?_eq_some_iff.mp (List.mem_zipIdx_iff_getElem?.mp hi)
  obtain ⟨hj, hsj⟩ := List.getElem?_eq_some_iff.mp (List.mem_zipIdx_iff_getElem?.mp hj)
  dsimp only at hi hj hsi hsj hne heq
  subst hsi hsj
  apply hne
  have hi' : i < (shares.map (fun s => (s.1 : ZMod p))).length := by rwa [List.length_map]
  have hj' : j < (shares.map (fun s => (s.1 : ZMod p))).length := by rwa [List.length_map]
  apply (@List.Nodup.getElem_inj_iff _ _ hx i hi' j hj').mp
  simpa only [List.getElem_map] using heq

/-- With pairwise incongruent `x` the result is the interpolated value at zero. -/
theorem lagrangeInterpolate_ok (shares : List (ℤ × ℤ))
    (hx : (shares.map (fun s => (s.1 : ZMod p))).Nodup) :
    ∃ v, lagrangeInterpolate shares p = .ok v ∧ 0 ≤ v ∧ v < p ∧
      (v : ZMod p) = interpolateAtZero (shares.map (fieldPoint p)) := by
  have hp : (0:ℤ) < p := by exact_mod_cast (Fact.out : p.Prime).pos
  obtain ⟨v, hv, h0, hlt, hval⟩ := result_fold_ok p shares.zipIdx shares.zipIdx 0 ⟨le_rfl, hp⟩
    (getElem_ne_of_nodup p shares hx)
  refine ⟨v, hv, h0, hlt, ?_⟩
  calc (v : ZMod p)
      = ((0 : ℤ) : ZMod p)+(shares.zipIdx.map (fun xi => (xi.1.2 : ZMod p)*
          (shares.zipIdx.map (basisFactor p xi.2 xi.1.1)).prod)).sum := hval
    _ = interpolateAtZero (shares.map (fieldPoint p)) := by
      rw [Int.cast_zero, zero_add, sum_basis_eq_interpolateAtZero]

/-- Two congruent `x` make some denominator zero. -/
theorem lagrangeInterpolate_error (shares : List (ℤ × ℤ))
    (hx : ¬(shares.map (fun s => (s.1 : ZMod p))).Nodup) :
    lagrangeInterpolate shares p =
      .error (.valueError "Cannot compute modular inverse of 0") := by
  apply result_fold_error
  obtain ⟨i, j, hij, hi, hj, heq⟩ : ∃ (i j : ℕ) (_ : i < j) (hi : i < shares.length)
      (hj : j < shares.length), (shares[i].1 : ZMod p) = (shares[j].1 : ZMod p) := by
    rw [List.nodup_iff_pairwise_ne, List.pairwise_iff_getElem] at hx
    push Not at hx
    obtain ⟨i, j, hi, hj, hij, heq⟩ := hx
    simp only [List.length_map, List.getElem_map] at hi hj heq
    exact ⟨i, j, hij, hi, hj, heq⟩
  exact ⟨(shares[i], i), List.mem_zipIdx_iff_getElem?.mpr (List.getElem?_eq_getElem hi),
    (shares[j], j), List.mem_zipIdx_iff_getElem?.mpr (List.getElem?_eq_getElem hj),
    by simp only [ne_eq]; omega, heq⟩

theorem fieldPoint_fst (shares : List (ℤ × ℤ)) :
    (shares.map (fieldPoint p)).map Prod.fst = shares.map (fun s => (s.1 : ZMod p)) := by
  rw [List.map_map]
  rfl

/-- Only the residues of the points matter, in any order. -/
theorem lagrangeInterpolate_perm (shares shares' : List (ℤ × ℤ))
    (hperm : (shares.map (fieldPoint p)).Perm (shares'.map (fieldPoint p))) :
    lagrangeInterpolate shares p = lagrangeInterpolate shares' p := by
  have hiff : (shares.map (fun s => (s.1 : ZMod p))).Nodup ↔
      (shares'.map (fun s => (s.1 : ZMod p))).Nodup := by
    rw [← fieldPoint_fst, ← fieldPoint_fst]
    exact (hperm.map Prod.fst).nodup_iff
  -- either both lists have congruent `x` and raise, or neither has
  by_cases hx : (shares.map (fun s => (s.1 : ZMod p))).Nodup
  · obtain ⟨v, hv, h0, hlt, hval⟩ := lagrangeInterpolate_ok p shares hx
    obtain ⟨v', hv', h0', hlt', hval'⟩ := lagrangeInterpolate_ok p shares' (hiff.mp hx)
    have hsame : (v : ZMod p) = (v' : ZMod p) := by
      rw [← fieldPoint_fst] at hx
      rw [hval, hval', interpolateAtZero_perm _ _ hperm hx]
    rw [hv, hv', residue_unique p v v' ⟨h0, hlt⟩ ⟨h0', hlt'⟩ hsame]
  · rw [lagrangeInterpolate_error p shares hx,
      lagrangeInterpolate_error p shares' (fun hx' => hx (hiff.mpr hx'))]

end Interpolation

end DecentralizedIDP
