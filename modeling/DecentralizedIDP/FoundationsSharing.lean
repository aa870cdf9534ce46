import Mathlib.LinearAlgebra.Lagrange

/-! Threshold sharing over a field: a share is a point on a polynomial whose
constant coefficient is the secret, and enough points interpolate it at zero. -/
namespace Foundations
open Polynomial

variable {F : Type*} [Field F]

/-! ## The polynomial with a given coefficient list -/

noncomputable def listPoly : List F → F[X]
  | [] => 0
  | c :: cs => C c+X*listPoly cs

theorem listPoly_degree_lt (cs : List F) : (listPoly cs).degree < cs.length := by
  -- on the list: every coefficient beyond its length is zero
  rw [degree_lt_iff_coeff_zero]
  induction cs with
  | nil => intro m _; simp [listPoly]
  | cons c cs ih =>
    intro m hm
    obtain ⟨k, rfl⟩ : ∃ k, m = k+1 := ⟨m-1, by simp only [List.length_cons] at hm; omega⟩
    have hk : cs.length ≤ k := by simpa using hm
    rw [listPoly, coeff_add, coeff_C_succ, coeff_X_mul, ih k hk, add_zero]

theorem listPoly_coeff (cs : List F) (k : ℕ) : (listPoly cs).coeff k = cs.getD k 0 := by
  induction cs generalizing k with
  | nil => simp [listPoly]
  | cons c cs ih =>
    cases k with
    | zero => simp [listPoly]
    | succ k => rw [listPoly, coeff_add, coeff_C_succ, coeff_X_mul, ih, zero_add,
        List.getD_cons_succ]

/-- With no zero among the coefficients the degree is as high as the list allows. -/
theorem listPoly_degree (cs : List F) (n : ℕ) (hlen : cs.length = n+1) (hne : ∀ c ∈ cs, c ≠ 0) :
    (listPoly cs).degree = n := by
  apply degree_eq_of_le_of_coeff_ne_zero
  · have hlt := listPoly_degree_lt cs
    rw [hlen, Nat.cast_succ] at hlt
    exact Order.le_of_lt_succ hlt
  · have hn : n < cs.length := by omega
    rw [listPoly_coeff, List.getD_eq_getElem?_getD, List.getElem?_eq_getElem hn,
      Option.getD_some]
    exact hne _ (List.getElem_mem hn)

theorem listPoly_eval_zero (c : F) (cs : List F) : (listPoly (c :: cs)).eval 0 = c := by
  simp [listPoly]

/-- Summing `c_k x^k` term by term evaluates the polynomial. -/
theorem listPoly_fold (x : F) (cs : List F) (k : ℕ) (acc : F) :
    (cs.zipIdx k).foldl (fun y ce => y+ce.1*x^ce.2) acc = acc+x^k*(listPoly cs).eval x := by
  induction cs generalizing k acc with
  | nil => simp [listPoly]
  | cons c cs ih =>
    rw [List.zipIdx_cons, List.foldl_cons, ih]
    simp only [listPoly, eval_add, eval_C, eval_mul, eval_X]
    ring

/-! ## Interpolation at zero through a list of points -/

/-- The Lagrange form evaluated at zero. -/
def interpolateAtZero (pts : List (F × F)) : F :=
  ∑ i : Fin pts.length, pts[i].2*∏ j ∈ Finset.univ.erase i, (-pts[j].1)*(pts[i].1-pts[j].1)⁻¹

omit [Field F] in
theorem injective_of_nodup_fst (pts : List (F × F)) (hx : (pts.map Prod.fst).Nodup) :
    Function.Injective (fun i : Fin pts.length => pts[i].1) := by
  intro i j hij
  have hi : i.val < (pts.map Prod.fst).length := by simp only [List.length_map, i.isLt]
  have hj : j.val < (pts.map Prod.fst).length := by simp only [List.length_map, j.isLt]
  apply Fin.ext
  apply (@List.Nodup.getElem_inj_iff _ _ hx i hi j hj).mp
  simpa only [List.getElem_map, Fin.getElem_fin] using hij

theorem interpolateAtZero_eq_eval_interpolate (pts : List (F × F)) :
    interpolateAtZero pts =
      (Lagrange.interpolate Finset.univ (fun i : Fin pts.length => pts[i].1)
        (fun i => pts[i].2)).eval 0 := by
  -- term by term the two forms differ only in how they divide
  rw [Lagrange.interpolate_apply, eval_finsetSum]
  apply Finset.sum_congr rfl
  intro i _
  rw [eval_mul, eval_C, Lagrange.basis, eval_prod]
  congr 1
  apply Finset.prod_congr rfl
  intro j _
  simp only [Lagrange.basisDivisor, eval_mul, eval_C, eval_sub, eval_X, zero_sub]
  ring

/-- The polynomial through the points. -/
theorem exists_interpolant (pts : List (F × F)) (hx : (pts.map Prod.fst).Nodup) :
    ∃ f : F[X], f.degree < pts.length ∧ (∀ pt ∈ pts, f.eval pt.1 = pt.2) ∧
      f.eval 0 = interpolateAtZero pts := by
  have hinj := injective_of_nodup_fst pts hx
  refine ⟨Lagrange.interpolate Finset.univ (fun i : Fin pts.length => pts[i].1)
    (fun i => pts[i].2), ?_, ?_, (interpolateAtZero_eq_eval_interpolate pts).symm⟩
  · have hlt := Lagrange.degree_interpolate_lt (fun i : Fin pts.length => pts[i].2)
      (s := Finset.univ) hinj.injOn
    rwa [Finset.card_univ, Fintype.card_fin] at hlt
  · intro pt hpt
    obtain ⟨i, hi, rfl⟩ := List.mem_iff_getElem.mp hpt
    exact Lagrange.eval_interpolate_at_node (fun i : Fin pts.length => pts[i].2) hinj.injOn
      (Finset.mem_univ (⟨i, hi⟩ : Fin pts.length))

/-- Points on a polynomial of degree below their number determine it. -/
theorem eq_interpolate (pts : List (F × F)) (f : F[X]) (hx : (pts.map Prod.fst).Nodup)
    (hdeg : f.degree < pts.length) (hon : ∀ pt ∈ pts, f.eval pt.1 = pt.2) :
    f = Lagrange.interpolate Finset.univ (fun i : Fin pts.length => pts[i].1)
      (fun i => pts[i].2) := by
  apply Lagrange.eq_interpolate_of_eval_eq _ (injective_of_nodup_fst pts hx).injOn
  · rw [Finset.card_univ, Fintype.card_fin]
    exact hdeg
  · intro i _
    exact hon _ (List.getElem_mem i.isLt)

theorem interpolateAtZero_eq_eval (pts : List (F × F)) (f : F[X])
    (hx : (pts.map Prod.fst).Nodup) (hdeg : f.degree < pts.length)
    (hon : ∀ pt ∈ pts, f.eval pt.1 = pt.2) : interpolateAtZero pts = f.eval 0 := by
  calc interpolateAtZero pts
      = (Lagrange.interpolate Finset.univ (fun i : Fin pts.length => pts[i].1)
          (fun i => pts[i].2)).eval 0 := interpolateAtZero_eq_eval_interpolate pts
    _ = f.eval 0 := by rw [← eq_interpolate pts f hx hdeg hon]

/-- The order of the points does not matter. -/
theorem interpolateAtZero_perm (pts pts' : List (F × F)) (hperm : pts.Perm pts')
    (hx : (pts.map Prod.fst).Nodup) : interpolateAtZero pts = interpolateAtZero pts' := by
  -- both orders are points of the polynomial that interpolates the first
  obtain ⟨f, hdeg, hon, hzero⟩ := exists_interpolant pts hx
  rw [← hzero]
  symm
  apply interpolateAtZero_eq_eval pts' f ((hperm.map Prod.fst).nodup_iff.mp hx)
  · rwa [← hperm.length_eq]
  · exact fun pt hpt => hon pt (hperm.mem_iff.mpr hpt)

/-- Zero everywhere interpolates to zero. -/
theorem interpolateAtZero_zero (pts : List (F × F)) (h : ∀ pt ∈ pts, pt.2 = 0) :
    interpolateAtZero pts = 0 := by
  apply Finset.sum_eq_zero
  intro i _
  have hi : pts[i].2 = 0 := h _ (List.getElem_mem i.isLt)
  rw [hi, zero_mul]

/-! ## When the value at zero is missed -/

/-- One more point, at zero, makes up for one more degree. -/
theorem eq_of_eval_zero (xs : List F) (hx : xs.Nodup) (h0 : 0 ∉ xs) (f g : F[X])
    (hf : f.degree < (xs.length+1 : ℕ)) (hg : g.degree < (xs.length+1 : ℕ))
    (hon : ∀ x ∈ xs, f.eval x = g.eval x) (hzero : f.eval 0 = g.eval 0) : f = g := by
  classical
  have hcard : (0 :: xs).toFinset.card = xs.length+1 :=
    List.toFinset_card_of_nodup (List.nodup_cons.mpr ⟨h0, hx⟩)
  apply eq_of_degrees_lt_of_eval_finset_eq (0 :: xs).toFinset
  · rwa [hcard]
  · rwa [hcard]
  · intro x hmem
    rcases List.mem_cons.mp (List.mem_toFinset.mp hmem) with rfl | hmem
    · exact hzero
    · exact hon x hmem

section Missed
variable (pts : List (F × F)) (hx : (pts.map Prod.fst).Nodup) (h0 : ∀ pt ∈ pts, pt.1 ≠ 0)
  (f : F[X])
include hx h0

/-- Points on a polynomial of a degree equal to their number miss its value at zero. -/
theorem interpolateAtZero_ne_of_degree (hdeg : f.degree = pts.length)
    (hon : ∀ pt ∈ pts, f.eval pt.1 = pt.2) : interpolateAtZero pts ≠ f.eval 0 := by
  obtain ⟨g, hg, hgon, hgzero⟩ := exists_interpolant pts hx
  intro heq
  have hsame : f = g := by
    apply eq_of_eval_zero (pts.map Prod.fst) hx
    · rw [List.mem_map]
      exact fun ⟨pt, hpt, hzero⟩ => h0 pt hpt hzero
    · rw [hdeg, List.length_map]
      exact_mod_cast Nat.lt_succ_self _
    · rw [List.length_map]
      exact hg.trans (by exact_mod_cast Nat.lt_succ_self _)
    · intro x hmem
      obtain ⟨pt, hpt, rfl⟩ := List.mem_map.mp hmem
      rw [hon pt hpt, hgon pt hpt]
    · rw [hgzero, heq]
  rw [← hsame, hdeg] at hg
  exact lt_irrefl _ hg

/-- A single point off the polynomial moves the value at zero. -/
theorem interpolateAtZero_ne_of_off (hdeg : f.degree < pts.length) (off : F × F)
    (hmem : off ∈ pts) (hoff : f.eval off.1 ≠ off.2)
    (hon : ∀ pt ∈ pts, pt ≠ off → f.eval pt.1 = pt.2) : interpolateAtZero pts ≠ f.eval 0 := by
  classical
  obtain ⟨g, hg, hgon, hgzero⟩ := exists_interpolant pts hx
  intro heq
  have hnodup : pts.Nodup := List.Nodup.of_map _ hx
  have hrest : pts.length = (pts.erase off).length+1 := by
    rw [List.length_erase_of_mem hmem]
    have := List.length_pos_of_mem hmem
    omega
  -- the other points and zero fix the polynomial, which then goes through this one too
  have hsame : f = g := by
    apply eq_of_eval_zero ((pts.erase off).map Prod.fst)
    · exact hx.sublist (List.erase_sublist.map _)
    · rw [List.mem_map]
      exact fun ⟨pt, hpt, hzero⟩ => h0 pt (List.mem_of_mem_erase hpt) hzero
    · rwa [List.length_map, ← hrest]
    · rwa [List.length_map, ← hrest]
    · intro x hx'
      obtain ⟨pt, hpt, rfl⟩ := List.mem_map.mp hx'
      rw [hnodup.mem_erase_iff] at hpt
      rw [hon pt hpt.2 hpt.1, hgon pt hpt.2]
    · rw [hgzero, heq]
  exact hoff (hsame ▸ hgon off hmem)

end Missed

end Foundations
