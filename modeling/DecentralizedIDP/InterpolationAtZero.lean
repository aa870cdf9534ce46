import DecentralizedIDP.CryptoLagrange

/-! Interpolation at zero for points of any integer coordinates: when it raises, what it
returns otherwise, and which changes of the points it does not notice. -/
namespace DecentralizedIDP
open Foundations Polynomial

/-- Two different positions hold congruent `x`. -/
def CongruentPositions (p : ℕ) (shares : List (ℤ × ℤ)) : Prop :=
  ∃ i j : Fin shares.length, i ≠ j ∧ shares[i].1 ≡ shares[j].1 [ZMOD p]

/-- The polynomial goes through all of the points, with a degree below their number. -/
structure Interpolates (p : ℕ) (shares : List (ℤ × ℤ)) (g : (ZMod p)[X]) : Prop where
  degree : g.degree < shares.length
  through : ∀ s ∈ shares, g.eval (s.1 : ZMod p) = (s.2 : ZMod p)

/-- The points are the same up to multiples of `p`. -/
def SameModulo (p : ℕ) (shares shares' : List (ℤ × ℤ)) : Prop :=
  List.Forall₂ (fun s s' => ∃ k l : ℤ, s'.1 = s.1+k*p ∧ s'.2 = s.2+l*p) shares shares'

section Residues
variable (p : ℕ) (shares : List (ℤ × ℤ))

theorem congruentPositions_iff :
    CongruentPositions p shares ↔ ¬(shares.map (fun s => (s.1 : ZMod p))).Nodup := by
  rw [List.nodup_iff_injective_get, Function.Injective]
  push Not
  have hlen : (shares.map (fun s => (s.1 : ZMod p))).length = shares.length := List.length_map _
  constructor
  · intro h
    obtain ⟨i, j, hne, hcongr⟩ := h
    refine ⟨i.cast hlen.symm, j.cast hlen.symm, ?_, ?_⟩
    · simpa using (ZMod.intCast_eq_intCast_iff _ _ p).mpr hcongr
    · intro heq
      exact hne (Fin.cast_injective hlen.symm heq)
  · intro h
    obtain ⟨i, j, heq, hne⟩ := h
    refine ⟨i.cast hlen, j.cast hlen, ?_, ?_⟩
    · intro hij
      exact hne (Fin.cast_injective hlen hij)
    · apply (ZMod.intCast_eq_intCast_iff _ _ p).mp
      simpa using heq

variable [Fact p.Prime]

theorem SameModulo.fieldPoint_eq (shares' : List (ℤ × ℤ)) (h : SameModulo p shares shares') :
    shares.map (fieldPoint p) = shares'.map (fieldPoint p) := by
  induction h with
  | nil => rfl
  | cons hpoint _ ih =>
    -- a multiple of `p` is zero in the field
    obtain ⟨k, l, hx, hy⟩ := hpoint
    rw [List.map_cons, List.map_cons, ih, fieldPoint, fieldPoint, hx, hy]
    simp

theorem interpolates_iff (g : (ZMod p)[X]) : Interpolates p shares g ↔
    g.degree < (shares.map (fieldPoint p)).length ∧
      ∀ pt ∈ shares.map (fieldPoint p), g.eval pt.1 = pt.2 := by
  rw [List.length_map, List.forall_mem_map]
  constructor
  · intro h
    exact ⟨h.degree, h.through⟩
  · intro h
    exact ⟨h.1, h.2⟩

/-- One polynomial goes through the points, and the result is its value at zero. -/
theorem lagrangeInterpolate_interpolant (hx : (shares.map (fun s => (s.1 : ZMod p))).Nodup) :
    ∃ v g, lagrangeInterpolate shares p = .ok v ∧ 0 ≤ v ∧ v < p ∧ Interpolates p shares g ∧
      (∀ g', Interpolates p shares g' → g' = g) ∧ (v : ZMod p) = g.eval 0 := by
  obtain ⟨v, hv, h0, hlt, hval⟩ := lagrangeInterpolate_ok p shares hx
  rw [← fieldPoint_fst] at hx
  obtain ⟨g, hdeg, hon, hzero⟩ := exists_interpolant (shares.map (fieldPoint p)) hx
  refine ⟨v, g, hv, h0, hlt, (interpolates_iff p shares g).mpr ⟨hdeg, hon⟩, ?_,
    hval.trans hzero.symm⟩
  intro g' hg'
  obtain ⟨hdeg', hon'⟩ := (interpolates_iff p shares g').mp hg'
  -- both are the Lagrange polynomial of the points
  rw [eq_interpolate _ g' hx hdeg' hon', eq_interpolate _ g hx hdeg hon]

end Residues

/-- Interpolation at zero raises exactly when two positions hold congruent `x`. Otherwise it
returns the value at zero, as a residue, of the one polynomial through the points.
Neither the order of the points nor multiples of `p` in them matter. -/
theorem lagrange_at_zero (p : ℕ) (hp : p.Prime) (shares : List (ℤ × ℤ)) :
    ((∃ message, lagrangeInterpolate shares p = .error (.valueError message)) ↔
      CongruentPositions p shares) ∧
    (¬CongruentPositions p shares → ∃ v g, lagrangeInterpolate shares p = .ok v ∧
      0 ≤ v ∧ v ≤ p-1 ∧ Interpolates p shares g ∧
      (∀ g', Interpolates p shares g' → g' = g) ∧ (v : ZMod p) = g.eval 0) ∧
    lagrangeInterpolate [] p = .ok 0 ∧
    (∀ shares', shares.Perm shares' →
      lagrangeInterpolate shares' p = lagrangeInterpolate shares p) ∧
    ∀ shares', SameModulo p shares shares' →
      lagrangeInterpolate shares' p = lagrangeInterpolate shares p := by
  have hfact : Fact p.Prime := ⟨hp⟩
  refine ⟨⟨?_, ?_⟩, ?_, rfl, ?_, ?_⟩
  · intro h
    rw [congruentPositions_iff]
    intro hx
    obtain ⟨message, hmessage⟩ := h
    obtain ⟨v, hv, -⟩ := lagrangeInterpolate_ok p shares hx
    rw [hv] at hmessage
    cases hmessage
  · intro h
    exact ⟨_, lagrangeInterpolate_error p shares ((congruentPositions_iff p shares).mp h)⟩
  · intro h
    rw [congruentPositions_iff, not_not] at h
    obtain ⟨v, g, hv, h0, hlt, hg⟩ := lagrangeInterpolate_interpolant p shares h
    exact ⟨v, g, hv, h0, by omega, hg⟩
  · intro shares' hperm
    exact lagrangeInterpolate_perm p shares' shares (hperm.symm.map _)
  · intro shares' hsame
    apply lagrangeInterpolate_perm p shares' shares
    rw [SameModulo.fieldPoint_eq p shares shares' hsame]

/-- Modulo 7 the points `(-3, 12)` and `(9, -20)` lie on `4+2x`. -/
example : lagrangeInterpolate [(-3, 12), (9, -20)] 7 = .ok 4 := by decide

theorem lagrange_at_zero_seven :
    ∃ v g, lagrangeInterpolate [(-3, 12), (9, -20)] 7 = .ok v ∧
      Interpolates 7 [(-3, 12), (9, -20)] g ∧ (v : ZMod 7) = g.eval 0 := by
  have hdistinct : ¬CongruentPositions 7 [(-3, 12), (9, -20)] := by
    rw [congruentPositions_iff]
    decide
  obtain ⟨v, g, hv, -, -, hg, -, hzero⟩ :=
    (lagrange_at_zero 7 (by norm_num) [(-3, 12), (9, -20)]).2.1 hdistinct
  exact ⟨v, g, hv, hg, hzero⟩

end DecentralizedIDP
