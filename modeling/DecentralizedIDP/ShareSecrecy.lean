import DecentralizedIDP.CryptoSSS
import DecentralizedIDP.FoundationsSecrecy

/-! What one share less than the threshold says about the secret. The coefficients are
drawn from the nonzero residues, so the shares rule out every secret whose
polynomial would need a zero among them. -/
namespace DecentralizedIDP
open Foundations Polynomial

/-- Whether a call with these draws gives every seen index its value. -/
def producesShares (secret : ℤ) (t n p : ℕ) (seen : Finset ℕ) (y : ℕ → ℤ)
    (draws : Fin (t-1) → Fin (p-1)) : Bool :=
  match generateShares secret t n p draws with
  | .error _ => false
  | .ok shares => decide (∀ i ∈ seen, ((i : ℤ), y i) ∈ shares)

/-- How many of the draws do. -/
def consistentDraws (secret : ℤ) (t n p : ℕ) (seen : Finset ℕ) (y : ℕ → ℤ) : ℕ :=
  (Finset.univ.filter (fun draws => producesShares secret t n p seen y draws = true)).card

section Field
variable (p : ℕ) [Fact p.Prime]

/-- The coefficients of degree `1` to `t-1` of the line of polynomials through the seen
shares: where it starts, and how it moves with the secret. -/
noncomputable def seenCoefficient (t : ℕ) (seen : Finset ℕ) (y : ℕ → ℤ) (k : Fin (t-1)) :
    ZMod p :=
  (seenPoly (fun i : ℕ => (i : ZMod p)) seen 0 (fun i => (y i : ZMod p))).coeff (k+1)

noncomputable def hiddenCoefficient (t : ℕ) (seen : Finset ℕ) (k : Fin (t-1)) : ZMod p :=
  (hiddenPoly (fun i : ℕ => (i : ZMod p)) seen 0).coeff (k+1)

/-- The condition on the seen shares under which they say nothing: one of them is not a
residue, or the line avoids zero coefficients at every secret or at none. -/
def SaysNothing (t : ℕ) (seen : Finset ℕ) (y : ℕ → ℤ) : Prop :=
  (∃ i ∈ seen, ¬(0 ≤ y i ∧ y i < p)) ∨
    AvoidAlike (seenCoefficient p t seen y) (hiddenCoefficient p t seen)

/-! ## From shares to coefficients -/

theorem shareValue_eq_iff (coeffs : List ℤ) (i : ℕ) (v : ℤ) (hv : 0 ≤ v ∧ v < p) :
    shareValue coeffs p i = v ↔ (sharePoly p coeffs).eval (i : ZMod p) = (v : ZMod p) := by
  have hrange := shareValue_range p coeffs i
  rw [← shareValue_cast]
  constructor
  · rintro rfl
    rfl
  · exact residue_unique p _ v hrange hv

omit [Fact p.Prime] in
theorem producesShares_iff (secret : ℤ) (t n : ℕ) (seen : Finset ℕ) (y : ℕ → ℤ)
    (draws : Fin (t-1) → Fin (p-1)) (hsecret : 1 ≤ secret ∧ secret ≤ p-1) (ht : 1 ≤ t ∧ t ≤ n)
    (hseen : ∀ i ∈ seen, 1 ≤ i ∧ i ≤ n) :
    producesShares secret t n p seen y draws = true ↔
      ∀ i ∈ seen, shareValue (shareCoefficients secret t p draws) p i = y i := by
  rw [producesShares, generateShares_ok secret t n p draws hsecret ht]
  simp only [decide_eq_true_eq, List.mem_map, List.mem_range'_1, Prod.mk.injEq, Nat.cast_inj]
  apply forall₂_congr
  intro i hi
  constructor
  · rintro ⟨j, -, rfl, h⟩
    exact h
  · intro h
    have hi := hseen i hi
    exact ⟨i, by omega, rfl, h⟩

/-! ## From coefficients to counts -/

theorem index_injOn (n : ℕ) (hnp : n < p) (seen : Finset ℕ)
    (hseen : ∀ i ∈ seen, 1 ≤ i ∧ i ≤ n) :
    Set.InjOn (fun i : ℕ => (i : ZMod p)) (insert 0 seen : Finset ℕ) := by
  have hlt (i : ℕ) (hi : i ∈ insert 0 seen) : i < p := by
    rcases Finset.mem_insert.mp hi with rfl | hi
    · omega
    · exact (hseen i hi).2.trans_lt hnp
  intro i hi j hj hij
  exact natCast_inj_of_lt p i j (hlt i hi) (hlt j hj) hij

/-- The draws that agree with the seen shares are those of the coefficients on the line. -/
theorem sharePoly_eval_iff (secret : ℤ) (t n : ℕ) (hnp : n < p) (seen : Finset ℕ)
    (hcard : seen.card = t-1) (ht : 1 ≤ t) (hseen : ∀ i ∈ seen, 1 ≤ i ∧ i ≤ n) (y : ℕ → ℤ)
    (draws : Fin (t-1) → Fin (p-1)) :
    (∀ i ∈ seen, (sharePoly p (shareCoefficients secret t p draws)).eval (i : ZMod p) = y i) ↔
      ∀ k, ((draws k).val+1 : ZMod p) =
        seenCoefficient p t seen y k+secret*hiddenCoefficient p t seen k := by
  have hv := index_injOn p n hnp seen hseen
  have h0 : 0 ∉ seen := fun h => by
    have := (hseen 0 h).1
    omega
  have ht' : t = t-1+1 := by omega
  have hdeg := shareCoefficients_degree_lt p secret t ht draws
  have hline := line_degree_lt (fun i => (y i : ZMod p)) hv h0 (secret : ZMod p)
  have hthrough := through_seen_iff (fun i => (y i : ZMod p)) hv h0
    (sharePoly p (shareCoefficients secret t p draws)) (by rwa [hcard, ← ht']) (secret : ZMod p)
  have hzero := shareCoefficients_eval_zero p secret t draws
  rw [Nat.cast_zero] at hthrough
  rw [hcard] at hline
  constructor
  · intro hseen' k
    rw [← shareCoefficients_coeff, hthrough.mp ⟨hseen', hzero⟩, coeff_add, coeff_C_mul]
    rfl
  · intro hcoeff
    apply (hthrough.mpr _).1
    rw [eq_iff_coeff_succ (t-1) _ _ (by rwa [← ht']) hline]
    constructor
    · have heval := ((through_seen_iff (fun i => (y i : ZMod p)) hv h0 _
        (line_degree_lt (fun i => (y i : ZMod p)) hv h0 (secret : ZMod p)) _).mpr rfl).2
      rw [Nat.cast_zero] at heval
      rw [hzero, heval]
    · intro k
      rw [shareCoefficients_coeff, hcoeff, coeff_add, coeff_C_mul]
      rfl

/-- The residues that a draw can give are the nonzero ones. -/
theorem mem_range_draw (c : ZMod p) :
    c ∈ Set.range (fun d : Fin (p-1) => (d.val+1 : ZMod p)) ↔ c ≠ 0 := by
  have hp := (Fact.out : p.Prime).two_le
  constructor
  · rintro ⟨d, rfl⟩ hzero
    have hd := d.isLt
    have hcast : ((d.val+1 : ℕ) : ZMod p) = 0 := by exact_mod_cast hzero
    rw [ZMod.natCast_eq_zero_iff] at hcast
    have hle := Nat.le_of_dvd (Nat.succ_pos _) hcast
    omega
  · intro hc
    have hpos : c.val ≠ 0 := fun h => hc ((ZMod.val_eq_zero c).mp h)
    have hlt := ZMod.val_lt c
    refine ⟨⟨c.val-1, by omega⟩, ?_⟩
    calc (((c.val-1 : ℕ) : ZMod p)+1) = ((c.val-1+1 : ℕ) : ZMod p) := by push_cast; rfl
      _ = (c.val : ZMod p) := by rw [Nat.sub_add_cancel (by omega)]
      _ = c := ZMod.natCast_zmod_val c

theorem draw_injective : Function.Injective (fun d : Fin (p-1) => (d.val+1 : ZMod p)) := by
  intro d d' h
  have hp := (Fact.out : p.Prime).two_le
  have hd := d.isLt
  have hd' := d'.isLt
  have hcast : (d.val : ZMod p) = (d'.val : ZMod p) := add_right_cancel h
  exact Fin.ext (natCast_inj_of_lt p d d' (by omega) (by omega) hcast)

open Classical in
/-- There is one way to draw the seen shares, if the line at the secret avoids zero
coefficients, and otherwise none. -/
theorem consistentDraws_eq (secret : ℤ) (t n : ℕ) (ht : 1 ≤ t ∧ t ≤ n) (hnp : n < p)
    (hsecret : 1 ≤ secret ∧ secret ≤ p-1) (seen : Finset ℕ) (hcard : seen.card = t-1)
    (hseen : ∀ i ∈ seen, 1 ≤ i ∧ i ≤ n) (y : ℕ → ℤ) (hy : ∀ i ∈ seen, 0 ≤ y i ∧ y i < p) :
    consistentDraws secret t n p seen y =
      if ∀ k, seenCoefficient p t seen y k+secret*hiddenCoefficient p t seen k ≠ 0 then 1
      else 0 := by
  have hfilter (draws : Fin (t-1) → Fin (p-1)) :
      producesShares secret t n p seen y draws = true ↔ ∀ k, ((draws k).val+1 : ZMod p) =
        seenCoefficient p t seen y k+secret*hiddenCoefficient p t seen k := by
    rw [producesShares_iff p secret t n seen y draws hsecret ht hseen,
      ← sharePoly_eval_iff p secret t n hnp seen hcard ht.1 hseen y draws]
    exact forall₂_congr (fun i hi => shareValue_eq_iff p _ i (y i) (hy i hi))
  -- the draws are the vectors whose images are the coefficients at the secret
  have hcount := card_filter_images (fun d : Fin (p-1) => (d.val+1 : ZMod p)) (draw_injective p)
    (fun k => seenCoefficient p t seen y k+secret*hiddenCoefficient p t seen k)
  simp only [mem_range_draw] at hcount
  rw [consistentDraws, ← hcount]
  congr 1
  exact Finset.filter_congr (fun draws _ => hfilter draws)

/-- A value that no share can have is given by no draw. -/
theorem consistentDraws_of_outside (secret : ℤ) (t n : ℕ) (ht : 1 ≤ t ∧ t ≤ n)
    (hsecret : 1 ≤ secret ∧ secret ≤ p-1) (seen : Finset ℕ) (hseen : ∀ i ∈ seen, 1 ≤ i ∧ i ≤ n)
    (y : ℕ → ℤ) (i : ℕ) (hi : i ∈ seen) (hy : ¬(0 ≤ y i ∧ y i < p)) :
    consistentDraws secret t n p seen y = 0 := by
  rw [consistentDraws, Finset.card_eq_zero, Finset.filter_eq_empty_iff]
  intro draws _ hproduces
  rw [producesShares_iff p secret t n seen y draws hsecret ht hseen] at hproduces
  rw [← hproduces i hi] at hy
  exact hy (shareValue_range p _ i)

/-- The nonzero residues are those of the secrets. -/
theorem forall_secret_iff (Q : ZMod p → ZMod p → Prop) :
    (∀ s s' : ℤ, 1 ≤ s → s ≤ p-1 → 1 ≤ s' → s' ≤ p-1 → Q s s') ↔
      ∀ c c' : ZMod p, c ≠ 0 → c' ≠ 0 → Q c c' := by
  have hp := (Fact.out : p.Prime).two_le
  constructor
  · intro h c c' hc hc'
    have hsecret (d : ZMod p) (hd : d ≠ 0) : ∃ s : ℤ, 1 ≤ s ∧ s ≤ p-1 ∧ (s : ZMod p) = d := by
      have hpos : d.val ≠ 0 := fun h => hd ((ZMod.val_eq_zero d).mp h)
      have hlt := ZMod.val_lt d
      exact ⟨d.val, by omega, by omega, by rw [Int.cast_natCast, ZMod.natCast_zmod_val]⟩
    obtain ⟨s, h1, hle, rfl⟩ := hsecret c hc
    obtain ⟨s', h1', hle', rfl⟩ := hsecret c' hc'
    exact h s s' h1 hle h1' hle'
  · intro h s s' h1 hle h1' hle'
    exact h s s' (cast_ne_zero p s ⟨h1, hle⟩) (cast_ne_zero p s' ⟨h1', hle'⟩)

/-- One share less than the threshold has equally many explanations under every secret
exactly when the shares it shows say nothing. -/
theorem secrecy_iff (t n : ℕ) (ht : 2 ≤ t) (htn : t ≤ n) (hnp : n < p) (seen : Finset ℕ)
    (hcard : seen.card = t-1) (hseen : ∀ i ∈ seen, 1 ≤ i ∧ i ≤ n) (y : ℕ → ℤ) :
    (∀ s s' : ℤ, 1 ≤ s → s ≤ p-1 → 1 ≤ s' → s' ≤ p-1 →
      consistentDraws s t n p seen y = consistentDraws s' t n p seen y) ↔
      SaysNothing p t seen y := by
  classical
  have ht' : 1 ≤ t ∧ t ≤ n := ⟨by omega, htn⟩
  -- a value that is no residue is explained by no secret, and any other by at most one draw
  by_cases hy : ∀ i ∈ seen, 0 ≤ y i ∧ y i < p
  · have hinside : ¬∃ i ∈ seen, ¬(0 ≤ y i ∧ y i < p) := by
      push Not
      exact hy
    rw [SaysNothing, or_iff_right hinside, ← avoidAlike_iff _ _ (by rw [ZMod.card]; omega),
      ← forall_secret_iff p (fun c c' =>
        ((∀ k, seenCoefficient p t seen y k+c*hiddenCoefficient p t seen k ≠ 0) ↔
          ∀ k, seenCoefficient p t seen y k+c'*hiddenCoefficient p t seen k ≠ 0))]
    refine forall_congr' (fun s => forall_congr' (fun s' => forall_congr' (fun h1 =>
      forall_congr' (fun hle => forall_congr' (fun h1' => forall_congr' (fun hle' => ?_))))))
    rw [consistentDraws_eq p s t n ht' hnp ⟨h1, hle⟩ seen hcard hseen y hy,
      consistentDraws_eq p s' t n ht' hnp ⟨h1', hle'⟩ seen hcard hseen y hy]
    split_ifs <;> simp [*]
  · push Not at hy
    obtain ⟨i, hi, houtside⟩ := hy
    have hno : ¬(0 ≤ y i ∧ y i < p) := fun h => absurd h.2 (not_lt.mpr (houtside h.1))
    apply iff_of_true _ (Or.inl ⟨i, hi, hno⟩)
    intro s s' h1 hle h1' hle'
    rw [consistentDraws_of_outside p s t n ht' ⟨h1, hle⟩ seen hseen y i hi hno,
      consistentDraws_of_outside p s' t n ht' ⟨h1', hle'⟩ seen hseen y i hi hno]

end Field

/-- The shares 3 and 6 at the first two of five indices, modulo 7. -/
def sampleSeen (i : ℕ) : ℤ := 3*i

theorem secrecy_iff_sample :
    (∀ s s' : ℤ, 1 ≤ s → s ≤ (7 : ℕ)-1 → 1 ≤ s' → s' ≤ (7 : ℕ)-1 →
      consistentDraws s 3 5 7 {1, 2} sampleSeen = consistentDraws s' 3 5 7 {1, 2} sampleSeen) ↔
      haveI : Fact (Nat.Prime 7) := ⟨by norm_num⟩
      SaysNothing 7 3 {1, 2} sampleSeen :=
  haveI : Fact (Nat.Prime 7) := ⟨by norm_num⟩
  secrecy_iff 7 3 5 (by decide) (by decide) (by decide) {1, 2} (by decide) (by decide) sampleSeen

/-- A share of 3 at index 1 and of 6 at index 2 can come from the secret 1, not from 2. -/
theorem shares_rule_out_secret : Nat.Prime 7 ∧
    consistentDraws 1 3 5 7 {1, 2} sampleSeen = 1 ∧
    consistentDraws 2 3 5 7 {1, 2} sampleSeen = 0 := by
  refine ⟨by norm_num, ?_, ?_⟩
  · decide +kernel
  · decide +kernel

end DecentralizedIDP
