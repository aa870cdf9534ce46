import DecentralizedIDP.FoundationsSharing
import Mathlib.Data.Fintype.Pigeonhole
import Mathlib.Tactic.LinearCombination

/-! What fewer points than coefficients say about a polynomial's value at one more
position, when its coefficients are drawn from the nonzero elements. -/
namespace Foundations
open Polynomial

variable {F : Type*} [Field F]

/-- A polynomial is known by its value at zero and its other coefficients. -/
theorem eq_iff_coeff_succ (m : ℕ) (f g : F[X]) (hf : f.degree < (m+1 : ℕ))
    (hg : g.degree < (m+1 : ℕ)) :
    f = g ↔ f.eval 0 = g.eval 0 ∧ ∀ k : Fin m, f.coeff (k+1) = g.coeff (k+1) := by
  constructor
  · rintro rfl
    exact ⟨rfl, fun _ => rfl⟩
  · rintro ⟨hzero, hcoeff⟩
    ext j
    rcases Nat.lt_or_ge m j with hj | hj
    · have hle : ((m+1 : ℕ) : WithBot ℕ) ≤ j := by exact_mod_cast hj
      rw [coeff_eq_zero_of_degree_lt (hf.trans_le hle),
        coeff_eq_zero_of_degree_lt (hg.trans_le hle)]
    · cases j with
      | zero => rw [coeff_zero_eq_eval_zero, coeff_zero_eq_eval_zero, hzero]
      | succ k => exact hcoeff ⟨k, hj⟩

/-- How many vectors have prescribed images: one, unless some image is not attained. -/
theorem card_filter_images {κ α β : Type*} [Fintype κ] [DecidableEq κ] [Fintype α]
    (image : α → β) (hinj : Function.Injective image) (c : κ → β)
    [DecidablePred fun d : κ → α => ∀ k, image (d k) = c k]
    [Decidable (∀ k, c k ∈ Set.range image)] :
    (Finset.univ.filter (fun d : κ → α => ∀ k, image (d k) = c k)).card =
      if ∀ k, c k ∈ Set.range image then 1 else 0 := by
  split_ifs with hall
  · choose d hd using hall
    rw [Finset.card_eq_one]
    refine ⟨d, Finset.ext (fun d' => ?_)⟩
    rw [Finset.mem_filter_univ, Finset.mem_singleton, funext_iff]
    exact forall_congr' (fun k => by rw [← hd k, hinj.eq_iff])
  · rw [Finset.card_eq_zero, Finset.filter_eq_empty_iff]
    intro d _ hd
    exact hall (fun k => ⟨d k, hd k⟩)

/-! ## The polynomials through the seen points -/

section Seen
variable {ι : Type*} [DecidableEq ι] (v : ι → F) (seen : Finset ι) (o : ι) (y : ι → F)

/-- The polynomial through the seen points that is zero at the hidden position. -/
noncomputable def seenPoly : F[X] :=
  Lagrange.interpolate (insert o seen) v (Function.update y o 0)

/-- The polynomial that is zero at the seen positions and one at the hidden position. -/
noncomputable def hiddenPoly : F[X] := Lagrange.basis (insert o seen) v o

variable {v seen o} (hv : Set.InjOn v (insert o seen : Finset ι)) (ho : o ∉ seen)
include hv ho

theorem seenPoly_degree_lt : (seenPoly v seen o y).degree < (seen.card+1 : ℕ) := by
  rw [← Finset.card_insert_of_notMem ho]
  exact Lagrange.degree_interpolate_lt _ hv

theorem hiddenPoly_degree_lt : (hiddenPoly v seen o).degree < (seen.card+1 : ℕ) := by
  rw [hiddenPoly, Lagrange.degree_basis hv (Finset.mem_insert_self o seen),
    Finset.card_insert_of_notMem ho, Nat.add_sub_cancel]
  exact_mod_cast Nat.lt_succ_self _

theorem seenPoly_eval (i : ι) (hi : i ∈ seen) : (seenPoly v seen o y).eval (v i) = y i := by
  have hne : i ≠ o := fun h => ho (h ▸ hi)
  rw [seenPoly, Lagrange.eval_interpolate_at_node _ hv (Finset.mem_insert_of_mem hi),
    Function.update_of_ne hne]

omit ho in
theorem seenPoly_eval_hidden : (seenPoly v seen o y).eval (v o) = 0 := by
  rw [seenPoly, Lagrange.eval_interpolate_at_node _ hv (Finset.mem_insert_self o seen),
    Function.update_self]

omit hv in
theorem hiddenPoly_eval (i : ι) (hi : i ∈ seen) : (hiddenPoly v seen o).eval (v i) = 0 :=
  Lagrange.eval_basis_of_ne (fun h => ho (h ▸ hi)) (Finset.mem_insert_of_mem hi)

omit ho in
theorem hiddenPoly_eval_hidden : (hiddenPoly v seen o).eval (v o) = 1 :=
  Lagrange.eval_basis_self hv (Finset.mem_insert_self o seen)

theorem line_degree_lt (s : F) :
    (seenPoly v seen o y+C s*hiddenPoly v seen o).degree < (seen.card+1 : ℕ) := by
  apply lt_of_le_of_lt (degree_add_le _ _) (max_lt (seenPoly_degree_lt y hv ho) _)
  rw [← smul_eq_C_mul]
  exact lt_of_le_of_lt (degree_smul_le _ _) (hiddenPoly_degree_lt hv ho)

/-- The seen points and the value at the hidden position leave one polynomial, and it
moves along a line with that value. -/
theorem through_seen_iff (f : F[X]) (hdeg : f.degree < (seen.card+1 : ℕ)) (s : F) :
    ((∀ i ∈ seen, f.eval (v i) = y i) ∧ f.eval (v o) = s) ↔
      f = seenPoly v seen o y+C s*hiddenPoly v seen o := by
  constructor
  · rintro ⟨hseen, hsecret⟩
    have hline := line_degree_lt y hv ho s
    rw [← Finset.card_insert_of_notMem ho] at hdeg hline
    apply eq_of_degrees_lt_of_eval_index_eq (insert o seen) hv hdeg hline
    intro i hi
    rw [eval_add, eval_mul, eval_C]
    rcases Finset.mem_insert.mp hi with rfl | hi
    · rw [hsecret, seenPoly_eval_hidden y hv, hiddenPoly_eval_hidden hv, zero_add, mul_one]
    · rw [hseen i hi, seenPoly_eval y hv ho i hi, hiddenPoly_eval ho i hi, mul_zero, add_zero]
  · rintro rfl
    constructor
    · intro i hi
      rw [eval_add, eval_mul, seenPoly_eval y hv ho i hi, hiddenPoly_eval ho i hi, mul_zero,
        add_zero]
    · rw [eval_add, eval_mul, eval_C, seenPoly_eval_hidden y hv, hiddenPoly_eval_hidden hv,
        zero_add, mul_one]

end Seen

/-! ## Lines of coefficients that avoid zero -/

section Lines
variable {m : ℕ} (b l : Fin m → F)

/-- Every nonzero parameter of the lines `b+s*l` fares alike: one of them is zero
throughout, or each of them is either constant or through zero. -/
def AvoidAlike : Prop := (∃ k, b k = 0 ∧ l k = 0) ∨ ∀ k, (b k = 0 ↔ l k ≠ 0)

/-- Fewer lines than nonzero parameters, none of them zero throughout, are all avoided
at some parameter. -/
theorem exists_avoiding [Fintype F] (hm : m+1 < Fintype.card F)
    (hline : ∀ k, ¬(b k = 0 ∧ l k = 0)) : ∃ s, s ≠ 0 ∧ ∀ k, b k+s*l k ≠ 0 := by
  classical
  by_contra hno
  push Not at hno
  -- otherwise each nonzero parameter is the root of some line, and of no two the same
  have hroot (s : {s : F // s ≠ 0}) : ∃ k, b k+s.val*l k = 0 := hno s.val s.property
  choose root hroot using hroot
  have hcard : Fintype.card (Fin m) < Fintype.card {s : F // s ≠ 0} := by
    rw [Fintype.card_fin, Fintype.card_subtype_compl, Fintype.card_subtype_eq]
    omega
  obtain ⟨s, s', hne, heq⟩ := Fintype.exists_ne_map_eq_of_card_lt root hcard
  have h := hroot s
  have h' := hroot s'
  rw [← heq] at h'
  have hdiff : (s.val-s'.val)*l (root s) = 0 := by
    linear_combination h-h'
  rcases mul_eq_zero.mp hdiff with hs | hl
  · exact hne (Subtype.ext (sub_eq_zero.mp hs))
  · rw [hl, mul_zero, add_zero] at h
    exact hline (root s) ⟨h, hl⟩

theorem avoidAlike_iff [Fintype F] (hm : m+1 < Fintype.card F) :
    (∀ s s' : F, s ≠ 0 → s' ≠ 0 → ((∀ k, b k+s*l k ≠ 0) ↔ ∀ k, b k+s'*l k ≠ 0)) ↔
      AvoidAlike b l := by
  constructor
  · intro h
    by_cases hzero : ∃ k, b k = 0 ∧ l k = 0
    · exact Or.inl hzero
    · push Not at hzero
      obtain ⟨s, hs, havoid⟩ := exists_avoiding b l hm (fun k hk => hzero k hk.1 hk.2)
      refine Or.inr (fun k => ⟨hzero k, fun hl => ?_⟩)
      -- a root other than zero would be a parameter that fares differently
      by_contra hb
      have hroot : -b k/l k ≠ 0 := div_ne_zero (neg_ne_zero.mpr hb) hl
      apply (h s _ hs hroot).mp havoid k
      rw [div_mul_cancel₀ _ hl, add_neg_cancel]
  · rintro (⟨k, hb, hl⟩ | halike) s s' hs hs'
    · have hfail (t : F) : ¬∀ k, b k+t*l k ≠ 0 := by
        intro havoid
        apply havoid k
        rw [hb, hl, mul_zero, add_zero]
      exact iff_of_false (hfail s) (hfail s')
    · have havoid (t : F) (ht : t ≠ 0) (k : Fin m) : b k+t*l k ≠ 0 := by
        by_cases hl : l k = 0
        · rw [hl, mul_zero, add_zero]
          exact fun hb => (halike k).mp hb hl
        · rw [(halike k).mpr hl, zero_add]
          exact mul_ne_zero ht hl
      exact iff_of_true (havoid s hs) (havoid s' hs')

end Lines

end Foundations
