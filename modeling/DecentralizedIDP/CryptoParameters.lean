import DecentralizedIDP.FoundationsModPow
import Mathlib.Tactic.NormNum.Prime

/-! The parameters shared by every module, and the primality of the field order. -/
namespace DecentralizedIDP
open Foundations

def P : ℕ := 0xFFFFFFFFFFFFFFFFFFFFFFFFFFFFFFFFFFFFFFFFFFFFFFFFFFFFFFFEFFFFFC2F

def nNodes : ℕ := 5
def threshold : ℕ := 3
def fNodes : ℕ := 1

def iatTtlSeconds : ℕ := 60
def challengeTtlSeconds : ℕ := 30

/-! ## `P` is prime

A Lucas certificate: the factors of `P-1`, and of each large factor less one, down
to primes that are checked directly. -/

theorem prime_173378833005251801 : Nat.Prime 173378833005251801 := by
  refine prime_of_factor_list _ 6 (by decide) [2,2,2,5,5,2621,24809,13331831] ?_ (by decide)
    (by decide +kernel) (by decide +kernel)
  simp only [List.mem_cons, List.not_mem_nil, or_false, forall_eq_or_imp, forall_eq]
  norm_num

theorem prime_22149492674086928081353 : Nat.Prime 22149492674086928081353 := by
  refine prime_of_factor_list _ 5 (by decide) [2,2,2,3,5323,173378833005251801] ?_ (by decide)
    (by decide +kernel) (by decide +kernel)
  simp only [List.mem_cons, List.not_mem_nil, or_false, forall_eq_or_imp, forall_eq]
  exact ⟨by norm_num, by norm_num, by norm_num, by norm_num, by norm_num,
    prime_173378833005251801⟩

theorem prime_132896956044521568488119 : Nat.Prime 132896956044521568488119 := by
  refine prime_of_factor_list _ 6 (by decide) [2,3,22149492674086928081353] ?_ (by decide)
    (by decide +kernel) (by decide +kernel)
  simp only [List.mem_cons, List.not_mem_nil, or_false, forall_eq_or_imp, forall_eq]
  exact ⟨by norm_num, by norm_num, prime_22149492674086928081353⟩

theorem prime_255515944373312847190720520512484175977 :
    Nat.Prime 255515944373312847190720520512484175977 := by
  refine prime_of_factor_list _ 3 (by decide)
    [2,2,2,7,7,11,1627,2657,4423,41201,96557,7240687,107590001] ?_ (by decide)
    (by decide +kernel) (by decide +kernel)
  simp only [List.mem_cons, List.not_mem_nil, or_false, forall_eq_or_imp, forall_eq]
  norm_num

theorem prime_largest_factor :
    Nat.Prime 205115282021455665897114700593932402728804164701536103180137503955397371 := by
  refine prime_of_factor_list _ 10 (by decide)
    [2,3,5,29,29,31,7723,132896956044521568488119,255515944373312847190720520512484175977]
    ?_ (by decide) (by decide +kernel) (by decide +kernel)
  simp only [List.mem_cons, List.not_mem_nil, or_false, forall_eq_or_imp, forall_eq]
  exact ⟨by norm_num, by norm_num, by norm_num, by norm_num, by norm_num, by norm_num,
    by norm_num, prime_132896956044521568488119, prime_255515944373312847190720520512484175977⟩

theorem prime_P : P.Prime := by
  refine prime_of_factor_list _ 3 (by decide)
    [2,3,7,13441,205115282021455665897114700593932402728804164701536103180137503955397371]
    ?_ (by decide) (by decide +kernel) (by decide +kernel)
  simp only [List.mem_cons, List.not_mem_nil, or_false, forall_eq_or_imp, forall_eq]
  exact ⟨by norm_num, by norm_num, by norm_num, by norm_num, prime_largest_factor⟩

instance : Fact P.Prime := ⟨prime_P⟩

theorem P_lt : P < 256^32 := by decide

theorem one_lt_P : 1 < P := by decide

theorem nNodes_lt_P : nNodes < P := by decide

attribute [irreducible] P

/-- Node indices are distinct residues. -/
theorem index_cast_injective (i j : ℕ) (hi : i ≤ nNodes) (hj : j ≤ nNodes)
    (h : (i : ZMod P) = (j : ZMod P)) : i = j := by
  have hP := nNodes_lt_P
  exact natCast_inj_of_lt P i j (by omega) (by omega) h

end DecentralizedIDP
