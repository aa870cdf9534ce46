import Mathlib.Data.List.Prime
import Mathlib.NumberTheory.LucasPrimality

/-! Modular exponentiation by squaring, fast enough for the kernel at 256 bits,
and Lucas primality certificates checked with it. -/
namespace Foundations

/-- Square and multiply on the low `fuel` bits of the exponent. -/
def powModFuel : ℕ → ℕ → ℕ → ℕ → ℕ
  | 0, _, _, m => 1 % m
  | fuel+1, a, e, m =>
    if e = 0 then 1 % m
    else if e % 2 = 1 then a * powModFuel fuel (a*a % m) (e/2) m % m
    else powModFuel fuel (a*a % m) (e/2) m

def powMod (a e m : ℕ) : ℕ := powModFuel (e.log2+1) a e m

theorem powModFuel_eq (fuel a e m : ℕ) (he : e < 2^fuel) :
    powModFuel fuel a e m = a^e % m := by
  -- each unit of fuel halves the exponent and squares the base
  induction fuel generalizing a e with
  | zero =>
    have h0 : e = 0 := by simpa using he
    simp only [powModFuel, h0, pow_zero]
  | succ fuel ih =>
    have hhalf : e/2 < 2^fuel := by rw [pow_succ] at he; omega
    have hsq : (a*a % m)^(e/2) % m = a^(2*(e/2)) % m := by
      rw [← Nat.pow_mod, pow_mul, sq]
    unfold powModFuel
    split_ifs with h0 hodd
    · rw [h0, pow_zero]
    · rw [ih _ _ hhalf, hsq]
      have hsplit : e = 2*(e/2)+1 := by omega
      conv_rhs => rw [hsplit, pow_succ]
      rw [Nat.mul_mod, Nat.mod_mod, ← Nat.mul_mod, mul_comm]
    · rw [ih _ _ hhalf, hsq]
      have hsplit : e = 2*(e/2) := by omega
      conv_rhs => rw [hsplit]

theorem powMod_eq (a e m : ℕ) : powMod a e m = a^e % m :=
  powModFuel_eq _ a e m (Nat.lt_log2_self)

theorem powMod_cast (a e m : ℕ) : ((powMod a e m : ℕ) : ZMod m) = (a : ZMod m)^e := by
  rw [powMod_eq, ZMod.natCast_mod, Nat.cast_pow]

/-- The power of an integer, reduced to the least non-negative residue. -/
def powInt (a : ℤ) (e m : ℕ) : ℤ := powMod (a % m).toNat e m

theorem powInt_cast (a : ℤ) (e m : ℕ) (hm : 0 < m) :
    ((powInt a e m : ℤ) : ZMod m) = (a : ZMod m)^e := by
  have hnonneg : 0 ≤ a % (m : ℤ) := Int.emod_nonneg a (by omega)
  have hbase : (((a % (m : ℤ)).toNat : ℕ) : ZMod m) = (a : ZMod m) := by
    rw [← Int.cast_natCast, Int.toNat_of_nonneg hnonneg, ZMod.intCast_mod]
  rw [powInt, Int.cast_natCast, powMod_cast, hbase]

theorem cast_pow_eq_one_iff (p : ℕ) (hp : 1 < p) (a e : ℕ) :
    (a : ZMod p)^e = 1 ↔ powMod a e p = 1 := by
  rw [powMod_eq, ← Nat.cast_pow, ← Nat.cast_one, ZMod.natCast_eq_natCast_iff',
    Nat.mod_eq_of_lt hp]

/-- Numbers below the modulus are told apart by their residues. -/
theorem natCast_inj_of_lt (m i j : ℕ) (hi : i < m) (hj : j < m)
    (h : (i : ZMod m) = (j : ZMod m)) : i = j := by
  have hmod := (ZMod.natCast_eq_natCast_iff' i j m).mp h
  rwa [Nat.mod_eq_of_lt hi, Nat.mod_eq_of_lt hj] at hmod

/-- Lucas's test against a list of primes whose product is `p-1`. -/
theorem prime_of_factor_list (p a : ℕ) (hp : 1 < p) (factors : List ℕ)
    (hprime : ∀ q ∈ factors, q.Prime) (hprod : factors.prod = p-1)
    (hfull : powMod a (p-1) p = 1) (hpart : ∀ q ∈ factors, powMod a ((p-1)/q) p ≠ 1) :
    p.Prime := by
  apply lucas_primality p (a : ZMod p)
  · exact (cast_pow_eq_one_iff p hp a _).mpr hfull
  · intro q hq hdvd
    -- a prime divisor of the product is one of the listed factors
    rw [← hprod] at hdvd
    obtain ⟨r, hr, hqr⟩ := (Prime.dvd_prod_iff hq.prime).mp hdvd
    have he : q = r := (Nat.prime_dvd_prime_iff_eq hq (hprime r hr)).mp hqr
    intro hone
    exact hpart r hr (by simpa only [he] using (cast_pow_eq_one_iff p hp a _).mp hone)

end Foundations
