import DecentralizedIDP.CryptoPrimitives

/-! The identity secret, derived from the public key, the registration nonce and the
password, and the hash that commits to it. -/
namespace DecentralizedIDP
open Foundations

def deriveIdentitySecret (publicKeyBytes registrationNonce : Bytes) (password : String) : ℤ :=
  let ikm := publicKeyBytes ++ encode password
  let prk := hmacSha3 registrationNonce ikm
  -- one block of output, so the counter is the byte 1
  let okm := hmacSha3 prk (encode "decidp-identity-secret-v1" ++ [1])
  -- from 1 to P-1, which is what the sharing asks of a secret
  (fromBytes okm : ℤ) % ((P : ℤ)-1)+1

def commitmentHash (S : ℤ) : Except PyError String := do
  return sha3Hex (← intToBytes 32 S)

theorem deriveIdentitySecret_range (publicKeyBytes registrationNonce : Bytes) (password : String) :
    1 ≤ deriveIdentitySecret publicKeyBytes registrationNonce password ∧
      deriveIdentitySecret publicKeyBytes registrationNonce password ≤ P-1 := by
  have hP := one_lt_P
  have h0 (a : ℤ) : 0 ≤ a % ((P : ℤ)-1) := Int.emod_nonneg a (by omega)
  have hlt (a : ℤ) : a % ((P : ℤ)-1) < P-1 := Int.emod_lt_of_pos a (by omega)
  simp only [deriveIdentitySecret]
  exact ⟨by linarith [h0 (fromBytes (hmacSha3 (hmacSha3 registrationNonce
    (publicKeyBytes ++ encode password)) (encode "decidp-identity-secret-v1" ++ [1])))],
    Int.add_one_le_iff.mpr (hlt _)⟩

/-- Residues fit into 32 bytes. -/
theorem intToBytes_residue (n : ℤ) (h0 : 0 ≤ n) (hn : n < P) :
    intToBytes 32 n = .ok (toBytes 32 n.toNat) := by
  have hP : (P : ℤ) < 256^32 := by exact_mod_cast P_lt
  exact intToBytes_ok 32 n h0 (hn.trans hP)

theorem commitmentHash_ok (S : ℤ) (h0 : 0 ≤ S) (hS : S < P) :
    commitmentHash S = .ok (sha3Hex (toBytes 32 S.toNat)) := by
  rw [commitmentHash, intToBytes_residue S h0 hS]
  rfl

end DecentralizedIDP
