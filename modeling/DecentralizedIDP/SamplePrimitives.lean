import DecentralizedIDP.CryptoPrimitives

/-! Primitives that satisfy every law asked of them: an authenticated encryption and
a signature made from HMAC, and a float printer that writes whole numbers as
the program does. -/
namespace DecentralizedIDP
open Foundations

namespace SamplePrimitives

def tag (key nonce data : Bytes) (aad : Option Bytes) : Bytes :=
  hmacSha3 key (nonce ++ data ++ aad.getD [])

def encrypt (key nonce data : Bytes) (aad : Option Bytes) : Bytes := data ++ tag key nonce data aad

def decrypt (key nonce ciphertext : Bytes) (aad : Option Bytes) : Option Bytes :=
  let data := ciphertext.take (ciphertext.length-32)
  if ciphertext.drop (ciphertext.length-32) = tag key nonce data aad then some data else none

/-- Whole numbers print as `n.0`. -/
def reprChars (t : ℚ) : List Char := intChars t.num ++ '.' :: '0' :: List.replicate (t.den-1) '1'

def repr (t : ℚ) : String := String.ofList (reprChars t)

end SamplePrimitives

open SamplePrimitives in
def samplePrimitives : Primitives where
  pqcAvailable := false
  generateKeypair := fun seed => (seed, seed)
  sign := fun _ privateKey message => hmacSha3 privateKey message
  verify := fun publicKey message signature => signature == hmacSha3 publicKey message
  encrypt := encrypt
  decrypt := decrypt
  repr := SamplePrimitives.repr
  reprStr := fun s => "'" ++ s ++ "'"

namespace SamplePrimitives

theorem decrypt_encrypt (key nonce data : Bytes) (aad : Option Bytes) :
    samplePrimitives.decrypt key nonce (samplePrimitives.encrypt key nonce data aad) aad =
      some data := by
  have hlen : (data ++ tag key nonce data aad).length-32 = data.length := by
    rw [List.length_append, tag, hmacSha3_length]
    omega
  simp only [samplePrimitives, decrypt, encrypt, hlen, List.take_left, List.drop_left, ↓reduceIte]

theorem decryptsEncrypted : samplePrimitives.DecryptsEncrypted :=
  fun key nonce data aad => decrypt_encrypt key nonce data aad

theorem verifiesSigned : samplePrimitives.VerifiesSigned := by
  intro seed coins message
  exact beq_self_eq_true _

theorem intChars_ne_dot (n : ℤ) : ∀ c ∈ intChars n, (c != '.') = true := by
  have hdigit (c : Char) (hc : c ∈ Nat.toDigits 10 n.natAbs) : (c != '.') = true := by
    have h := Nat.isDigit_of_mem_toDigits (by decide) (by decide) hc
    rw [bne_iff_ne]
    rintro rfl
    exact absurd h (by decide)
  intro c hc
  rw [intChars] at hc
  split_ifs at hc
  · rcases List.mem_cons.mp hc with rfl | hc
    · decide
    · exact hdigit c hc
  · exact hdigit c hc

theorem repr_injective : Function.Injective SamplePrimitives.repr := by
  intro s t h
  have hchars : reprChars s = reprChars t := String.ofList_injective h
  have hsplit (q : ℚ) : (reprChars q).span (fun c => c != '.') =
      (intChars q.num, '.' :: '0' :: List.replicate (q.den-1) '1') :=
    span_append_of_delimited _ _ _ (intChars_ne_dot q.num) (by simp)
  have hpair := congrArg (fun l => l.span (fun c => c != '.')) hchars
  simp only [hsplit, Prod.mk.injEq, List.cons.injEq, true_and] at hpair
  have hnum : s.num = t.num := intChars_injective hpair.1
  have hden : s.den = t.den := by
    have hlen := congrArg List.length hpair.2
    rw [List.length_replicate, List.length_replicate] at hlen
    have hs := s.den_pos
    have ht := t.den_pos
    omega
  exact Rat.ext hnum hden

theorem printsFloats : samplePrimitives.PrintsFloats := by
  intro t
  constructor
  · intro c hc
    simp only [samplePrimitives, SamplePrimitives.repr, String.toList_ofList, reprChars,
      List.mem_append, List.mem_cons] at hc
    rcases hc with hc | rfl | rfl | hc
    · exact intChars_number _ c hc
    · decide
    · decide
    · rw [List.eq_of_mem_replicate hc]
      decide
  · have hds : ∀ c ∈ '0' :: List.replicate (t.den-1) '1', c.isDigit = true := by
      intro c hc
      rcases List.mem_cons.mp hc with rfl | hc
      · decide
      · rw [List.eq_of_mem_replicate hc]
        decide
    simp only [samplePrimitives, SamplePrimitives.repr, String.toList_ofList]
    exact numberValue_fraction t.num _ (by simp) hds

end SamplePrimitives

end DecentralizedIDP
