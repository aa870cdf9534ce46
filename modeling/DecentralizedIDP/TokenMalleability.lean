import DecentralizedIDP.TokenRoundTrip

/-! Tokens as text: which accepted strings are the encodings of the bytes they carry, and
what the lenient decoder lets through besides. -/
namespace DecentralizedIDP
open Foundations

namespace Iat

/-- What a token carries: the bytes of each part. -/
def carried (token : String) : List (Option Bytes) :=
  (splitChars '.' token.toList).map b64urlDecode

/-- Each part comes back when its decoding is encoded again. -/
def Reencodes (token : String) : Prop :=
  ∀ w ∈ splitChars '.' token.toList, (b64urlDecode w).map b64urlEncode = some w

/-- Each part consists of digits of the alphabet, does not end in a digit that is alone in
its group of four, and has zeros in the unused bits of its last digit. -/
def Canonical (token : String) : Prop :=
  ∀ w ∈ splitChars '.' token.toList, CanonicalBase64 w

theorem reencodes_iff_canonical (token : String) : Reencodes token ↔ Canonical token := by
  apply forall₂_congr
  intro w _
  exact b64urlEncode_decode_iff w

/-- Text that re-encodes to itself is fixed by its bytes. -/
theorem token_eq_of_carried (s t : String) (hs : Reencodes s) (ht : Reencodes t)
    (h : carried s = carried t) : s = t := by
  have hparts (token : String) (hr : Reencodes token) :
      (splitChars '.' token.toList).map some =
        (carried token).map (fun bytes => bytes.map b64urlEncode) := by
    rw [carried, List.map_map]
    apply List.map_congr_left
    intro w hw
    exact (hr w hw).symm
  have hsome : (splitChars '.' s.toList).map some = (splitChars '.' t.toList).map some := by
    rw [hparts s hs, hparts t ht, h]
  have hpieces := (Option.some_injective _).list_map hsome
  -- the pieces are those of the text, so they are joined to the same text
  exact String.toList_injective (splitChars_injective '.' hpieces)

/-- Every issued token is canonical. -/
theorem canonical_issue (prim : Primitives) (keys : SystemKeys) (inp : TokenInputs) (did : String)
    (quorumNodes : List ℤ) (token : String)
    (hissue : issue prim (some keys) inp did quorumNodes = .ok token) : Canonical token := by
  unfold Canonical
  rw [splitChars_issue prim keys inp did quorumNodes token hissue]
  simp only [List.forall_mem_cons]
  exact ⟨b64urlEncode_canonical _, b64urlEncode_canonical _, b64urlEncode_canonical _, by simp⟩

/-! ## Text that the decoder skips -/

/-- Four characters outside the alphabet, which leave the length modulo 4 as it is. -/
def foreignChars : List Char := ['!', '!', '!', '!']

theorem b64urlDecode_foreign (w : List Char) : b64urlDecode (w ++ foreignChars) =
    b64urlDecode w := by
  have hlen : (w ++ foreignChars).length % 4 = w.length % 4 := by
    rw [List.length_append, foreignChars]
    simp
  have hforeign : '!' ≠ '=' ∧ base64Value '!' = none := by decide +kernel
  have hskip : ∀ c ∈ foreignChars, c ≠ '=' ∧ base64Value c = none := by
    simp only [foreignChars, List.forall_mem_cons]
    exact ⟨hforeign, hforeign, hforeign, hforeign, by simp⟩
  have hascii : (foreignChars.all fun c => c.toNat < 128) = true := by decide +kernel
  -- with the length modulo four the padding stays the same too
  unfold b64urlDecode pad urlsafeB64Decode
  rw [hlen, List.append_assoc, base64Decode_skip _ hskip]
  simp only [List.all_append, hascii, Bool.true_and]

/-- The characters join the signature, and the signature is read as before. -/
theorem splitChars_foreign (token : String) (headerB64 payloadB64 sigB64 : List Char)
    (hsplit : splitChars '.' token.toList = [headerB64, payloadB64, sigB64]) :
    splitChars '.' (token ++ String.ofList foreignChars).toList =
      [headerB64, payloadB64, sigB64 ++ foreignChars] := by
  have hdots := splitChars_no_sep '.' token.toList
  simp only [hsplit, List.forall_mem_cons] at hdots
  have htoken : token.toList = headerB64 ++ '.' :: (payloadB64 ++ '.' :: sigB64) := by
    calc token.toList = ['.'].intercalate (splitChars '.' token.toList) :=
          (intercalate_splitChars '.' token.toList).symm
      _ = headerB64 ++ '.' :: (payloadB64 ++ '.' :: sigB64) := by
          rw [hsplit]
          simp [List.intercalate_cons_cons, List.intercalate_singleton]
  have hlast : '.' ∉ sigB64 ++ foreignChars := by
    rw [List.mem_append, not_or]
    exact ⟨hdots.2.2.1, by decide⟩
  rw [String.toList_append, String.toList_ofList, htoken, List.append_assoc, List.cons_append,
    List.append_assoc, List.cons_append, splitChars_append '.' _ _ hdots.1,
    splitChars_append '.' _ _ hdots.2.1, splitChars_single '.' _ hlast]

section Foreign
variable (prim : Primitives) (keys : Option SystemKeys) (clock : VerifyInputs)
  (token : String) (result : Json)
  (h : verifyIat prim keys clock token = some result)
include h

theorem verifyIat_parts : ∃ headerB64 payloadB64 sigB64,
    splitChars '.' token.toList = [headerB64, payloadB64, sigB64] := by
  unfold verifyIat at h
  split at h
  · next headerB64 payloadB64 sigB64 hsplit => exact ⟨headerB64, payloadB64, sigB64, hsplit⟩
  · cases h

/-- A string that is accepted is still accepted with foreign characters at its end. -/
theorem verifyIat_foreign :
    verifyIat prim keys clock (token ++ String.ofList foreignChars) = some result := by
  obtain ⟨headerB64, payloadB64, sigB64, hsplit⟩ := verifyIat_parts prim keys clock token result h
  rw [← h]
  -- the signature is over the first two parts as text, and they are untouched
  simp only [verifyIat, splitChars_foreign token _ _ _ hsplit, hsplit, b64urlDecode_foreign]

theorem carried_foreign : carried (token ++ String.ofList foreignChars) = carried token := by
  obtain ⟨headerB64, payloadB64, sigB64, hsplit⟩ := verifyIat_parts prim keys clock token result h
  simp only [carried, splitChars_foreign token _ _ _ hsplit, hsplit, List.map_cons,
    b64urlDecode_foreign]

theorem not_reencodes_foreign : ¬Reencodes (token ++ String.ofList foreignChars) := by
  obtain ⟨headerB64, payloadB64, sigB64, hsplit⟩ := verifyIat_parts prim keys clock token result h
  intro hr
  have hcanonical := (reencodes_iff_canonical _).mp hr
  unfold Canonical at hcanonical
  rw [splitChars_foreign token _ _ _ hsplit] at hcanonical
  have hlast := hcanonical (sigB64 ++ foreignChars) (by simp)
  have hdigit := hlast.digits '!' (List.mem_append_right _ (by decide))
  exact absurd hdigit (by decide +kernel)

end Foreign

/-- The parts of an accepted string come back exactly when they are canonical. Two accepted
strings of canonical parts never carry the same bytes; and every accepted string has
another beside it that carries the same bytes, whose parts are not canonical. -/
theorem accepted_reencodes_iff (prim : Primitives) (keys : Option SystemKeys)
    (clock : VerifyInputs) (token : String) (result : Json)
    (h : verifyIat prim keys clock token = some result) :
    (splitChars '.' token.toList).length = 3 ∧
    (Reencodes token ↔ Canonical token) ∧
    (Canonical token → ∀ (clock' : VerifyInputs) (token' : String) (result' : Json),
      verifyIat prim keys clock' token' = some result' → Canonical token' →
        carried token' = carried token → token' = token) ∧
    ∃ token', token' ≠ token ∧ verifyIat prim keys clock token' = some result ∧
      carried token' = carried token ∧ ¬Canonical token' := by
  refine ⟨?_, reencodes_iff_canonical token, ?_, token ++ String.ofList foreignChars, ?_,
    verifyIat_foreign prim keys clock token result h,
    carried_foreign prim keys clock token result h, ?_⟩
  · obtain ⟨headerB64, payloadB64, sigB64, hsplit⟩ :=
      verifyIat_parts prim keys clock token result h
    rw [hsplit]
    rfl
  · intro hcanonical _ token' _ _ hcanonical' hcarried
    exact token_eq_of_carried token' token ((reencodes_iff_canonical token').mpr hcanonical')
      ((reencodes_iff_canonical token).mpr hcanonical) hcarried
  · intro heq
    have hlen := congrArg (fun t => t.toList.length) heq
    simp [foreignChars] at hlen
  · intro hcanonical
    exact not_reencodes_foreign prim keys clock token result h
      ((reencodes_iff_canonical _).mpr hcanonical)

/-! ## An issued token and its double -/

def liveToken : TokenInputs := (sampleAuth []).token

theorem live_verifies (token : String)
    (hissue : issue samplePrimitives (some sampleKeys) liveToken "a" [1, 2, 3] = .ok token) :
    verifyIat samplePrimitives (some sampleKeys) ⟨2, fun _ => false⟩ token =
      some (.obj (sortMembers (payload liveToken "a" [1, 2, 3]))) := by
  have htime : truncate liveToken.now = 1 := by decide +kernel
  apply verifyIat_issue samplePrimitives sampleKeys liveToken "a" [1, 2, 3] token hissue
  · exact sampleKeys_sign _ _
  · rw [htime, iatTtlSeconds]
    norm_num

/-- With `!!!!` at its end an issued token is accepted as it was without. -/
theorem issued_token_malleable :
    ∃ token, issue samplePrimitives (some sampleKeys) liveToken "a" [1, 2, 3] = .ok token ∧
      verifyIat samplePrimitives (some sampleKeys) ⟨2, fun _ => false⟩ (token ++ "!!!!") =
        some (.obj (sortMembers (payload liveToken "a" [1, 2, 3]))) ∧
      verifyIat samplePrimitives (some sampleKeys) ⟨2, fun _ => false⟩ token =
        some (.obj (sortMembers (payload liveToken "a" [1, 2, 3]))) ∧
      carried (token ++ "!!!!") = carried token ∧ token ++ "!!!!" ≠ token ∧
      ¬Reencodes (token ++ "!!!!") := by
  obtain ⟨token, hissue⟩ := issue_ok samplePrimitives sampleKeys liveToken "a" [1, 2, 3]
  have hlive := live_verifies token hissue
  have hdouble : "!!!!" = String.ofList foreignChars := rfl
  refine ⟨token, hissue, ?_, hlive, ?_, ?_, ?_⟩
  · rw [hdouble]
    exact verifyIat_foreign _ _ _ token _ hlive
  · rw [hdouble]
    exact carried_foreign _ _ _ token _ hlive
  · intro heq
    have hlen := congrArg (fun t => t.toList.length) heq
    simp at hlen
  · rw [hdouble]
    exact not_reencodes_foreign _ _ _ token _ hlive

theorem issued_token_reencodes :
    ∃ token, issue samplePrimitives (some sampleKeys) liveToken "a" [1, 2, 3] = .ok token ∧
      (splitChars '.' token.toList).length = 3 ∧ Reencodes token := by
  obtain ⟨token, hissue⟩ := issue_ok samplePrimitives sampleKeys liveToken "a" [1, 2, 3]
  obtain ⟨hlen, hiff, -⟩ := accepted_reencodes_iff samplePrimitives (some sampleKeys)
    ⟨2, fun _ => false⟩ token _ (live_verifies token hissue)
  exact ⟨token, hissue, hlen,
    hiff.mpr (canonical_issue samplePrimitives sampleKeys liveToken "a" [1, 2, 3] token hissue)⟩

end Iat

end DecentralizedIDP
