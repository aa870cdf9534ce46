import DecentralizedIDP.SampleRuns

/-! What ties an authentication to a challenge: the id, the expiry and the signature,
but not the DID that the challenge was issued for. -/
namespace DecentralizedIDP
open Foundations

/-- A call that succeeds answers a challenge that was issued before, for this DID or for
another one, and has not expired, with a signature on its nonce and the caller's own
DID under the key that is registered for that DID. -/
theorem success_answers_challenge (prim : Primitives) (aesKeys : ℕ → Token 32)
    (systemKeys : Option SystemKeys) (ops : List Op) (m : ℕ) (did challengeId signatureHex : String)
    (preCollected : Option (List PartialProof)) (inp : AuthInputs) (token : String)
    (hsuccess : (authenticate prim inp did challengeId signatureHex preCollected
      (stateAt prim aesKeys systemKeys ops m)).1 = .ok (success token)) :
    ∃ c issuedFor challenge publicKey signature, c < m ∧
      ops[c]? = some (.issue issuedFor challenge) ∧ challenge.challengeId = challengeId ∧
      inp.consumedAt ≤ challenge.now+challengeTtlSeconds ∧
      (stateAt prim aesKeys systemKeys ops m).ledger.getPublicKey did = .ok (some publicKey) ∧
      fromhex signatureHex = some signature ∧
      prim.verify publicKey (challenge.nonce.val ++ encode did) signature = true := by
  obtain ⟨entry, pair, chosen, hentry, hlive, hpassed, -⟩ :=
    authenticate_success prim inp did challengeId signatureHex preCollected _ token hsuccess
  -- what is pending was issued; nothing compares the DID of the challenge with the caller's
  obtain ⟨c, op, hc, hissue, hcreated⟩ := (challenges prim).live_issued _ ops (fun _ => rfl) m
    challengeId entry hentry
  obtain ⟨challenge, rfl, hid, hnonce, hexpires⟩ := created_eq_some op challengeId entry hcreated
  obtain ⟨publicKey, signature, hkey, hsig, hverify⟩ := hpassed.signed
  exact ⟨c, entry.did, challenge, publicKey, signature, hc, hissue, hid, hexpires ▸ hlive, hkey,
    hsig, hnonce ▸ hverify⟩

theorem success_answers_challenge_sample : ∃ c issuedFor challenge publicKey signature, c < 2 ∧
    answeredOps[c]? = some (.issue issuedFor challenge) ∧ challenge.challengeId = "c" ∧
    (1 : ℚ) ≤ challenge.now+challengeTtlSeconds ∧
    (stateAt samplePrimitives (fun _ => zeroToken 32) (some sampleKeys) answeredOps
      2).ledger.getPublicKey (sampleDid [7]) = .ok (some publicKey) ∧
    fromhex (sampleSignature [7] (zeroToken 32)) = some signature ∧
    samplePrimitives.verify publicKey (challenge.nonce.val ++ encode (sampleDid [7]))
      signature = true := by
  obtain ⟨token, htoken⟩ := challenged_succeeds [7] "pw" (zeroToken 32) (sampleDid [7]) ownIds
    ownIds_nodup (zeroToken 32).val zeroToken_hash
  refine success_answers_challenge samplePrimitives (fun _ => zeroToken 32) (some sampleKeys)
    answeredOps 2 (sampleDid [7]) "c" (sampleSignature [7] (zeroToken 32))
    (some (sampleAnswers [7] "pw" ownIds (zeroToken 32).val)) (sampleAuth []) token ?_
  have hstate : stateAt samplePrimitives (fun _ => zeroToken 32) (some sampleKeys) answeredOps 2 =
      challenged [7] "pw" (zeroToken 32) (sampleDid [7]) := by
    rw [← challenged_eq, stateAt, answeredOps, challengedOps]
    rfl
  rw [hstate]
  exact htoken

/-- The only challenge of this run is issued for another DID, and yet it serves to
authenticate. -/
theorem foreign_challenge_succeeds :
    (∀ did inp, Op.issue did inp ∈ challengedOps [7] "pw" (zeroToken 32) "did:decidp:other" →
      did ≠ sampleDid [7]) ∧
    ∃ token, (authenticate samplePrimitives (sampleAuth []) (sampleDid [7]) "c"
      (sampleSignature [7] (zeroToken 32))
      (some (sampleAnswers [7] "pw" ownIds (zeroToken 32).val))
      (runOps samplePrimitives (fun _ => zeroToken 32) (some sampleKeys)
        (challengedOps [7] "pw" (zeroToken 32) "did:decidp:other"))).1 = .ok (success token) := by
  constructor
  · intro did inp hmem
    simp only [challengedOps, sampleIssue, List.mem_cons, reduceCtorEq, Op.issue.injEq,
      List.not_mem_nil, or_false, false_or] at hmem
    rw [hmem.1]
    decide +kernel
  · rw [challenged_eq]
    exact challenged_succeeds [7] "pw" (zeroToken 32) "did:decidp:other" ownIds ownIds_nodup
      (zeroToken 32).val zeroToken_hash

end DecentralizedIDP
