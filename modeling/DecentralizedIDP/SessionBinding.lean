import DecentralizedIDP.SampleRuns

/-! Whether the proofs behind a success belong to the session of the consumed nonce. The
vote only compares the proofs with each other, so it is their majority that decides. -/
namespace DecentralizedIDP
open Foundations

/-- The session's hash has the most votes among the proofs, and among those with this
hash the session's `H` has; of several values with as many votes the first one counts. -/
def SessionWins (nonce : Bytes) (proofs : List PartialProof) : Prop :=
  Wins (proofs.map (fun p => p.challengeHash)) (sessionHash nonce) ∧
  Wins ((proofs.filter (fun p => p.challengeHash == sessionHash nonce)).map (fun p => p.H))
    (sessionH nonce P)

theorem majorityPair_session (nonce : Bytes) (proofs : List PartialProof) :
    majorityPair proofs = some (sessionPair nonce) ↔ SessionWins nonce proofs :=
  majorityPair_eq_some_iff proofs (sessionPair nonce)

theorem carries_unique (pair pair' : String × ℤ) (proof : PartialProof)
    (h : carries pair proof = true) (h' : carries pair' proof = true) : pair = pair' := by
  rw [carries_iff] at h h'
  exact Prod.ext (h.1.symm.trans h'.1) (h.2.symm.trans h'.2)

/-- The proofs that pass belong to the session exactly when the session wins the vote. -/
theorem Passed.session_iff {prim : Primitives} {inp : AuthInputs} {did signatureHex : String}
    {proofs : List PartialProof} {nonce : Bytes} {s : System} {pair : String × ℤ}
    {chosen : List PartialProof} {token : String}
    (h : Passed prim inp did signatureHex proofs nonce s pair chosen token) :
    (∀ proof ∈ chosen, carries (sessionPair nonce) proof = true) ↔ SessionWins nonce proofs := by
  obtain ⟨stored, -, hchosen⟩ := h.opened
  obtain ⟨hsub, hlen, -⟩ := chooseSubset_some _ _ _ hchosen
  have hpair (proof : PartialProof) (hproof : proof ∈ chosen) : carries pair proof = true :=
    (List.mem_filter.mp (hsub.subset hproof)).2
  rw [← majorityPair_session, h.majority, Option.some.injEq]
  constructor
  · intro hsession
    -- a success uses some proof, and it carries the winning pair as well as the session's
    have hpos : 0 < chosen.length := hlen.symm ▸ (by decide : 0 < threshold)
    obtain ⟨proof, hproof⟩ := List.exists_mem_of_length_pos hpos
    exact carries_unique _ _ proof (hpair proof hproof) (hsession proof hproof)
  · rintro rfl
    exact hpair

/-- In a call that succeeds, the proofs used carry the hash and the `H` of the consumed
nonce exactly when these win the votes among all the proofs delivered. -/
theorem session_bound_iff (prim : Primitives) (inp : AuthInputs)
    (did challengeId signatureHex : String) (preCollected : Option (List PartialProof))
    (s : System) (token : String)
    (hsuccess : (authenticate prim inp did challengeId signatureHex preCollected s).1 =
      .ok (success token)) :
    ∃ entry proofs chosen, s.pending challengeId = some entry ∧
      deliveredProofs prim inp preCollected s.nodes did entry.nonce = proofs ∧
      usedProofs did entry.nonce proofs s = some chosen ∧
      ((∀ proof ∈ chosen, proof.challengeHash = sessionHash entry.nonce ∧
          proof.H = sessionH entry.nonce P) ↔
        SessionWins entry.nonce proofs) := by
  obtain ⟨entry, pair, chosen, hentry, -, hpassed, -⟩ :=
    authenticate_success prim inp did challengeId signatureHex preCollected s token hsuccess
  refine ⟨entry, _, chosen, hentry, rfl, hpassed.used, ?_⟩
  rw [← hpassed.session_iff]
  simp only [carries_iff, sessionPair]

def oneToken : Token 32 := ⟨List.replicate 32 1, List.length_replicate⟩

/-- The proofs of all five nodes, recorded in the session of another nonce, lead to a
success, although none of them carries the hash of the nonce that was consumed. -/
theorem recorded_session_succeeds :
    (∃ token, (authenticate samplePrimitives (sampleAuth []) (sampleDid [7]) "c"
      (sampleSignature [7] oneToken)
      (some (sampleAnswers [7] "pw" ownIds (zeroToken 32).val))
      (challenged [7] "pw" oneToken (sampleDid [7]))).1 = .ok (success token)) ∧
    ∀ proof ∈ sampleAnswers [7] "pw" ownIds (zeroToken 32).val,
      proof.challengeHash ≠ sessionHash oneToken.val := by
  refine ⟨challenged_succeeds [7] "pw" oneToken (sampleDid [7]) ownIds ownIds_nodup
    (zeroToken 32).val zeroToken_hash, ?_⟩
  intro proof hproof
  obtain ⟨k, -, rfl⟩ := List.mem_map.mp hproof
  have hdiffer : sessionHash (zeroToken 32).val ≠ sessionHash oneToken.val := by decide +kernel
  exact hdiffer

theorem session_bound_iff_sample : ∃ entry proofs chosen,
    (challenged [7] "pw" (zeroToken 32) (sampleDid [7])).pending "c" = some entry ∧
    deliveredProofs samplePrimitives (sampleAuth [])
      (some (sampleAnswers [7] "pw" ownIds (zeroToken 32).val))
      (challenged [7] "pw" (zeroToken 32) (sampleDid [7])).nodes (sampleDid [7]) entry.nonce =
        proofs ∧
    usedProofs (sampleDid [7]) entry.nonce proofs
      (challenged [7] "pw" (zeroToken 32) (sampleDid [7])) = some chosen ∧
    ((∀ proof ∈ chosen, proof.challengeHash = sessionHash entry.nonce ∧
        proof.H = sessionH entry.nonce P) ↔
      SessionWins entry.nonce proofs) := by
  obtain ⟨token, htoken⟩ := challenged_succeeds [7] "pw" (zeroToken 32) (sampleDid [7]) ownIds
    ownIds_nodup (zeroToken 32).val zeroToken_hash
  exact session_bound_iff samplePrimitives (sampleAuth []) (sampleDid [7]) "c" _ _ _ token htoken

end DecentralizedIDP
