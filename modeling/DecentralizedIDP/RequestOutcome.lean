import DecentralizedIDP.LedgerRuns

/-! What an authentication request comes to: it is refused before any proof counts, or
the vote and the subset search decide it. -/
namespace DecentralizedIDP
open Foundations

/-! ## The checks before the proofs -/

/-- The request answers a live challenge with a signature that verifies under the
registered key. -/
structure Admitted (prim : Primitives) (inp : AuthInputs) (did challengeId signatureHex : String)
    (s : System) (entry : Challenge) : Prop where
  pending : s.pending challengeId = some entry
  live : inp.consumedAt ≤ entry.expiresAt
  signed : ∃ publicKey signature, s.ledger.getPublicKey did = .ok (some publicKey) ∧
    fromhex signatureHex = some signature ∧
    prim.verify publicKey (entry.nonce ++ encode did) signature = true

section Request
variable (prim : Primitives) (inp : AuthInputs) (did challengeId signatureHex : String) (s : System)

theorem authenticate_admitted (preCollected : Option (List PartialProof)) (entry : Challenge)
    (h : Admitted prim inp did challengeId signatureHex s entry) :
    authenticate prim inp did challengeId signatureHex preCollected s =
      decideProofs prim inp did entry.nonce
        (deliveredProofs prim inp preCollected s.nodes did entry.nonce)
        { s with pending := ChallengeManager.remove challengeId s.pending } := by
  obtain ⟨publicKey, signature, hkey, hsig, hverify⟩ := h.signed
  rw [authenticate, ChallengeManager.consume_live challengeId _ _ entry h.pending h.live]
  simp only [checkRequest, hkey, hsig, hverify, Bool.not_true, Bool.false_eq_true, ↓reduceIte]

/-- A request that is not admitted is refused, whatever the proofs are. -/
theorem authenticate_refused (hrepr : prim.PrintsFloats) (hrows : RowsRecorded prim s.ledger)
    (h : ∀ entry, ¬Admitted prim inp did challengeId signatureHex s entry) :
    (∀ preCollected, authenticate prim inp did challengeId signatureHex preCollected s =
      (.ok (fail "challenge_expired_or_invalid"),
        { s with pending := ChallengeManager.remove challengeId s.pending })) ∨
    (∀ preCollected, authenticate prim inp did challengeId signatureHex preCollected s =
      (.ok (fail "did_not_found"),
        { s with pending := ChallengeManager.remove challengeId s.pending })) ∨
    (∀ preCollected, authenticate prim inp did challengeId signatureHex preCollected s =
      reject prim inp did "invalid_signature"
        { s with pending := ChallengeManager.remove challengeId s.pending }) := by
  have hpending := ChallengeManager.consume_pending challengeId inp.consumedAt s.pending
  cases hconsume : ChallengeManager.consume challengeId inp.consumedAt s.pending with
  | mk found pending =>
    rw [hconsume] at hpending
    dsimp only at hpending
    cases found with
    | none =>
      refine Or.inl (fun preCollected => ?_)
      rw [authenticate, hconsume, hpending]
    | some nonce =>
      obtain ⟨entry, hentry, hlive, rfl⟩ := ChallengeManager.consume_some challengeId
        inp.consumedAt s.pending nonce (by rw [hconsume])
      rcases recorded_cases prim s.ledger hrows did with hnothing | ⟨reg, password, rfl, hreg⟩
      · refine Or.inr (Or.inl (fun preCollected => ?_))
        rw [authenticate, hconsume, hpending]
        simp only [checkRequest, hnothing.publicKey]
      · have hkey := reg.getPublicKey_recorded hreg hrepr
        refine Or.inr (Or.inr (fun preCollected => ?_))
        rw [authenticate, hconsume, hpending]
        cases hsig : fromhex signatureHex with
        | none => simp only [checkRequest, hkey, hsig]
        | some signature =>
          cases hverify : prim.verify (reg.publicKey prim)
              (entry.nonce ++ encode (reg.did prim)) signature with
          | true => exact absurd ⟨hentry, hlive, _, _, hkey, hsig, hverify⟩ (h entry)
          | false =>
            simp only [checkRequest, hkey, hsig, hverify, Bool.not_false, ↓reduceIte]

/-- An admitted request is about a DID with a recorded registration. -/
theorem Admitted.recorded {prim inp did challengeId signatureHex s} {entry : Challenge}
    (h : Admitted prim inp did challengeId signatureHex s entry)
    (hrows : RowsRecorded prim s.ledger) :
    ∃ reg password, RegisterInputs.did prim reg = did ∧
      reg.Recorded prim password s.ledger := by
  obtain ⟨publicKey, signature, hkey, -⟩ := h.signed
  rcases recorded_cases prim s.ledger hrows did with hnothing | hrecorded
  · rw [hnothing.publicKey] at hkey
    cases hkey
  · exact hrecorded

end Request

/-! ## The search that raises -/

/-- A threshold of clean proofs with two congruent `x` stands before every threshold of
them that opens the commitment. -/
def Stalls (stored : Option Json) (clean : List PartialProof) : Prop :=
  ∃ pre subset post, combinations threshold clean = pre ++ subset :: post ∧
    (∀ other ∈ pre, opensCommitment stored other ≠ .ok true) ∧
    ¬(subset.map (fun proof => (proof.x : ZMod P))).Nodup

theorem chooseSubset_raises_iff (stored : Option Json) (clean : List PartialProof) :
    (∃ e, chooseSubset stored clean = .error e) ↔ Stalls stored clean := by
  rw [chooseSubset, findFirst_raises_iff]
  have hraises (subset : List PartialProof) (hmem : subset ∈ combinations threshold clean) :
      (∃ e, opensCommitment stored subset = .error e) ↔
        ¬(subset.map (fun proof => (proof.x : ZMod P))).Nodup := by
    have hlen := ((mem_combinations _ _ _).mp hmem).2
    constructor
    · rintro ⟨e, he⟩ hx
      obtain ⟨b, hb⟩ := opensCommitment_returns stored subset hlen hx
      rw [hb] at he
      cases he
    · intro hx
      exact ⟨_, opensCommitment_raises stored subset hlen hx⟩
  constructor
  · rintro ⟨pre, subset, post, hsplit, hpre, he⟩
    exact ⟨pre, subset, post, hsplit, hpre, (hraises subset (by simp [hsplit])).mp he⟩
  · rintro ⟨pre, subset, post, hsplit, hpre, hx⟩
    exact ⟨pre, subset, post, hsplit, hpre, (hraises subset (by simp [hsplit])).mpr hx⟩

/-! ## The vote and the search -/

section Decide
variable {prim : Primitives} {reg : RegisterInputs} {password : String} {s : System}
  (inp : AuthInputs) (nonce : Bytes) (proofs : List PartialProof)

theorem decideProofs_noQuorum (did : String) (hlen : proofs.length ≤ nNodes)
    (h : ∀ pair, ¬HasQuorum proofs pair) :
    decideProofs prim inp did nonce proofs s = reject prim inp did "quorum_not_reached" s := by
  have hround : runPbftRound (roundId nonce did) proofs = none := by
    apply Option.eq_none_iff_forall_ne_some.mpr
    intro accepted hround
    obtain ⟨pair, hpair⟩ :=
      (runPbftRound_isSome_iff (roundId nonce did) proofs hlen).mp ⟨accepted, hround⟩
    exact h pair hpair
  rw [decideProofs, hround]

theorem decideProofs_quorum (hrecorded : reg.Recorded prim password s.ledger)
    (hrepr : prim.PrintsFloats) (hlen : proofs.length ≤ nNodes) (pair : String × ℤ)
    (hpair : HasQuorum proofs pair) :
    decideProofs prim inp (reg.did prim) nonce proofs s =
      settleSearch prim inp (reg.did prim) (chooseSubset
        (some (.str (reg.commitment prim password))) (proofs.filter (carries pair))) s := by
  obtain ⟨accepted, hround⟩ := (runPbftRound_isSome_iff (roundId nonce (reg.did prim)) proofs
    hlen).mpr ⟨pair, hpair⟩
  exact decideProofs_eq hrecorded hrepr inp nonce proofs accepted pair hround
    (majorityPair_of_quorum proofs hlen pair hpair)

end Decide

end DecentralizedIDP
