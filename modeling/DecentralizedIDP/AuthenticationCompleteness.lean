import DecentralizedIDP.SystemRuns

/-! When an authentication of an enrolled DID succeeds: what the vote and the subset
search need of the proofs that are delivered. -/
namespace DecentralizedIDP
open Foundations

/-! ## The proofs of honest nodes -/

/-- The pair every honest proof of a session carries. -/
def sessionPair (nonce : Bytes) : String × ℤ := (sessionHash nonce, sessionH nonce P)

theorem sessionH_ne_zero (nonce : Bytes) (h : fromBytes (sha3_256 nonce) % P ≠ 0) :
    (sessionH nonce P : ZMod P) ≠ 0 := by
  rw [sessionH_eq, cast_mod, ne_eq, ← mod_eq_zero_iff]
  omega

/-- A proof made from the share with index `i` of an enrolment, in the session of `nonce`. -/
structure HonestProof (prim : Primitives) (inp : RegisterInputs) (password : String)
    (nonce : Bytes) (i : ℕ) (proof : PartialProof) : Prop where
  index : i ≤ nNodes
  x_eq : proof.x = i
  carried : carries (sessionPair nonce) proof = true
  value : (proof.partialValue : ZMod P) =
    ((inp.yValue prim password i : ℤ) : ZMod P)*(sessionH nonce P : ZMod P)

theorem carries_iff (pair : String × ℤ) (proof : PartialProof) :
    carries pair proof = true ↔ proof.challengeHash = pair.1 ∧ proof.H = pair.2 := by
  rw [carries, Bool.and_eq_true, beq_iff_eq, beq_iff_eq]

theorem honestProof_compute (prim : Primitives) (inp : RegisterInputs) (password : String)
    (nonce : Bytes) (i : ℕ) (hi : i ≤ nNodes) (nodeId : ℤ) :
    HonestProof prim inp password nonce i
      (computePartialProof ((i : ℤ), inp.yValue prim password i) nonce nodeId P) where
  index := hi
  x_eq := rfl
  carried := (carries_iff _ _).mpr ⟨rfl, rfl⟩
  value := by
    rw [computePartialProof, cast_mod, Int.cast_mul]

/-- A threshold of honest proofs with different indices opens the commitment. -/
theorem opensCommitment_honest (prim : Primitives) (inp : RegisterInputs) (password : String)
    (nonce : Bytes) (hH : (sessionH nonce P : ZMod P) ≠ 0) (subset : List PartialProof)
    (hlen : subset.length = threshold)
    (hx : (subset.map (fun proof => (proof.x : ZMod P))).Nodup)
    (hhonest : ∀ proof ∈ subset, ∃ i, HonestProof prim inp password nonce i proof) :
    opensCommitment (some (.str (inp.commitment prim password))) subset = .ok true := by
  have hrange := inp.secret_range prim password
  have hrecover : recoverSecretFromPartialProofs subset P = .ok (inp.secret prim password) := by
    apply recover_honest P (inp.secret prim password) (sessionH nonce P)
      (List.ofFn (fun k => ((inp.draws k).val : ℤ)+1)) subset (by omega) hlen.ge _ hx hH
    · intro proof hproof
      obtain ⟨i, hi⟩ := hhonest proof hproof
      exact ((carries_iff _ _).mp hi.carried).2
    -- the value of an honest proof is the polynomial at its index, times `H`
    · intro proof hproof
      obtain ⟨i, hi⟩ := hhonest proof hproof
      rw [hi.value, hi.x_eq, Int.cast_natCast, inp.yValue_cast]
      rfl
    · rw [List.length_ofFn, hlen]
      decide
  rw [opensCommitment, hrecover]
  simp only [bind, Except.bind, inp.commitmentHash_eq prim password, pure, Except.pure]
  rw [(isText_iff _ _).mpr rfl]

/-- Recovery from proofs with incongruent `x` never raises. -/
theorem opensCommitment_returns (stored : Option Json) (subset : List PartialProof)
    (hlen : subset.length = threshold)
    (hx : (subset.map (fun proof => (proof.x : ZMod P))).Nodup) :
    ∃ b, opensCommitment stored subset = .ok b := by
  obtain ⟨v, hv, h0, hlt⟩ := recover_ok P subset hlen.ge hx
  -- what is recovered is a residue, and residues have a commitment
  refine ⟨isText stored (sha3Hex (toBytes 32 v.toNat)), ?_⟩
  rw [opensCommitment, hv]
  simp only [bind, Except.bind, commitmentHash_ok v h0 hlt, pure, Except.pure]

/-- Proofs with congruent `x` in one subset raise. -/
theorem opensCommitment_raises (stored : Option Json) (subset : List PartialProof)
    (hlen : subset.length = threshold)
    (hx : ¬(subset.map (fun proof => (proof.x : ZMod P))).Nodup) :
    opensCommitment stored subset =
      .error (.valueError "Cannot compute modular inverse of 0") := by
  rw [opensCommitment, recover_error P subset hlen.ge hx]
  rfl

/-- The search succeeds when no two `x` are congruent and some subset opens. -/
theorem chooseSubset_of_hit (stored : Option Json) (clean : List PartialProof)
    (hx : (clean.map (fun proof => (proof.x : ZMod P))).Nodup)
    (hit : ∃ subset, subset.Sublist clean ∧ subset.length = threshold ∧
      opensCommitment stored subset = .ok true) :
    ∃ chosen, chooseSubset stored clean = .ok (some chosen) := by
  -- no combination raises, so the search comes as far as the one that opens
  apply findFirst_of_hit
  · intro subset hsubset
    obtain ⟨hsub, hlen⟩ := (mem_combinations _ _ _).mp hsubset
    exact opensCommitment_returns stored subset hlen (hx.sublist (hsub.map _))
  · obtain ⟨subset, hsub, hlen, hopen⟩ := hit
    exact ⟨subset, (mem_combinations _ _ _).mpr ⟨hsub, hlen⟩, hopen⟩

/-- Proofs with different ids that all carry one pair commit, and agree on that pair. -/
theorem round_of_carried (id : String) (proofs : List PartialProof) (pair : String × ℤ)
    (hids : (proofs.map PartialProof.nodeId).Nodup)
    (hcarried : ∀ proof ∈ proofs, carries pair proof = true) (hlen : threshold ≤ proofs.length) :
    majorityPair proofs = some pair ∧ ∃ accepted, runPbftRound id proofs = some accepted := by
  -- no proof is dropped as a duplicate, and all of them vote for the pair
  have hcount : proofs.countP (carries pair) = proofs.length := List.countP_eq_length.mpr hcarried
  rw [threshold] at hlen
  have hpair : majorityPair proofs = some pair := by
    apply majorityPair_of_majority
    omega
  refine ⟨hpair, runPbftRound_of_quorum id proofs pair ?_ ?_⟩
  · rwa [keepFirst_of_nodup _ _ hids]
  · rwa [keepFirst_of_nodup _ _ hids, hcount]

/-! ## From the search to the result -/

/-- The end of a call whose search came to `found`. -/
def settleSearch (prim : Primitives) (inp : AuthInputs) (did : String)
    (found : Except PyError (Option (List PartialProof))) (s : System) :
    Except PyError AuthResult × System :=
  match found with
  | .error e => (.error e, s)
  | .ok none => reject prim inp did "commitment_mismatch" s
  | .ok (some chosen) =>
    match Iat.issue prim s.systemKeys inp.token did (chosen.map PartialProof.nodeId) with
    | .error e => (.error e, s)
    | .ok token => logSuccess prim inp did chosen token s

section Request
variable {prim : Primitives} {reg : RegisterInputs} {password : String} {s : System}
  (hrecorded : reg.Recorded prim password s.ledger) (hrepr : prim.PrintsFloats)
include hrecorded hrepr

theorem decideProofs_eq (inp : AuthInputs) (nonce : Bytes) (proofs honestProofs : List PartialProof)
    (pair : String × ℤ)
    (hround : runPbftRound (roundId nonce (reg.did prim)) proofs = some honestProofs)
    (hpair : majorityPair proofs = some pair) :
    decideProofs prim inp (reg.did prim) nonce proofs s =
      settleSearch prim inp (reg.did prim) (chooseSubset
        (some (.str (reg.commitment prim password))) (proofs.filter (carries pair))) s := by
  have hclean := cleanProofs_of_majority proofs honestProofs pair hpair
  simp only [decideProofs, hround, reg.getCommitmentHash_recorded hrecorded hrepr]
  exact hclean ▸ rfl

/-- A search that finds a subset ends in success. -/
theorem decideProofs_success (inp : AuthInputs) (nonce : Bytes)
    (proofs honestProofs chosen : List PartialProof) (pair : String × ℤ) (keys : SystemKeys)
    (hkeys : s.systemKeys = some keys) (hwrite : inp.logWrite = .committed)
    (hround : runPbftRound (roundId nonce (reg.did prim)) proofs = some honestProofs)
    (hpair : majorityPair proofs = some pair)
    (hchosen : chooseSubset (some (.str (reg.commitment prim password)))
      (proofs.filter (carries pair)) = .ok (some chosen)) :
    ∃ token, (decideProofs prim inp (reg.did prim) nonce proofs s).1 = .ok (success token) := by
  rw [decideProofs_eq hrecorded hrepr inp nonce proofs honestProofs pair hround hpair, hchosen]
  obtain ⟨token, htoken⟩ := Iat.issue_ok prim keys inp.token (reg.did prim)
    (chosen.map PartialProof.nodeId)
  refine ⟨token, ?_⟩
  simp only [settleSearch, hkeys, htoken, logSuccess, logged_committed prim inp hwrite]

/-- Proofs under different ids and indices that carry the pair of one session, whichever
it is, succeed when a threshold of them is honest. -/
theorem decideProofs_carried (inp : AuthInputs) (nonce session : Bytes)
    (hH : (sessionH session P : ZMod P) ≠ 0) (proofs honest : List PartialProof)
    (hids : (proofs.map PartialProof.nodeId).Nodup)
    (hxs : (proofs.map (fun proof => (proof.x : ZMod P))).Nodup)
    (hcarried : ∀ proof ∈ proofs, carries (sessionPair session) proof = true)
    (hsub : honest.Sublist proofs) (hlen : threshold ≤ honest.length)
    (hhonest : ∀ proof ∈ honest, ∃ i, HonestProof prim reg password session i proof)
    (keys : SystemKeys) (hkeys : s.systemKeys = some keys) (hwrite : inp.logWrite = .committed) :
    ∃ token, (decideProofs prim inp (reg.did prim) nonce proofs s).1 = .ok (success token) := by
  obtain ⟨hpair, accepted, hround⟩ := round_of_carried (roundId nonce (reg.did prim)) proofs
    (sessionPair session) hids hcarried (hlen.trans hsub.length_le)
  -- the first threshold of honest proofs is a subset that opens
  have hfirst : (honest.take threshold).length = threshold := by
    rw [List.length_take]
    omega
  have hsub' := (List.take_sublist threshold honest).trans hsub
  obtain ⟨chosen, hchosen⟩ := chooseSubset_of_hit (some (.str (reg.commitment prim password)))
    proofs hxs ⟨honest.take threshold, hsub', hfirst,
      opensCommitment_honest prim reg password session hH _ hfirst (hxs.sublist (hsub'.map _))
        (fun proof hproof => hhonest proof (List.mem_of_mem_take hproof))⟩
  apply decideProofs_success hrecorded hrepr inp nonce proofs accepted chosen
    (sessionPair session) keys hkeys hwrite hround hpair
  rwa [List.filter_eq_self.mpr hcarried]

/-- Of honest proofs the first three are used. -/
theorem usedProofs_honest (nonce session : Bytes) (hH : (sessionH session P : ZMod P) ≠ 0)
    (a b c : PartialProof) (rest : List PartialProof)
    (hids : ((a :: b :: c :: rest).map PartialProof.nodeId).Nodup)
    (hxs : ((a :: b :: c :: rest).map (fun proof => (proof.x : ZMod P))).Nodup)
    (hhonest : ∀ proof ∈ a :: b :: c :: rest, ∃ i, HonestProof prim reg password session i proof) :
    usedProofs (reg.did prim) nonce (a :: b :: c :: rest) s = some [a, b, c] := by
  have hcarried : ∀ proof ∈ a :: b :: c :: rest, carries (sessionPair session) proof = true := by
    intro proof hproof
    obtain ⟨i, hi⟩ := hhonest proof hproof
    exact hi.carried
  obtain ⟨hpair, accepted, hround⟩ := round_of_carried (roundId nonce (reg.did prim)) _
    (sessionPair session) hids hcarried (by simp [threshold])
  have hsub : [a, b, c].Sublist (a :: b :: c :: rest) :=
    (((List.nil_sublist rest).cons_cons c).cons_cons b).cons_cons a
  have hopen := opensCommitment_honest prim reg password session hH [a, b, c] rfl
    (hxs.sublist (hsub.map _)) (fun proof hproof => hhonest proof (hsub.subset hproof))
  -- it is the first subset that the search tries
  obtain ⟨more, hrow⟩ := combinations_three_row a b (c :: rest)
  have hchosen : chooseSubset (some (.str (reg.commitment prim password)))
      (a :: b :: c :: rest) = .ok (some [a, b, c]) := by
    refine (findFirst_eq_some _ _ _).mpr
      ⟨[], rest.map (fun d => [a, b, d]) ++ more, ?_, by simp, hopen⟩
    rw [threshold, hrow]
    rfl
  rw [usedProofs, hround, reg.getCommitmentHash_recorded hrecorded hrepr]
  simp only [cleanProofs_of_majority _ accepted _ hpair, List.filter_eq_self.mpr hcarried, hchosen]
  rfl

omit hrepr hrecorded in
theorem decideProofs_few (inp : AuthInputs) (did : String) (nonce : Bytes)
    (proofs : List PartialProof) (hwrite : inp.logWrite = .committed)
    (hfew : proofs.length < threshold) :
    (decideProofs prim inp did nonce proofs s).1 = .ok (fail "quorum_not_reached") := by
  rw [decideProofs, runPbftRound_of_few _ _ hfew]
  rw [reject, logged_committed prim inp hwrite]

/-- A live challenge and a signature that verifies under the registered key take the
call to its proofs. -/
theorem authenticate_eq_decide (inp : AuthInputs) (challengeId signatureHex : String)
    (preCollected : Option (List PartialProof)) (entry : Challenge) (signature : Bytes)
    (hentry : s.pending challengeId = some entry) (hlive : inp.consumedAt ≤ entry.expiresAt)
    (hsig : fromhex signatureHex = some signature)
    (hverify : prim.verify (reg.publicKey prim) (entry.nonce.val ++ encode (reg.did prim))
      signature = true) :
    authenticate prim inp (reg.did prim) challengeId signatureHex preCollected s =
      decideProofs prim inp (reg.did prim) entry.nonce
        (deliveredProofs prim inp preCollected s.nodes (reg.did prim) entry.nonce)
        { s with pending := ChallengeManager.remove challengeId s.pending } := by
  have hkey := reg.getPublicKey_recorded hrecorded hrepr
  rw [authenticate, ChallengeManager.consume_live challengeId _ _ entry hentry hlive]
  simp only [checkRequest, hkey, hsig, hverify, Bool.not_true, Bool.false_eq_true, ↓reduceIte]

end Request

end DecentralizedIDP
