import DecentralizedIDP.ByzantineAnswer
import DecentralizedIDP.RequestOutcome

/-! The trace that an authentication leaves: every attempt that gets as far as its
signature ends with one audit row, unless the subset search raises. -/
namespace DecentralizedIDP
open Foundations

/-- The rows that belong to a result. -/
inductive AuditRows (did : String) : AuthResult → Ledger ℚ → Prop where
  | success (token : String) (row : Entry ℚ) (htype : row.entryType = "AUTH_SUCCESS")
      (hdid : row.did = did) : AuditRows did (success token) [row]
  | failed (reason : String) (row : Entry ℚ)
      (hreason : reason ∈ ["invalid_signature", "quorum_not_reached", "commitment_mismatch"])
      (htype : row.entryType = "AUTH_FAIL") (hdid : row.did = did)
      (hdata : row.dataJson = dumpsSorted [("reason", .str reason)]) :
      AuditRows did (fail reason) [row]
  | refused (reason : String)
      (hreason : reason ∈ ["challenge_expired_or_invalid", "did_not_found"]) :
      AuditRows did (fail reason) []

/-- The call returns; besides using up its challenge it only appends the rows that
belong to its result. -/
def Audited (did challengeId : String) (s : System)
    (outcome : Except PyError AuthResult × System) : Prop :=
  ∃ result rows, outcome.1 = .ok result ∧
    (∀ other, other ≠ challengeId → outcome.2.pending other = s.pending other) ∧
    outcome.2.nodes = s.nodes ∧ outcome.2.ledger = s.ledger ++ rows ∧ AuditRows did result rows

/-- An admitted request with a quorum whose search meets congruent `x` before it finds
an opening. -/
def SearchStalls (prim : Primitives) (inp : AuthInputs) (did challengeId signatureHex : String)
    (preCollected : Option (List PartialProof)) (s : System) : Prop :=
  ∃ entry stored pair, Admitted prim inp did challengeId signatureHex s entry ∧
    s.ledger.getCommitmentHash did = .ok stored ∧
    HasQuorum (deliveredProofs prim inp preCollected s.nodes did entry.nonce) pair ∧
    Stalls stored
      ((deliveredProofs prim inp preCollected s.nodes did entry.nonce).filter (carries pair))

section Outcome
variable (prim : Primitives) (inp : AuthInputs) (did challengeId : String) (s : System)

theorem audited_refused (reason : String)
    (hreason : reason ∈ ["challenge_expired_or_invalid", "did_not_found"]) :
    Audited did challengeId s
      (.ok (fail reason), { s with pending := ChallengeManager.remove challengeId s.pending }) :=
  ⟨fail reason, [], rfl, fun _ hother => if_neg hother, rfl, (List.append_nil _).symm,
    .refused reason hreason⟩

theorem audited_reject (hwrite : inp.logWrite = .committed) (reason : String)
    (hreason : reason ∈ ["invalid_signature", "quorum_not_reached", "commitment_mismatch"]) :
    Audited did challengeId s (reject prim inp did reason
      { s with pending := ChallengeManager.remove challengeId s.pending }) := by
  rw [reject, logged_committed prim inp hwrite]
  exact ⟨fail reason, _, rfl, fun _ hother => if_neg hother, rfl, rfl,
    .failed reason _ hreason rfl rfl rfl⟩

theorem audited_success (hwrite : inp.logWrite = .committed) (data : List (String × Json))
    (token : String) :
    Audited did challengeId s (logged prim inp "AUTH_SUCCESS" did data (success token)
      { s with pending := ChallengeManager.remove challengeId s.pending }) := by
  rw [logged_committed prim inp hwrite]
  exact ⟨success token, _, rfl, fun _ hother => if_neg hother, rfl, rfl,
    .success token _ rfl rfl⟩

theorem not_audited_raised (e : PyError) (s' : System) :
    ¬Audited did challengeId s (.error e, s') := by
  rintro ⟨result, rows, hresult, -⟩
  cases hresult

end Outcome

/-- There is one pair with a quorum, so it is its search that stalls. -/
theorem stalls_iff_raises (stored : Option Json) (proofs : List PartialProof)
    (hlen : proofs.length ≤ nNodes) (pair : String × ℤ) (hpair : HasQuorum proofs pair) :
    (∃ other, HasQuorum proofs other ∧ Stalls stored (proofs.filter (carries other))) ↔
      ∃ e, chooseSubset stored (proofs.filter (carries pair)) = .error e := by
  rw [chooseSubset_raises_iff]
  constructor
  · rintro ⟨other, hother, hstalls⟩
    have hunique : other = pair :=
      Option.some.inj ((majorityPair_of_quorum proofs hlen other hother).symm.trans
        (majorityPair_of_quorum proofs hlen pair hpair))
    rwa [hunique] at hstalls
  · intro hstalls
    exact ⟨pair, hpair, hstalls⟩

section Decide
variable (prim : Primitives) (hrepr : prim.PrintsFloats) (inp : AuthInputs)
  (hwrite : inp.logWrite = .committed)
include hrepr hwrite

/-- What the vote and the search leave is audited, unless the search raises. -/
theorem audited_decide_iff (reg : RegisterInputs) (password challengeId : String) (s : System)
    (hrecorded : reg.Recorded prim password s.ledger) (keys : SystemKeys)
    (hkeys : s.systemKeys = some keys) (nonce : Bytes) (proofs : List PartialProof)
    (hlen : proofs.length ≤ nNodes) :
    Audited (reg.did prim) challengeId s (decideProofs prim inp (reg.did prim) nonce proofs
        { s with pending := ChallengeManager.remove challengeId s.pending }) ↔
      ¬∃ pair, HasQuorum proofs pair ∧
        Stalls (some (.str (reg.commitment prim password))) (proofs.filter (carries pair)) := by
  by_cases hquorum : ∃ pair, HasQuorum proofs pair
  · obtain ⟨pair, hpair⟩ := hquorum
    rw [stalls_iff_raises _ proofs hlen pair hpair, decideProofs_quorum inp nonce proofs
      (s := { s with pending := ChallengeManager.remove challengeId s.pending })
      hrecorded hrepr hlen pair hpair]
    cases chooseSubset (some (.str (reg.commitment prim password)))
        (proofs.filter (carries pair)) with
    | error e => exact iff_of_false (not_audited_raised _ _ s e _) (fun hno => hno ⟨e, rfl⟩)
    | ok found =>
      -- a search that returns ends in one row, whatever it found
      refine iff_of_true ?_ (by simp)
      cases found with
      | none => exact audited_reject prim inp _ _ s hwrite _ (by decide)
      | some chosen =>
        obtain ⟨token, htoken⟩ := Iat.issue_ok prim keys inp.token (reg.did prim)
          (chosen.map PartialProof.nodeId)
        rw [← hkeys] at htoken
        simp only [settleSearch, htoken]
        exact audited_success prim inp _ _ s hwrite _ token
  · rw [decideProofs_noQuorum inp nonce proofs (reg.did prim) hlen (not_exists.mp hquorum)]
    refine iff_of_true (audited_reject prim inp _ _ s hwrite _ (by decide)) ?_
    rintro ⟨pair, hpair, -⟩
    exact hquorum ⟨pair, hpair⟩

/-- A call on a reachable state is audited exactly when its search does not stall. -/
theorem audited_iff (aesKeys : ℕ → Token 32) (keys : SystemKeys) (ops : List Op)
    (did challengeId signatureHex : String) (preCollected : Option (List PartialProof))
    (hlen : ∀ nonce, (deliveredProofs prim inp preCollected
      (runOps prim aesKeys (some keys) ops).nodes did nonce).length ≤ nNodes) :
    Audited did challengeId (runOps prim aesKeys (some keys) ops)
        (authenticate prim inp did challengeId signatureHex preCollected
          (runOps prim aesKeys (some keys) ops)) ↔
      ¬SearchStalls prim inp did challengeId signatureHex preCollected
        (runOps prim aesKeys (some keys) ops) := by
  have hrows := (ledger_run prim aesKeys (some keys) ops).2
  have hkeys := systemKeys_run prim aesKeys (some keys) ops
  generalize runOps prim aesKeys (some keys) ops = s at hlen hrows hkeys
  by_cases hadmitted : ∃ entry, Admitted prim inp did challengeId signatureHex s entry
  · obtain ⟨entry, hentry⟩ := hadmitted
    obtain ⟨reg, password, rfl, hrecorded⟩ := hentry.recorded hrows
    have hstored := reg.getCommitmentHash_recorded hrecorded hrepr
    rw [authenticate_admitted prim inp _ challengeId signatureHex s preCollected entry hentry,
      audited_decide_iff prim hrepr inp hwrite reg password challengeId s hrecorded keys hkeys
        entry.nonce _ (hlen entry.nonce), not_iff_not]
    constructor
    · rintro ⟨pair, hpair, hstalls⟩
      exact ⟨entry, _, pair, hentry, hstored, hpair, hstalls⟩
    · rintro ⟨other, stored, pair, hother, hstored', hpair, hstalls⟩
      -- one challenge is pending under the id, and one commitment is stored
      obtain rfl : other = entry := Option.some.inj (hother.pending.symm.trans hentry.pending)
      obtain rfl := Except.ok.inj (hstored.symm.trans hstored')
      exact ⟨pair, hpair, hstalls⟩
  · have hno : ¬SearchStalls prim inp did challengeId signatureHex preCollected s := by
      rintro ⟨entry, stored, pair, hentry, -⟩
      exact hadmitted ⟨entry, hentry⟩
    refine iff_of_true ?_ hno
    rcases authenticate_refused prim inp did challengeId signatureHex s hrepr hrows
      (not_exists.mp hadmitted) with h | h | h
    · rw [h preCollected]
      exact audited_refused did challengeId s _ (by decide)
    · rw [h preCollected]
      exact audited_refused did challengeId s _ (by decide)
    · rw [h preCollected]
      exact audited_reject prim inp did challengeId s hwrite _ (by decide)

end Decide

theorem audited_iff_sample :
    Audited (sampleDid [7]) "c" (runOps samplePrimitives (fun _ => zeroToken 32) (some sampleKeys)
        (challengedOps [7] "pw" (zeroToken 32) (sampleDid [7])))
      (authenticate samplePrimitives (sampleAuth []) (sampleDid [7]) "c"
        (sampleSignature [7] (zeroToken 32))
        (some (sampleAnswers [7] "pw" ownIds (zeroToken 32).val))
        (runOps samplePrimitives (fun _ => zeroToken 32) (some sampleKeys)
          (challengedOps [7] "pw" (zeroToken 32) (sampleDid [7])))) ↔
      ¬SearchStalls samplePrimitives (sampleAuth []) (sampleDid [7]) "c"
        (sampleSignature [7] (zeroToken 32))
        (some (sampleAnswers [7] "pw" ownIds (zeroToken 32).val))
        (runOps samplePrimitives (fun _ => zeroToken 32) (some sampleKeys)
          (challengedOps [7] "pw" (zeroToken 32) (sampleDid [7]))) := by
  apply audited_iff samplePrimitives SamplePrimitives.printsFloats (sampleAuth []) rfl
  intro nonce
  rw [deliveredProofs, sampleAnswers, List.length_map, List.length_range]

/-- Where the ledger accepts rows, a call that raises has used up its challenge and left
nothing else. -/
theorem raised_without_row (prim : Primitives) (inp : AuthInputs)
    (did challengeId signatureHex : String) (preCollected : Option (List PartialProof))
    (s : System) (hwrite : inp.logWrite = .committed) (e : PyError)
    (h : (authenticate prim inp did challengeId signatureHex preCollected s).1 = .error e) :
    (authenticate prim inp did challengeId signatureHex preCollected s).2 =
      { s with pending := ChallengeManager.remove challengeId s.pending } := by
  rcases authenticate_cases prim inp did challengeId signatureHex preCollected s with
    ⟨r, hr, -⟩ | ⟨reason, hr⟩ | ⟨entry, pair, chosen, token, -, -, -, hr⟩
  · rw [hr]
  · rw [hr, reject, logged_committed prim inp hwrite] at h
    cases h
  · rw [hr, logSuccess, logged_committed prim inp hwrite] at h
    cases h

/-- The index of one node sent by another makes the call raise, and no row is written. -/
theorem copied_index_unaudited :
    ([0,1,2,3,4].map (copiedIndex [7] "pw" (zeroToken 32).val)).length ≤ nNodes ∧
      ¬Audited (sampleDid [7]) "c" (challenged [7] "pw" (zeroToken 32) (sampleDid [7]))
        (authenticate samplePrimitives (sampleAuth []) (sampleDid [7]) "c"
          (sampleSignature [7] (zeroToken 32))
          (some ([0,1,2,3,4].map (copiedIndex [7] "pw" (zeroToken 32).val)))
          (challenged [7] "pw" (zeroToken 32) (sampleDid [7]))) ∧
      (authenticate samplePrimitives (sampleAuth []) (sampleDid [7]) "c"
        (sampleSignature [7] (zeroToken 32))
        (some ([0,1,2,3,4].map (copiedIndex [7] "pw" (zeroToken 32).val)))
        (challenged [7] "pw" (zeroToken 32) (sampleDid [7]))).2 =
          { challenged [7] "pw" (zeroToken 32) (sampleDid [7]) with
            pending := ChallengeManager.remove "c"
              (challenged [7] "pw" (zeroToken 32) (sampleDid [7])).pending } := by
  have hraised := (copiedIndex_call [7] "pw" (zeroToken 32) zeroToken_hash [0,1,2,3,4]
    (by decide)).1 (copiedIndex_harmful _ _ _ _)
  refine ⟨by decide, ?_, raised_without_row _ _ _ _ _ _ _ rfl _ hraised⟩
  rintro ⟨result, rows, hresult, -⟩
  rw [hraised] at hresult
  cases hresult

end DecentralizedIDP
