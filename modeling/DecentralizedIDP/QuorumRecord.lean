import DecentralizedIDP.SampleRuns

/-! Whether the quorum recorded for a success is the set of nodes that confirmed it. The
record takes each `node_id` from the proof, and the search starts from all the
proofs again, not from those that the round kept. -/
namespace DecentralizedIDP
open Foundations

/-- A proof, with the node that returned it. -/
structure Response where
  responder : ℤ
  proof : PartialProof

/-- Each of the nodes contributes at most one response. -/
structure OneResponseEach (responses : List Response) : Prop where
  nodup : (responses.map Response.responder).Nodup
  nodes : ∀ r ∈ responses, ∃ k < nNodes, r.responder = ((k+1 : ℕ) : ℤ)

/-- The first threshold of these responses, in the order of the search, that opens the
commitment. -/
def FirstOpening (stored : Option Json) (clean used : List Response) : Prop :=
  ∃ pre post, combinations threshold clean = pre ++ used :: post ∧
    (∀ u ∈ pre, opensCommitment stored (u.map Response.proof) = .ok false) ∧
    opensCommitment stored (used.map Response.proof) = .ok true

/-- What a recorded quorum should be: a threshold of different ids, each that of the
node which returned the proof, and each proof kept and accepted by the round. -/
structure RealQuorum (round : String) (responses used : List Response) : Prop where
  size : used.length = threshold
  ids_nodup : (used.map (fun r => r.proof.nodeId)).Nodup
  own : ∀ r ∈ used, r.proof.nodeId = r.responder
  accepted : ∀ r ∈ used, r.proof ∈ pbftAccepted round (responses.map Response.proof)

/-- The response carries its responder's id, and its proof is the first with that id. -/
def Genuine (responses : List Response) (r : Response) : Prop :=
  r.proof.nodeId = r.responder ∧
    (responses.map Response.proof).find? (fun p => p.nodeId = r.proof.nodeId) = some r.proof

theorem OneResponseEach.length_le {responses : List Response} (h : OneResponseEach responses) :
    responses.length ≤ nNodes := by
  -- there are only as many responders as nodes
  have hsub : responses.map Response.responder ⊆
      (List.range nNodes).map (fun k => ((k+1 : ℕ) : ℤ)) := by
    intro id hid
    obtain ⟨r, hr, rfl⟩ := List.mem_map.mp hid
    obtain ⟨k, hk, heq⟩ := h.nodes r hr
    exact List.mem_map.mpr ⟨k, List.mem_range.mpr hk, heq.symm⟩
  calc responses.length
      = (responses.map Response.responder).length := (List.length_map _).symm
    _ ≤ ((List.range nNodes).map (fun k => ((k+1 : ℕ) : ℤ))).length :=
      (List.subperm_of_subset h.nodup hsub).length_le
    _ = nNodes := by rw [List.length_map, List.length_range]

/-- The search over the proofs is one over the responses. -/
theorem chooseSubset_responses (stored : Option Json) (clean : List Response)
    (chosen : List PartialProof)
    (h : chooseSubset stored (clean.map Response.proof) = .ok (some chosen)) :
    ∃ used, FirstOpening stored clean used ∧ used.map Response.proof = chosen := by
  -- a combination of the proofs is the image of one of the responses
  rw [chooseSubset, combinations_map, findFirst_map] at h
  cases hfind : findFirst (fun u => opensCommitment stored (u.map Response.proof))
      (combinations threshold clean) with
  | error e =>
    rw [hfind] at h
    cases h
  | ok found =>
    rw [hfind] at h
    cases found with
    | none => cases h
    | some used =>
      obtain ⟨pre, post, hsplit, hpre, hopen⟩ := (findFirst_eq_some _ _ _).mp hfind
      exact ⟨used, ⟨pre, post, hsplit, hpre, hopen⟩, Option.some.inj (Except.ok.inj h)⟩

theorem FirstOpening.sublist {stored : Option Json} {clean used : List Response}
    (h : FirstOpening stored clean used) : used.Sublist clean ∧ used.length = threshold := by
  obtain ⟨pre, post, hsplit, -⟩ := h
  apply (mem_combinations _ _ _).mp
  rw [hsplit]
  simp

section Quorum
variable {responses used : List Response} {pair : String × ℤ} {stored : Option Json}
  (hone : OneResponseEach responses)
  (hused : FirstOpening stored (responses.filter (fun r => carries pair r.proof)) used)
include hone hused

omit hone in
theorem FirstOpening.carried (r : Response) (hr : r ∈ used) : carries pair r.proof = true :=
  (List.mem_filter.mp (hused.sublist.1.subset hr)).2

/-- Genuine responses come under their responders' ids, so under different ones. -/
theorem genuine_ids (hgenuine : ∀ r ∈ used, Genuine responses r) :
    (used.map (fun r => r.proof.nodeId)).Nodup := by
  have hsub : used.Sublist responses := hused.sublist.1.trans List.filter_sublist
  rw [List.map_congr_left (fun r hr => (hgenuine r hr).1)]
  exact hone.nodup.sublist (hsub.map _)

omit hone hused in
theorem genuine_kept (hgenuine : ∀ r ∈ used, Genuine responses r) (r : Response) (hr : r ∈ used) :
    r.proof ∈ keepFirst PartialProof.nodeId (responses.map Response.proof) :=
  (mem_keepFirst _ _ _).mpr (hgenuine r hr).2

theorem genuine_count (hgenuine : ∀ r ∈ used, Genuine responses r) :
    3 ≤ (keepFirst PartialProof.nodeId (responses.map Response.proof)).countP (carries pair) := by
  have hproofs : (used.map Response.proof).Nodup := by
    have hids := genuine_ids hone hused hgenuine
    rw [← Function.comp_def PartialProof.nodeId, ← List.map_map] at hids
    exact List.Nodup.of_map _ hids
  have hincluded : used.map Response.proof ⊆
      (keepFirst PartialProof.nodeId (responses.map Response.proof)).filter (carries pair) := by
    intro proof hproof
    obtain ⟨r, hr, rfl⟩ := List.mem_map.mp hproof
    exact List.mem_filter.mpr ⟨genuine_kept hgenuine r hr, hused.carried r hr⟩
  have hle := (List.subperm_of_subset hproofs hincluded).length_le
  rw [List.length_map, hused.sublist.2, threshold] at hle
  rwa [List.countP_eq_length_filter]

/-- Three genuine responses with the winning pair are a majority of what the round keeps. -/
theorem realQuorum_of_genuine (round : String) (hgenuine : ∀ r ∈ used, Genuine responses r) :
    RealQuorum round responses used := by
  have hcount := genuine_count hone hused hgenuine
  -- at most five messages are kept, and three of them carry the pair: it wins their vote
  have hfew : (keepFirst PartialProof.nodeId (responses.map Response.proof)).length ≤ 5 := calc
    (keepFirst PartialProof.nodeId (responses.map Response.proof)).length
      ≤ (responses.map Response.proof).length := (keepFirst_sublist _ _).length_le
    _ = responses.length := List.length_map _
    _ ≤ 5 := hone.length_le
  have hmajority := majorityPair_of_majority _ pair (by omega :
    (keepFirst PartialProof.nodeId (responses.map Response.proof)).length < _)
  constructor
  case size => exact hused.sublist.2
  case ids_nodup => exact genuine_ids hone hused hgenuine
  case own => exact fun r hr => (hgenuine r hr).1
  case accepted =>
    intro r hr
    apply (mem_pbftAccepted _ _ _).mpr
    exact ⟨pair, hmajority, hcount, genuine_kept hgenuine r hr, hused.carried r hr⟩

theorem realQuorum_iff (round : String) :
    RealQuorum round responses used ↔ ∀ r ∈ used, Genuine responses r := by
  constructor
  · intro h r hr
    obtain ⟨-, -, -, hkept, -⟩ := (mem_pbftAccepted _ _ _).mp (h.accepted r hr)
    exact ⟨h.own r hr, (mem_keepFirst _ _ _).mp hkept⟩
  · exact realQuorum_of_genuine hone hused round

end Quorum

/-- In a call that succeeds, the quorum written to the ledger and to the token is a real
one exactly when the first threshold of responses with the winning pair that opens the
commitment are all genuine. -/
theorem recorded_quorum_iff (prim : Primitives) (inp : AuthInputs)
    (did challengeId signatureHex : String) (preCollected : Option (List PartialProof))
    (s : System) (token : String)
    (hsuccess : (authenticate prim inp did challengeId signatureHex preCollected s).1 =
      .ok (success token))
    (entry : Challenge) (hentry : s.pending challengeId = some entry)
    (responses : List Response) (hone : OneResponseEach responses)
    (hdelivered : deliveredProofs prim inp preCollected s.nodes did entry.nonce =
      responses.map Response.proof) :
    ∃ stored pair used, s.ledger.getCommitmentHash did = .ok stored ∧
      majorityPair (responses.map Response.proof) = some pair ∧
      FirstOpening stored (responses.filter (fun r => carries pair r.proof)) used ∧
      (authenticate prim inp did challengeId signatureHex preCollected s).2.ledger =
        s.ledger ++ [Ledger.newEntry prim.repr inp.loggedAt "AUTH_SUCCESS" did
          (successData (used.map (fun r => r.proof.nodeId)) token) s.ledger] ∧
      Iat.issue prim s.systemKeys inp.token did (used.map (fun r => r.proof.nodeId)) = .ok token ∧
      (RealQuorum (roundId entry.nonce did) responses used ↔ ∀ r ∈ used, Genuine responses r) := by
  obtain ⟨entry', pair, chosen, hentry', -, hpassed, hstate⟩ :=
    authenticate_success prim inp did challengeId signatureHex preCollected s token hsuccess
  rw [hentry, Option.some.injEq] at hentry'
  rw [← hentry', hdelivered] at hpassed
  obtain ⟨stored, hstored, hchosen⟩ := hpassed.opened
  rw [List.filter_map] at hchosen
  obtain ⟨used, hused, rfl⟩ := chooseSubset_responses stored _ chosen hchosen
  have hledger := congrArg System.ledger hstate
  have hissued := hpassed.issued
  rw [List.map_map] at hissued
  refine ⟨stored, pair, used, hstored, hpassed.majority, hused, ?_, hissued,
    realQuorum_iff hone hused _⟩
  rw [hledger, successRow, List.map_map]
  rfl

/-- The honest proofs of a sample session as the nodes returned them, under some ids. -/
def sampleResponses (ids : ℕ → ℤ) : List Response :=
  (List.range nNodes).map (fun k =>
    ⟨((k+1 : ℕ) : ℤ), { sampleAnswer [7] "pw" (zeroToken 32).val k with nodeId := ids k }⟩)

theorem sampleResponses_proofs (ids : ℕ → ℤ) : (sampleResponses ids).map Response.proof =
    sampleAnswers [7] "pw" ids (zeroToken 32).val := by
  rw [sampleResponses, List.map_map]
  rfl

theorem sampleResponses_each (ids : ℕ → ℤ) : OneResponseEach (sampleResponses ids) where
  nodup := by
    rw [sampleResponses, List.map_map]
    exact ownIds_nodup
  nodes := by
    intro r hr
    obtain ⟨k, hk, rfl⟩ := List.mem_map.mp hr
    exact ⟨k, List.mem_range.mp hk, rfl⟩

/-- The first node answers under an id that no node has. -/
def spoofedIds (k : ℕ) : ℤ := if k = 0 then 7 else ownIds k

theorem spoofed_id_recorded :
    OneResponseEach (sampleResponses spoofedIds) ∧
    (∀ r ∈ sampleResponses spoofedIds, r.responder ≠ 7) ∧
    ∃ token, (authenticate samplePrimitives (sampleAuth []) (sampleDid [7]) "c"
        (sampleSignature [7] (zeroToken 32))
        (some ((sampleResponses spoofedIds).map Response.proof))
        (challenged [7] "pw" (zeroToken 32) (sampleDid [7]))).1 = .ok (success token) ∧
      (authenticate samplePrimitives (sampleAuth []) (sampleDid [7]) "c"
        (sampleSignature [7] (zeroToken 32))
        (some ((sampleResponses spoofedIds).map Response.proof))
        (challenged [7] "pw" (zeroToken 32) (sampleDid [7]))).2.ledger =
          (challenged [7] "pw" (zeroToken 32) (sampleDid [7])).ledger ++
            [Ledger.newEntry samplePrimitives.repr 1 "AUTH_SUCCESS" (sampleDid [7])
              (successData [7,2,3] token)
              (challenged [7] "pw" (zeroToken 32) (sampleDid [7])).ledger] := by
  refine ⟨sampleResponses_each spoofedIds, ?_, ?_⟩
  · intro r hr
    obtain ⟨k, hk, rfl⟩ := List.mem_map.mp hr
    rw [List.mem_range, nNodes] at hk
    dsimp only
    omega
  · rw [sampleResponses_proofs]
    exact challenged_records [7] "pw" (zeroToken 32) (sampleDid [7]) spoofedIds (by decide)
      (zeroToken 32).val zeroToken_hash

theorem recorded_quorum_iff_sample : ∃ token stored pair used,
    Ledger.getCommitmentHash (sampleDid [7])
      (challenged [7] "pw" (zeroToken 32) (sampleDid [7])).ledger = .ok stored ∧
    majorityPair ((sampleResponses ownIds).map Response.proof) = some pair ∧
    FirstOpening stored ((sampleResponses ownIds).filter (fun r => carries pair r.proof)) used ∧
    (authenticate samplePrimitives (sampleAuth []) (sampleDid [7]) "c"
      (sampleSignature [7] (zeroToken 32)) (some ((sampleResponses ownIds).map Response.proof))
      (challenged [7] "pw" (zeroToken 32) (sampleDid [7]))).2.ledger =
        (challenged [7] "pw" (zeroToken 32) (sampleDid [7])).ledger ++
          [Ledger.newEntry samplePrimitives.repr (sampleAuth []).loggedAt "AUTH_SUCCESS"
            (sampleDid [7]) (successData (used.map (fun r => r.proof.nodeId)) token)
            (challenged [7] "pw" (zeroToken 32) (sampleDid [7])).ledger] ∧
    Iat.issue samplePrimitives (challenged [7] "pw" (zeroToken 32) (sampleDid [7])).systemKeys
      (sampleAuth []).token (sampleDid [7]) (used.map (fun r => r.proof.nodeId)) = .ok token ∧
    (RealQuorum (roundId (sampleChallenge (zeroToken 32) (sampleDid [7])).nonce (sampleDid [7]))
        (sampleResponses ownIds) used ↔ ∀ r ∈ used, Genuine (sampleResponses ownIds) r) := by
  obtain ⟨token, htoken⟩ := challenged_succeeds [7] "pw" (zeroToken 32) (sampleDid [7]) ownIds
    ownIds_nodup (zeroToken 32).val zeroToken_hash
  rw [← sampleResponses_proofs] at htoken
  exact ⟨token, recorded_quorum_iff samplePrimitives (sampleAuth []) (sampleDid [7]) "c" _ _ _ token
    htoken (sampleChallenge (zeroToken 32) (sampleDid [7])) (challenged_pending _ _ _ _)
    (sampleResponses ownIds) (sampleResponses_each ownIds) rfl⟩

end DecentralizedIDP
