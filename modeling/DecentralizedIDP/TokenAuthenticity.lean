import DecentralizedIDP.SampleRuns
import Mathlib.Data.Rat.Floor

/-! What a token that verifies stands for: a request of the run that passed every check,
if signatures verify only on what the system key has signed. -/
namespace DecentralizedIDP
open Foundations

/-! ## The use of the system key -/

section Request
variable (prim : Primitives) (inp : AuthInputs) (did challengeId signatureHex : String)
  (preCollected : Option (List PartialProof)) (s : System)

/-- The node ids with which a request calls `issue`, if it gets so far. -/
def issueCall : Option (List ℤ) :=
  match ChallengeManager.consume challengeId inp.consumedAt s.pending with
  | (none, _) => none
  | (some nonce, _) =>
    match s.ledger.getPublicKey did, fromhex signatureHex with
    | .ok (some publicKey), some signature =>
      if prim.verify publicKey (nonce ++ encode did) signature then
        (usedProofs did nonce (deliveredProofs prim inp preCollected s.nodes did nonce) s).map
          (fun chosen => chosen.map PartialProof.nodeId)
      else none
    | _, _ => none

/-- The request passes every check, and its search chooses these proofs. -/
def Issues (chosen : List PartialProof) : Prop :=
  ∃ entry pair token, s.pending challengeId = some entry ∧ inp.consumedAt ≤ entry.expiresAt ∧
    Passed prim inp did signatureHex
      (deliveredProofs prim inp preCollected s.nodes did entry.nonce) entry.nonce s pair chosen
      token

theorem issueCall_some (quorumNodes : List ℤ)
    (h : issueCall prim inp did challengeId signatureHex preCollected s = some quorumNodes) :
    ∃ entry publicKey signature chosen, s.pending challengeId = some entry ∧
      inp.consumedAt ≤ entry.expiresAt ∧ s.ledger.getPublicKey did = .ok (some publicKey) ∧
      fromhex signatureHex = some signature ∧
      prim.verify publicKey (entry.nonce ++ encode did) signature = true ∧
      usedProofs did entry.nonce
        (deliveredProofs prim inp preCollected s.nodes did entry.nonce) s = some chosen ∧
      quorumNodes = chosen.map PartialProof.nodeId := by
  rw [issueCall] at h
  cases hconsume : ChallengeManager.consume challengeId inp.consumedAt s.pending with
  | mk found pending =>
    rw [hconsume] at h
    cases found with
    | none => cases h
    | some nonce =>
      obtain ⟨entry, hentry, hlive, rfl⟩ := ChallengeManager.consume_some challengeId
        inp.consumedAt s.pending nonce (by rw [hconsume])
      dsimp only at h
      split at h
      · next publicKey signature hkey hsig =>
        -- a signature that does not verify ends the request before any proof is asked for
        split_ifs at h with hverify
        obtain ⟨chosen, hused, rfl⟩ := Option.map_eq_some_iff.mp h
        exact ⟨entry, publicKey, signature, chosen, hentry, hlive, hkey, hsig, hverify, hused, rfl⟩
      · cases h

/-- A call of `issue` comes after every check. -/
theorem issues_of_issueCall (keys : SystemKeys) (hkeys : s.systemKeys = some keys)
    (quorumNodes : List ℤ)
    (h : issueCall prim inp did challengeId signatureHex preCollected s = some quorumNodes) :
    ∃ chosen, Issues prim inp did challengeId signatureHex preCollected s chosen ∧
      quorumNodes = chosen.map PartialProof.nodeId := by
  obtain ⟨entry, publicKey, signature, chosen, hentry, hlive, hkey, hsig, hverify, hused, rfl⟩ :=
    issueCall_some prim inp did challengeId signatureHex preCollected s quorumNodes h
  obtain ⟨honest, pair, stored, hround, hpair, hstored, hchosen⟩ :=
    usedProofs_some did entry.nonce _ chosen s hused
  obtain ⟨token, htoken⟩ := Iat.issue_ok prim keys inp.token did
    (chosen.map PartialProof.nodeId)
  rw [← hkeys] at htoken
  exact ⟨chosen, ⟨entry, pair, token, hentry, hlive, ⟨publicKey, signature, hkey, hsig, hverify⟩,
    ⟨honest, hround⟩, hpair, ⟨stored, hstored, hchosen⟩, htoken⟩, rfl⟩

/-- A request that calls `issue` ends as the call does, and logs what it returns. -/
theorem authenticate_of_issueCall (quorumNodes : List ℤ)
    (h : issueCall prim inp did challengeId signatureHex preCollected s = some quorumNodes) :
    authenticate prim inp did challengeId signatureHex preCollected s =
      match Iat.issue prim s.systemKeys inp.token did quorumNodes with
      | .error e =>
        (.error e, { s with pending := ChallengeManager.remove challengeId s.pending })
      | .ok token =>
        logged prim inp "AUTH_SUCCESS" did (successData quorumNodes token) (success token)
          { s with pending := ChallengeManager.remove challengeId s.pending } := by
  obtain ⟨entry, publicKey, signature, chosen, hentry, hlive, hkey, hsig, hverify, hused, rfl⟩ :=
    issueCall_some prim inp did challengeId signatureHex preCollected s quorumNodes h
  obtain ⟨honest, pair, stored, hround, hpair, hstored, hchosen⟩ :=
    usedProofs_some did entry.nonce _ chosen s hused
  rw [authenticate, ChallengeManager.consume_live challengeId _ _ entry hentry hlive]
  cases hissue : Iat.issue prim s.systemKeys inp.token did (chosen.map PartialProof.nodeId) <;>
    simp only [checkRequest, hkey, hsig, hverify, Bool.not_true, Bool.false_eq_true, ↓reduceIte,
      decideProofs, hround, hstored, cleanProofs_of_majority _ honest pair hpair, hchosen, hissue]

/-- What makes a request call it. -/
theorem issueCall_of_checks (entry : Challenge) (publicKey signature : Bytes)
    (chosen : List PartialProof) (hentry : s.pending challengeId = some entry)
    (hlive : inp.consumedAt ≤ entry.expiresAt)
    (hkey : s.ledger.getPublicKey did = .ok (some publicKey))
    (hsig : fromhex signatureHex = some signature)
    (hverify : prim.verify publicKey (entry.nonce ++ encode did) signature = true)
    (hused : usedProofs did entry.nonce
      (deliveredProofs prim inp preCollected s.nodes did entry.nonce) s = some chosen) :
    issueCall prim inp did challengeId signatureHex preCollected s =
      some (chosen.map PartialProof.nodeId) := by
  rw [issueCall, ChallengeManager.consume_live challengeId _ _ entry hentry hlive, hkey, hsig]
  simp only [hverify, ↓reduceIte, hused, Option.map_some]

end Request

/-- The message that an operation signs with the system key. -/
def signedBy (prim : Primitives) (s : System) : Op → Option Bytes
  | .authenticate did challengeId signatureHex preCollected inp =>
    if s.systemKeys.isSome then
      (issueCall prim inp did challengeId signatureHex preCollected s).map (fun quorumNodes =>
        encode (String.ofList (Iat.signingInput prim inp.token did quorumNodes)))
    else none
  | _ => none

/-- The token is no forgery: the signature that it presents does not verify under the system key
unless the run has signed the message that it presents. -/
def Unforged (prim : Primitives) (aesKeys : ℕ → Token 32) (keys : SystemKeys) (ops : List Op)
    (token : String) : Prop :=
  ∀ message signature, Iat.presented token = some (message, signature) →
    prim.verify keys.publicKey message signature = true →
    ∃ m op, ops[m]? = some op ∧
      signedBy prim (stateAt prim aesKeys (some keys) ops m) op = some message

/-! ## Tokens that verify -/

/-- `int` cuts off what is behind the point, which is rounding down from the epoch on. -/
theorem truncate_eq_floor (t : ℚ) (ht : 0 ≤ t) : truncate t = ⌊t⌋ := by
  rw [truncate, Int.tdiv_eq_ediv_of_nonneg (Rat.num_nonneg.mpr ht), Rat.floor_def']

/-- A payload that verifies is that of a token issued in the run, for a request that
passed every check, and the token has not expired. -/
theorem token_authentic (prim : Primitives) (aesKeys : ℕ → Token 32) (keys : SystemKeys)
    (ops : List Op) (clock : Iat.VerifyInputs) (token : String)
    (hforge : Unforged prim aesKeys keys ops token) (payload : Json)
    (h : Iat.verifyIat prim (some keys) clock token = some payload) :
    ∃ (m : ℕ) (did challengeId signatureHex : String) (preCollected : Option (List PartialProof))
      (inp : AuthInputs) (chosen : List PartialProof),
      ops[m]? = some (.authenticate did challengeId signatureHex preCollected inp) ∧
      Issues prim inp did challengeId signatureHex preCollected
        (stateAt prim aesKeys (some keys) ops m) chosen ∧
      payload.get? "sub" = some (.str did) ∧
      payload.get? "quorum" = some (.arr
        (((chosen.map PartialProof.nodeId).insertionSort (· ≤ ·)).map Json.int)) ∧
      payload.get? "exp" = some (.int (truncate inp.token.now+iatTtlSeconds)) ∧
      (0 ≤ inp.token.now → truncate inp.token.now = ⌊inp.token.now⌋) ∧
      clock.now ≤ (truncate inp.token.now+iatTtlSeconds : ℤ) := by
  obtain ⟨headerB64, payloadB64, sig, hheader, -, hpresented, hverify, hload, hpast⟩ :=
    Iat.verifyIat_some prim keys clock token payload h
  obtain ⟨m, op, hop, hsigned⟩ := hforge _ sig hpresented hverify
  cases op with
  | authenticate did challengeId signatureHex preCollected inp =>
    rw [signedBy] at hsigned
    split_ifs at hsigned
    obtain ⟨quorumNodes, hcall, hmessage⟩ := Option.map_eq_some_iff.mp hsigned
    obtain ⟨chosen, hissues, rfl⟩ := issues_of_issueCall prim inp did challengeId signatureHex
      preCollected _ keys (systemKeys_run prim aesKeys (some keys) (ops.take m)) quorumNodes hcall
    -- what was signed is what is parsed
    have hpayload := Iat.payload_of_signed prim inp.token did (chosen.map PartialProof.nodeId)
      headerB64 payloadB64 hheader hmessage.symm
    rw [hload, Option.some.injEq] at hpayload
    subst hpayload
    have hfield := Iat.payload_get? inp.token did (chosen.map PartialProof.nodeId)
    rw [Iat.payload_exp, Option.some.injEq, decide_eq_false_iff_not, not_lt] at hpast
    exact ⟨m, did, challengeId, signatureHex, preCollected, inp, chosen, hop, hissues,
      hfield "sub" _ (by simp [Iat.payload]), hfield "quorum" _ (by simp [Iat.payload]),
      hfield "exp" _ (by simp [Iat.payload]), truncate_eq_floor _, hpast⟩
  | _ => cases hsigned

/-! ## A token issued before the epoch -/

/-- The clock stands half a second before the epoch. -/
def earlyToken : TokenInputs := ⟨-1/2, "jti", []⟩

def earlyAuth : AuthInputs :=
  { sampleAuth [] with consumedAt := -1/2, token := earlyToken, loggedAt := -1/2 }

def earlyMessage : Bytes :=
  encode (String.ofList (Iat.signingInput samplePrimitives earlyToken (sampleDid [7]) [1, 2, 3]))

def earlyCall : Op :=
  .authenticate (sampleDid [7]) "c" (sampleSignature [7] (zeroToken 32))
    (some (sampleAnswers [7] "pw" ownIds (zeroToken 32).val)) earlyAuth

def earlyOps : List Op := challengedOps [7] "pw" (zeroToken 32) (sampleDid [7]) ++ [earlyCall]

def earlyIssued : String :=
  String.ofList (Iat.signingInput samplePrimitives earlyToken (sampleDid [7]) [1, 2, 3] ++
    '.' :: Iat.b64urlEncode (samplePrimitives.sign [] sampleKeys.privateKey earlyMessage))

theorem early_issueCall : issueCall samplePrimitives earlyAuth (sampleDid [7]) "c"
    (sampleSignature [7] (zeroToken 32))
    (some (sampleAnswers [7] "pw" ownIds (zeroToken 32).val))
    (runOps samplePrimitives (fun _ => zeroToken 32) (some sampleKeys)
      (challengedOps [7] "pw" (zeroToken 32) (sampleDid [7]))) = some [1, 2, 3] := by
  have hpending : (runOps samplePrimitives (fun _ => zeroToken 32) (some sampleKeys)
      (challengedOps [7] "pw" (zeroToken 32) (sampleDid [7]))).pending "c" =
        some (sampleChallenge (zeroToken 32) (sampleDid [7])) := rfl
  have hrecorded : (cleanRegister [7]).Recorded samplePrimitives "pw"
      (runOps samplePrimitives (fun _ => zeroToken 32) (some sampleKeys)
        (challengedOps [7] "pw" (zeroToken 32) (sampleDid [7]))).ledger := by
    have hcompleted := cleanRegister_completes samplePrimitives [7] "pw" []
      [sampleIssue (zeroToken 32) (sampleDid [7])] (by simp [sampleIssue, Op.SparesDid])
    exact hcompleted.enrolled.recorded
  -- nothing else of the state matters for the checks
  generalize runOps samplePrimitives (fun _ => zeroToken 32) (some sampleKeys)
    (challengedOps [7] "pw" (zeroToken 32) (sampleDid [7])) = s at hpending hrecorded
  have hlive : earlyAuth.consumedAt ≤
      (sampleChallenge (zeroToken 32) (sampleDid [7])).expiresAt := by
    rw [sampleChallenge, challengeTtlSeconds, earlyAuth]
    norm_num
  have hkey : s.ledger.getPublicKey (sampleDid [7]) =
      .ok (some ((cleanRegister [7]).publicKey samplePrimitives)) :=
    (cleanRegister [7]).getPublicKey_recorded hrecorded SamplePrimitives.printsFloats
  have hsig : fromhex (sampleSignature [7] (zeroToken 32)) = some _ := fromhex_hex _
  have hverify : samplePrimitives.verify ((cleanRegister [7]).publicKey samplePrimitives)
      ((sampleChallenge (zeroToken 32) (sampleDid [7])).nonce.val ++ encode (sampleDid [7]))
      (samplePrimitives.sign [] (samplePrimitives.generateKeypair [7]).1
        ((zeroToken 32).val ++ encode (sampleDid [7]))) = true := by
    have hsample := SamplePrimitives.verifiesSigned [7] []
      ((zeroToken 32).val ++ encode (sampleDid [7]))
    exact hsample
  have hused : usedProofs (sampleDid [7])
      (sampleChallenge (zeroToken 32) (sampleDid [7])).nonce.val
      (sampleAnswers [7] "pw" ownIds (zeroToken 32).val) s = some _ :=
    usedProofs_honest hrecorded SamplePrimitives.printsFloats _ (zeroToken 32).val
      (sessionH_ne_zero _ zeroToken_hash) _ _ _ _
      (sampleAnswers_nodeId_nodup [7] "pw" ownIds ownIds_nodup (zeroToken 32).val)
      (sampleAnswers_x_nodup [7] "pw" ownIds (zeroToken 32).val)
      (sampleAnswers_honest [7] "pw" ownIds (zeroToken 32).val)
  rw [issueCall_of_checks samplePrimitives earlyAuth (sampleDid [7]) "c"
    (sampleSignature [7] (zeroToken 32)) (some (sampleAnswers [7] "pw" ownIds (zeroToken 32).val))
    s _ _ _ _ hpending hlive hkey hsig hverify hused]
  rfl

theorem early_unforged :
    Unforged samplePrimitives (fun _ => zeroToken 32) sampleKeys earlyOps earlyIssued := by
  intro message signature hpresented _
  have hissued := Iat.presented_issue samplePrimitives sampleKeys earlyToken (sampleDid [7])
    [1, 2, 3] earlyIssued rfl
  rw [hpresented, Option.some.injEq] at hissued
  have hmessage : message = earlyMessage := congrArg Prod.fst hissued
  have hkeys := systemKeys_run samplePrimitives (fun _ => zeroToken 32) (some sampleKeys)
    (challengedOps [7] "pw" (zeroToken 32) (sampleDid [7]))
  have hbefore : earlyOps.take 2 = challengedOps [7] "pw" (zeroToken 32) (sampleDid [7]) := rfl
  refine ⟨2, earlyCall, rfl, ?_⟩
  rw [stateAt, hbefore, earlyCall, signedBy, if_pos (by rw [hkeys]; rfl), early_issueCall, hmessage]
  rfl

/-- Cutting off goes up here, where rounding down would go to `-1`. -/
theorem earlyToken_now : truncate earlyToken.now = 0 ∧ ⌊earlyToken.now⌋ = -1 := by
  constructor
  · decide +kernel
  · rw [Rat.floor_def']
    decide +kernel

theorem early_verifies : Iat.verifyIat samplePrimitives (some sampleKeys) ⟨0, fun _ => false⟩
    earlyIssued = some (.obj (sortMembers (Iat.payload earlyToken (sampleDid [7]) [1, 2, 3]))) := by
  apply Iat.verifyIat_issue samplePrimitives sampleKeys earlyToken (sampleDid [7]) [1, 2, 3]
    earlyIssued rfl
  · exact SamplePrimitives.verifiesSigned sampleKeys.privateKey [] earlyMessage
  · rw [earlyToken_now.1, iatTtlSeconds]
    norm_num

/-- The token verifies, and its `exp` is not the clock of any call rounded down plus the
lifetime. -/
theorem early_exp_not_floor :
    Unforged samplePrimitives (fun _ => zeroToken 32) sampleKeys earlyOps earlyIssued ∧
    ∃ payload, Iat.verifyIat samplePrimitives (some sampleKeys) ⟨0, fun _ => false⟩ earlyIssued =
        some payload ∧
      ¬∃ (m : ℕ) (did challengeId signatureHex : String)
        (preCollected : Option (List PartialProof)) (inp : AuthInputs),
        earlyOps[m]? = some (.authenticate did challengeId signatureHex preCollected inp) ∧
        payload.get? "exp" = some (.int (⌊inp.token.now⌋+iatTtlSeconds)) := by
  refine ⟨early_unforged, _, early_verifies, ?_⟩
  rintro ⟨m, did, challengeId, signatureHex, preCollected, inp, hop, hexp⟩
  have hnow : inp.token.now = earlyToken.now := by
    match m, hop with
    | 2, hop =>
      cases hop
      rfl
  rw [Iat.payload_get? earlyToken (sampleDid [7]) [1, 2, 3] "exp" _ (by simp [Iat.payload]; rfl),
    hnow, earlyToken_now.2, earlyToken_now.1] at hexp
  cases hexp

theorem token_authentic_early :
    ∃ (m : ℕ) (did challengeId signatureHex : String) (preCollected : Option (List PartialProof))
      (inp : AuthInputs) (chosen : List PartialProof),
      earlyOps[m]? = some (.authenticate did challengeId signatureHex preCollected inp) ∧
      Issues samplePrimitives inp did challengeId signatureHex preCollected
        (stateAt samplePrimitives (fun _ => zeroToken 32) (some sampleKeys) earlyOps m) chosen := by
  obtain ⟨m, did, challengeId, signatureHex, preCollected, inp, chosen, hop, hissues, -⟩ :=
    token_authentic samplePrimitives (fun _ => zeroToken 32) sampleKeys earlyOps
      ⟨0, fun _ => false⟩ earlyIssued early_unforged _ early_verifies
  exact ⟨m, did, challengeId, signatureHex, preCollected, inp, chosen, hop, hissues⟩

end DecentralizedIDP
