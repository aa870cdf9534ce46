import DecentralizedIDP.TokenAuthenticity

/-! A token read back by `verify_iat` and by the decoder of `authenticate`, and the audit
row that was written with it. -/
namespace DecentralizedIDP
open Foundations

/-- The system key verifies what it signs. -/
def SignsForItself (prim : Primitives) (keys : SystemKeys) : Prop :=
  ∀ coins message, prim.verify keys.publicKey message
    (prim.sign coins keys.privateKey message) = true

/-- The row names the DID, the `jti` and, in some order, the quorum of the payload. -/
structure RowAgrees (row : Entry ℚ) (payload : Json) : Prop where
  did : payload.get? "sub" = some (.str row.did)
  document : ∃ data jti, loads row.dataJson = some data ∧
    data.get? "token_jti" = some (.str jti) ∧ payload.get? "jti" = some (.str jti) ∧
    ∃ quorumNodes quorum : List ℤ,
      data.get? "quorum_nodes" = some (.arr (quorumNodes.map Json.int)) ∧
      payload.get? "quorum" = some (.arr (quorum.map Json.int)) ∧ quorum.Perm quorumNodes

section Row
variable (prim : Primitives) (keys : SystemKeys) (inp : TokenInputs) (did : String)
  (quorumNodes : List ℤ) (token : String)
  (hissue : Iat.issue prim (some keys) inp did quorumNodes = .ok token)
include hissue

theorem loads_successData : loads (dumpsSorted (successData quorumNodes token)) =
    some (.obj (sortMembers [("quorum_nodes", .arr (quorumNodes.map Json.int)),
      ("token_jti", .str inp.jti)])) := by
  have hjti := Iat.extractJti_issue prim keys inp did quorumNodes token hissue
  rw [successData, hjti]
  apply loads_dumpsSorted
  simp [Json.Valid, validElems_iff]

theorem rowAgrees_issue (repr : ℚ → String) (loggedAt : ℚ) (ledger : Ledger ℚ) :
    RowAgrees (Ledger.newEntry repr loggedAt "AUTH_SUCCESS" did (successData quorumNodes token)
      ledger) (.obj (sortMembers (Iat.payload inp did quorumNodes))) := by
  have hfield := Iat.payload_get? inp did quorumNodes
  have hkeys : (([("quorum_nodes", .arr (quorumNodes.map Json.int)),
      ("token_jti", .str inp.jti)] : List (String × Json)).map Prod.fst).Nodup := by
    simp only [List.map_cons, List.map_nil]
    decide
  constructor
  case did => exact hfield "sub" _ (by simp [Iat.payload, Ledger.newEntry])
  case document =>
    refine ⟨_, inp.jti, loads_successData prim keys inp did quorumNodes token hissue,
      get?_sortMembers _ _ _ hkeys (by simp), hfield "jti" _ (by simp [Iat.payload]), quorumNodes,
      quorumNodes.insertionSort (· ≤ ·), get?_sortMembers _ _ _ hkeys (by simp),
      hfield "quorum" _ (by simp [Iat.payload]), List.perm_insertionSort _ _⟩

end Row

/-- An issued token has three parts and reads back as its payload as long as it lives, to
both decoders alike; so the row of every success agrees with the token that it
returned. Its life is counted from `int` of the clock, which is the floor of it
from the epoch on. -/
theorem token_round_trip (prim : Primitives) (keys : SystemKeys)
    (hsign : SignsForItself prim keys) :
    (∀ (inp : TokenInputs) (did : String) (quorumNodes : List ℤ),
      ∃ token, Iat.issue prim (some keys) inp did quorumNodes = .ok token ∧
        (splitChars '.' token.toList).length = 3 ∧
        (∀ clock : Iat.VerifyInputs, Iat.verifyIat prim (some keys) clock token =
          if clock.now ≤ (truncate inp.now+iatTtlSeconds : ℤ) then
            some (.obj (sortMembers (Iat.payload inp did quorumNodes)))
          else none) ∧
        (0 ≤ inp.now → truncate inp.now = ⌊inp.now⌋) ∧
        Iat.extractJti token = .str inp.jti) ∧
    ∀ (inp : AuthInputs) (did challengeId signatureHex : String)
      (preCollected : Option (List PartialProof)) (s : System) (token : String),
      s.systemKeys = some keys →
      (authenticate prim inp did challengeId signatureHex preCollected s).1 =
        .ok (success token) →
      ∃ row payload,
        (authenticate prim inp did challengeId signatureHex preCollected s).2.ledger =
          s.ledger ++ [row] ∧
        row.entryType = "AUTH_SUCCESS" ∧ row.did = did ∧
        (∀ clock : Iat.VerifyInputs, Iat.verifyIat prim (some keys) clock token =
          if clock.now ≤ (truncate inp.token.now+iatTtlSeconds : ℤ) then some payload
          else none) ∧
        RowAgrees row payload := by
  constructor
  · intro inp did quorumNodes
    obtain ⟨token, htoken⟩ := Iat.issue_ok prim keys inp did quorumNodes
    refine ⟨token, htoken, ?_, ?_, truncate_eq_floor inp.now,
      Iat.extractJti_issue prim keys inp did quorumNodes token htoken⟩
    · rw [Iat.splitChars_issue prim keys inp did quorumNodes token htoken]
      rfl
    · intro clock
      exact Iat.verifyIat_issue_eq prim keys inp did quorumNodes token htoken clock (hsign _ _)
  · intro inp did challengeId signatureHex preCollected s token hkeys hsuccess
    obtain ⟨entry, pair, chosen, -, -, hpassed, hstate⟩ :=
      authenticate_success prim inp did challengeId signatureHex preCollected s token hsuccess
    -- what the call returned and logged is a token that it issued
    have hissued := hpassed.issued
    rw [hkeys] at hissued
    refine ⟨_, _, congrArg System.ledger hstate, rfl, rfl, ?_,
      rowAgrees_issue prim keys inp.token did _ token hissued prim.repr inp.loggedAt s.ledger⟩
    intro clock
    exact Iat.verifyIat_issue_eq prim keys inp.token did _ token hissued clock (hsign _ _)

theorem sampleKeys_sign : SignsForItself samplePrimitives sampleKeys :=
  fun coins message => SamplePrimitives.verifiesSigned [1] coins message

/-- A token issued half a second before the epoch still verifies at 60, one second longer
than the floor of its clock allows. -/
theorem early_token_outlives_floor :
    SignsForItself samplePrimitives sampleKeys ∧
    ∃ token, Iat.issue samplePrimitives (some sampleKeys) earlyToken "a" [1, 2, 3] = .ok token ∧
      ¬∀ clock : Iat.VerifyInputs,
        Iat.verifyIat samplePrimitives (some sampleKeys) clock token =
            some (.obj (sortMembers (Iat.payload earlyToken "a" [1, 2, 3]))) ↔
          clock.now ≤ (⌊earlyToken.now⌋+iatTtlSeconds : ℤ) := by
  obtain ⟨token, htoken⟩ := Iat.issue_ok samplePrimitives sampleKeys earlyToken "a" [1, 2, 3]
  refine ⟨sampleKeys_sign, token, htoken, fun hall => ?_⟩
  have hlive : (60 : ℚ) ≤ (truncate earlyToken.now+iatTtlSeconds : ℤ) := by
    rw [earlyToken_now.1, iatTtlSeconds]
    norm_num
  have hverifies := Iat.verifyIat_issue samplePrimitives sampleKeys earlyToken "a" [1, 2, 3] token
    htoken ⟨60, fun _ => false⟩ (sampleKeys_sign _ _) hlive
  have hfloor := (hall ⟨60, fun _ => false⟩).mp hverifies
  rw [earlyToken_now.2, iatTtlSeconds] at hfloor
  norm_num at hfloor

/-- Both halves: a token that was issued for a caller, and one that a session has returned. -/
theorem token_round_trip_early :
    (∃ token, Iat.issue samplePrimitives (some sampleKeys) earlyToken "a" [1, 2, 3] = .ok token ∧
      (splitChars '.' token.toList).length = 3 ∧ Iat.extractJti token = .str "jti") ∧
    ∃ row payload, row.entryType = "AUTH_SUCCESS" ∧ row.did = sampleDid [7] ∧
      RowAgrees row payload := by
  have hround := token_round_trip samplePrimitives sampleKeys sampleKeys_sign
  constructor
  · obtain ⟨token, htoken, hparts, -, -, hjti⟩ := hround.1 earlyToken "a" [1, 2, 3]
    exact ⟨token, htoken, hparts, hjti⟩
  · obtain ⟨token, hsuccess⟩ := challenged_succeeds [7] "pw" (zeroToken 32) (sampleDid [7]) ownIds
      ownIds_nodup (zeroToken 32) zeroToken_hash
    obtain ⟨row, payload, -, htype, hdid, -, hagrees⟩ := hround.2 (sampleAuth []) (sampleDid [7])
      "c" (sampleSignature [7] (zeroToken 32)) _ _ token
      (challenged_keys [7] "pw" (zeroToken 32) (sampleDid [7])) hsuccess
    exact ⟨row, payload, htype, hdid, hagrees⟩

end DecentralizedIDP
