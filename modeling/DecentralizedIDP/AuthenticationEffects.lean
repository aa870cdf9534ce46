import DecentralizedIDP.Authentication

/-! Everything an authentication can do to the shared state, and what its success
row stands for. -/
namespace DecentralizedIDP
open Foundations

/-! ## The subset search -/

theorem isText_iff (stored : Option Json) (text : String) :
    isText stored text = true ↔ stored = some (.str text) := by
  unfold isText
  split
  · rw [beq_iff_eq, Option.some.injEq, Json.str.injEq]
    exact eq_comm
  · next hno =>
    simp only [Bool.false_eq_true, false_iff]
    exact hno text

theorem opensCommitment_true (stored : Option Json) (subset : List PartialProof)
    (h : opensCommitment stored subset = .ok true) :
    ∃ S text, recoverSecretFromPartialProofs subset P = .ok S ∧ commitmentHash S = .ok text ∧
      stored = some (.str text) := by
  rw [opensCommitment] at h
  cases hS : recoverSecretFromPartialProofs subset P with
  | error e =>
    rw [hS] at h
    cases h
  | ok S =>
    cases htext : commitmentHash S with
    | error e =>
      simp only [hS, htext, bind, Except.bind] at h
      cases h
    | ok text =>
      simp only [hS, htext, bind, Except.bind, pure, Except.pure, Except.ok.injEq] at h
      exact ⟨S, text, rfl, htext, (isText_iff _ _).mp h⟩

/-- A chosen subset is a threshold of clean proofs that opens the commitment. -/
theorem chooseSubset_some (stored : Option Json) (clean chosen : List PartialProof)
    (h : chooseSubset stored clean = .ok (some chosen)) :
    chosen.Sublist clean ∧ chosen.length = threshold ∧
      opensCommitment stored chosen = .ok true := by
  -- the search stops at its first hit, which is one of the combinations
  obtain ⟨pre, post, hsplit, -, htest⟩ := (findFirst_eq_some _ _ _).mp h
  have hmem : chosen ∈ combinations threshold clean := by
    rw [hsplit]
    simp
  obtain ⟨hsub, hlen⟩ := (mem_combinations _ _ _).mp hmem
  exact ⟨hsub, hlen, htest⟩

theorem cleanProofs_of_majority (proofs honestProofs : List PartialProof) (pair : String × ℤ)
    (h : majorityPair proofs = some pair) :
    cleanProofs proofs honestProofs = proofs.filter (carries pair) := by
  rw [cleanProofs, h]

/-- A round that commits has seen proofs, so the vote over them has a winner. -/
theorem majorityPair_of_commit (id : String) (proofs honestProofs : List PartialProof)
    (h : runPbftRound id proofs = some honestProofs) : ∃ pair, majorityPair proofs = some pair := by
  cases hpair : majorityPair proofs with
  | some pair => exact ⟨pair, rfl⟩
  | none =>
    rw [(majorityPair_eq_none proofs).mp hpair, runPbftRound_of_few _ _ (by decide)] at h
    cases h

/-! ## What a call can do -/

/-- The checks that a call with this nonce has passed when it logs `AUTH_SUCCESS`. -/
structure Passed (prim : Primitives) (inp : AuthInputs) (did signatureHex : String)
    (proofs : List PartialProof) (nonce : Bytes) (s : System) (pair : String × ℤ)
    (chosen : List PartialProof) (token : String) : Prop where
  signed : ∃ publicKey signature, s.ledger.getPublicKey did = .ok (some publicKey) ∧
    fromhex signatureHex = some signature ∧
    prim.verify publicKey (nonce ++ encode did) signature = true
  committed : ∃ honestProofs, runPbftRound (roundId nonce did) proofs = some honestProofs
  majority : majorityPair proofs = some pair
  opened : ∃ stored, s.ledger.getCommitmentHash did = .ok stored ∧
    chooseSubset stored (proofs.filter (carries pair)) = .ok (some chosen)
  issued : Iat.issue prim s.systemKeys inp.token did (chosen.map PartialProof.nodeId) = .ok token

/-- The proofs that a call with this nonce uses in its reconstruction, once it gets as
far as finding some. -/
def usedProofs (did : String) (nonce : Bytes) (proofs : List PartialProof) (s : System) :
    Option (List PartialProof) :=
  match runPbftRound (roundId nonce did) proofs, s.ledger.getCommitmentHash did with
  | some honestProofs, .ok stored =>
    (chooseSubset stored (cleanProofs proofs honestProofs)).toOption.join
  | _, _ => none

theorem usedProofs_some (did : String) (nonce : Bytes) (proofs chosen : List PartialProof)
    (s : System) (h : usedProofs did nonce proofs s = some chosen) :
    ∃ honestProofs pair stored, runPbftRound (roundId nonce did) proofs = some honestProofs ∧
      majorityPair proofs = some pair ∧ s.ledger.getCommitmentHash did = .ok stored ∧
      chooseSubset stored (proofs.filter (carries pair)) = .ok (some chosen) := by
  rw [usedProofs] at h
  split at h
  · next honestProofs stored hround hstored =>
    obtain ⟨pair, hpair⟩ := majorityPair_of_commit _ _ _ hround
    rw [cleanProofs_of_majority proofs honestProofs pair hpair] at h
    cases hchosen : chooseSubset stored (proofs.filter (carries pair)) with
    | error e =>
      rw [hchosen] at h
      cases h
    | ok found =>
      rw [hchosen] at h
      cases found with
      | none => cases h
      | some first =>
        cases h
        exact ⟨honestProofs, pair, stored, hround, hpair, hstored, hchosen⟩
  · cases h

theorem Passed.used {prim : Primitives} {inp : AuthInputs} {did signatureHex : String}
    {proofs : List PartialProof} {nonce : Bytes} {s : System} {pair : String × ℤ}
    {chosen : List PartialProof} {token : String}
    (h : Passed prim inp did signatureHex proofs nonce s pair chosen token) :
    usedProofs did nonce proofs s = some chosen := by
  obtain ⟨honestProofs, hround⟩ := h.committed
  obtain ⟨stored, hstored, hchosen⟩ := h.opened
  rw [usedProofs, hround, hstored]
  simp only [cleanProofs_of_majority proofs honestProofs pair h.majority, hchosen]
  rfl

/-- The success row and result of a call. -/
def logSuccess (prim : Primitives) (inp : AuthInputs) (did : String) (chosen : List PartialProof)
    (token : String) (s : System) : Except PyError AuthResult × System :=
  logged prim inp "AUTH_SUCCESS" did (successData (chosen.map PartialProof.nodeId) token)
    (success token) s

section Cases
variable (prim : Primitives) (inp : AuthInputs)

theorem decideProofs_cases (did : String) (nonce : Bytes) (proofs : List PartialProof)
    (s : System) :
    (∃ e, decideProofs prim inp did nonce proofs s = (.error e, s)) ∨
    (∃ reason, decideProofs prim inp did nonce proofs s = reject prim inp did reason s) ∨
    (∃ honestProofs pair stored chosen token,
      runPbftRound (roundId nonce did) proofs = some honestProofs ∧
      majorityPair proofs = some pair ∧ s.ledger.getCommitmentHash did = .ok stored ∧
      chooseSubset stored (proofs.filter (carries pair)) = .ok (some chosen) ∧
      Iat.issue prim s.systemKeys inp.token did (chosen.map PartialProof.nodeId) = .ok token ∧
      decideProofs prim inp did nonce proofs s = logSuccess prim inp did chosen token s) := by
  -- the exits of the source in their order: no quorum, a ledger or search that raises, no
  -- subset that opens, no system keys, success
  rw [decideProofs]
  cases hround : runPbftRound (roundId nonce did) proofs with
  | none => exact Or.inr (Or.inl ⟨_, rfl⟩)
  | some honestProofs =>
    obtain ⟨pair, hpair⟩ := majorityPair_of_commit _ _ _ hround
    simp only [cleanProofs_of_majority proofs honestProofs pair hpair]
    cases hstored : s.ledger.getCommitmentHash did with
    | error e => exact Or.inl ⟨e, rfl⟩
    | ok stored =>
      simp only []
      cases hchosen : chooseSubset stored (proofs.filter (carries pair)) with
      | error e => exact Or.inl ⟨e, rfl⟩
      | ok found =>
        cases found with
        | none => exact Or.inr (Or.inl ⟨_, rfl⟩)
        | some chosen =>
          simp only []
          cases htoken : Iat.issue prim s.systemKeys inp.token did
              (chosen.map PartialProof.nodeId) with
          | error e => exact Or.inl ⟨e, rfl⟩
          | ok token =>
            exact Or.inr (Or.inr ⟨honestProofs, pair, stored, chosen, token, rfl, hpair, rfl,
              hchosen, htoken, rfl⟩)

theorem checkRequest_cases (did signatureHex : String) (preCollected : Option (List PartialProof))
    (nonce : Bytes) (s : System) :
    (∃ r, checkRequest prim inp did signatureHex preCollected nonce s = (r, s) ∧
      ∀ token, r ≠ .ok (success token)) ∨
    (∃ reason, checkRequest prim inp did signatureHex preCollected nonce s =
      reject prim inp did reason s) ∨
    (∃ pair chosen token, Passed prim inp did signatureHex
        (deliveredProofs prim inp preCollected s.nodes did nonce) nonce s pair chosen token ∧
      checkRequest prim inp did signatureHex preCollected nonce s =
        logSuccess prim inp did chosen token s) := by
  -- an unknown DID leaves no row, a bad signature leaves one, and from there the proofs decide
  rw [checkRequest]
  cases hkey : s.ledger.getPublicKey did with
  | error e => exact Or.inl ⟨_, rfl, by simp⟩
  | ok found =>
    cases found with
    | none => exact Or.inl ⟨_, rfl, by simp [fail, success]⟩
    | some publicKey =>
      simp only []
      cases hsig : fromhex signatureHex with
      | none => exact Or.inr (Or.inl ⟨_, rfl⟩)
      | some signature =>
        simp only []
        cases hverify : prim.verify publicKey (nonce ++ encode did) signature with
        | false => exact Or.inr (Or.inl ⟨_, rfl⟩)
        | true =>
          simp only [Bool.not_true, Bool.false_eq_true, ↓reduceIte]
          rcases decideProofs_cases prim inp did nonce
              (deliveredProofs prim inp preCollected s.nodes did nonce) s with
            ⟨e, h⟩ | ⟨reason, h⟩ | ⟨honest, pair, stored, chosen, token, hround, hpair, hstored,
              hchosen, htoken, h⟩
          · exact Or.inl ⟨_, h, by simp⟩
          · exact Or.inr (Or.inl ⟨reason, h⟩)
          · exact Or.inr (Or.inr ⟨pair, chosen, token,
              ⟨⟨publicKey, signature, hkey, hsig, hverify⟩, ⟨honest, hround⟩, hpair,
                ⟨stored, hstored, hchosen⟩, htoken⟩, h⟩)

/-- Everything one call can do: give up with no row, reject with an `AUTH_FAIL` row, or
pass every check and log its success. In each case the challenge is used up. -/
theorem authenticate_cases (did challengeId signatureHex : String)
    (preCollected : Option (List PartialProof)) (s : System) :
    (∃ r, authenticate prim inp did challengeId signatureHex preCollected s =
        (r, { s with pending := ChallengeManager.remove challengeId s.pending }) ∧
      ∀ token, r ≠ .ok (success token)) ∨
    (∃ reason, authenticate prim inp did challengeId signatureHex preCollected s =
      reject prim inp did reason
        { s with pending := ChallengeManager.remove challengeId s.pending }) ∨
    (∃ entry pair chosen token, s.pending challengeId = some entry ∧
      inp.consumedAt ≤ entry.expiresAt ∧
      Passed prim inp did signatureHex
        (deliveredProofs prim inp preCollected s.nodes did entry.nonce) entry.nonce s pair chosen
        token ∧
      authenticate prim inp did challengeId signatureHex preCollected s =
        logSuccess prim inp did chosen token
          { s with pending := ChallengeManager.remove challengeId s.pending }) := by
  have hpending := ChallengeManager.consume_pending challengeId inp.consumedAt s.pending
  -- every way on from here works on the state without the challenge
  rw [authenticate]
  cases hconsume : ChallengeManager.consume challengeId inp.consumedAt s.pending with
  | mk found pending =>
    rw [hconsume] at hpending
    dsimp only at hpending
    cases found with
    | none => exact Or.inl ⟨_, by rw [hpending], by simp [fail, success]⟩
    | some nonce =>
      -- the checks read the nodes, the ledger and the keys, which consuming left alone
      obtain ⟨entry, hentry, hlive, rfl⟩ := ChallengeManager.consume_some challengeId
        inp.consumedAt s.pending nonce (by rw [hconsume])
      simp only [hpending]
      rcases checkRequest_cases prim inp did signatureHex preCollected entry.nonce
          { s with pending := ChallengeManager.remove challengeId s.pending } with
        h | h | ⟨pair, chosen, token, hpassed, h⟩
      · exact Or.inl h
      · exact Or.inr (Or.inl h)
      · refine Or.inr (Or.inr ⟨entry, pair, chosen, token, hentry, hlive, ?_, h⟩)
        exact ⟨hpassed.signed, hpassed.committed, hpassed.majority, hpassed.opened,
          hpassed.issued⟩

/-- A log call appends its row, or fails and changes nothing. -/
theorem logged_cases (entryType did : String) (data : List (String × Json)) (result : AuthResult)
    (s : System) :
    (∃ r, logged prim inp entryType did data result s = (r, { s with ledger := s.ledger ++
        [Ledger.newEntry prim.repr inp.loggedAt entryType did data s.ledger] }) ∧
      (∀ a, r = .ok a → a = result)) ∨
    (∃ e, logged prim inp entryType did data result s = (.error e, s)) := by
  rw [logged, Ledger.append]
  cases inp.logWrite with
  | committed => exact Or.inl ⟨_, rfl, by simp⟩
  | rejected message => exact Or.inr ⟨_, rfl⟩
  | uncommitted message => exact Or.inl ⟨_, rfl, by simp⟩

/-- Once SQLite takes the row, the call returns what it was asked to. -/
theorem logged_committed (hwrite : inp.logWrite = .committed) (entryType did : String)
    (data : List (String × Json)) (result : AuthResult) (s : System) :
    logged prim inp entryType did data result s = (.ok result, { s with ledger := s.ledger ++
      [Ledger.newEntry prim.repr inp.loggedAt entryType did data s.ledger] }) := by
  rw [logged, Ledger.append, hwrite]
  rfl

/-- The row that a passing call appends. -/
def successRow (did : String) (chosen : List PartialProof) (token : String) (ledger : Ledger ℚ) :
    Entry ℚ :=
  Ledger.newEntry prim.repr inp.loggedAt "AUTH_SUCCESS" did
    (successData (chosen.map PartialProof.nodeId) token) ledger

/-- The state after a call: one challenge fewer, and at most one row more, which is
`AUTH_FAIL`, or `AUTH_SUCCESS` after every check has passed. -/
theorem authenticate_effect (did challengeId signatureHex : String)
    (preCollected : Option (List PartialProof)) (s : System) :
    ∃ rows, (authenticate prim inp did challengeId signatureHex preCollected s).2 =
        { s with pending := ChallengeManager.remove challengeId s.pending,
                 ledger := s.ledger ++ rows } ∧
      (rows = [] ∨
        (∃ data, rows = [Ledger.newEntry prim.repr inp.loggedAt "AUTH_FAIL" did data s.ledger]) ∨
        (∃ entry pair chosen token, rows = [successRow prim inp did chosen token s.ledger] ∧
          s.pending challengeId = some entry ∧ inp.consumedAt ≤ entry.expiresAt ∧
          Passed prim inp did signatureHex
            (deliveredProofs prim inp preCollected s.nodes did entry.nonce) entry.nonce s pair
            chosen token)) := by
  -- no row, a rejection, a success; and either row may fail to be written
  rcases authenticate_cases prim inp did challengeId signatureHex preCollected s with
    ⟨r, h, -⟩ | ⟨reason, h⟩ | ⟨entry, pair, chosen, token, hentry, hlive, hpassed, h⟩
  · exact ⟨[], by rw [h, List.append_nil], Or.inl rfl⟩
  · rw [h, reject]
    rcases logged_cases prim inp "AUTH_FAIL" did [("reason", .str reason)] (fail reason)
        { s with pending := ChallengeManager.remove challengeId s.pending } with
      ⟨r, hr, -⟩ | ⟨e, he⟩
    · exact ⟨_, by rw [hr], Or.inr (Or.inl ⟨_, rfl⟩)⟩
    · exact ⟨[], by rw [he, List.append_nil], Or.inl rfl⟩
  · rw [h, logSuccess]
    rcases logged_cases prim inp "AUTH_SUCCESS" did
        (successData (chosen.map PartialProof.nodeId) token) (success token)
        { s with pending := ChallengeManager.remove challengeId s.pending } with
      ⟨r, hr, -⟩ | ⟨e, he⟩
    · exact ⟨_, by rw [hr]; rfl, Or.inr (Or.inr ⟨entry, pair, chosen, token, rfl, hentry, hlive,
        hpassed⟩)⟩
    · exact ⟨[], by rw [he, List.append_nil], Or.inl rfl⟩

/-- A call that returns success has passed every check and appended its row. -/
theorem authenticate_success (did challengeId signatureHex : String)
    (preCollected : Option (List PartialProof)) (s : System) (token : String)
    (h : (authenticate prim inp did challengeId signatureHex preCollected s).1 =
      .ok (success token)) :
    ∃ entry pair chosen, s.pending challengeId = some entry ∧ inp.consumedAt ≤ entry.expiresAt ∧
      Passed prim inp did signatureHex
        (deliveredProofs prim inp preCollected s.nodes did entry.nonce) entry.nonce s pair chosen
        token ∧
      (authenticate prim inp did challengeId signatureHex preCollected s).2 =
        { s with pending := ChallengeManager.remove challengeId s.pending,
                 ledger := s.ledger ++ [successRow prim inp did chosen token s.ledger] } := by
  rcases authenticate_cases prim inp did challengeId signatureHex preCollected s with
    ⟨r, hr, hno⟩ | ⟨reason, hr⟩ | ⟨entry, pair, chosen, token', hentry, hlive, hpassed, hr⟩
  · rw [hr] at h
    exact absurd h (hno token)
  · -- a rejection returns `failed` when its row is written, and raises otherwise
    rw [hr, reject] at h
    rcases logged_cases prim inp "AUTH_FAIL" did [("reason", .str reason)] (fail reason)
        { s with pending := ChallengeManager.remove challengeId s.pending } with
      ⟨r, hlog, hres⟩ | ⟨e, hlog⟩
    · rw [hlog] at h
      have hsuccess := hres _ h
      simp [success, fail] at hsuccess
    · rw [hlog] at h
      cases h
  · rw [hr, logSuccess] at h ⊢
    rcases logged_cases prim inp "AUTH_SUCCESS" did
        (successData (chosen.map PartialProof.nodeId) token') (success token')
        { s with pending := ChallengeManager.remove challengeId s.pending } with
      ⟨r, hlog, hres⟩ | ⟨e, hlog⟩
    · rw [hlog] at h ⊢
      have hsuccess := hres _ h
      simp only [success, AuthResult.mk.injEq, Option.some.injEq, true_and, and_true] at hsuccess
      subst hsuccess
      exact ⟨entry, pair, chosen, hentry, hlive, hpassed, rfl⟩
    · rw [hlog] at h
      cases h

end Cases

end DecentralizedIDP
