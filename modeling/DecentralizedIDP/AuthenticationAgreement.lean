import DecentralizedIDP.SampleRuns

/-! Agreement between the success rows of the ledger and the challenges issued: every
success is backed by a challenge of its own, a signature and a reconstruction, whatever
proofs and clock readings the calls were given. -/
namespace DecentralizedIDP
open Foundations

/-! ## What one success row stands for -/

/-- The events and values behind a success row. -/
structure Backing where
  issuedAt : ℕ
  calledAt : ℕ
  issuedFor : String
  challenge : ChallengeInputs
  signatureHex : String
  preCollected : Option (List PartialProof)
  inp : AuthInputs
  register : Entry ℚ
  data : Json
  publicKey : Bytes
  signature : Bytes
  pair : String × ℤ
  chosen : List PartialProof
  secret : ℤ
  commitment : String

section Runs
variable (prim : Primitives) (aesKeys : ℕ → Token 32) (systemKeys : Option SystemKeys)
  (ops : List Op)

/-- What `b` must satisfy to back the `k`-th row of the final ledger. -/
structure Backs (b : Backing) (k : ℕ) (row : Entry ℚ) : Prop where
  issued : ops[b.issuedAt]? = some (.issue b.issuedFor b.challenge)
  called : ops[b.calledAt]? = some (.authenticate row.did b.challenge.challengeId b.signatureHex
    b.preCollected b.inp)
  earlier : b.issuedAt < b.calledAt
  before : (stateAt prim aesKeys systemKeys ops b.calledAt).ledger =
    (runOps prim aesKeys systemKeys ops).ledger.take k
  after : (stateAt prim aesKeys systemKeys ops (b.calledAt+1)).ledger =
    (runOps prim aesKeys systemKeys ops).ledger.take k ++ [row]
  redeemed : uses (stateAt prim aesKeys systemKeys ops b.calledAt)
    (.authenticate row.did b.challenge.challengeId b.signatureHex b.preCollected b.inp)
    b.challenge.challengeId
  unexpired : b.inp.consumedAt ≤ b.challenge.now+challengeTtlSeconds
  registered : Ledger.latestRegister row.did
    ((runOps prim aesKeys systemKeys ops).ledger.take k) = some b.register
  decoded : loads b.register.dataJson = some b.data
  key : (Ledger.subscript b.data "public_key" >>= Ledger.bytesFromhex) = .ok b.publicKey
  signed : fromhex b.signatureHex = some b.signature ∧
    prim.verify b.publicKey (b.challenge.nonce.val ++ encode row.did) b.signature = true
  delivered : b.chosen.Sublist (deliveredProofs prim b.inp b.preCollected
    (stateAt prim aesKeys systemKeys ops b.calledAt).nodes row.did b.challenge.nonce)
  quorum : b.chosen.length = threshold
  oneSession : ∀ proof ∈ b.chosen, carries b.pair proof = true
  reconstructed : recoverSecretFromPartialProofs b.chosen P = .ok b.secret ∧
    commitmentHash b.secret = .ok b.commitment
  committed : Ledger.subscript b.data "commitment_hash" = .ok (.str b.commitment)

/-! ## One step -/

variable {prim aesKeys systemKeys ops}

/-- The newest registration that a passing call has read. -/
theorem Passed.registration {inp : AuthInputs} {did signatureHex : String}
    {proofs : List PartialProof} {nonce : Bytes} {s : System} {pair : String × ℤ}
    {chosen : List PartialProof} {token : String}
    (h : Passed prim inp did signatureHex proofs nonce s pair chosen token) :
    ∃ register data publicKey signature secret commitment,
      Ledger.latestRegister did s.ledger = some register ∧ loads register.dataJson = some data ∧
      (Ledger.subscript data "public_key" >>= Ledger.bytesFromhex) = .ok publicKey ∧
      (fromhex signatureHex = some signature ∧
        prim.verify publicKey (nonce ++ encode did) signature = true) ∧
      chosen.Sublist proofs ∧ chosen.length = threshold ∧
      (∀ proof ∈ chosen, carries pair proof = true) ∧
      (recoverSecretFromPartialProofs chosen P = .ok secret ∧
        commitmentHash secret = .ok commitment) ∧
      Ledger.subscript data "commitment_hash" = .ok (.str commitment) := by
  obtain ⟨publicKey, signature, hkey, hsig, hverify⟩ := h.signed
  obtain ⟨stored, hstored, hchosen⟩ := h.opened
  obtain ⟨hsub, hlen, hopen⟩ := chooseSubset_some _ _ _ hchosen
  obtain ⟨secret, commitment, hsecret, hcommitment, rfl⟩ := opensCommitment_true _ _ hopen
  obtain ⟨register, data, v, hregister, hdata, hv, hbytes⟩ := Ledger.getField_some _ _ _ _ _ hkey
  obtain ⟨register', data', v', hregister', hdata', hv', hjson⟩ :=
    Ledger.getField_some _ _ _ _ _ hstored
  -- both lookups read one row
  rw [hregister, Option.some.injEq] at hregister'
  subst hregister'
  rw [hdata, Option.some.injEq] at hdata'
  subst hdata'
  have hcommitted : v' = .str commitment := Except.ok.inj hjson
  refine ⟨register, data, publicKey, signature, secret, commitment, hregister, hdata, ?_,
    ⟨hsig, hverify⟩, hsub.trans List.filter_sublist, hlen, ?_, ⟨hsecret, hcommitment⟩,
    hcommitted ▸ hv'⟩
  · rw [hv]
    exact hbytes
  · intro proof hproof
    exact (List.mem_filter.mp (hsub.subset hproof)).2

/-- Only a call of `authenticate` that passes every check appends a success row. -/
theorem step_success (s : System) (hordered : NodesOrdered s) (op : Op) (row : Entry ℚ)
    (hrow : (step prim s op).ledger = s.ledger ++ [row]) (htype : row.entryType = "AUTH_SUCCESS") :
    ∃ challengeId signatureHex preCollected inp entry pair chosen token,
      op = .authenticate row.did challengeId signatureHex preCollected inp ∧
      s.pending challengeId = some entry ∧ inp.consumedAt ≤ entry.expiresAt ∧
      Passed prim inp row.did signatureHex
        (deliveredProofs prim inp preCollected s.nodes row.did entry.nonce) entry.nonce s pair
        chosen token := by
  -- an operation that leaves the table alone has appended no row
  have hsame (h : (step prim s op).ledger = s.ledger) : False := by
    rw [h] at hrow
    simpa using congrArg List.length hrow
  cases op with
  | register password inp =>
    rcases inp.register_cases prim password s hordered.length.le with
      ⟨-, e, heq⟩ | ⟨-, -, e, heq⟩ | ⟨-, -, r, files, heq, -⟩
    · exact (hsame (by rw [step, heq])).elim
    · exact (hsame (by rw [step, heq])).elim
    -- the row of a registration has another type
    · rw [step, heq, List.append_cancel_left_eq, List.singleton_inj] at hrow
      rw [← hrow] at htype
      simp [RegisterInputs.ledgerRow, Ledger.newEntry] at htype
  | authenticate did challengeId signatureHex preCollected inp =>
    obtain ⟨rows, heq, hrows⟩ :=
      authenticate_effect prim inp did challengeId signatureHex preCollected s
    rw [step, heq, List.append_cancel_left_eq] at hrow
    -- no row, a row of type `AUTH_FAIL`, or the row of a call that passed
    rcases hrows with rfl | ⟨data, rfl⟩ | ⟨entry, pair, chosen, token, rfl, hentry, hlive, hpassed⟩
    · cases hrow
    · rw [List.singleton_inj] at hrow
      rw [← hrow] at htype
      simp [Ledger.newEntry] at htype
    · rw [List.singleton_inj] at hrow
      subst hrow
      exact ⟨challengeId, signatureHex, preCollected, inp, entry, pair, chosen, token, rfl, hentry,
        hlive, hpassed⟩
  | _ => exact (hsame rfl).elim

/-! ## Whole runs -/

/-- Every success row has a backing. -/
theorem success_backed (k : ℕ) (row : Entry ℚ)
    (hrow : (runOps prim aesKeys systemKeys ops).ledger[k]? = some row)
    (htype : row.entryType = "AUTH_SUCCESS") :
    ∃ b, Backs prim aesKeys systemKeys ops b k row := by
  -- the step that wrote the row, then the call it was, then the issue of its challenge
  obtain ⟨m, op, hop, hbefore, hafter⟩ := log_origin (step prim) NodesOrdered
    (nodesOrdered_step prim) System.ledger (step_ledger prim) _
    (nodesOrdered_initial aesKeys systemKeys) rfl ops k row hrow
  have hordered := nodesOrdered_run prim aesKeys systemKeys (ops.take m)
  rw [← hbefore] at hafter
  obtain ⟨challengeId, signatureHex, preCollected, inp, entry, pair, chosen, token, rfl, hentry,
    hlive, hpassed⟩ := step_success _ hordered op row hafter htype
  obtain ⟨c, op, hc, hissue, hcreated⟩ := (challenges prim).live_issued _ ops
    (fun _ => rfl) m challengeId entry hentry
  obtain ⟨challenge, rfl, rfl, hnonce, hexpires⟩ := created_eq_some op challengeId entry hcreated
  obtain ⟨register, data, publicKey, signature, secret, commitment, hregister, hdata, hkey,
    hsigned, hsub, hlen, hcarried, hreconstructed, hcommitted⟩ := hpassed.registration
  refine ⟨⟨c, m, entry.did, challenge, signatureHex, preCollected, inp, register, data, publicKey,
    signature, pair, chosen, secret, commitment⟩, ?_⟩
  refine ⟨hissue, hop, hc, hbefore, ?_, ⟨rfl, entry, hentry⟩, hexpires ▸ hlive, ?_, hdata, hkey, ?_,
    ?_, hlen, hcarried, hreconstructed, hcommitted⟩
  -- the state after the call is the one in which the next operation starts
  · rw [stateAt, runOps, run_take_succ (step prim) _ ops m _ hop]
    exact hafter.trans (by rw [hbefore]; rfl)
  · exact (congrArg _ hbefore.symm).trans hregister
  · rw [← hnonce]
    exact hsigned
  · rw [← hnonce]
    exact hsub

/-- A challenge backs at most one row. -/
theorem Backs.row_unique (hfresh : FreshIds ops) (b b' : Backing) (k k' : ℕ) (row row' : Entry ℚ)
    (hrow : (runOps prim aesKeys systemKeys ops).ledger[k]? = some row)
    (hrow' : (runOps prim aesKeys systemKeys ops).ledger[k']? = some row')
    (h : Backs prim aesKeys systemKeys ops b k row)
    (h' : Backs prim aesKeys systemKeys ops b' k' row') (hsame : b.issuedAt = b'.issuedAt) :
    k = k' := by
  -- one issue means one id; the id is redeemed once, so both rows come from one call
  have hissue := h.issued
  rw [hsame, h'.issued, Option.some.injEq, Op.issue.injEq] at hissue
  have hcall : b.calledAt = b'.calledAt := by
    apply (challenges prim).redeemed_once (initial aesKeys systemKeys) ops (fun _ => rfl) hfresh
      b.calledAt b'.calledAt _ _ b.challenge.challengeId h.called h'.called h.redeemed
    rw [← hissue.2]
    exact h'.redeemed
  have hlen := congrArg List.length (h.before.symm.trans (hcall ▸ h'.before))
  rw [List.length_take, List.length_take] at hlen
  have hk := (List.getElem?_eq_some_iff.mp hrow).1
  have hk' := (List.getElem?_eq_some_iff.mp hrow').1
  omega

variable (prim aesKeys systemKeys ops)

/-- Injective agreement: to each success row belongs a challenge, issued by the operation
at `issuedAt k`, that backs this row and no other. -/
theorem successes_injectively_backed (hfresh : FreshIds ops) :
    ∃ issuedAt : ℕ → ℕ,
      (∀ k row, (runOps prim aesKeys systemKeys ops).ledger[k]? = some row →
        row.entryType = "AUTH_SUCCESS" →
        ∃ b, b.issuedAt = issuedAt k ∧ Backs prim aesKeys systemKeys ops b k row) ∧
      Set.InjOn issuedAt {k | ∃ row, (runOps prim aesKeys systemKeys ops).ledger[k]? = some row ∧
        row.entryType = "AUTH_SUCCESS"} := by
  -- rows of another type get no challenge; the choice for them does not matter
  have hbacked (k : ℕ) : ∃ c, ∀ row,
      (runOps prim aesKeys systemKeys ops).ledger[k]? = some row →
        row.entryType = "AUTH_SUCCESS" →
        ∃ b, b.issuedAt = c ∧ Backs prim aesKeys systemKeys ops b k row := by
    by_cases h : ∃ row, (runOps prim aesKeys systemKeys ops).ledger[k]? = some row ∧
        row.entryType = "AUTH_SUCCESS"
    · obtain ⟨row, hrow, htype⟩ := h
      obtain ⟨b, hb⟩ := success_backed k row hrow htype
      refine ⟨b.issuedAt, fun row' hrow' _ => ⟨b, rfl, ?_⟩⟩
      rw [hrow, Option.some.injEq] at hrow'
      exact hrow' ▸ hb
    · exact ⟨0, fun row hrow htype => absurd ⟨row, hrow, htype⟩ h⟩
  choose issuedAt hissuedAt using hbacked
  refine ⟨issuedAt, hissuedAt, ?_⟩
  rintro k ⟨row, hrow, htype⟩ k' ⟨row', hrow', htype'⟩ hsame
  obtain ⟨b, hb, hbacks⟩ := hissuedAt k row hrow htype
  obtain ⟨b', hb', hbacks'⟩ := hissuedAt k' row' hrow' htype'
  exact hbacks.row_unique hfresh b b' k k' row row' hrow hrow' hbacks'
    (hb.trans (hsame.trans hb'.symm))

end Runs

theorem answered_ledger : ∃ row : Entry ℚ, row.entryType = "AUTH_SUCCESS" ∧
    (runOps samplePrimitives (fun _ => zeroToken 32) (some sampleKeys) answeredOps).ledger =
      [(cleanRegister [7]).ledgerRow samplePrimitives "pw" [], row] := by
  obtain ⟨token, htoken⟩ := challenged_succeeds [7] "pw" (zeroToken 32) (sampleDid [7]) ownIds
    ownIds_nodup (zeroToken 32).val zeroToken_hash
  obtain ⟨entry, pair, chosen, -, -, -, hstate⟩ := authenticate_success _ _ _ _ _ _ _ token htoken
  have hlog := congrArg System.ledger hstate
  have hledger := challenged_ledger [7] "pw" (zeroToken 32) (sampleDid [7])
  rw [answeredOps, challenged_snoc, answerCall, step, hlog, hledger]
  exact ⟨successRow _ _ _ chosen token _, rfl, rfl⟩

theorem successes_injectively_backed_answered : ∃ b row,
    (runOps samplePrimitives (fun _ => zeroToken 32) (some sampleKeys) answeredOps).ledger =
      [(cleanRegister [7]).ledgerRow samplePrimitives "pw" [], row] ∧
    Backs samplePrimitives (fun _ => zeroToken 32) (some sampleKeys) answeredOps b 1 row := by
  obtain ⟨issuedAt, hbacked, -⟩ := successes_injectively_backed samplePrimitives
    (fun _ => zeroToken 32) (some sampleKeys) answeredOps (List.nodup_singleton _)
  obtain ⟨row, htype, hledger⟩ := answered_ledger
  have hrow := congrArg (fun l => l[1]?) hledger
  obtain ⟨b, -, hb⟩ := hbacked 1 row hrow htype
  exact ⟨b, row, hledger, hb⟩

end DecentralizedIDP
