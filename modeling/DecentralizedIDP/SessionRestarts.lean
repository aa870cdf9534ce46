import DecentralizedIDP.CoordinatorRestarts
import DecentralizedIDP.TokenRoundTrip

/-! Challenges and tokens over calls and restarts: an open challenge dies with the process, a
token that was returned does not. -/
namespace DecentralizedIDP
open Foundations

/-! ## Challenges -/

namespace LifeOp

def created : LifeOp → Option (String × Challenge)
  | .call op => DecentralizedIDP.created op
  | .restart _ => none

def uses (r : Running) : LifeOp → String → Prop
  | .call op, i => DecentralizedIDP.uses r.system op i
  | .restart _, _ => False

end LifeOp

theorem restart_pending (prim : Primitives) (r : Running) (inp : StartInputs) (i : String) :
    (r.step prim (.restart inp)).system.pending i = none := by
  obtain ⟨storeKey, heq, -⟩ := lifespan_eq prim inp r.system.files r.dir
  rw [Running.step, Running.startOn, heq]

/-- A challenge is a ticket that no restart brings back. -/
def lifeChallenges (prim : Primitives) : TicketSystem Running LifeOp String Challenge where
  step := Running.step prim
  live := fun r => r.system.pending
  issued := LifeOp.created
  redeems := LifeOp.uses
  live_step := by
    intro r op i entry h
    cases op with
    | call op => exact step_pending prim r.system op i entry h
    | restart inp =>
      rw [restart_pending] at h
      cases h
  redeems_live := by
    intro r op i h
    cases op with
    | call op => exact (challenges prim).redeems_live r.system op i h
    | restart inp => exact h.elim

/-- `uuid4` never repeats, in this process or a later one. -/
def FreshLife (ops : List LifeOp) : Prop :=
  (ops.filterMap (fun op => op.created.map Prod.fst)).Nodup

theorem created_issue (op : LifeOp) (challengeId : String) (entry : Challenge)
    (h : op.created = some (challengeId, entry)) :
    ∃ inp, op = .call (.issue entry.did inp) ∧ inp.challengeId = challengeId ∧
      entry.nonce = inp.nonce ∧ entry.expiresAt = inp.now+challengeTtlSeconds := by
  cases op with
  | call op =>
    obtain ⟨inp, rfl, hid, hnonce, hexpires⟩ := created_eq_some op challengeId entry h
    exact ⟨inp, rfl, hid, hnonce, hexpires⟩
  | restart inp => cases h

section Challenges
variable (prim : Primitives) (start : StartInputs) (ops : List LifeOp)

theorem first_pending (i : String) : (Running.first prim start).system.pending i = none := by
  rw [first_system]
  rfl

theorem runLife_take_succ (k : ℕ) (op : LifeOp) (hop : ops[k]? = some op) :
    runLife prim start (ops.take (k+1)) = (runLife prim start (ops.take k)).step prim op :=
  run_take_succ (Running.step prim) _ ops k op hop

/-- A challenge that is open was issued by this process. -/
theorem pending_since_restart (hfresh : FreshLife ops) (m : ℕ) (challengeId : String)
    (entry : Challenge)
    (h : (runLife prim start (ops.take m)).system.pending challengeId = some entry) :
    ∃ k inp, k < m ∧ ops[k]? = some (.call (.issue entry.did inp)) ∧
      inp.challengeId = challengeId ∧ entry.nonce = inp.nonce ∧
      entry.expiresAt = inp.now+challengeTtlSeconds ∧
      ∀ j again, k < j → j < m → ops[j]? ≠ some (.restart again) := by
  obtain ⟨k, op, hkm, hop, hcreated⟩ := (lifeChallenges prim).live_issued
    (Running.first prim start) ops (first_pending prim start) m challengeId entry h
  obtain ⟨inp, rfl, hid, hnonce, hexpires⟩ := created_issue op challengeId entry hcreated
  refine ⟨k, inp, hkm, hop, hid, hnonce, hexpires, ?_⟩
  intro j again hkj hjm hrestart
  -- a restart in between would leave it to a second issue, whose id would be another
  have hcleared : (lifeChallenges prim).live (runLife prim start (ops.take (j+1))) challengeId =
      none := by
    rw [runLife_take_succ prim start ops j _ hrestart]
    exact restart_pending prim (runLife prim start (ops.take j)) again challengeId
  obtain ⟨n, op, hjn, -, hop', hcreated'⟩ := (lifeChallenges prim).live_since
    (Running.first prim start) ops (j+1) m challengeId entry hjm hcleared h
  have hsame := (lifeChallenges prim).issued_once ops hfresh k n _ op challengeId entry entry
    hop hop' hcreated hcreated'
  omega

end Challenges

/-- The `m`-th operation is an authentication that returns this token. -/
structure SucceedsAt (prim : Primitives) (start : StartInputs) (ops : List LifeOp) (m : ℕ)
    (inp : AuthInputs) (did challengeId signatureHex : String)
    (preCollected : Option (List PartialProof)) (token : String) : Prop where
  call : ops[m]? = some (.call (.authenticate did challengeId signatureHex preCollected inp))
  returned : (authenticate prim inp did challengeId signatureHex preCollected
    (runLife prim start (ops.take m)).system).1 = .ok (success token)

/-- Over calls and restarts in any order, a success answers a challenge that the same process
issued no longer ago than its lifetime, with a signature on its nonce under the key that is
registered; and no challenge is answered with success twice. -/
theorem sessions_end_with_restarts (prim : Primitives) (start : StartInputs) (ops : List LifeOp)
    (hfresh : FreshLife ops) (m : ℕ) (inp : AuthInputs) (did challengeId signatureHex : String)
    (preCollected : Option (List PartialProof)) (token : String)
    (h : SucceedsAt prim start ops m inp did challengeId signatureHex preCollected token) :
    (∃ k issuedFor challenge publicKey signature, k < m ∧
      ops[k]? = some (.call (.issue issuedFor challenge)) ∧
      challenge.challengeId = challengeId ∧
      inp.consumedAt ≤ challenge.now+challengeTtlSeconds ∧
      (∀ j again, k < j → j < m → ops[j]? ≠ some (.restart again)) ∧
      (runLife prim start (ops.take m)).system.ledger.getPublicKey did = .ok (some publicKey) ∧
      fromhex signatureHex = some signature ∧
      prim.verify publicKey (challenge.nonce.val ++ encode did) signature = true) ∧
    ∀ n inp' did' signatureHex' preCollected' token',
      SucceedsAt prim start ops n inp' did' challengeId signatureHex' preCollected' token' →
      n = m := by
  have hused (n : ℕ) (inp' : AuthInputs) (did' signatureHex' : String)
      (preCollected' : Option (List PartialProof)) (token' : String)
      (hn : SucceedsAt prim start ops n inp' did' challengeId signatureHex' preCollected' token') :
      (lifeChallenges prim).redeems (runLife prim start (ops.take n))
        (.call (.authenticate did' challengeId signatureHex' preCollected' inp')) challengeId := by
    obtain ⟨entry, -, -, hentry, -⟩ :=
      authenticate_success prim inp' did' challengeId signatureHex' preCollected' _ token'
        hn.returned
    exact ⟨rfl, entry, hentry⟩
  constructor
  · obtain ⟨entry, pair, chosen, hentry, hlive, hpassed, -⟩ :=
      authenticate_success prim inp did challengeId signatureHex preCollected _ token h.returned
    obtain ⟨k, challenge, hkm, hissue, hid, hnonce, hexpires, hsame⟩ :=
      pending_since_restart prim start ops hfresh m challengeId entry hentry
    obtain ⟨publicKey, signature, hkey, hsig, hverify⟩ := hpassed.signed
    rw [hnonce] at hverify
    exact ⟨k, entry.did, challenge, publicKey, signature, hkm, hissue, hid, hexpires ▸ hlive,
      hsame, hkey, hsig, hverify⟩
  · intro n inp' did' signatureHex' preCollected' token' hn
    exact (lifeChallenges prim).redeemed_once (Running.first prim start) ops
      (first_pending prim start) hfresh n m _ _ challengeId hn.call h.call
      (hused n inp' did' signatureHex' preCollected' token' hn)
      (hused m inp did signatureHex preCollected token h)

/-! ## An answer and a restart after it -/

theorem runLife_calls (prim : Primitives) (start : StartInputs) (ops : List Op) :
    (runLife prim start (ops.map LifeOp.call)).system =
      run (step prim) (Running.first prim start).system ops := by
  induction ops using List.reverseRecOn with
  | nil => rfl
  | append_singleton ops op ih =>
    rw [List.map_append, List.map_singleton, runLife, run_snoc, run_snoc, ← ih]
    rfl

/-- A registration, a challenge, its answer, and a restart. -/
def answeredLife : List LifeOp :=
  (challengedOps [7] "pw" (zeroToken 32) (sampleDid [7])).map LifeOp.call ++
    .call answerCall :: [.restart sampleStart]

theorem answeredLife_system : (runLife samplePrimitives sampleStart
    ((challengedOps [7] "pw" (zeroToken 32) (sampleDid [7])).map LifeOp.call)).system =
      challenged [7] "pw" (zeroToken 32) (sampleDid [7]) := by
  rw [runLife_calls, ← challenged_eq]
  exact congrArg (fun s => run (step samplePrimitives) s _) sampleLife_first

theorem answeredLife_succeeds : ∃ token, SucceedsAt samplePrimitives sampleStart answeredLife 2
    (sampleAuth []) (sampleDid [7]) "c" (sampleSignature [7] (zeroToken 32))
    (some (sampleAnswers [7] "pw" ownIds (zeroToken 32).val)) token := by
  obtain ⟨token, htoken⟩ := challenged_succeeds [7] "pw" (zeroToken 32) (sampleDid [7]) ownIds
    ownIds_nodup (zeroToken 32) zeroToken_hash
  refine ⟨token, rfl, ?_⟩
  rw [← answeredLife_system] at htoken
  exact htoken

theorem sessions_end_with_restarts_answered : ∃ k issuedFor challenge, k < 2 ∧
    answeredLife[k]? = some (.call (.issue issuedFor challenge)) ∧ challenge.challengeId = "c" := by
  obtain ⟨token, htoken⟩ := answeredLife_succeeds
  obtain ⟨⟨k, issuedFor, challenge, -, -, hk, hissue, hid, -⟩, -⟩ :=
    sessions_end_with_restarts samplePrimitives sampleStart answeredLife (List.nodup_singleton "c") 2
      _ _ _ _ _ token htoken
  exact ⟨k, issuedFor, challenge, hk, hissue, hid⟩

/-! ## Tokens -/

/-- The pair of the first start is the one of every later process. -/
theorem systemKeys_life (prim : Primitives) (start : StartInputs) (ops : List LifeOp) :
    let keys : SystemKeys :=
      ⟨(prim.generateKeypair start.keySeed).1, (prim.generateKeypair start.keySeed).2⟩
    (runLife prim start ops).system.systemKeys = some keys ∧
      HoldsKeys keys (runLife prim start ops).dir.keyFiles := by
  intro keys
  refine run_invariant (Running.step prim)
    (fun r => r.system.systemKeys = some keys ∧ HoldsKeys keys r.dir.keyFiles) ?_ _ ?_ ops
  · intro r op h
    cases op with
    | call op =>
      rw [Running.step, Running.step_systemKeys, (Running.stepDisk_keys prim r.system r.dir op).2]
      exact h
    | restart inp =>
      obtain ⟨storeKey, heq, -⟩ := lifespan_eq prim inp r.system.files r.dir
      rw [Running.step, Running.startOn, heq]
      -- the pair that is in the files is loaded, and left there
      have hloaded : inp.loadedSystemKeys prim r.dir = keys :=
        initSystemKeys_loads prim inp.keySeed keys r.dir.keyFiles h.2
      have hleft := leftKeyFiles_hold prim inp r.dir
      rw [hloaded] at hleft ⊢
      exact ⟨rfl, hleft⟩
  · obtain ⟨storeKey, heq, -⟩ := lifespan_eq prim start (fun _ => none) DataDir.blank
    rw [Running.first, Running.startOn, heq]
    exact ⟨rfl, leftKeyFiles_hold prim start DataDir.blank⟩

/-- Where every start runs to its end, a token that was returned verifies in every later process
until it expires, and the row that says so stays in the ledger file. -/
theorem tokens_outlive_restarts (prim : Primitives) (hsign : prim.VerifiesSigned)
    (start : StartInputs) (before after : List LifeOp) (inp : AuthInputs)
    (did challengeId signatureHex : String) (preCollected : Option (List PartialProof))
    (token : String)
    (hsuccess : (authenticate prim inp did challengeId signatureHex preCollected
      (runLife prim start before).system).1 = .ok (success token)) :
    let r := runLife prim start (before ++
      .call (.authenticate did challengeId signatureHex preCollected inp) :: after)
    ∃ row payload, row ∈ r.dir.ledger ∧ row.entryType = "AUTH_SUCCESS" ∧ row.did = did ∧
      RowAgrees row payload ∧
      ∀ clock : Iat.VerifyInputs, Iat.verifyIat prim r.system.systemKeys clock token =
        if clock.now ≤ (truncate inp.token.now+iatTtlSeconds : ℤ) then some payload else none := by
  intro r
  obtain ⟨entry, pair, chosen, -, -, hpassed, hstate⟩ :=
    authenticate_success prim inp did challengeId signatureHex preCollected _ token hsuccess
  have hissued := hpassed.issued
  rw [(systemKeys_life prim start before).1] at hissued
  refine ⟨_, _, ?_, ?_, ?_, rowAgrees_issue prim _ inp.token did _ token hissued prim.repr
    inp.loggedAt (runLife prim start before).system.ledger, ?_⟩
  · -- the call has committed its row when it returns, and what is committed stays
    have hbehind := (Running.ledgerLog prim).behind_run _ (Running.behind_first prim start) before
    have hlogged : Running.Logged prim (runLife prim start before).system
        (.authenticate did challengeId signatureHex preCollected inp) := by
      refine ⟨⟨_, hsuccess⟩, ?_⟩
      rw [hstate]
      simp
    have hcommit := (Running.stepDisk_ledger prim _ (runLife prim start before).dir _
      hbehind.1.ordered).resolve_left (fun hno => hno.2 hlogged)
    have hlater := (Running.ledgerLog prim).committed_run _ hbehind
      (.call (.authenticate did challengeId signatureHex preCollected inp)) hcommit after
    unfold r
    rw [Running.runLife_append]
    apply hlater.subset
    have hseen := congrArg System.ledger hstate
    change _ ∈ (authenticate prim inp did challengeId signatureHex preCollected
      (runLife prim start before).system).2.ledger
    rw [hseen]
    exact List.mem_append_right _ List.mem_cons_self
  · rfl
  · rfl
  · intro clock
    rw [(systemKeys_life prim start _).1]
    exact Iat.verifyIat_issue_eq prim _ inp.token did _ token hissued clock (hsign _ _ _)

/-- One second after the answer, and in another process, the token still verifies. -/
theorem tokens_outlive_restarts_answered : ∃ token payload,
    Iat.verifyIat samplePrimitives (runLife samplePrimitives sampleStart
      answeredLife).system.systemKeys ⟨2, fun _ => false⟩ token = some payload := by
  obtain ⟨token, htoken⟩ := answeredLife_succeeds
  obtain ⟨row, payload, -, -, -, -, hverify⟩ := tokens_outlive_restarts samplePrimitives
    SamplePrimitives.verifiesSigned sampleStart
    ((challengedOps [7] "pw" (zeroToken 32) (sampleDid [7])).map LifeOp.call)
    [.restart sampleStart] (sampleAuth []) (sampleDid [7]) "c"
    (sampleSignature [7] (zeroToken 32))
    (some (sampleAnswers [7] "pw" ownIds (zeroToken 32).val)) token htoken.returned
  refine ⟨token, payload, (hverify ⟨2, fun _ => false⟩).trans (if_pos ?_)⟩
  norm_num [sampleAuth, truncate, iatTtlSeconds]

end DecentralizedIDP
