import DecentralizedIDP.AuthenticationCompleteness
import DecentralizedIDP.SamplePrimitives

/-! Registrations with the sample primitives: the inputs of one call, with a choice
of how its writes end, and the state in which a call that returns leaves the
coordinator. -/
namespace DecentralizedIDP
open Foundations

def zeroToken (len : ℕ) : Token len := ⟨List.replicate len 0, List.length_replicate⟩

theorem zeroToken_hash : fromBytes (sha3_256 (zeroToken 32)) % P ≠ 0 := by decide +kernel

def zeroDraw : Fin (P-1) := ⟨0, Nat.sub_pos_of_lt one_lt_P⟩

def sampleRegister (seed : Bytes) (stores : ℕ → WriteStatus) (ledgerWrite : WriteStatus)
    (keyfileWrite : FileWrite) : RegisterInputs where
  keySeed := seed
  registrationNonce := zeroToken 32
  draws := fun _ => zeroDraw
  feldmanSalt := zeroToken 32
  stores := fun i => ⟨zeroToken 12, stores i⟩
  registeredAt := 0
  appendedAt := 0
  ledgerWrite := ledgerWrite
  keyfile := ⟨zeroToken 32, zeroToken 12, keyfileWrite⟩

/-- A registration all of whose writes succeed. -/
def cleanRegister (seed : Bytes) : RegisterInputs :=
  sampleRegister seed (fun _ => .committed) .committed .written

def sampleKeys : SystemKeys := ⟨[1], [1]⟩

def sampleInitial : System := initial (fun _ => zeroToken 32) (some sampleKeys)

theorem sampleInitial_ordered : NodesOrdered sampleInitial := nodesOrdered_initial _ _

theorem cleanRegister_stored (seed : Bytes) (count : ℕ) : (cleanRegister seed).AllStored count :=
  fun _ _ => rfl

/-- Wherever it starts, a clean registration appends its row. -/
theorem cleanRegister_ledger (seed : Bytes) (password : String) (s : System)
    (hnodes : NodesOrdered s) :
    (step samplePrimitives s (.register password (cleanRegister seed))).ledger =
      s.ledger ++ [(cleanRegister seed).ledgerRow samplePrimitives password s.ledger] := by
  obtain ⟨reply, files, heq⟩ := (cleanRegister seed).register_committed samplePrimitives password s
    hnodes.length.le (cleanRegister_stored seed _) rfl rfl
  rw [step, heq]

/-- It completes in every run that does not register its DID again. -/
theorem cleanRegister_completes (prim : Primitives) (seed : Bytes) (password : String)
    (before after : List Op)
    (hafter : ∀ op ∈ after, op.SparesDid prim ((cleanRegister seed).did prim)) :
    Completed prim (fun _ => zeroToken 32) (some sampleKeys) (cleanRegister seed) password before
      after := by
  have hnodes := nodesOrdered_run prim (fun _ => zeroToken 32) (some sampleKeys) before
  obtain ⟨reply, files, heq⟩ := (cleanRegister seed).register_committed prim password _
    hnodes.length.le (cleanRegister_stored seed _) rfl rfl
  exact ⟨⟨reply, by rw [heq]⟩, hafter⟩

theorem cleanRegister_completed (seed : Bytes) (password : String) (before after : List Op)
    (hafter : ∀ op ∈ after,
      op.SparesDid samplePrimitives ((cleanRegister seed).did samplePrimitives)) :
    Completed samplePrimitives (fun _ => zeroToken 32) (some sampleKeys) (cleanRegister seed)
      password before after :=
  cleanRegister_completes samplePrimitives seed password before after hafter

/-! ## Authentications of the sample DID -/

def sampleDid (seed : Bytes) : String := (cleanRegister seed).did samplePrimitives

/-- A challenge under the id `"c"`, issued at time 0. -/
def sampleIssue (nonce : Token 32) (did : String) : Op := .issue did ⟨nonce, "c", 0⟩

def sampleChallenge (nonce : Token 32) (did : String) : Challenge :=
  { nonce := nonce, did := did, expiresAt := 0+challengeTtlSeconds }

theorem sampleChallenge_hash (did : String) :
    fromBytes (sha3_256 (sampleChallenge (zeroToken 32) did).nonce) % P ≠ 0 := by
  have hnonce : (sampleChallenge (zeroToken 32) did).nonce = zeroToken 32 := rfl
  rw [hnonce]
  exact zeroToken_hash

/-- The user's signature on a nonce, in hex. -/
def sampleSignature (seed : Bytes) (nonce : Token 32) : String :=
  hex (samplePrimitives.sign [] (samplePrimitives.generateKeypair seed).1
    (nonce.val ++ encode (sampleDid seed)))

/-- A request one second later, through the local transport. -/
def sampleAuth (completionOrder : List ℕ) : AuthInputs where
  consumedAt := 1
  transport := .localNodes (fun _ => zeroDraw)
  completionOrder := completionOrder
  token := ⟨1, "jti", []⟩
  loggedAt := 1
  logWrite := .committed

theorem sampleAuth_live : (1 : ℚ) ≤ 0+challengeTtlSeconds := by
  rw [challengeTtlSeconds]
  norm_num

/-- The coordinator after a clean registration and some more operations. -/
def sampleSession (seed : Bytes) (password : String) (after : List Op) : System :=
  runOps samplePrimitives (fun _ => zeroToken 32) (some sampleKeys)
    ([] ++ Op.register password (cleanRegister seed) :: after)

theorem sampleSession_eq (seed : Bytes) (password : String) (after : List Op) :
    ∃ files, sampleSession seed password after = run (step samplePrimitives)
      { sampleInitial with
        nodes := (cleanRegister seed).putShares samplePrimitives password 1 nNodes
          sampleInitial.nodes,
        ledger := [(cleanRegister seed).ledgerRow samplePrimitives password []],
        files := files } after := by
  obtain ⟨reply, files, heq⟩ := (cleanRegister seed).register_committed samplePrimitives password
    sampleInitial sampleInitial_ordered.length.le (cleanRegister_stored seed _) rfl rfl
  refine ⟨files, ?_⟩
  rw [sampleSession, List.nil_append, runOps, run_cons, ← sampleInitial, step, heq]
  rfl

theorem sampleSession_enrolled (seed : Bytes) (password : String) (after : List Op)
    (hafter : ∀ op ∈ after, op.SparesDid samplePrimitives (sampleDid seed)) :
    (cleanRegister seed).Enrolled samplePrimitives password (sampleSession seed password after) :=
  (cleanRegister_completed seed password [] after hafter).enrolled

theorem sampleSession_ordered (seed : Bytes) (password : String) (after : List Op) :
    NodesOrdered (sampleSession seed password after) := nodesOrdered_run _ _ _ _

/-! ## One challenge, all nodes honest -/

/-- A clean registration, then one challenge. -/
def challenged (seed : Bytes) (password : String) (nonce : Token 32) (did : String) : System :=
  sampleSession seed password [sampleIssue nonce did]

def challengedOps (seed : Bytes) (password : String) (nonce : Token 32) (did : String) : List Op :=
  [.register password (cleanRegister seed), sampleIssue nonce did]

/-- The proof that the `k`-th node makes in the session of `nonce`. -/
def sampleAnswer (seed : Bytes) (password : String) (nonce : Bytes) (k : ℕ) : PartialProof :=
  computePartialProof (((k+1 : ℕ) : ℤ),
    (cleanRegister seed).yValue samplePrimitives password (k+1)) nonce ((k+1 : ℕ) : ℤ) P

section Challenged
variable (seed : Bytes) (password : String) (nonce : Token 32) (did : String)

theorem challenged_eq : runOps samplePrimitives (fun _ => zeroToken 32) (some sampleKeys)
    (challengedOps seed password nonce did) = challenged seed password nonce did := by
  rw [challengedOps, challenged, sampleSession, List.nil_append]

/-- One more operation after the challenge. -/
theorem challenged_snoc (op : Op) :
    runOps samplePrimitives (fun _ => zeroToken 32) (some sampleKeys)
        (challengedOps seed password nonce did ++ [op]) =
      step samplePrimitives (challenged seed password nonce did) op := by
  rw [← challenged_eq, runOps, run_snoc, runOps]

theorem challenged_spares (op : Op) (hop : op ∈ [sampleIssue nonce did]) :
    op.SparesDid samplePrimitives (sampleDid seed) := by
  rw [List.mem_singleton.mp hop]
  trivial

theorem challenged_enrolled :
    (cleanRegister seed).Enrolled samplePrimitives password (challenged seed password nonce did) :=
  sampleSession_enrolled seed password _ (challenged_spares seed nonce did)

theorem challenged_pending :
    (challenged seed password nonce did).pending "c" = some (sampleChallenge nonce did) := by
  obtain ⟨files, heq⟩ := sampleSession_eq seed password [sampleIssue nonce did]
  rw [challenged, heq]
  rfl

theorem challenged_keys : (challenged seed password nonce did).systemKeys = some sampleKeys :=
  systemKeys_run _ _ _ _

theorem challenged_honest (k : ℕ) (node : Node)
    (hnode : (challenged seed password nonce did).nodes[k]? = some node) (session : Bytes)
    (fakeValue : Fin (P-1)) : node.online = true ∧ node.byzantine = false ∧
      node.computePartialProof samplePrimitives fakeValue (sampleDid seed) session =
        .ok (sampleAnswer seed password session k) := by
  -- registering keeps the flags, so they are those of the initial nodes
  have hflags : node.online = true ∧ node.byzantine = false := by
    obtain ⟨files, heq⟩ := sampleSession_eq seed password [sampleIssue nonce did]
    rw [challenged, heq] at hnode
    have hput : node ∈ (cleanRegister seed).putShares samplePrimitives password 1 nNodes
        sampleInitial.nodes := List.mem_of_getElem? hnode
    have hmem := List.mem_map_of_mem (f := fun node : Node => (node.online, node.byzantine)) hput
    rw [putShares_map _ (fun _ _ => rfl)] at hmem
    have hall : ∀ flags ∈ sampleInitial.nodes.map (fun node => (node.online, node.byzantine)),
        flags = (true, false) := by decide
    exact Prod.mk.inj (hall _ hmem)
  refine ⟨hflags.1, hflags.2, ?_⟩
  have hid := ((sampleSession_ordered seed password _).nodeId k node hnode).2
  rw [sampleDid, RegisterInputs.computePartialProof_enrolled
    (challenged_enrolled seed password nonce did) SamplePrimitives.decryptsEncrypted k node hnode
    hflags.1 hflags.2, hid, sampleAnswer]

/-- The user's answer to the challenge, whichever DID it was issued for, takes the call
to its proofs. -/
theorem challenged_authenticate (completionOrder : List ℕ)
    (preCollected : Option (List PartialProof)) :
    authenticate samplePrimitives (sampleAuth completionOrder) (sampleDid seed) "c"
        (sampleSignature seed nonce) preCollected (challenged seed password nonce did) =
      decideProofs samplePrimitives (sampleAuth completionOrder) (sampleDid seed) nonce.val
        (deliveredProofs samplePrimitives (sampleAuth completionOrder) preCollected
          (challenged seed password nonce did).nodes (sampleDid seed) nonce.val)
        { challenged seed password nonce did with
          pending :=
            ChallengeManager.remove "c" (challenged seed password nonce did).pending } := by
  have hverify := SamplePrimitives.verifiesSigned seed [] (nonce.val ++ encode (sampleDid seed))
  exact authenticate_eq_decide (challenged_enrolled seed password nonce did).recorded
    SamplePrimitives.printsFloats (sampleAuth completionOrder) "c" (sampleSignature seed nonce)
    preCollected (sampleChallenge nonce did) _ (challenged_pending seed password nonce did)
    sampleAuth_live (fromhex_hex _) hverify

theorem challenged_ledger : (challenged seed password nonce did).ledger =
    [(cleanRegister seed).ledgerRow samplePrimitives password []] := by
  obtain ⟨files, heq⟩ := sampleSession_eq seed password [sampleIssue nonce did]
  rw [challenged, heq]
  rfl

/-- The honest proofs of a session, sent under some ids. -/
def sampleAnswers (ids : ℕ → ℤ) (session : Bytes) : List PartialProof :=
  (List.range nNodes).map (fun k =>
    { sampleAnswer seed password session k with nodeId := ids k })

section Answers
variable (ids : ℕ → ℤ) (hids : ((List.range nNodes).map ids).Nodup) (session : Bytes)
include hids

theorem sampleAnswers_nodeId_nodup :
    ((sampleAnswers seed password ids session).map PartialProof.nodeId).Nodup := by
  rw [sampleAnswers, List.map_map]
  exact hids

omit hids in
theorem sampleAnswers_x_nodup :
    ((sampleAnswers seed password ids session).map (fun proof => (proof.x : ZMod P))).Nodup := by
  rw [sampleAnswers, List.map_map]
  apply List.Nodup.map_on _ List.nodup_range
  intro j hj k hk hjk
  rw [List.mem_range] at hj hk
  have hjk : ((j+1 : ℕ) : ZMod P) = ((k+1 : ℕ) : ZMod P) := by
    simpa only [Function.comp_apply, sampleAnswer, computePartialProof, Int.cast_natCast] using hjk
  have heq := index_cast_injective (j+1) (k+1) (by omega) (by omega) hjk
  omega

omit hids in
theorem sampleAnswers_honest : ∀ proof ∈ sampleAnswers seed password ids session,
    ∃ i, HonestProof samplePrimitives (cleanRegister seed) password session i proof := by
  intro proof hproof
  obtain ⟨k, hk, rfl⟩ := List.mem_map.mp hproof
  rw [List.mem_range] at hk
  obtain ⟨hindex, hx, hcarried, hvalue⟩ := honestProof_compute samplePrimitives
    (cleanRegister seed) password session (k+1) (by omega) ((k+1 : ℕ) : ℤ)
  exact ⟨k+1, hindex, hx, hcarried, hvalue⟩

/-- Honest proofs of any one session, under different ids, answer any challenge. -/
theorem challenged_succeeds (hsession : fromBytes (sha3_256 session) % P ≠ 0) :
    ∃ token, (authenticate samplePrimitives (sampleAuth []) (sampleDid seed) "c"
      (sampleSignature seed nonce) (some (sampleAnswers seed password ids session))
      (challenged seed password nonce did)).1 = .ok (success token) := by
  have henrolled := challenged_enrolled seed password nonce did
  have hkeys := challenged_keys seed password nonce did
  rw [challenged_authenticate]
  generalize challenged seed password nonce did = s at henrolled hkeys
  have hhonest := sampleAnswers_honest seed password ids session
  apply decideProofs_carried
    (s := { s with pending := ChallengeManager.remove "c" s.pending })
    henrolled.recorded SamplePrimitives.printsFloats
    (sampleAuth []) nonce.val session (sessionH_ne_zero _ hsession) _
    (sampleAnswers seed password ids session)
    (sampleAnswers_nodeId_nodup seed password ids hids session)
    (sampleAnswers_x_nodup seed password ids session) _ (List.Sublist.refl _) _ hhonest sampleKeys
    hkeys rfl
  · intro proof hproof
    obtain ⟨i, hi⟩ := hhonest proof hproof
    exact hi.carried
  · rw [sampleAnswers, List.length_map, List.length_range]
    decide

/-- The first three of them are used, and their ids recorded. -/
theorem challenged_records (hsession : fromBytes (sha3_256 session) % P ≠ 0) :
    ∃ token, (authenticate samplePrimitives (sampleAuth []) (sampleDid seed) "c"
        (sampleSignature seed nonce) (some (sampleAnswers seed password ids session))
        (challenged seed password nonce did)).1 = .ok (success token) ∧
      (authenticate samplePrimitives (sampleAuth []) (sampleDid seed) "c"
        (sampleSignature seed nonce) (some (sampleAnswers seed password ids session))
        (challenged seed password nonce did)).2.ledger =
          (challenged seed password nonce did).ledger ++
            [Ledger.newEntry samplePrimitives.repr 1 "AUTH_SUCCESS" (sampleDid seed)
              (successData [ids 0, ids 1, ids 2] token)
              (challenged seed password nonce did).ledger] := by
  obtain ⟨token, htoken⟩ := challenged_succeeds seed password nonce did ids hids session hsession
  obtain ⟨entry, pair, chosen, -, -, hpassed, hstate⟩ :=
    authenticate_success _ _ _ _ _ _ _ token htoken
  have hused := usedProofs_honest (challenged_enrolled seed password nonce did).recorded
    SamplePrimitives.printsFloats entry.nonce session (sessionH_ne_zero _ hsession) _ _ _ _
    (sampleAnswers_nodeId_nodup seed password ids hids session)
    (sampleAnswers_x_nodup seed password ids session)
    (sampleAnswers_honest seed password ids session)
  -- what the call used and what the search finds first are the same
  have hchosen := Option.some.inj (hpassed.used.symm.trans hused)
  refine ⟨token, htoken, (congrArg System.ledger hstate).trans ?_⟩
  rw [hchosen]
  rfl

end Answers

end Challenged

/-- The ids of the nodes themselves. -/
def ownIds (k : ℕ) : ℤ := ((k+1 : ℕ) : ℤ)

theorem ownIds_nodup : ((List.range nNodes).map ownIds).Nodup := by decide

/-- The user answers the challenge, and the nodes have sent their proofs. -/
def answerCall : Op :=
  .authenticate (sampleDid [7]) "c" (sampleSignature [7] (zeroToken 32))
    (some (sampleAnswers [7] "pw" ownIds (zeroToken 32).val)) (sampleAuth [])

def answeredOps : List Op := challengedOps [7] "pw" (zeroToken 32) (sampleDid [7]) ++ [answerCall]

end DecentralizedIDP
