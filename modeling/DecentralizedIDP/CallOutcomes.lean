import DecentralizedIDP.CoordinatorRestarts
import DecentralizedIDP.IdentityProvider
import DecentralizedIDP.LyingNode

/-! What the calls of the coordinator mean, and what each of them tells its user. -/
namespace DecentralizedIDP
open Foundations

/-! ## Calls and what they mean -/

inductive Reply where
  | register (result : Except PyError RegisterReply)
  | challenge (reply : ChallengeReply)
  | nonce (found : Option Bytes)
  | authenticate (result : Except PyError AuthResult)
  | quiet

def Running.reply (prim : Primitives) (r : Running) : LifeOp → Reply
  | .call (.register password inp) => .register (register prim inp password r.system).1
  | .call (.issue did inp) => .challenge (ChallengeManager.issue inp did r.system.pending).1
  | .call (.peek challengeId now) => .nonce (ChallengeManager.peek challengeId now r.system.pending)
  | .call (.consume challengeId now) =>
    .nonce (ChallengeManager.consume challengeId now r.system.pending).1
  | .call (.authenticate did challengeId signatureHex preCollected inp) =>
    .authenticate (authenticate prim inp did challengeId signatureHex preCollected r.system).1
  | _ => .quiet

def Running.handle (prim : Primitives) : Machine Running LifeOp Reply :=
  fun r op => (r.step prim op, r.reply prim op)

/-- The node writes and the ledger write of the call commit. -/
def RegisterInputs.writesCommit (inp : RegisterInputs) : Bool :=
  (List.range nNodes).all (fun j => (inp.stores (1+j)).write == .committed) &&
    inp.ledgerWrite == .committed

/-- Whether the text is a signature of the holder of the key on the nonce for the DID. -/
def holderSigned (prim : Primitives) (did signatureHex : String) (publicKey nonce : Bytes) : Bool :=
  match fromhex signatureHex with
  | none => false
  | some signature => prim.verify publicKey (nonce ++ encode did) signature

def LifeOp.meaning (prim : Primitives) : LifeOp → IdpCall
  | .call (.register _ inp) => .register (inp.did prim) (inp.publicKey prim) inp.writesCommit
      (inp.keyfile.write == .written)
  | .call (.issue _ inp) => .challenge inp.challengeId inp.nonce (inp.now+challengeTtlSeconds)
  | .call (.peek challengeId now) => .peek challengeId now
  | .call (.consume challengeId now) => .consume challengeId now
  | .call (.cleanup now) => .cleanup now
  | .call (.authenticate did challengeId signatureHex _ inp) =>
    .authenticate did challengeId inp.consumedAt (holderSigned prim did signatureHex)
      (inp.logWrite == .committed)
  | .call (.setOnline nodeId online) => .setMode nodeId (fun m => { m with online := online })
  | .call (.setByzantine nodeId byzantine) =>
    .setMode nodeId (fun m => { m with byzantine := byzantine })
  | .restart _ => .restart

def viewAuth : Except PyError AuthResult → Outcome
  | .error _ => .raised
  | .ok result =>
    if result.status = "success" then .authenticated else .failed (result.reason.getD "")

def Reply.view : Reply → Outcome
  | .register (.ok reply) => .registered reply.did
  | .register (.error _) => .raised
  | .challenge reply => .challenged reply.challengeId reply.nonce
  | .nonce found => .nonce found
  | .authenticate result => viewAuth result
  | .quiet => .quiet

/-! ## What a registration tells -/

namespace RegisterInputs
variable (prim : Primitives) (inp : RegisterInputs) (password : String) (s : System)

theorem writesCommit_iff :
    inp.writesCommit = true ↔ inp.AllStored nNodes ∧ inp.ledgerWrite = .committed := by
  rw [writesCommit, Bool.and_eq_true, List.all_eq_true, beq_iff_eq]
  apply and_congr_left'
  constructor
  · intro h j hj
    exact beq_iff_eq.mp (h j (List.mem_range.mpr hj))
  · intro h j hj
    exact beq_iff_eq.mpr (h j (List.mem_range.mp hj))

theorem register_reply (reply : RegisterReply)
    (h : (register prim inp password s).1 = .ok reply) : reply = inp.reply prim := by
  rw [register_eq] at h
  split at h
  · cases h
  · rw [publish_eq] at h
    split at h
    · cases h
    · split at h
      · cases h
      · exact (Except.ok.inj h).symm

/-- All writes up to the row are committed, and the answer depends on the keyfile; or the call
raises and there is no row. -/
theorem register_told (hordered : NodesOrdered s)
    (hwrite : ∀ message, inp.ledgerWrite ≠ .uncommitted message) :
    inp.writesCommit = true ∧
        (Reply.register (register prim inp password s).1).view =
          (if inp.keyfile.write == .written then .registered (inp.did prim) else .raised) ∨
      inp.writesCommit = false ∧ (Reply.register (register prim inp password s).1).view = .raised ∧
        (register prim inp password s).2.ledger = s.ledger := by
  have hreply := inp.register_reply prim password s
  rcases inp.register_cases prim password s hordered.length.le with
    ⟨hno, e, heq⟩ | ⟨-, ⟨message, hno⟩, e, heq⟩ | ⟨hstores, hrow, r, files, heq, hret⟩
  · right
    rw [hordered.length] at hno
    refine ⟨?_, ?_, ?_⟩
    · rw [← Bool.not_eq_true, writesCommit_iff]
      exact fun h => hno h.1
    · rw [heq]
      rfl
    · rw [heq]
  · right
    refine ⟨?_, ?_, ?_⟩
    · rw [← Bool.not_eq_true, writesCommit_iff, hno]
      exact fun h => by cases h.2
    · rw [heq]
      rfl
    · rw [heq]
  · left
    have hcommitted : inp.ledgerWrite = .committed := by
      cases hcases : inp.ledgerWrite with
      | committed => rfl
      | rejected message => exact absurd hcases (hrow message)
      | uncommitted message => exact absurd hcases (hwrite message)
    rw [hordered.length] at hstores
    refine ⟨inp.writesCommit_iff.mpr ⟨hstores, hcommitted⟩, ?_⟩
    rw [heq] at hreply ⊢
    cases r with
    | error e =>
      rw [if_neg]
      · rfl
      · intro hkeyfile
        obtain ⟨reply, hok⟩ := hret.mpr ⟨hcommitted, beq_iff_eq.mp hkeyfile⟩
        cases hok
    | ok reply =>
      rw [if_pos (beq_iff_eq.mpr (hret.mp ⟨reply, rfl⟩).2), hreply reply rfl]
      rfl

end RegisterInputs

/-! ## What an authentication tells -/

/-- A guess of a byzantine node hits: a threshold of the answers, one of them its own, opens the
commitment of the DID. -/
structure Fluke (prim : Primitives) (inp : AuthInputs) (did : String) (nonce : Bytes) (s : System)
    (stored : Option Json) (subset : List PartialProof) (liar : Node) : Prop where
  committed : s.ledger.getCommitmentHash did = .ok stored
  sub : subset.Sublist (collectProofs prim inp s.nodes did nonce)
  length : subset.length = threshold
  opens : opensCommitment stored subset = .ok true
  mem : liar ∈ s.nodes
  byzantine : liar.byzantine = true
  used : liar.nodeId ∈ subset.map PartialProof.nodeId

theorem logged_view (prim : Primitives) (inp : AuthInputs) (entryType did : String)
    (data : List (String × Json)) (result : AuthResult) (s : System) :
    viewAuth (logged prim inp entryType did data result s).1 =
      if inp.logWrite == .committed then viewAuth (.ok result) else .raised := by
  rw [logged, Ledger.append]
  cases inp.logWrite with
  | committed => rfl
  | rejected message => rfl
  | uncommitted message => rfl

theorem reject_view (prim : Primitives) (inp : AuthInputs) (did reason : String) (s : System) :
    viewAuth (reject prim inp did reason s).1 =
      if inp.logWrite == .committed then .failed reason else .raised := by
  rw [reject, logged_view]
  rfl

theorem logSuccess_view (prim : Primitives) (inp : AuthInputs) (did : String)
    (chosen : List PartialProof) (token : String) (s : System) :
    viewAuth (logSuccess prim inp did chosen token s).1 =
      if inp.logWrite == .committed then .authenticated else .raised := by
  rw [logSuccess, logged_view]
  rfl

theorem checkRequest_holder (prim : Primitives) (inp : AuthInputs) (did signatureHex : String)
    (preCollected : Option (List PartialProof)) (nonce : Bytes) (s : System) (publicKey : Bytes)
    (hkey : s.ledger.getPublicKey did = .ok (some publicKey)) :
    checkRequest prim inp did signatureHex preCollected nonce s =
      if !holderSigned prim did signatureHex publicKey nonce then
        reject prim inp did "invalid_signature" s
      else decideProofs prim inp did nonce
        (deliveredProofs prim inp preCollected s.nodes did nonce) s := by
  cases hsig : fromhex signatureHex with
  | none => simp only [checkRequest, hkey, holderSigned, hsig, Bool.not_false, if_true]
  | some signature => simp only [checkRequest, hkey, holderSigned, hsig]

/-- A call raises, or fails with its reason, or succeeds with its token. -/
inductive Settled : Except PyError AuthResult → Prop
  | raised (e : PyError) : Settled (.error e)
  | failed (reason : String) : Settled (.ok (fail reason))
  | succeeded (token : String) : Settled (.ok (success token))

theorem authenticate_settled (prim : Primitives) (inp : AuthInputs)
    (did challengeId signatureHex : String) (preCollected : Option (List PartialProof))
    (s : System) :
    Settled (authenticate prim inp did challengeId signatureHex preCollected s).1 := by
  have hlogged (entryType : String) (data : List (String × Json)) (result : AuthResult)
      (s : System) (hresult : Settled (.ok result)) :
      Settled (logged prim inp entryType did data result s).1 := by
    rcases logged_cases prim inp entryType did data result s with ⟨r, hr, hsame⟩ | ⟨e, he⟩
    · rw [hr]
      cases r with
      | error e => exact Settled.raised e
      | ok a =>
        rw [hsame a rfl]
        exact hresult
    · rw [he]
      exact Settled.raised e
  have hreject (reason : String) (s : System) : Settled (reject prim inp did reason s).1 :=
    hlogged _ _ _ s (Settled.failed reason)
  rw [authenticate]
  split
  · exact Settled.failed _
  · rw [checkRequest]
    split
    · exact Settled.raised _
    · exact Settled.failed _
    · split
      · exact hreject _ _
      · split_ifs
        · exact hreject _ _
        · rw [decideProofs]
          split
          · exact hreject _ _
          · split
            · exact Settled.raised _
            · split
              · exact Settled.raised _
              · exact hreject _ _
              · dsimp only
                split
                · exact Settled.raised _
                · exact hlogged _ _ _ _ (Settled.succeeded _)

section Verdict
variable {prim : Primitives} {reg : RegisterInputs} {password : String} {s : System}
  (hordered : NodesOrdered s) (henrolled : reg.Enrolled prim password s)
  (hdec : prim.DecryptsEncrypted) (hrepr : prim.PrintsFloats) (keys : SystemKeys)
  (hkeys : s.systemKeys = some keys) (inp : AuthInputs) (fakeValues : ℤ → Fin (P-1))
  (htransport : inp.transport = .localNodes fakeValues)
  (horder : inp.completionOrder.Perm (List.range nNodes)) (nonce : Bytes)

/-- What the nodes decide about a request that is signed. -/
def verdictOf (nodes : List Node) : Outcome :=
  if nodes.countP Node.online < threshold then .failed "quorum_not_reached"
  else if threshold ≤ nodes.countP (fun node => node.online && !node.byzantine) then .authenticated
  else .failed "commitment_mismatch"

include hordered henrolled hdec htransport horder

/-- Every answer is that of a node that is online. -/
theorem collected_online (proof : PartialProof)
    (hproof : proof ∈ collectProofs prim inp s.nodes (reg.did prim) nonce) :
    ∃ node ∈ s.nodes, node.nodeId = proof.nodeId ∧ node.online = true := by
  have harrived : ∃ arrived : List Node, arrived.Perm s.nodes ∧
      collectProofs prim inp s.nodes (reg.did prim) nonce =
        arrived.filterMap (localAnswer prim s.nodes (reg.did prim) fakeValues nonce) :=
    collectProofs_arrived hordered fakeValues nonce inp htransport horder (reg.did prim)
  obtain ⟨arrived, hperm, hproofs⟩ := harrived
  rw [hproofs] at hproof
  obtain ⟨node, hnode, hanswer⟩ := List.mem_filterMap.mp hproof
  have hmem := hperm.mem_iff.mp hnode
  have honline := localAnswer_isSome hordered henrolled hdec fakeValues nonce node hmem
  obtain ⟨hans, -⟩ :=
    localAnswer_answers hordered henrolled hdec fakeValues nonce node hmem proof hanswer
  rw [hanswer, Option.isSome_some] at honline
  exact ⟨node, hmem, hans.nodeId.symm, honline.symm⟩

/-- Answers that are all from honest nodes are no more than there are such nodes. -/
theorem honest_answers_length (subset : List PartialProof)
    (hsub : subset.Sublist (collectProofs prim inp s.nodes (reg.did prim) nonce))
    (hhonest : ∀ node ∈ s.nodes, node.byzantine = true →
      node.nodeId ∉ subset.map PartialProof.nodeId) :
    subset.length ≤ s.nodes.countP (fun node => node.online && !node.byzantine) := by
  obtain ⟨honest, hcollected⟩ :=
    collectProofs_local hordered henrolled hdec fakeValues nonce inp htransport horder
  rw [List.countP_eq_length_filter, ← List.length_map (f := PartialProof.nodeId),
    ← List.length_map (f := Node.nodeId)]
  apply List.Subperm.length_le
  apply List.subperm_of_subset
  · exact hcollected.ids.sublist (hsub.map _)
  · intro id hid
    obtain ⟨proof, hproof, rfl⟩ := List.mem_map.mp hid
    obtain ⟨node, hmem, hnode, honline⟩ := collected_online hordered henrolled hdec inp fakeValues
      htransport horder nonce proof (hsub.subset hproof)
    rw [← hnode] at hid ⊢
    apply List.mem_map_of_mem
    rw [List.mem_filter, honline, Bool.true_and, Bool.not_eq_true']
    refine ⟨hmem, ?_⟩
    by_contra hbyz
    exact hhonest node hmem (by simpa using hbyz) hid

include hrepr hkeys

/-- Whatever the conditions of the nodes are, and in whatever order they answer, the vote and
the search come to the verdict, unless a byzantine node guesses right. -/
theorem decideProofs_view (hH : (sessionH nonce P : ZMod P) ≠ 0)
    (hfluke : ∀ stored subset liar, ¬Fluke prim inp (reg.did prim) nonce s stored subset liar) :
    viewAuth (decideProofs prim inp (reg.did prim) nonce
        (collectProofs prim inp s.nodes (reg.did prim) nonce) s).1 =
      if inp.logWrite == .committed then verdictOf s.nodes else .raised := by
  obtain ⟨honest, hcollected⟩ :=
    collectProofs_local hordered henrolled hdec fakeValues nonce inp htransport horder
  have hlen := hcollected.length
  have hhonestLen := hcollected.honestLength
  have hstored := reg.getCommitmentHash_recorded henrolled.recorded hrepr
  unfold verdictOf
  by_cases hfew : s.nodes.countP Node.online < threshold
  · rw [if_pos hfew, decideProofs, runPbftRound_of_few _ _ (by omega), reject_view]
  · rw [if_neg hfew]
    obtain ⟨hpair, accepted, hround⟩ := round_of_carried (roundId nonce (reg.did prim)) _
      (sessionPair nonce) hcollected.ids hcollected.carried (by omega)
    rw [decideProofs_eq henrolled.recorded hrepr inp nonce _ accepted _ hround hpair,
      List.filter_eq_self.mpr hcollected.carried]
    by_cases henough : threshold ≤ s.nodes.countP (fun node => node.online && !node.byzantine)
    · rw [if_pos henough]
      -- the first threshold of honest answers is a subset that opens
      have hfirst : (honest.take threshold).length = threshold := by
        rw [List.length_take]
        omega
      have hsub := (List.take_sublist threshold honest).trans hcollected.sub
      have hopen := opensCommitment_honest prim reg password nonce hH _ hfirst
        (hcollected.xs.sublist (hsub.map _))
        (fun proof hproof => hcollected.honest proof (List.mem_of_mem_take hproof))
      obtain ⟨chosen, hchosen⟩ := chooseSubset_of_hit _ _ hcollected.xs ⟨_, hsub, hfirst, hopen⟩
      obtain ⟨token, htoken⟩ := Iat.issue_ok prim keys inp.token (reg.did prim)
        (chosen.map PartialProof.nodeId)
      rw [hchosen]
      simp only [settleSearch, hkeys, htoken]
      exact logSuccess_view prim inp _ chosen token s
    · rw [if_neg henough]
      -- every threshold of answers has one of a byzantine node, which opens nothing
      have hmiss : chooseSubset (some (.str (reg.commitment prim password)))
          (collectProofs prim inp s.nodes (reg.did prim) nonce) = .ok none := by
        apply (findFirst_eq_none _ _).mpr
        intro subset hsubset
        obtain ⟨hsub, hsize⟩ := (mem_combinations _ _ _).mp hsubset
        obtain ⟨b, hb⟩ := opensCommitment_returns (some (.str (reg.commitment prim password)))
          subset hsize (hcollected.xs.sublist (hsub.map _))
        cases b with
        | false => exact hb
        | true =>
          exfalso
          apply henough
          rw [← hsize]
          apply honest_answers_length hordered henrolled hdec inp fakeValues htransport horder
            nonce subset hsub
          intro liar hliar hbyz hused
          exact hfluke _ subset liar ⟨hstored, hsub, hsize, hb, hliar, hbyz, hused⟩
      rw [hmiss]
      exact reject_view prim inp _ _ s

omit henrolled hdec hrepr hkeys hordered htransport horder in
/-- Nodes that do not lie make no guesses. -/
theorem not_fluke_of_honest (did : String) (hhonest : ∀ node ∈ s.nodes, node.byzantine = false)
    (stored : Option Json) (subset : List PartialProof) (liar : Node) :
    ¬Fluke prim inp did nonce s stored subset liar := by
  intro h
  have hno := hhonest liar h.mem
  rw [h.byzantine] at hno
  cases hno

end Verdict

end DecentralizedIDP
