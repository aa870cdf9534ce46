import DecentralizedIDP.FaultTolerance

/-! A single byzantine node among those that respond. Its value moves every subset it is
in off the secret, so none of these subsets opens the commitment. -/
namespace DecentralizedIDP
open Foundations

/-- The nodes that respond, each with the proof it made, in the order of arrival. Only
`liar` is byzantine, and its fake value is not the one its share gives. -/
structure OneLiar (prim : Primitives) (did : String) (nonce : Bytes) (nodes : List Node)
    (fakeValues : ℤ → Fin (P-1)) (liar : Node) (responses : List (Node × PartialProof)) :
    Prop where
  once : (responses.map (fun r => r.1.nodeId)).Nodup
  known : ∀ r ∈ responses, r.1 ∈ nodes
  responds : liar ∈ responses.map Prod.fst
  made : ∀ r ∈ responses,
    r.1.computePartialProof prim (fakeValues r.1.nodeId) did nonce = .ok r.2
  byzantine : ∀ r ∈ responses, r.1.byzantine = true ↔ r.1 = liar
  fake : ∀ share, liar.shareStore.getShare prim did = .ok (some share) →
    ¬((fakeValues liar.nodeId).val : ℤ)+1 ≡ share.2*sessionH nonce P [ZMOD P]

/-- The sharing polynomial of a registration, over the field of `P`. -/
noncomputable def RegisterInputs.poly (prim : Primitives) (reg : RegisterInputs)
    (password : String) : Polynomial (ZMod P) := sharePoly P (reg.coefficients prim password)

theorem RegisterInputs.poly_degree_lt (prim : Primitives) (reg : RegisterInputs)
    (password : String) : (reg.poly prim password).degree < (threshold : ℕ) :=
  shareCoefficients_degree_lt P _ threshold (by decide) reg.draws

theorem RegisterInputs.poly_eval_zero (prim : Primitives) (reg : RegisterInputs)
    (password : String) :
    (reg.poly prim password).eval 0 = ((reg.secret prim password : ℤ) : ZMod P) :=
  shareCoefficients_eval_zero P _ threshold reg.draws

namespace OneLiar
variable {prim : Primitives} {reg : RegisterInputs} {password : String} {s : System}
  {nonce : Bytes} {fakeValues : ℤ → Fin (P-1)} {liar : Node}
  {responses : List (Node × PartialProof)}
  (h : OneLiar prim (reg.did prim) nonce s.nodes fakeValues liar responses)
  (hordered : NodesOrdered s) (henrolled : reg.Enrolled prim password s)
  (hdec : prim.DecryptsEncrypted)
include h hordered henrolled hdec

/-- Each response is under its node's id and index, with the session's pair, and its
value is off the polynomial exactly when the node lies. -/
theorem answer (r : Node × PartialProof) (hr : r ∈ responses) :
    Answers nonce r.1 r.2 ∧ (∃ k < nNodes, r.1.nodeId = ((k+1 : ℕ) : ℤ)) ∧
      (r.1 = liar ↔ (r.2.partialValue : ZMod P) ≠
        (reg.poly prim password).eval (r.2.x : ZMod P)*(sessionH nonce P : ZMod P)) := by
  obtain ⟨k, hk⟩ := List.mem_iff_getElem?.mp (h.known r hr)
  obtain ⟨hkn, hid⟩ := hordered.nodeId k r.1 hk
  have hshare := RegisterInputs.getShare_enrolled henrolled hdec k r.1 hk
  have hvalue := reg.yValue_cast prim password (k+1)
  have hmade := h.made r hr
  have honline : r.1.online = true := by
    by_contra hoff
    rw [Node.computePartialProof, if_pos (by simpa using hoff)] at hmade
    cases hmade
  rw [Node.computePartialProof, honline, hshare] at hmade
  -- a byzantine node is the liar, whose value is not that of its share
  cases hbyz : r.1.byzantine with
  | true =>
    have hliar := (h.byzantine r hr).mp hbyz
    simp only [hbyz, Bool.not_true, Bool.false_eq_true, ↓reduceIte, Except.ok.injEq] at hmade
    have hfake := h.fake _ (hliar ▸ hshare)
    rw [← hliar, ← ZMod.intCast_eq_intCast_iff, Int.cast_mul, hvalue] at hfake
    rw [← hmade]
    refine ⟨⟨rfl, hid.symm, (carries_iff _ _).mpr ⟨rfl, rfl⟩⟩, ⟨k, hkn, hid⟩, iff_of_true hliar ?_⟩
    rwa [Int.cast_natCast]
  | false =>
    have hliar : ¬r.1 = liar := fun heq => by
      rw [(h.byzantine r hr).mpr heq] at hbyz
      cases hbyz
    simp only [hbyz, Bool.not_true, Bool.false_eq_true, ↓reduceIte, Except.ok.injEq] at hmade
    rw [← hmade]
    refine ⟨⟨rfl, hid.symm, (carries_iff _ _).mpr ⟨rfl, rfl⟩⟩, ⟨k, hkn, hid⟩, ?_⟩
    refine iff_of_false hliar (not_not.mpr ?_)
    rw [DecentralizedIDP.computePartialProof, cast_mod, Int.cast_mul, Int.cast_natCast, hvalue]
    rfl

omit hordered henrolled hdec in
/-- The responses under one id are those of one node. -/
theorem node_unique (r r' : Node × PartialProof) (hr : r ∈ responses) (hr' : r' ∈ responses)
    (hid : r.1.nodeId = r'.1.nodeId) : r = r' := List.inj_on_of_nodup_map h.once hr hr' hid

section Subset
variable (used : List (Node × PartialProof)) (hsub : used.Sublist responses)
include hsub

theorem used_x : (used.map Prod.snd).map (fun proof => (proof.x : ZMod P)) =
    used.map (fun r => (r.1.nodeId : ZMod P)) := by
  rw [List.map_map]
  apply List.map_congr_left
  intro r hr
  rw [Function.comp_apply, (h.answer hordered henrolled hdec r (hsub.subset hr)).1.x_eq]

theorem used_x_nodup :
    ((used.map Prod.snd).map (fun proof => (proof.x : ZMod P))).Nodup := by
  rw [h.used_x hordered henrolled hdec used hsub]
  apply List.Nodup.map_on _ (List.Nodup.of_map _ (h.once.sublist (hsub.map _)))
  intro r hr r' hr' heq
  obtain ⟨-, ⟨j, hj, hidj⟩, -⟩ := h.answer hordered henrolled hdec r (hsub.subset hr)
  obtain ⟨-, ⟨k, hk, hidk⟩, -⟩ := h.answer hordered henrolled hdec r' (hsub.subset hr')
  rw [hidj, hidk, Int.cast_natCast, Int.cast_natCast] at heq
  have hjk := index_cast_injective (j+1) (k+1) (by omega) (by omega) heq
  exact h.node_unique r r' (hsub.subset hr) (hsub.subset hr')
    (by rw [hidj, hidk, hjk])

/-- A threshold of responses with the liar's gives another value than the secret. -/
theorem recover_misses (hlen : used.length = threshold) (hliar : liar ∈ used.map Prod.fst)
    (hH : (sessionH nonce P : ZMod P) ≠ 0) :
    ∃ v, recoverSecretFromPartialProofs (used.map Prod.snd) P = .ok v ∧ 0 ≤ v ∧ v < P ∧
      v ≠ reg.secret prim password := by
  have hanswer (r : Node × PartialProof) (hr : r ∈ used) :=
    h.answer hordered henrolled hdec r (hsub.subset hr)
  obtain ⟨lie, hlie, hfst⟩ := List.mem_map.mp hliar
  have hlen' : (used.map Prod.snd).length = threshold := (List.length_map _).trans hlen
  have hnonzero : ∀ proof ∈ used.map Prod.snd, (proof.x : ZMod P) ≠ 0 := by
    intro proof hproof hzero
    obtain ⟨r, hr, rfl⟩ := List.mem_map.mp hproof
    obtain ⟨hans, ⟨k, hk, hid⟩, -⟩ := hanswer r hr
    rw [hans.x_eq, hid, Int.cast_natCast, ← Nat.cast_zero] at hzero
    have := index_cast_injective (k+1) 0 (by omega) (by omega) hzero
    omega
  have hsame : ∀ proof ∈ used.map Prod.snd, proof.H = sessionH nonce P := by
    intro proof hproof
    obtain ⟨r, hr, rfl⟩ := List.mem_map.mp hproof
    exact ((carries_iff _ _).mp (hanswer r hr).1.carried).2
  have hon : ∀ proof ∈ used.map Prod.snd, proof ≠ lie.2 → (proof.partialValue : ZMod P) =
      (reg.poly prim password).eval (proof.x : ZMod P)*(sessionH nonce P : ZMod P) := by
    intro proof hproof hother
    obtain ⟨r, hr, rfl⟩ := List.mem_map.mp hproof
    by_contra hoff
    -- a second response off the polynomial would be the liar's again
    have hr' := (hanswer r hr).2.2.mpr hoff
    rw [h.node_unique r lie (hsub.subset hr) (hsub.subset hlie) (by rw [hr', hfst])] at hother
    exact hother rfl
  obtain ⟨v, hv, h0, hlt, hne⟩ := recover_off P (reg.poly prim password) (sessionH nonce P) _
    hlen'.ge (hlen' ▸ reg.poly_degree_lt prim password)
    (h.used_x_nodup hordered henrolled hdec used hsub) hnonzero hH hsame lie.2
    (List.mem_map_of_mem hlie) ((hanswer lie hlie).2.2.mp hfst) hon
  refine ⟨v, hv, h0, hlt, ?_⟩
  rintro rfl
  exact hne (reg.poly_eval_zero prim password).symm

/-- Such a subset opens the commitment only by a collision. -/
theorem collides_of_opened (hlen : used.length = threshold) (hliar : liar ∈ used.map Prod.fst)
    (hH : (sessionH nonce P : ZMod P) ≠ 0)
    (hopen : opensCommitment (some (.str (reg.commitment prim password)))
      (used.map Prod.snd) = .ok true) : reg.SecretCollides prim password := by
  obtain ⟨v, hv, h0, hlt, hne⟩ :=
    h.recover_misses hordered henrolled hdec used hsub hlen hliar hH
  obtain ⟨v', text, hv', htext, hstored⟩ := opensCommitment_true _ _ hopen
  rw [hv, Except.ok.injEq] at hv'
  subst hv'
  rw [commitmentHash_ok v h0 hlt, Except.ok.injEq] at htext
  rw [Option.some.injEq, Json.str.injEq] at hstored
  exact reg.secretCollides_of_opened prim password v h0 hlt hne (htext.trans hstored.symm)

end Subset

end OneLiar

/-! ## The responses of local nodes -/

/-- The nodes that answer, in the order in which they arrive, with their answers. -/
def localResponses (prim : Primitives) (nodes : List Node) (did : String)
    (fakeValues : ℤ → Fin (P-1)) (nonce : Bytes) (arrived : List Node) :
    List (Node × PartialProof) :=
  arrived.filterMap (fun node =>
    (localAnswer prim nodes did fakeValues nonce node).map (fun proof => (node, proof)))

section LocalNodes
variable {prim : Primitives} {reg : RegisterInputs} {password : String} {s : System}
  (hordered : NodesOrdered s) (henrolled : reg.Enrolled prim password s)
  (hdec : prim.DecryptsEncrypted) (fakeValues : ℤ → Fin (P-1)) (nonce : Bytes)
include hordered

theorem localAnswer_made (did : String) (node : Node) (hnode : node ∈ s.nodes)
    (proof : PartialProof)
    (hproof : localAnswer prim s.nodes did fakeValues nonce node = some proof) :
    node.computePartialProof prim (fakeValues node.nodeId) did nonce = .ok proof := by
  simp only [localAnswer, Transport.requestPartialProof, hordered.find?_nodeId node hnode,
    fromhex_hex] at hproof
  split_ifs at hproof
  cases hmade : node.computePartialProof prim (fakeValues node.nodeId) did nonce with
  | error e =>
    rw [hmade] at hproof
    cases hproof
  | ok made =>
    rw [hmade] at hproof
    rw [Option.some.inj hproof]

omit hordered in
theorem mem_localResponses (nodes : List Node) (did : String) (arrived : List Node)
    (r : Node × PartialProof) : r ∈ localResponses prim nodes did fakeValues nonce arrived ↔
      r.1 ∈ arrived ∧ localAnswer prim nodes did fakeValues nonce r.1 = some r.2 := by
  rw [localResponses, List.mem_filterMap]
  constructor
  · rintro ⟨node, hnode, hanswer⟩
    obtain ⟨proof, hproof, rfl⟩ := Option.map_eq_some_iff.mp hanswer
    exact ⟨hnode, hproof⟩
  · intro h
    exact ⟨r.1, h.1, by rw [h.2, Option.map_some]⟩

omit hordered in
theorem localResponses_proofs (nodes : List Node) (did : String) (arrived : List Node) :
    (localResponses prim nodes did fakeValues nonce arrived).map Prod.snd =
      arrived.filterMap (localAnswer prim nodes did fakeValues nonce) := by
  rw [localResponses, List.map_filterMap]
  congr 1
  funext node
  rw [Option.map_map]
  exact Option.map_id'

omit hordered in
theorem localResponses_nodeId_sublist (nodes : List Node) (did : String) (arrived : List Node) :
    ((localResponses prim nodes did fakeValues nonce arrived).map (fun r => r.1.nodeId)).Sublist
      (arrived.map Node.nodeId) := by
  apply map_filterMap_sublist
  intro node _ r hr
  obtain ⟨proof, -, rfl⟩ := Option.map_eq_some_iff.mp hr
  rfl

include henrolled hdec

/-- Through the local transport the online nodes respond. -/
theorem collectProofs_oneLiar (inp : AuthInputs)
    (htransport : inp.transport = .localNodes fakeValues)
    (horder : inp.completionOrder.Perm (List.range nNodes)) (liar : Node) (hmem : liar ∈ s.nodes)
    (honline : liar.online = true)
    (hbyz : ∀ node ∈ s.nodes, node.online = true → (node.byzantine = true ↔ node = liar))
    (hfake : ∀ share, liar.shareStore.getShare prim (reg.did prim) = .ok (some share) →
      ¬((fakeValues liar.nodeId).val : ℤ)+1 ≡ share.2*sessionH nonce P [ZMOD P]) :
    ∃ responses, OneLiar prim (reg.did prim) nonce s.nodes fakeValues liar responses ∧
      collectProofs prim inp s.nodes (reg.did prim) nonce = responses.map Prod.snd := by
  obtain ⟨arrived, hperm, hproofs⟩ :=
    collectProofs_arrived hordered fakeValues nonce inp htransport horder (reg.did prim)
  refine ⟨localResponses prim s.nodes (reg.did prim) fakeValues nonce arrived, ?_,
    hproofs.trans (localResponses_proofs fakeValues nonce _ _ _).symm⟩
  have hresponse (r : Node × PartialProof)
      (hr : r ∈ localResponses prim s.nodes (reg.did prim) fakeValues nonce arrived) :
      r.1 ∈ s.nodes ∧ localAnswer prim s.nodes (reg.did prim) fakeValues nonce r.1 = some r.2 :=
    ((mem_localResponses fakeValues nonce _ _ _ r).mp hr).imp_left hperm.mem_iff.mp
  constructor
  case once =>
    have hids := (hperm.map Node.nodeId).nodup_iff.mpr hordered.nodeId_nodup
    exact hids.sublist (localResponses_nodeId_sublist fakeValues nonce _ _ arrived)
  case known => exact fun r hr => (hresponse r hr).1
  case responds =>
    obtain ⟨proof, hproof, -⟩ :=
      localAnswer_online hordered henrolled hdec fakeValues nonce liar hmem honline
    apply List.mem_map_of_mem (a := (liar, proof))
    exact (mem_localResponses fakeValues nonce _ _ _ _).mpr ⟨hperm.mem_iff.mpr hmem, hproof⟩
  case made =>
    intro r hr
    obtain ⟨hnode, hproof⟩ := hresponse r hr
    exact localAnswer_made hordered fakeValues nonce _ r.1 hnode r.2 hproof
  case byzantine =>
    intro r hr
    obtain ⟨hnode, hproof⟩ := hresponse r hr
    -- only online nodes answer
    have hsome := localAnswer_isSome hordered henrolled hdec fakeValues nonce r.1 hnode
    rw [hproof, Option.isSome_some] at hsome
    exact hbyz r.1 hnode hsome.symm
  case fake => exact hfake

end LocalNodes

/-- When exactly one of the nodes that respond lies, an authentication that succeeds,
whatever the order of arrival, records a quorum without it, or a collision is known. -/
theorem liar_not_in_quorum (prim : Primitives) (hdec : prim.DecryptsEncrypted)
    (hrepr : prim.PrintsFloats) (aesKeys : ℕ → Token 32) (systemKeys : Option SystemKeys)
    (reg : RegisterInputs) (password : String) (before after : List Op)
    (hdone : Completed prim aesKeys systemKeys reg password before after) (s : System)
    (hs : s = runOps prim aesKeys systemKeys (before ++ Op.register password reg :: after))
    (challengeId : String) (entry : Challenge) (hentry : s.pending challengeId = some entry)
    (hnonce : fromBytes (sha3_256 entry.nonce) % P ≠ 0) (signatureHex : String)
    (inp : AuthInputs) (preCollected : Option (List PartialProof)) (fakeValues : ℤ → Fin (P-1))
    (liar : Node) (responses : List (Node × PartialProof))
    (hliar : OneLiar prim (reg.did prim) entry.nonce s.nodes fakeValues liar responses)
    (hdelivered : deliveredProofs prim inp preCollected s.nodes (reg.did prim) entry.nonce =
      responses.map Prod.snd)
    (token : String)
    (hsuccess : (authenticate prim inp (reg.did prim) challengeId signatureHex preCollected s).1 =
      .ok (success token)) :
    (∃ quorumNodes, liar.nodeId ∉ quorumNodes ∧
      (authenticate prim inp (reg.did prim) challengeId signatureHex preCollected s).2.ledger =
        s.ledger ++ [Ledger.newEntry prim.repr inp.loggedAt "AUTH_SUCCESS" (reg.did prim)
          (successData quorumNodes token) s.ledger] ∧
      Iat.issue prim s.systemKeys inp.token (reg.did prim) quorumNodes = .ok token) ∨
    reg.SecretCollides prim password := by
  have hordered : NodesOrdered s := hs ▸ nodesOrdered_run prim aesKeys systemKeys _
  have henrolled : reg.Enrolled prim password s := hs ▸ hdone.enrolled
  obtain ⟨entry', pair, chosen, hentry', -, hpassed, hstate⟩ :=
    authenticate_success prim inp _ challengeId signatureHex preCollected s token hsuccess
  rw [hentry, Option.some.injEq] at hentry'
  rw [← hentry', hdelivered] at hpassed
  obtain ⟨stored, hstored, hchosen⟩ := hpassed.opened
  rw [reg.getCommitmentHash_recorded henrolled.recorded hrepr, Except.ok.injEq] at hstored
  obtain ⟨hsub, hlen, hopen⟩ := chooseSubset_some stored _ chosen hchosen
  obtain ⟨used, hused, rfl⟩ := List.sublist_map_iff.mp (hsub.trans List.filter_sublist)
  rw [List.length_map] at hlen
  by_cases hin : liar ∈ used.map Prod.fst
  · right
    apply hliar.collides_of_opened hordered henrolled hdec used hused hlen hin
      (sessionH_ne_zero _ hnonce)
    rwa [hstored]
  · left
    refine ⟨(used.map Prod.snd).map PartialProof.nodeId, ?_, congrArg System.ledger hstate,
      hpassed.issued⟩
    -- the id of a proof is that of its node, and different nodes have different ids
    intro hid
    rw [List.map_map] at hid
    obtain ⟨r, hr, hid⟩ := List.mem_map.mp hid
    obtain ⟨lie, hlie, rfl⟩ := List.mem_map.mp hliar.responds
    have hans := (hliar.answer hordered henrolled hdec r (hused.subset hr)).1
    have hrl := hliar.node_unique r lie (hused.subset hr) hlie (hans.nodeId.symm.trans hid)
    exact hin (hrl ▸ List.mem_map_of_mem hr)

/-- A challenge is issued, then the third node turns byzantine. -/
def lyingOps : List Op := [sampleIssue (zeroToken 32) (sampleDid [7]), .setByzantine 3 true]

def lyingSession : System := sampleSession [7] "pw" lyingOps

def lyingAuth (draw : Fin (P-1)) : AuthInputs :=
  { sampleAuth [4,2,0,1,3] with transport := .localNodes (fun _ => draw) }

theorem lyingOps_spare (op : Op) (hop : op ∈ lyingOps) :
    op.SparesDid samplePrimitives (sampleDid [7]) := by
  simp only [lyingOps, sampleIssue, List.mem_cons, List.not_mem_nil, or_false] at hop
  rcases hop with rfl | rfl <;> trivial

theorem lyingSession_flags :
    lyingSession.nodes.map (fun node => (node.nodeId, node.online, node.byzantine)) =
      [(1, true, false), (2, true, false), (3, true, true), (4, true, false),
        (5, true, false)] := by
  obtain ⟨files, heq⟩ := sampleSession_eq [7] "pw" lyingOps
  rw [lyingSession, heq]
  rfl

theorem lyingSession_honest : threshold ≤
    lyingSession.nodes.countP (fun node => node.online && !node.byzantine) := by
  have hcount := congrArg (List.countP (fun flags => flags.2.1 && !flags.2.2)) lyingSession_flags
  rw [List.countP_map] at hcount
  exact Nat.le_trans (by decide) hcount.ge

theorem lyingSession_pending :
    lyingSession.pending "c" = some (sampleChallenge (zeroToken 32) (sampleDid [7])) := by
  obtain ⟨files, heq⟩ := sampleSession_eq [7] "pw" lyingOps
  rw [lyingSession, heq]
  rfl

/-- The nodes of the session are online, and the third is the only byzantine one. -/
theorem lyingSession_liar : ∃ liar ∈ lyingSession.nodes, liar.nodeId = 3 ∧ liar.online = true ∧
    ∀ node ∈ lyingSession.nodes, node.online = true → (node.byzantine = true ↔ node = liar) := by
  have hordered : NodesOrdered lyingSession := sampleSession_ordered [7] "pw" lyingOps
  have hflags (node : Node) (hnode : node ∈ lyingSession.nodes) :
      node.online = true ∧ (node.byzantine = true ↔ node.nodeId = 3) := by
    have hmem := List.mem_map_of_mem
      (f := fun node : Node => (node.nodeId, node.online, node.byzantine)) hnode
    rw [lyingSession_flags] at hmem
    have hall : ∀ flags ∈ ([(1, true, false), (2, true, false), (3, true, true), (4, true, false),
        (5, true, false)] : List (ℤ × Bool × Bool)),
        flags.2.1 = true ∧ (flags.2.2 = true ↔ flags.1 = 3) := by decide
    exact hall _ hmem
  obtain ⟨liar, hliar, hid⟩ : ∃ liar ∈ lyingSession.nodes, liar.nodeId = 3 := by
    have hmem : (3, true, true) ∈
        lyingSession.nodes.map (fun node => (node.nodeId, node.online, node.byzantine)) := by
      rw [lyingSession_flags]
      decide
    obtain ⟨node, hnode, heq⟩ := List.mem_map.mp hmem
    exact ⟨node, hnode, (Prod.mk.inj heq).1⟩
  refine ⟨liar, hliar, hid, (hflags liar hliar).1, ?_⟩
  intro node hnode _
  rw [(hflags node hnode).2]
  constructor
  · intro hthree
    exact List.inj_on_of_nodup_map hordered.nodeId_nodup hnode hliar (hthree.trans hid.symm)
  · rintro rfl
    exact hid

/-- Of two draws one is not the value of the share. -/
theorem exists_fake (value : ℤ) : ∃ draw : Fin (P-1), ¬(draw.val : ℤ)+1 ≡ value [ZMOD P] := by
  have hP := nNodes_lt_P
  rw [nNodes] at hP
  by_contra hall
  rw [not_exists] at hall
  have h0 := not_not.mp (hall ⟨0, by omega⟩)
  have h1 := not_not.mp (hall ⟨1, by omega⟩)
  have hdvd := (h0.trans h1.symm).dvd
  have hle := Int.le_of_dvd (by norm_num) hdvd
  norm_num at hle
  omega

theorem liar_not_in_quorum_sample : ∃ (draw : Fin (P-1)) (token : String),
    (authenticate samplePrimitives (lyingAuth draw) (sampleDid [7]) "c"
      (sampleSignature [7] (zeroToken 32)) none lyingSession).1 = .ok (success token) ∧
    ((∃ quorumNodes, 3 ∉ quorumNodes ∧
      (authenticate samplePrimitives (lyingAuth draw) (sampleDid [7]) "c"
        (sampleSignature [7] (zeroToken 32)) none lyingSession).2.ledger =
          lyingSession.ledger ++ [Ledger.newEntry samplePrimitives.repr 1 "AUTH_SUCCESS"
            (sampleDid [7]) (successData quorumNodes token) lyingSession.ledger] ∧
      Iat.issue samplePrimitives lyingSession.systemKeys (lyingAuth draw).token (sampleDid [7])
        quorumNodes = .ok token) ∨ (cleanRegister [7]).SecretCollides samplePrimitives "pw") := by
  have hordered : NodesOrdered lyingSession := sampleSession_ordered [7] "pw" lyingOps
  have henrolled : (cleanRegister [7]).Enrolled samplePrimitives "pw" lyingSession :=
    sampleSession_enrolled [7] "pw" lyingOps lyingOps_spare
  obtain ⟨liar, hliar, hid, honline, hbyz⟩ := lyingSession_liar
  obtain ⟨k, hk⟩ := List.mem_iff_getElem?.mp hliar
  have hshare := RegisterInputs.getShare_enrolled henrolled SamplePrimitives.decryptsEncrypted k
    liar hk
  obtain ⟨draw, hdraw⟩ := exists_fake
    ((cleanRegister [7]).yValue samplePrimitives "pw" (k+1)*sessionH (zeroToken 32).val P)
  have hdone := cleanRegister_completed [7] "pw" [] lyingOps lyingOps_spare
  have horder : [4,2,0,1,3].Perm (List.range nNodes) := by decide
  obtain ⟨responses, hone, hproofs⟩ := collectProofs_oneLiar hordered henrolled
    SamplePrimitives.decryptsEncrypted (fun _ => draw) (zeroToken 32).val (lyingAuth draw) rfl
    horder liar hliar honline hbyz (by
      intro share hstored
      rw [hshare, Except.ok.injEq, Option.some.injEq] at hstored
      rw [← hstored]
      exact hdraw)
  obtain ⟨token, htoken⟩ := (authenticate_complete samplePrimitives
    SamplePrimitives.decryptsEncrypted SamplePrimitives.verifiesSigned
    SamplePrimitives.printsFloats _ sampleKeys (cleanRegister [7]) "pw" [] lyingOps hdone
    lyingSession rfl "c" _ lyingSession_pending (sampleChallenge_hash _) [] (lyingAuth draw)
    sampleAuth_live _ rfl horder rfl).1 lyingSession_honest
  refine ⟨draw, token, htoken, ?_⟩
  rw [← hid]
  exact liar_not_in_quorum samplePrimitives SamplePrimitives.decryptsEncrypted
    SamplePrimitives.printsFloats _ _ (cleanRegister [7]) "pw" [] lyingOps hdone lyingSession rfl
    "c" _ lyingSession_pending (sampleChallenge_hash _) _ (lyingAuth draw) none (fun _ => draw)
    liar responses hone hproofs token htoken

end DecentralizedIDP
