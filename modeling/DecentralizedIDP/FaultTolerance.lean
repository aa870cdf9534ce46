import DecentralizedIDP.SampleRuns

/-! Authentication when the nodes of this process fail: some of them offline, some
byzantine with a fake value, in every order of completion. -/
namespace DecentralizedIDP
open Foundations

/-! ## What the nodes answer -/

/-- The answer of a node that holds its share: its own index and the session's pair. -/
structure Answers (nonce : Bytes) (node : Node) (proof : PartialProof) : Prop where
  nodeId : proof.nodeId = node.nodeId
  x_eq : proof.x = node.nodeId
  carried : carries (sessionPair nonce) proof = true

namespace NodesOrdered
variable {s : System} (h : NodesOrdered s)
include h

theorem nodeId_nodup : (s.nodes.map Node.nodeId).Nodup := by
  rw [h]
  decide

theorem nodeId_cast_nodup : (s.nodes.map (fun node => (node.nodeId : ZMod P))).Nodup := by
  have hcast : s.nodes.map (fun node => (node.nodeId : ZMod P)) =
      (List.range' 1 nNodes).map (fun i : ℕ => (i : ZMod P)) := by
    have hmap := congrArg (List.map (fun i : ℤ => (i : ZMod P))) h
    rw [List.map_map, List.map_map] at hmap
    simpa only [Function.comp_def, Int.cast_natCast] using hmap
  rw [hcast]
  apply List.Nodup.map_on _ List.nodup_range'
  intro i hi j hj hij
  rw [List.mem_range'_1] at hi hj
  exact index_cast_injective i j (by omega) (by omega) hij

theorem find?_nodeId (node : Node) (hnode : node ∈ s.nodes) :
    s.nodes.find? (fun other => other.nodeId == node.nodeId) = some node := by
  cases hfind : s.nodes.find? (fun other => other.nodeId == node.nodeId) with
  | none => exact absurd (beq_self_eq_true _) (List.find?_eq_none.mp hfind node hnode)
  | some found =>
    have hid := List.find?_some hfind
    rw [beq_iff_eq] at hid
    rw [List.inj_on_of_nodup_map h.nodeId_nodup (List.mem_of_find?_eq_some hfind) hnode hid]

end NodesOrdered

section LocalNodes
variable {prim : Primitives} {reg : RegisterInputs} {password : String} {s : System}
  (hordered : NodesOrdered s) (henrolled : reg.Enrolled prim password s)
  (hdec : prim.DecryptsEncrypted) (fakeValues : ℤ → Fin (P-1)) (nonce : Bytes)

/-- What the local transport returns for a node. -/
def localAnswer (prim : Primitives) (nodes : List Node) (did : String)
    (fakeValues : ℤ → Fin (P-1)) (nonce : Bytes) (node : Node) : Option PartialProof :=
  (Transport.localNodes fakeValues).requestPartialProof prim nodes node.nodeId did (hex nonce)

include hordered

theorem localAnswer_offline (did : String) (node : Node) (hnode : node ∈ s.nodes)
    (hoffline : node.online = false) :
    localAnswer prim s.nodes did fakeValues nonce node = none := by
  simp only [localAnswer, Transport.requestPartialProof, hordered.find?_nodeId node hnode,
    hoffline, Bool.not_false, ↓reduceIte]

include henrolled hdec

theorem localAnswer_online (node : Node) (hnode : node ∈ s.nodes) (honline : node.online = true) :
    ∃ proof, localAnswer prim s.nodes (reg.did prim) fakeValues nonce node = some proof ∧
      Answers nonce node proof ∧
      (node.byzantine = false → ∃ i, HonestProof prim reg password nonce i proof) := by
  obtain ⟨k, hk⟩ := List.mem_iff_getElem?.mp hnode
  obtain ⟨hkn, hid⟩ := hordered.nodeId k node hk
  have hshare := RegisterInputs.getShare_enrolled henrolled hdec k node hk
  simp only [localAnswer, Transport.requestPartialProof, hordered.find?_nodeId node hnode,
    honline, Bool.not_true, Bool.false_eq_true, ↓reduceIte, fromhex_hex, Node.computePartialProof,
    hshare]
  -- a byzantine node still answers under its id and index, with the pair of the session
  cases hbyz : node.byzantine with
  | true =>
    refine ⟨_, rfl, ⟨rfl, hid.symm, (carries_iff _ _).mpr ⟨rfl, rfl⟩⟩, fun hno => ?_⟩
    cases hno
  | false =>
    have hhonest := honestProof_compute prim reg password nonce (k+1) (by omega) node.nodeId
    exact ⟨_, rfl, ⟨rfl, hid.symm, hhonest.carried⟩, fun _ => ⟨k+1, hhonest⟩⟩

theorem localAnswer_isSome (node : Node) (hnode : node ∈ s.nodes) :
    (localAnswer prim s.nodes (reg.did prim) fakeValues nonce node).isSome = node.online := by
  cases honline : node.online with
  | false =>
    rw [localAnswer_offline hordered fakeValues nonce _ node hnode honline, Option.isSome_none]
  | true =>
    obtain ⟨proof, hproof, -⟩ :=
      localAnswer_online hordered henrolled hdec fakeValues nonce node hnode honline
    rw [hproof, Option.isSome_some]

theorem localAnswer_answers (node : Node) (hnode : node ∈ s.nodes) (proof : PartialProof)
    (hproof : localAnswer prim s.nodes (reg.did prim) fakeValues nonce node = some proof) :
    Answers nonce node proof ∧
      (node.byzantine = false → ∃ i, HonestProof prim reg password nonce i proof) := by
  have honline := localAnswer_isSome hordered henrolled hdec fakeValues nonce node hnode
  rw [hproof, Option.isSome_some] at honline
  obtain ⟨proof', hproof', hanswers⟩ :=
    localAnswer_online hordered henrolled hdec fakeValues nonce node hnode honline.symm
  rw [hproof] at hproof'
  rwa [Option.some.inj hproof']

/-! ## What is collected -/

section Collected
variable (inp : AuthInputs) (htransport : inp.transport = .localNodes fakeValues)
  (horder : inp.completionOrder.Perm (List.range nNodes))
include htransport horder

omit henrolled hdec in
/-- The answers arrive in some order of the nodes. -/
theorem collectProofs_arrived (did : String) : ∃ arrived : List Node, arrived.Perm s.nodes ∧
    collectProofs prim inp s.nodes did nonce =
      arrived.filterMap (localAnswer prim s.nodes did fakeValues nonce) := by
  refine ⟨inp.completionOrder.filterMap (fun k => s.nodes[k]?), ?_, ?_⟩
  · have hperm := horder.filterMap (fun k => s.nodes[k]?)
    rwa [← hordered.length, filterMap_getElem?_range] at hperm
  · rw [collectProofs, htransport]
    rfl

/-- What reaches the vote: one proof for each online node, under its own id and index
and with the pair of the session, and among them a proof of every honest node. -/
structure CollectedFrom (prim : Primitives) (reg : RegisterInputs) (password : String)
    (nodes : List Node) (nonce : Bytes) (proofs honest : List PartialProof) : Prop where
  ids : (proofs.map PartialProof.nodeId).Nodup
  xs : (proofs.map (fun proof => (proof.x : ZMod P))).Nodup
  carried : ∀ proof ∈ proofs, carries (sessionPair nonce) proof = true
  length : proofs.length = nodes.countP Node.online
  sub : honest.Sublist proofs
  honestLength : honest.length = nodes.countP (fun node => node.online && !node.byzantine)
  honest : ∀ proof ∈ honest, ∃ i, HonestProof prim reg password nonce i proof

theorem collectProofs_local : ∃ honest, CollectedFrom prim reg password s.nodes nonce
    (collectProofs prim inp s.nodes (reg.did prim) nonce) honest := by
  obtain ⟨arrived, hperm, hproofs⟩ :=
    collectProofs_arrived hordered fakeValues nonce inp htransport horder (reg.did prim)
  have hmem (node : Node) (hnode : node ∈ arrived) : node ∈ s.nodes := hperm.mem_iff.mp hnode
  have hanswers (node : Node) (hnode : node ∈ arrived) (proof : PartialProof)
      (hproof : localAnswer prim s.nodes (reg.did prim) fakeValues nonce node = some proof) :=
    localAnswer_answers hordered henrolled hdec fakeValues nonce node (hmem node hnode) proof
      hproof
  have hsome (node : Node) (hnode : node ∈ arrived) :=
    localAnswer_isSome hordered henrolled hdec fakeValues nonce node (hmem node hnode)
  rw [hproofs]
  refine ⟨(arrived.filter (fun node => node.online && !node.byzantine)).filterMap
    (localAnswer prim s.nodes (reg.did prim) fakeValues nonce), ?_⟩
  constructor
  case ids =>
    -- ids and indices are those of the nodes, which are all different
    have hids := (hperm.map Node.nodeId).nodup_iff.mpr hordered.nodeId_nodup
    exact hids.sublist (map_filterMap_sublist _ _ _ arrived
      (fun node hnode proof hproof => (hanswers node hnode proof hproof).1.nodeId))
  case xs =>
    have hxs := (hperm.map (fun node => (node.nodeId : ZMod P))).nodup_iff.mpr
      hordered.nodeId_cast_nodup
    exact hxs.sublist (map_filterMap_sublist _ _ _ arrived
      (fun node hnode proof hproof => by rw [(hanswers node hnode proof hproof).1.x_eq]))
  case carried =>
    intro proof hproof
    obtain ⟨node, hnode, hanswer⟩ := List.mem_filterMap.mp hproof
    exact (hanswers node hnode proof hanswer).1.carried
  case length =>
    -- a node is silent exactly when it is offline
    rw [List.length_filterMap_eq_countP, ← hperm.countP_eq]
    apply List.countP_congr
    intro node hnode
    rw [hsome node hnode]
  case sub => exact List.filter_sublist.filterMap _
  case honestLength =>
    rw [List.length_filterMap_eq_countP, List.countP_filter, ← hperm.countP_eq]
    apply List.countP_congr
    intro node hnode
    rw [hsome node hnode]
    cases node.online <;> simp
  case honest =>
    intro proof hproof
    obtain ⟨node, hnode, hanswer⟩ := List.mem_filterMap.mp hproof
    obtain ⟨hnode, hgood⟩ := List.mem_filter.mp hnode
    rw [Bool.and_eq_true, Bool.not_eq_true'] at hgood
    exact (hanswers node hnode proof hanswer).2 hgood.2

end Collected

end LocalNodes

/-! ## Faults up to the threshold -/

section Completeness
variable (prim : Primitives) (hdec : prim.DecryptsEncrypted) (hverify : prim.VerifiesSigned)
  (hrepr : prim.PrintsFloats)
include hdec hverify hrepr

/-- With a threshold of honest nodes online every authentication of a completed
registration succeeds; with fewer nodes online than that none does. -/
theorem authenticate_complete (aesKeys : ℕ → Token 32) (keys : SystemKeys) (reg : RegisterInputs)
    (password : String) (before after : List Op)
    (hdone : Completed prim aesKeys (some keys) reg password before after) (s : System)
    (hs : s = runOps prim aesKeys (some keys) (before ++ Op.register password reg :: after))
    (challengeId : String) (entry : Challenge) (hentry : s.pending challengeId = some entry)
    (hnonce : fromBytes (sha3_256 entry.nonce) % P ≠ 0) (coins : Bytes) (inp : AuthInputs)
    (hlive : inp.consumedAt ≤ entry.expiresAt) (fakeValues : ℤ → Fin (P-1))
    (htransport : inp.transport = .localNodes fakeValues)
    (horder : inp.completionOrder.Perm (List.range nNodes)) (hwrite : inp.logWrite = .committed) :
    let signature := prim.sign coins (prim.generateKeypair reg.keySeed).1
      (entry.nonce.val ++ encode (reg.did prim))
    let result := (authenticate prim inp (reg.did prim) challengeId (hex signature) none s).1
    (threshold ≤ s.nodes.countP (fun node => node.online && !node.byzantine) →
      ∃ token, result = .ok (success token)) ∧
    (s.nodes.countP Node.online < threshold → result = .ok (fail "quorum_not_reached")) := by
  intro signature result
  -- the fake values of byzantine nodes keep id, index and pair, so only the value is wrong
  have hordered : NodesOrdered s := hs ▸ nodesOrdered_run prim aesKeys (some keys) _
  have henrolled : reg.Enrolled prim password s := hs ▸ hdone.enrolled
  obtain ⟨honest, hcollected⟩ :=
    collectProofs_local hordered henrolled hdec fakeValues entry.nonce inp htransport horder
  have hlen := hcollected.length
  have hhonestLen := hcollected.honestLength
  have hresult : result = (decideProofs prim inp (reg.did prim) entry.nonce
      (collectProofs prim inp s.nodes (reg.did prim) entry.nonce)
      { s with pending := ChallengeManager.remove challengeId s.pending }).1 :=
    congrArg Prod.fst (authenticate_eq_decide henrolled.recorded hrepr inp challengeId _ none
      entry signature hentry hlive (fromhex_hex _) (hverify _ _ _))
  rw [hresult]
  constructor
  · intro henough
    apply decideProofs_carried
      (s := { s with pending := ChallengeManager.remove challengeId s.pending })
      henrolled.recorded hrepr inp entry.nonce
      entry.nonce (sessionH_ne_zero _ hnonce) _ honest hcollected.ids hcollected.xs
      hcollected.carried hcollected.sub (by omega) hcollected.honest keys _ hwrite
    rw [hs]
    exact systemKeys_run prim aesKeys (some keys) _
  · intro hfew
    exact decideProofs_few inp (reg.did prim) entry.nonce _ hwrite (by omega)

end Completeness

/-- A challenge is issued, then the second node goes offline and the fifth turns byzantine. -/
def faultyOps : List Op :=
  [sampleIssue (zeroToken 32) (sampleDid [7]), .setOnline 2 false, .setByzantine 5 true]

theorem authenticate_complete_faulty :
    ∃ token, (authenticate samplePrimitives (sampleAuth [4,2,0,1,3]) (sampleDid [7]) "c"
      (sampleSignature [7] (zeroToken 32)) none (sampleSession [7] "pw" faultyOps)).1 =
        .ok (success token) := by
  have hdone : Completed samplePrimitives (fun _ => zeroToken 32) (some sampleKeys)
      (cleanRegister [7]) "pw" [] faultyOps := by
    apply cleanRegister_completed
    intro op hop
    simp only [faultyOps, sampleIssue, List.mem_cons, List.not_mem_nil, or_false] at hop
    rcases hop with rfl | rfl | rfl <;> trivial
  obtain ⟨files, heq⟩ := sampleSession_eq [7] "pw" faultyOps
  refine (authenticate_complete samplePrimitives SamplePrimitives.decryptsEncrypted
    SamplePrimitives.verifiesSigned SamplePrimitives.printsFloats _ sampleKeys (cleanRegister [7])
    "pw" [] faultyOps hdone _ rfl "c" (sampleChallenge (zeroToken 32) (sampleDid [7])) ?_
    (sampleChallenge_hash _) [] (sampleAuth [4,2,0,1,3]) sampleAuth_live _ rfl (by decide) rfl).1 ?_
  · rw [← sampleSession, heq]
    rfl
  · rw [← sampleSession, heq]
    exact Nat.le_of_eq rfl

end DecentralizedIDP
