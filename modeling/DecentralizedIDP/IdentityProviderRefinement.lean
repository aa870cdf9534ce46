import DecentralizedIDP.CallOutcomes

/-! The coordinator with its ledger, shares and proofs does what the identity provider is
for, call by call and through restarts. -/
namespace DecentralizedIDP
open Foundations

/-! ## The relation -/

def Node.mode (node : Node) : Mode := ⟨node.online, node.byzantine⟩

/-- What the abstract provider knows of a DID: nothing while no row registers it, and the public
key once the whole registration is on disk. -/
def Identity (prim : Primitives) (r : Running) (a : Idp) (did : String) : Prop :=
  (a.registered did = none ∧ Ledger.latestRegister did r.system.ledger = none) ∨
    ∃ (reg : RegisterInputs) (password : String), reg.did prim = did ∧
      a.registered did = some (reg.publicKey prim) ∧ reg.Durable prim password r

/-- The running coordinator and its files stand for the abstract state. -/
structure Represents (prim : Primitives) (r : Running) (a : Idp) : Prop where
  behind : (Running.ledgerLog prim).Behind r
  identities : ∀ did, Identity prim r a did
  challenges : ∀ challengeId, a.challenges challengeId =
    (r.system.pending challengeId).map (fun c => (c.nonce.val, c.expiresAt))
  modes : ∀ node ∈ r.system.nodes, a.modes node.nodeId = node.mode
  blinding : ∀ challengeId entry, r.system.pending challengeId = some entry →
    fromBytes (sha3_256 entry.nonce) % P ≠ 0

/-- The calls that the abstract provider explains: a DID is registered once, and its row is
committed if it is accepted at all; a nonce does not hash to a multiple of `P`; and proofs
come from the nodes of the process, none of which guesses right. -/
def Fair (prim : Primitives) (r : Running) : LifeOp → Prop
  | .call (.register _ inp) => Ledger.latestRegister (inp.did prim) r.system.ledger = none ∧
      ∀ message, inp.ledgerWrite ≠ .uncommitted message
  | .call (.issue _ inp) => fromBytes (sha3_256 inp.nonce) % P ≠ 0
  | .call (.authenticate did challengeId _ preCollected inp) => preCollected = none ∧
      (∃ fakeValues, inp.transport = .localNodes fakeValues) ∧
      inp.completionOrder.Perm (List.range nNodes) ∧
      ∀ entry, r.system.pending challengeId = some entry → ∀ stored subset liar,
        ¬Fluke prim inp did entry.nonce r.system stored subset liar
  | _ => True

/-! ## One call -/

namespace Represents
variable {prim : Primitives} {r : Running} {a : Idp} (h : Represents prim r a)
include h

theorem ordered : NodesOrdered r.system := h.behind.1.ordered

theorem openNonce_eq (challengeId : String) (now : ℚ) : a.openNonce challengeId now =
    (ChallengeManager.consume challengeId now r.system.pending).1 := by
  rw [Idp.openNonce, h.challenges, ← ChallengeManager.peek_eq_consume, ChallengeManager.peek]
  cases r.system.pending challengeId with
  | none => rfl
  | some entry =>
    rw [Option.map_some, Option.bind_some]
    dsimp only
    split_ifs with hlive hexpired hexpired
    · exact absurd hlive (not_le.mpr hexpired)
    · rfl
    · rfl
    · exact absurd (not_lt.mp hexpired) hlive

theorem nodeModes_eq : a.nodeModes = r.system.nodes.map Node.mode := by
  have hids : (List.range' 1 nNodes).map (fun i : ℕ => a.modes i) =
      (r.system.nodes.map Node.nodeId).map a.modes := by
    rw [h.ordered, List.map_map]
    rfl
  rw [Idp.nodeModes, hids, List.map_map]
  exact List.map_congr_left h.modes

theorem verdict_eq : a.verdict = verdictOf r.system.nodes := by
  rw [Idp.verdict, verdictOf, Idp.responding, Idp.trusted, h.nodeModes_eq, List.countP_map,
    List.countP_map]
  rfl

end Represents

/-- What is known of a DID does not change in a step that does not register it. -/
theorem Identity.step {prim : Primitives} {r : Running} {a a' : Idp} {did : String}
    (h : Identity prim r a did) (hsound : r.Sound) (op : LifeOp) (hop : op.SparesDid prim did)
    (hsame : a'.registered did = a.registered did)
    (hnone : Ledger.latestRegister did r.system.ledger = none →
      Ledger.latestRegister did (r.step prim op).system.ledger = none) :
    Identity prim (r.step prim op) a' did := by
  rcases h with ⟨ha, hlatest⟩ | ⟨reg, password, rfl, ha, hdurable⟩
  · exact Or.inl ⟨hsame.trans ha, hnone hlatest⟩
  · exact Or.inr ⟨reg, password, rfl, hsame.trans ha,
      durable_step prim reg password r hsound op hop hdurable⟩

theorem latestRegister_prefix {τ : Type} (did : String) (ledger ledger' : Ledger τ)
    (hfront : ledger' <+: ledger) (h : Ledger.latestRegister did ledger = none) :
    Ledger.latestRegister did ledger' = none := by
  obtain ⟨rest, rfl⟩ := hfront
  rw [Ledger.latestRegister, List.reverse_append, List.find?_append, Option.or_eq_none_iff] at h
  exact h.2

theorem setNode_modes (nodeId : ℤ) (f : Node → Node) (change : Mode → Mode) (modes : ℤ → Mode)
    (nodes : List Node) (hf : ∀ node, (f node).nodeId = node.nodeId ∧
      (f node).mode = change node.mode)
    (h : ∀ node ∈ nodes, modes node.nodeId = node.mode) :
    ∀ node ∈ setNode nodeId f nodes,
      Function.update modes nodeId (change (modes nodeId)) node.nodeId = node.mode := by
  intro node' hnode'
  obtain ⟨node, hnode, rfl⟩ := List.mem_map.mp hnode'
  split_ifs with hid
  · rw [(hf node).1, (hf node).2, ← h node hnode, hid, Function.update_self]
  · rw [Function.update_of_ne hid, h node hnode]

/-- The calls come to what they mean. -/
def Explained (prim : Primitives) (r : Running) (a : Idp) (op : LifeOp) : Prop :=
  Represents prim (r.step prim op) (Idp.handle a (op.meaning prim)).1 ∧
    (Idp.handle a (op.meaning prim)).2 = (r.reply prim op).view

/-- Shares come and go, the conditions of the nodes stay. -/
theorem register_modes (prim : Primitives) (inp : RegisterInputs) (password : String) (s : System)
    (hordered : NodesOrdered s) :
    (register prim inp password s).2.nodes.map (fun n => (n.nodeId, n.mode)) =
      s.nodes.map (fun n => (n.nodeId, n.mode)) := by
  rcases inp.register_cases prim password s hordered.length.le with
    ⟨-, e, heq⟩ | ⟨-, -, e, heq⟩ | ⟨-, -, result, files, heq, -⟩ <;>
  · rw [heq]
    exact putShares_map (fun n => (n.nodeId, n.mode)) (fun _ _ => rfl) _ _ _ _ _ _

section Calls
variable {prim : Primitives} {r : Running} {a : Idp} (h : Represents prim r a)
include h

theorem explained_register (password : String) (inp : RegisterInputs)
    (hfair : Fair prim r (.call (.register password inp))) :
    Explained prim r a (.call (.register password inp)) := by
  obtain ⟨hfresh, hwrite⟩ := hfair
  have hordered := h.ordered
  have htold := inp.register_told prim password r.system hordered hwrite
  obtain ⟨nodes, ledger, files, hframe⟩ := inp.register_frame prim password r.system
  have hnodes := register_modes prim inp password r.system hordered
  have hmodes (modes : ℤ → Mode) (hall : ∀ node ∈ r.system.nodes, modes node.nodeId = node.mode) :
      ∀ node ∈ (register prim inp password r.system).2.nodes, modes node.nodeId = node.mode := by
    intro node' hnode'
    have hpair := List.mem_map_of_mem (f := fun n : Node => (n.nodeId, n.mode)) hnode'
    rw [hnodes] at hpair
    obtain ⟨node, hnode, heq⟩ := List.mem_map.mp hpair
    obtain ⟨hid, hmode⟩ := Prod.mk.inj heq
    rw [← hid, ← hmode]
    exact hall node hnode
  -- another DID is spared by the call, whatever becomes of this one
  have hother (a' : Idp) (did : String) (hdid : did ≠ inp.did prim)
      (hsame : a'.registered did = a.registered did) :
      Identity prim (r.step prim (.call (.register password inp))) a' did := by
    apply (h.identities did).step h.behind.1 (.call (.register password inp)) (Ne.symm hdid) hsame
    intro hnone
    rw [Running.step, step]
    rcases inp.register_cases prim password r.system hordered.length.le with
      ⟨-, e, heq⟩ | ⟨-, -, e, heq⟩ | ⟨-, -, result, files, heq, -⟩
    · rw [heq]
      exact hnone
    · rw [heq]
      exact hnone
    · rw [heq]
      exact (inp.latestRegister_ledgerRow_other prim password did hdid _).trans hnone
  have hpending : (register prim inp password r.system).2.pending = r.system.pending := by
    rw [hframe]
  rcases htold with ⟨hcommit, hview⟩ | ⟨hcommit, hview, hledger⟩
  · obtain ⟨hstores, hrow⟩ := inp.writesCommit_iff.mp hcommit
    rw [Explained, LifeOp.meaning, Idp.handle, if_pos hcommit]
    refine ⟨?_, hview.symm⟩
    constructor
    case behind => exact (Running.ledgerLog prim).behind_step r _ h.behind
    case identities =>
      intro did
      by_cases hdid : did = inp.did prim
      · subst hdid
        right
        refine ⟨inp, password, rfl, Function.update_self _ _ _, ?_⟩
        exact durable_register prim inp password r h.behind.1 (hordered.length.symm ▸ hstores) hrow
      · exact hother _ did hdid (Function.update_of_ne hdid _ _)
    case challenges =>
      rw [Running.step, step, hpending]
      exact h.challenges
    case modes => exact hmodes _ h.modes
    case blinding =>
      rw [Running.step, step, hpending]
      exact h.blinding
  · rw [Explained, LifeOp.meaning, Idp.handle, if_neg (by rw [hcommit]; exact Bool.false_ne_true)]
    refine ⟨?_, hview.symm⟩
    constructor
    case behind => exact (Running.ledgerLog prim).behind_step r _ h.behind
    case identities =>
      intro did
      by_cases hdid : did = inp.did prim
      · subst hdid
        -- nothing registers the DID yet, and the call has added no row
        rcases h.identities (inp.did prim) with ⟨ha, -⟩ | ⟨reg, password', hreg, -, hdurable⟩
        · refine Or.inl ⟨ha, ?_⟩
          rw [Running.step, step, hledger]
          exact hfresh
        · obtain ⟨e, hlatest, -⟩ := hdurable.enrolled.entry
          rw [hreg, hfresh] at hlatest
          cases hlatest
      · exact hother _ did hdid rfl
    case challenges =>
      rw [Running.step, step, hpending]
      exact h.challenges
    case modes => exact hmodes _ h.modes
    case blinding =>
      rw [Running.step, step, hpending]
      exact h.blinding

/-- A call that registers nothing leaves what is known of every DID. -/
theorem identities_step (a' : Idp) (op : LifeOp) (hop : ∀ did, op.SparesDid prim did)
    (hsame : a'.registered = a.registered)
    (hnone : ∀ did, Ledger.latestRegister did r.system.ledger = none →
      Ledger.latestRegister did (r.step prim op).system.ledger = none) (did : String) :
    Identity prim (r.step prim op) a' did :=
  (h.identities did).step h.behind.1 op (hop did) (congrFun hsame did) (hnone did)

theorem explained_issue (did : String) (inp : ChallengeInputs)
    (hfair : fromBytes (sha3_256 inp.nonce) % P ≠ 0) :
    Explained prim r a (.call (.issue did inp)) := by
  refine ⟨?_, rfl⟩
  constructor
  case behind => exact (Running.ledgerLog prim).behind_step r _ h.behind
  case identities => exact identities_step h _ _ (fun _ => trivial) rfl (fun _ hnone => hnone)
  case challenges =>
    intro challengeId
    simp only [LifeOp.meaning, Idp.handle, Running.step, step, ChallengeManager.issue]
    split_ifs with hid
    · rw [hid, Function.update_self, Option.map_some]
    · rw [Function.update_of_ne hid, h.challenges]
  case modes => exact h.modes
  case blinding =>
    intro challengeId entry hentry
    simp only [Running.step, step, ChallengeManager.issue] at hentry
    split_ifs at hentry
    · rw [← Option.some.inj hentry]
      exact hfair
    · exact h.blinding challengeId entry hentry

theorem explained_peek (challengeId : String) (now : ℚ) :
    Explained prim r a (.call (.peek challengeId now)) := by
  constructor
  · exact ⟨(Running.ledgerLog prim).behind_step r _ h.behind,
      identities_step h _ _ (fun _ => trivial) rfl (fun _ hnone => hnone), h.challenges, h.modes,
      h.blinding⟩
  · simp only [LifeOp.meaning, Idp.handle, Running.reply, Reply.view, h.openNonce_eq,
      ChallengeManager.peek_eq_consume]

/-- A used challenge is gone on both sides. -/
theorem close_eq (challengeId cid : String) : (a.close challengeId).challenges cid =
    (ChallengeManager.remove challengeId r.system.pending cid).map
      (fun c => (c.nonce.val, c.expiresAt)) := by
  rw [Idp.close, ChallengeManager.remove]
  dsimp only
  split_ifs with hid
  · rw [hid, Function.update_self, Option.map_none]
  · rw [Function.update_of_ne hid, h.challenges]

theorem blinding_remove (challengeId cid : String) (entry : Challenge)
    (hentry : ChallengeManager.remove challengeId r.system.pending cid = some entry) :
    fromBytes (sha3_256 entry.nonce) % P ≠ 0 :=
  h.blinding cid entry (remove_some _ _ _ _ hentry).2

theorem explained_consume (challengeId : String) (now : ℚ) :
    Explained prim r a (.call (.consume challengeId now)) := by
  have hpending := ChallengeManager.consume_pending challengeId now r.system.pending
  constructor
  · constructor
    case behind => exact (Running.ledgerLog prim).behind_step r _ h.behind
    case identities => exact identities_step h _ _ (fun _ => trivial) rfl (fun _ hnone => hnone)
    case challenges =>
      intro cid
      rw [Running.step, step, hpending]
      exact close_eq h challengeId cid
    case modes => exact h.modes
    case blinding =>
      rw [Running.step, step, hpending]
      exact blinding_remove h challengeId
  · simp only [LifeOp.meaning, Idp.handle, Running.reply, Reply.view, h.openNonce_eq]

theorem explained_cleanup (now : ℚ) : Explained prim r a (.call (.cleanup now)) := by
  refine ⟨?_, rfl⟩
  constructor
  case behind => exact (Running.ledgerLog prim).behind_step r _ h.behind
  case identities => exact identities_step h _ _ (fun _ => trivial) rfl (fun _ hnone => hnone)
  case challenges =>
    intro challengeId
    simp only [LifeOp.meaning, Idp.handle, Running.step, step, ChallengeManager.cleanupExpired,
      h.challenges]
    cases r.system.pending challengeId with
    | none => rfl
    | some entry =>
      by_cases hexpired : entry.expiresAt < now
      · simp [Option.filter, hexpired]
      · simp [Option.filter, hexpired, not_lt.mp hexpired]
  case modes => exact h.modes
  case blinding =>
    intro challengeId entry hentry
    simp only [Running.step, step, ChallengeManager.cleanupExpired,
      Option.filter_eq_some_iff] at hentry
    exact h.blinding challengeId entry hentry.1

theorem explained_setMode (nodeId : ℤ) (op : Op) (f : Node → Node) (change : Mode → Mode)
    (hf : ∀ node, (f node).nodeId = node.nodeId ∧ (f node).mode = change node.mode)
    (hstep : step prim r.system op = { r.system with nodes := setNode nodeId f r.system.nodes })
    (hmeaning : (LifeOp.call op).meaning prim = .setMode nodeId change)
    (hreply : r.reply prim (.call op) = .quiet) (hop : ∀ did, op.SparesDid prim did) :
    Explained prim r a (.call op) := by
  rw [Explained, hmeaning, hreply]
  refine ⟨?_, rfl⟩
  constructor
  case behind => exact (Running.ledgerLog prim).behind_step r _ h.behind
  case identities =>
    refine identities_step h _ (.call op) hop rfl ?_
    intro did hnone
    rw [Running.step, hstep]
    exact hnone
  case challenges =>
    rw [Running.step, hstep]
    exact h.challenges
  case modes =>
    rw [Running.step, hstep]
    exact setNode_modes nodeId f change a.modes r.system.nodes hf h.modes
  case blinding =>
    rw [Running.step, hstep]
    exact h.blinding

theorem explained_restart (inp : StartInputs) : Explained prim r a (.restart inp) := by
  obtain ⟨storeKey, heq, -⟩ := lifespan_eq prim inp r.system.files r.dir
  refine ⟨?_, rfl⟩
  constructor
  case behind => exact (Running.ledgerLog prim).behind_step r _ h.behind
  case identities =>
    refine identities_step h _ _ (fun _ => trivial) rfl ?_
    intro did hnone
    rw [Running.step, Running.startOn, heq]
    exact latestRegister_prefix did _ _ h.behind.2 hnone
  case challenges =>
    intro challengeId
    rw [Running.step, Running.startOn, heq]
    rfl
  case modes =>
    rw [Running.step, Running.startOn, heq]
    intro node hnode
    obtain ⟨i, -, rfl⟩ := List.mem_map.mp hnode
    rfl
  case blinding =>
    rw [Running.step, Running.startOn, heq]
    intro challengeId entry hentry
    cases hentry

/-- The checks of a request, once its challenge is used, come to the answer that is meant. -/
theorem checkRequest_view (hdec : prim.DecryptsEncrypted) (hrepr : prim.PrintsFloats)
    (did signatureHex : String) (inp : AuthInputs)
    (hlocal : ∃ fakeValues, inp.transport = .localNodes fakeValues)
    (horder : inp.completionOrder.Perm (List.range nNodes)) (nonce : Bytes)
    (hnonce : fromBytes (sha3_256 nonce) % P ≠ 0)
    (hfluke : ∀ stored subset liar, ¬Fluke prim inp did nonce r.system stored subset liar)
    (pending : Pending) :
    viewAuth (checkRequest prim inp did signatureHex none nonce
        { r.system with pending := pending }).1 =
      match a.registered did with
      | none => .failed "did_not_found"
      | some publicKey =>
        if !(inp.logWrite == .committed) then .raised
        else if !holderSigned prim did signatureHex publicKey nonce then .failed "invalid_signature"
        else a.verdict := by
  obtain ⟨fakeValues, htransport⟩ := hlocal
  rcases h.identities did with ⟨ha, hlatest⟩ | ⟨reg, password, rfl, ha, hdurable⟩
  · have hnothing := Ledger.readsNothing_of_none did r.system.ledger hlatest
    simp only [checkRequest, hnothing.publicKey, ha]
    rfl
  · have hkey := reg.getPublicKey_recorded hdurable.enrolled.recorded hrepr
    obtain ⟨keys, hkeys, -⟩ := h.behind.1.systemKeys
    have hview := decideProofs_view (s := { r.system with pending := pending }) h.ordered
      ⟨hdurable.enrolled.entry, hdurable.enrolled.stored⟩ hdec hrepr keys hkeys inp fakeValues
      htransport horder nonce (sessionH_ne_zero nonce hnonce)
      (fun stored subset liar hbad => hfluke stored subset liar
        ⟨hbad.committed, hbad.sub, hbad.length, hbad.opens, hbad.mem, hbad.byzantine, hbad.used⟩)
    rw [checkRequest_holder prim inp _ signatureHex none nonce
      { r.system with pending := pending } (reg.publicKey prim) hkey, ha]
    dsimp only
    cases hsigned : holderSigned prim (reg.did prim) signatureHex (reg.publicKey prim) nonce with
    | false =>
      simp only [Bool.not_false, if_true, reject_view]
      cases hlog : inp.logWrite == .committed with
      | false => rfl
      | true => rfl
    | true =>
      simp only [Bool.not_true, Bool.false_eq_true, if_false, h.verdict_eq]
      refine hview.trans ?_
      cases hlog : inp.logWrite == .committed with
      | false => rfl
      | true => rfl

theorem explained_authenticate (hdec : prim.DecryptsEncrypted) (hrepr : prim.PrintsFloats)
    (did challengeId signatureHex : String) (preCollected : Option (List PartialProof))
    (inp : AuthInputs)
    (hfair : Fair prim r (.call (.authenticate did challengeId signatureHex preCollected inp))) :
    Explained prim r a (.call (.authenticate did challengeId signatureHex preCollected inp)) := by
  obtain ⟨rfl, hlocal, horder, hfluke⟩ := hfair
  constructor
  · constructor
    case behind => exact (Running.ledgerLog prim).behind_step r _ h.behind
    case identities =>
      refine identities_step h _ _ (fun _ => trivial) rfl ?_
      intro other hnone
      rw [Running.step, step, latestRegister_auth]
      exact hnone
    case challenges =>
      intro cid
      rw [Running.step, step, authenticate_pending]
      exact close_eq h challengeId cid
    case modes =>
      rw [Running.step, step, authenticate_nodes]
      exact h.modes
    case blinding =>
      rw [Running.step, step, authenticate_pending]
      exact blinding_remove h challengeId
  · simp only [LifeOp.meaning, Idp.handle, Running.reply, Reply.view, Idp.answer, h.openNonce_eq]
    rw [authenticate]
    cases hconsume : ChallengeManager.consume challengeId inp.consumedAt r.system.pending with
    | mk found pending =>
      cases found with
      | none => rfl
      | some nonce =>
        obtain ⟨entry, hentry, -, rfl⟩ := ChallengeManager.consume_some challengeId
          inp.consumedAt r.system.pending nonce (by rw [hconsume])
        exact (checkRequest_view h hdec hrepr did signatureHex inp hlocal horder entry.nonce
          (h.blinding challengeId entry hentry) (hfluke entry hentry) pending).symm

theorem explained_step (hdec : prim.DecryptsEncrypted) (hrepr : prim.PrintsFloats) (op : LifeOp)
    (hfair : Fair prim r op) : Explained prim r a op := by
  cases op with
  | restart inp => exact explained_restart h inp
  | call op =>
    cases op with
    | register password inp => exact explained_register h password inp hfair
    | issue did inp => exact explained_issue h did inp hfair
    | peek challengeId now => exact explained_peek h challengeId now
    | consume challengeId now => exact explained_consume h challengeId now
    | cleanup now => exact explained_cleanup h now
    | authenticate did challengeId signatureHex preCollected inp =>
      exact explained_authenticate h hdec hrepr did challengeId signatureHex preCollected inp hfair
    | setOnline nodeId online =>
      exact explained_setMode h nodeId (.setOnline nodeId online)
        (fun node => { node with online := online }) _ (fun _ => ⟨rfl, rfl⟩) rfl rfl rfl
        (fun _ => trivial)
    | setByzantine nodeId byzantine =>
      exact explained_setMode h nodeId (.setByzantine nodeId byzantine)
        (fun node => { node with byzantine := byzantine }) _ (fun _ => ⟨rfl, rfl⟩) rfl rfl rfl
        (fun _ => trivial)

end Calls

/-! ## Whole lives -/

theorem represents_first (prim : Primitives) (start : StartInputs) :
    Represents prim (Running.first prim start) Idp.start := by
  have hsystem := first_system prim start
  constructor
  case behind => exact Running.behind_first prim start
  case identities =>
    intro did
    refine Or.inl ⟨rfl, ?_⟩
    rw [hsystem]
    rfl
  case challenges =>
    rw [hsystem]
    exact fun _ => rfl
  case modes =>
    rw [hsystem]
    intro node hnode
    obtain ⟨i, -, rfl⟩ := List.mem_map.mp hnode
    rfl
  case blinding =>
    rw [hsystem]
    intro challengeId entry hentry
    cases hentry

def idpSimulation (prim : Primitives) (hdec : prim.DecryptsEncrypted)
    (hrepr : prim.PrintsFloats) : GoodSimulation (Running.handle prim) Idp.handle where
  rel := Represents prim
  good := Fair prim
  meaning := LifeOp.meaning prim
  view := Reply.view
  commutes := fun _ _ op h hfair => explained_step h hdec hrepr op hfair

/-- Over calls, crashes and restarts in any order, the coordinator tells its users what the
abstract provider would tell them, and ends in a state that stands for the abstract one. -/
theorem coordinator_refines_idp (prim : Primitives) (hdec : prim.DecryptsEncrypted)
    (hrepr : prim.PrintsFloats) (start : StartInputs) (ops : List LifeOp)
    (hfair : (Running.handle prim).GoodRun (Fair prim) (Running.first prim start) ops) :
    Represents prim (runLife prim start ops)
        (Machine.final Idp.handle Idp.start (ops.map (LifeOp.meaning prim))) ∧
      Machine.replies Idp.handle Idp.start (ops.map (LifeOp.meaning prim)) =
        ((Running.handle prim).replies (Running.first prim start) ops).map Reply.view :=
  (idpSimulation prim hdec hrepr).run _ _ (represents_first prim start) ops hfair

theorem handle_fst (prim : Primitives) (r : Running) (op : LifeOp) :
    (Running.handle prim r op).1 = r.step prim op := rfl

theorem handle_issue_nodes (prim : Primitives) (r : Running) (did : String)
    (inp : ChallengeInputs) :
    (Running.handle prim r (.call (.issue did inp))).1.system.nodes = r.system.nodes := rfl

/-- The nodes that a start brings up are honest. -/
theorem restart_honest (prim : Primitives) (inp : StartInputs) (r : Running) :
    ∀ node ∈ (r.step prim (.restart inp)).system.nodes, node.byzantine = false := by
  obtain ⟨storeKey, heq, -⟩ := lifespan_eq prim inp r.system.files r.dir
  rw [Running.step, Running.startOn, heq]
  intro node hnode
  obtain ⟨i, -, rfl⟩ := List.mem_map.mp hnode
  rfl

/-- Only `set_byzantine` makes a node lie. -/
theorem honest_step (prim : Primitives) (r : Running) (hsound : r.Sound) (op : LifeOp)
    (hop : ∀ nodeId byzantine, op ≠ .call (.setByzantine nodeId byzantine))
    (h : ∀ node ∈ r.system.nodes, node.byzantine = false) :
    ∀ node ∈ (r.step prim op).system.nodes, node.byzantine = false := by
  cases op with
  | restart inp => exact restart_honest prim inp r
  | call op =>
    cases op with
    | register password inp =>
      intro node' hnode'
      have hpair := List.mem_map_of_mem (f := fun n : Node => (n.nodeId, n.mode)) hnode'
      rw [Running.step, step, register_modes prim inp password r.system hsound.ordered] at hpair
      obtain ⟨node, hnode, heq⟩ := List.mem_map.mp hpair
      have hmode := congrArg Mode.byzantine (Prod.mk.inj heq).2
      exact hmode.symm.trans (h node hnode)
    | authenticate did challengeId signatureHex preCollected inp =>
      rw [Running.step, step, authenticate_nodes]
      exact h
    | setOnline nodeId online =>
      intro node' hnode'
      obtain ⟨node, hnode, rfl⟩ := List.mem_map.mp hnode'
      split_ifs
      · exact h node hnode
      · exact h node hnode
    | setByzantine nodeId byzantine => exact absurd rfl (hop nodeId byzantine)
    | _ => exact h

/-- A registration, a restart, and an authentication with every node online. -/
def restartedSession : List LifeOp :=
  [.call (.register "pw" (cleanRegister [7])), .restart sampleStart,
    .call (sampleIssue (zeroToken 32) (sampleDid [7])),
    .call (.authenticate (sampleDid [7]) "c" (sampleSignature [7] (zeroToken 32)) none
      (sampleAuth [4,2,0,1,3]))]

theorem sampleIssue_fair (r : Running) (did : String) :
    Fair samplePrimitives r (.call (sampleIssue (zeroToken 32) did)) := by
  have hnonce : (⟨zeroToken 32, "c", 0⟩ : ChallengeInputs).nonce = zeroToken 32 := rfl
  rw [sampleIssue, Fair, hnonce]
  exact zeroToken_hash

theorem restartedSession_fair : (Running.handle samplePrimitives).GoodRun (Fair samplePrimitives)
    (Running.first samplePrimitives sampleStart) restartedSession := by
  refine ⟨⟨?_, ?_⟩, trivial, sampleIssue_fair _ _, ⟨rfl, ⟨_, rfl⟩, by decide, ?_⟩, trivial⟩
  · rw [first_system]
    rfl
  · intro message hwrite
    cases hwrite
  · intro entry _
    apply not_fluke_of_honest
    intro node hnode
    rw [sampleIssue, handle_issue_nodes, handle_fst] at hnode
    exact restart_honest _ _ _ node hnode

theorem coordinator_refines_idp_restarted :
    ((Running.handle samplePrimitives).replies (Running.first samplePrimitives sampleStart)
      restartedSession).map Reply.view =
        [.registered (sampleDid [7]), .quiet, .challenged "c" (hex (zeroToken 32)),
          .authenticated] := by
  have hsigned : holderSigned samplePrimitives (sampleDid [7]) (sampleSignature [7] (zeroToken 32))
      ((cleanRegister [7]).publicKey samplePrimitives) (zeroToken 32) = true := by
    rw [holderSigned, sampleSignature, fromhex_hex]
    exact SamplePrimitives.verifiesSigned [7] [] _
  rw [← (coordinator_refines_idp samplePrimitives SamplePrimitives.decryptsEncrypted
    SamplePrimitives.printsFloats sampleStart restartedSession restartedSession_fair).2]
  have hanswer (a : Idp) (h : a.verdict = .authenticated)
      (hopen : a.openNonce "c" 1 = some (zeroToken 32).val)
      (hkey : a.registered (sampleDid [7]) =
        some ((cleanRegister [7]).publicKey samplePrimitives)) :
      a.answer (sampleDid [7]) "c" 1 (holderSigned samplePrimitives (sampleDid [7])
        (sampleSignature [7] (zeroToken 32))) true = .authenticated := by
    rw [Idp.answer, hopen, hkey]
    simp only [hsigned]
    exact h
  simp only [restartedSession, List.map_cons, List.map_nil, Machine.replies, LifeOp.meaning,
    sampleIssue, Idp.handle]
  rw [if_pos (by rfl), if_pos (by rfl)]
  refine congrArg₂ _ rfl (congrArg₂ _ rfl (congrArg₂ _ rfl (congrArg₂ _ ?_ rfl)))
  apply hanswer
  · rfl
  · rw [Idp.openNonce]
    dsimp only
    rw [Function.update_self, Option.bind_some, if_pos sampleAuth_live]
  · exact Function.update_self _ _ _

end DecentralizedIDP
