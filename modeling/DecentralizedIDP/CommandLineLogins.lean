import DecentralizedIDP.CommandLineSessions
import DecentralizedIDP.IdentityProviderRefinement

/-! What a login shows its user. -/
namespace DecentralizedIDP
open Foundations

/-! ## What is shown -/

/-- The quorum of a token: a threshold of different nodes, in order, that are online and honest. -/
def TrustedQuorum (nodes : List Node) (quorum : Json) : Prop :=
  ∃ ids : List ℤ, quorum = .arr (ids.map Json.int) ∧ ids.length = threshold ∧
    ids.Pairwise (· < ·) ∧
    ∀ id ∈ ids, ∃ node ∈ nodes, node.nodeId = id ∧ node.online = true ∧ node.byzantine = false

/-- What the terminal shows is what was decided. -/
def Shown.Tells (nodes : List Node) : Outcome → Shown → Prop
  | .authenticated, .succeeded quorum expiresIn _ =>
    TrustedQuorum nodes quorum ∧ expiresIn = some iatTtlSeconds
  | .failed reason, .failed shown => shown = some reason
  | .raised, .requestFailed => True
  | _, _ => False

theorem decodeIatPayload_issue (prim : Primitives) (keys : SystemKeys) (inp : TokenInputs)
    (did : String) (quorumNodes : List ℤ) (token : String)
    (hissue : Iat.issue prim (some keys) inp did quorumNodes = .ok token) :
    (decodeIatPayload token).get? "quorum" =
      some (.arr ((quorumNodes.insertionSort (· ≤ ·)).map Json.int)) := by
  rw [decodeIatPayload, Iat.splitChars_issue prim keys inp did quorumNodes token hissue]
  dsimp only
  rw [Iat.b64urlDecode_encode, Option.bind_some, Iat.loadsBytes_payload, Option.getD_some]
  exact Iat.payload_get? inp did quorumNodes "quorum" _ (by simp [Iat.payload])

theorem viewAuth_success (token : String) : viewAuth (.ok (success token)) = .authenticated :=
  rfl

theorem viewAuth_fail (reason : String) : viewAuth (.ok (fail reason)) = .failed reason := by
  have hstatus : "failed" ≠ "success" := by decide
  rw [viewAuth]
  exact if_neg hstatus

section Login
variable {prim : Primitives} {reg : RegisterInputs} {password : String} {s : System}
  (hordered : NodesOrdered s) (henrolled : reg.Enrolled prim password s)
  (hdec : prim.DecryptsEncrypted)

include hordered henrolled hdec

/-- The nodes in the token of a success are honest ones that were online. -/
theorem quorum_trusted (keys : SystemKeys) (hkeys : s.systemKeys = some keys) (inp : AuthInputs)
    (challengeId signatureHex : String)
    (hfair : (∃ fakeValues, inp.transport = .localNodes fakeValues) ∧
      inp.completionOrder.Perm (List.range nNodes) ∧
      ∀ entry, s.pending challengeId = some entry → ∀ stored subset liar,
        ¬Fluke prim inp (reg.did prim) entry.nonce s stored subset liar)
    (token : String) (hsuccess : (authenticate prim inp (reg.did prim) challengeId signatureHex none
      s).1 = .ok (success token)) :
    TrustedQuorum s.nodes (((decodeIatPayload token).get? "quorum").getD (.arr [])) := by
  obtain ⟨⟨fakeValues, htransport⟩, horder, hfluke⟩ := hfair
  obtain ⟨entry, pair, chosen, hentry, -, hpassed, -⟩ :=
    authenticate_success prim inp (reg.did prim) challengeId signatureHex none s token hsuccess
  obtain ⟨stored, hstored, hchosen⟩ := hpassed.opened
  obtain ⟨hclean, hsize, hopens⟩ := chooseSubset_some stored _ chosen hchosen
  have hsub : chosen.Sublist (collectProofs prim inp s.nodes (reg.did prim) entry.nonce) :=
    hclean.trans List.filter_sublist
  obtain ⟨honest, hcollected⟩ :=
    collectProofs_local hordered henrolled hdec fakeValues entry.nonce inp htransport horder
  have hissued := hpassed.issued
  rw [hkeys] at hissued
  rw [decodeIatPayload_issue prim keys inp.token _ _ token hissued, Option.getD_some]
  have hperm := List.perm_insertionSort (· ≤ ·) (chosen.map PartialProof.nodeId)
  refine ⟨_, rfl, ?_, ?_, ?_⟩
  · rw [hperm.length_eq, List.length_map, hsize]
  · -- sorted, and no id twice
    have hnodup := hperm.nodup_iff.mpr (hcollected.ids.sublist (hsub.map _))
    have hsorted := List.pairwise_insertionSort (· ≤ ·) (chosen.map PartialProof.nodeId)
    exact hsorted.imp₂ (fun _ _ hle hne => lt_of_le_of_ne hle hne) hnodup
  · intro id hid
    obtain ⟨proof, hproof, rfl⟩ := List.mem_map.mp (hperm.mem_iff.mp hid)
    obtain ⟨node, hnode, hsame, honline⟩ := collected_online hordered henrolled hdec inp fakeValues
      htransport horder entry.nonce proof (hsub.subset hproof)
    refine ⟨node, hnode, hsame, honline, ?_⟩
    by_contra hbyz
    apply hfluke entry hentry stored chosen node
    refine ⟨hstored, hsub, hsize, hopens, hnode, by simpa using hbyz, ?_⟩
    rw [hsame]
    exact List.mem_map_of_mem hproof

/-- The answer to a signed request for an open challenge, as the terminal shows it. -/
theorem readOutcome_tells (hrepr : prim.PrintsFloats) (keys : SystemKeys)
    (hkeys : s.systemKeys = some keys) (inp : AuthInputs) (challengeId signatureHex : String)
    (entry : Challenge) (hentry : s.pending challengeId = some entry)
    (hlive : inp.consumedAt ≤ entry.expiresAt) (hnonce : fromBytes (sha3_256 entry.nonce) % P ≠ 0)
    (hsigned : holderSigned prim (reg.did prim) signatureHex (reg.publicKey prim) entry.nonce =
      true)
    (hfair : (∃ fakeValues, inp.transport = .localNodes fakeValues) ∧
      inp.completionOrder.Perm (List.range nNodes) ∧
      ∀ entry, s.pending challengeId = some entry → ∀ stored subset liar,
        ¬Fluke prim inp (reg.did prim) entry.nonce s stored subset liar) :
    (readOutcome (authenticate prim inp (reg.did prim) challengeId signatureHex none s).1).Tells
      s.nodes (if inp.logWrite == .committed then verdictOf s.nodes else .raised) := by
  have htrusted := quorum_trusted hordered henrolled hdec keys hkeys inp challengeId signatureHex
    hfair
  obtain ⟨⟨fakeValues, htransport⟩, horder, hfluke⟩ := hfair
  have hview : viewAuth (authenticate prim inp (reg.did prim) challengeId signatureHex none s).1 =
      if inp.logWrite == .committed then verdictOf s.nodes else .raised := by
    rw [authenticate, ChallengeManager.consume_live _ _ _ entry hentry hlive]
    dsimp only
    rw [checkRequest_holder prim inp _ signatureHex none entry.nonce
      { s with pending := ChallengeManager.remove challengeId s.pending } (reg.publicKey prim)
      (reg.getPublicKey_recorded henrolled.recorded hrepr), hsigned]
    exact decideProofs_view
      (s := { s with pending := ChallengeManager.remove challengeId s.pending }) hordered
      ⟨henrolled.entry, henrolled.stored⟩ hdec hrepr keys hkeys inp fakeValues htransport horder
      entry.nonce (sessionH_ne_zero entry.nonce hnonce)
      (fun stored subset liar hbad => hfluke entry hentry stored subset liar
        ⟨hbad.committed, hbad.sub, hbad.length, hbad.opens, hbad.mem, hbad.byzantine, hbad.used⟩)
  rw [← hview]
  have hsettled := authenticate_settled prim inp (reg.did prim) challengeId signatureHex none s
  generalize hresult : (authenticate prim inp (reg.did prim) challengeId signatureHex none s).1 =
    result at hsettled
  cases hsettled with
  | raised e => trivial
  | failed reason =>
    rw [viewAuth_fail]
    exact rfl
  | succeeded token =>
    rw [viewAuth_success]
    exact ⟨htrusted token hresult, rfl⟩

end Login

/-- A login that the nodes decide, whatever else goes on. When a terminal is about to answer its
challenge, it does so for a DID that was registered for this user; and if the password is the one
of the registration and the challenge is still open, what the user is shown is the verdict of the
nodes as they are now. -/
theorem login_shows_verdict (prim : Primitives) (hdec : prim.DecryptsEncrypted)
    (hrepr : prim.PrintsFloats) (hsign : prim.VerifiesSigned) (home : Home) (start : StartInputs)
    (events : List DeskEvent) (hfresh : FreshDraws prim events) (n : ℕ)
    (username password did challengeId signature : String)
    (hn : (runDesk prim home start events).terminals n =
      .answering username password did challengeId signature)
    (inp : AuthInputs)
    (hfair : Fair prim (runDesk prim home start events).running
      (.call (.authenticate did challengeId signature none inp)))
    (entry : Challenge)
    (hentry : (runDesk prim home start events).running.system.pending challengeId = some entry)
    (hlive : inp.consumedAt ≤ entry.expiresAt)
    (hnonce : fromBytes (sha3_256 entry.nonce) % P ≠ 0) :
    let d := runDesk prim home start events
    ∃ m registered reg, RegisteredAs prim home start events m username registered reg ∧
      did = reg.did prim ∧ (password = registered →
        ∃ shown, (d.handle prim home (.postAuthenticate n none inp true)).2 = some shown ∧
          shown.Tells d.running.system.nodes
            (if inp.logWrite == .committed then verdictOf d.running.system.nodes else .raised)) := by
  intro d
  have hfollows := Desk.follows_run prim hdec home start events hfresh
  have hgood := hfollows.terminals n
  rw [hn] at hgood
  obtain ⟨value, m, registered, reg, hnames, rfl, issue, coins, -, -, hopen, hkey⟩ := hgood
  refine ⟨m, registered, reg, hnames.registered, rfl, ?_⟩
  intro hright
  obtain ⟨keys, hkeys, -⟩ := hfollows.sound.systemKeys
  -- the terminal has signed the nonce that is open, with the key of the DID
  have hsigned : holderSigned prim (reg.did prim) signature (reg.publicKey prim) entry.nonce =
      true := by
    rw [holderSigned, hkey hright, fromhex_hex, hopen entry hentry]
    exact hsign reg.keySeed coins _
  have hshown : (d.handle prim home (.postAuthenticate n none inp true)).2 = some (readOutcome
      (authenticate prim inp (reg.did prim) challengeId signature none d.running.system).1) := by
    rw [Desk.handle, hn]
    rfl
  exact ⟨_, hshown, readOutcome_tells hfollows.sound.ordered hnames.durable.enrolled hdec hrepr
    keys hkeys inp challengeId signature entry hentry hlive hnonce hsigned hfair.2⟩

/-- On a day on which nobody makes a node lie, none does. -/
theorem honest_day (prim : Primitives) (home : Home) (start : StartInputs)
    (events : List DeskEvent) (hevents : ∀ nodeId byzantine,
      .coordinator (.call (.setByzantine nodeId byzantine)) ∉ events) :
    (runDesk prim home start events).running.Sound ∧
      ∀ node ∈ (runDesk prim home start events).running.system.nodes, node.byzantine = false := by
  induction events using List.reverseRecOn with
  | nil =>
    refine ⟨(Running.behind_first prim start).1, ?_⟩
    rw [runDesk, run_nil, Desk.start, first_system]
    intro node hnode
    obtain ⟨i, -, rfl⟩ := List.mem_map.mp hnode
    rfl
  | append_singleton events e ih =>
    simp only [List.mem_append, List.mem_singleton, not_or] at hevents
    obtain ⟨hsound, hhonest⟩ := ih (fun nodeId byzantine => (hevents nodeId byzantine).1)
    rw [runDesk, run_snoc, ← runDesk]
    refine ⟨sound_handle hsound e, ?_⟩
    rcases Desk.handle_running prim home (runDesk prim home start events) e with
      ⟨op, hop, heq⟩ | heq | ⟨n, write, username, did, path, users, -, heq⟩
    · rw [heq]
      apply honest_step prim _ hsound op _ hhonest
      rintro nodeId byzantine rfl
      -- only an event of the coordinator itself is such an operation
      cases Desk.sends_of_operation _ e _ hop with
      | anything => exact (hevents nodeId byzantine).2 rfl
    · rw [heq]
      exact hhonest
    · rw [heq]
      exact hhonest

/-- Alice goes on to log in at the terminal. -/
def aliceLogin : List DeskEvent :=
  [.authenticate 0 "alice" "pw", .postChallenge 0 ⟨zeroToken 32, "c", 0⟩ [] true]

theorem alice_asking (prim : Primitives) (hdec : prim.DecryptsEncrypted) :
    ((runDesk prim deskHome sampleStart aliceEvents).handle prim deskHome
      (.authenticate 0 "alice" "pw")).1.terminals 0 =
        .asking "alice" "pw" ((cleanRegister [7]).did prim) (prim.generateKeypair [7]).1 := by
  have hfollows := Desk.follows_run prim hdec deskHome sampleStart aliceEvents
    (aliceEvents_fresh prim)
  obtain ⟨ms, -, -, -, hentries⟩ := hfollows.registry _ (alice_saved prim hdec)
  obtain ⟨n, password, reg, hnames⟩ := hentries "alice" _ rfl
  obtain ⟨rfl, rfl⟩ := alice_registered prim [] (by simp) n "alice" password reg hnames.registered
  have hstart := startAuthenticate_names hdec _ (alice_saved prim hdec) "alice" _
    rfl n "pw" (cleanRegister [7]) hnames
  rw [Desk.handle, alice_idle prim hdec]
  dsimp only [Desk.settle]
  rw [strip_alice, strip_pw, hstart, Function.update_self]
  rfl

theorem aliceLogin_answering (prim : Primitives) (hdec : prim.DecryptsEncrypted) :
    (runDesk prim deskHome sampleStart (aliceEvents ++ aliceLogin)).terminals 0 =
      .answering "alice" "pw" ((cleanRegister [7]).did prim) "c" (hex (prim.sign []
        (prim.generateKeypair [7]).1 ((zeroToken 32).val ++ encode ((cleanRegister [7]).did
          prim)))) := by
  rw [runDesk, run_append, ← runDesk, aliceLogin, run_cons, run_cons, run_nil]
  exact postChallenge_signs prim deskHome _ 0 _ _ _ _ (alice_asking prim hdec)
    ⟨zeroToken 32, "c", 0⟩ []

theorem aliceLogin_open (prim : Primitives) (hdec : prim.DecryptsEncrypted) :
    (runDesk prim deskHome sampleStart (aliceEvents ++ aliceLogin)).running.system.pending "c" =
      some (sampleChallenge (zeroToken 32) ((cleanRegister [7]).did prim)) := by
  have hopen := postChallenge_opens prim deskHome _ 0 _ _ _ _ (alice_asking prim hdec)
    (zeroToken 32) "c" 0 [] true
  rw [runDesk, run_append, ← runDesk, aliceLogin, run_cons, run_cons, run_nil, hopen,
    sampleChallenge]

theorem aliceLogin_fair : Fair samplePrimitives (runDesk samplePrimitives deskHome sampleStart
    (aliceEvents ++ aliceLogin)).running (.call (.authenticate (sampleDid [7]) "c"
      (sampleSignature [7] (zeroToken 32)) none (sampleAuth [4,2,0,1,3]))) := by
  have hhonest := (honest_day samplePrimitives deskHome sampleStart (aliceEvents ++ aliceLogin)
    (by simp [aliceEvents, aliceLogin])).2
  refine ⟨rfl, ⟨_, rfl⟩, by decide, ?_⟩
  intro entry _
  exact not_fluke_of_honest (sampleAuth [4,2,0,1,3]) entry.nonce (sampleDid [7]) hhonest

theorem login_shows_verdict_alice : ∃ shown, ((runDesk samplePrimitives deskHome sampleStart
    (aliceEvents ++ aliceLogin)).handle samplePrimitives deskHome
      (.postAuthenticate 0 none (sampleAuth [4,2,0,1,3]) true)).2 = some shown ∧
    shown.Tells (runDesk samplePrimitives deskHome sampleStart
      (aliceEvents ++ aliceLogin)).running.system.nodes (verdictOf (runDesk samplePrimitives
        deskHome sampleStart (aliceEvents ++ aliceLogin)).running.system.nodes) := by
  have hfresh : FreshDraws samplePrimitives (aliceEvents ++ aliceLogin) :=
    ⟨List.nodup_singleton _, List.nodup_singleton _⟩
  obtain ⟨m, registered, reg, hregistered, -, hshown⟩ := login_shows_verdict samplePrimitives
    SamplePrimitives.decryptsEncrypted SamplePrimitives.printsFloats
    SamplePrimitives.verifiesSigned deskHome sampleStart (aliceEvents ++ aliceLogin) hfresh 0 _ _ _
    _ _ (aliceLogin_answering samplePrimitives SamplePrimitives.decryptsEncrypted)
    (sampleAuth [4,2,0,1,3]) aliceLogin_fair _
    (aliceLogin_open samplePrimitives SamplePrimitives.decryptsEncrypted) sampleAuth_live
    (sampleChallenge_hash _)
  obtain ⟨rfl, rfl⟩ :=
    alice_registered samplePrimitives aliceLogin (by simp [aliceLogin]) m _ _ _ hregistered
  have hcommitted : ((sampleAuth [4,2,0,1,3]).logWrite == .committed) = true := rfl
  rw [if_pos hcommitted] at hshown
  exact hshown rfl

end DecentralizedIDP
