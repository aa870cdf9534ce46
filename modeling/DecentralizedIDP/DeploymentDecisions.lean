import DecentralizedIDP.DeploymentRuns

/-! What the services of a deployment bring about: how a handler that was told some of the proofs
ends, and what anyone learns who asks them himself. -/
namespace DecentralizedIDP
open Foundations

section Runs
variable {prim : Primitives} {net : Network} {reg : RegisterInputs} {password : String}

/-! ## The proofs of a handler that resumes -/

/-- The nodes whose services have answered with a proof. -/
def Waiting.answered (w : Waiting) : ℕ :=
  (List.range' 1 nNodes).countP (fun i : ℕ => (w.answers i).join.isSome)

/-- The answers are taken in the order of the nodes. -/
theorem proofs_eq (s : System) (h : NodesOrdered s) (w : Waiting) :
    w.proofs s.nodes = (List.range' 1 nNodes).filterMap (fun i : ℕ => (w.answers i).join) := by
  have hids : w.proofs s.nodes =
      (s.nodes.map Node.nodeId).filterMap (fun id => (w.answers id).join) := by
    rw [List.filterMap_map]
    rfl
  rw [hids, h, List.filterMap_map]
  rfl

/-- What a handler for the DID was told: proofs of different nodes in the session of its
challenge, all of them honest. -/
theorem told_proofs (w : Waiting) (nonce : Bytes)
    (htold : ∀ k < nNodes, ∀ proof, w.answers ((k+1 : ℕ) : ℤ) = some (some proof) →
      proof = reg.proofOf prim password nonce k) (s : System) (h : NodesOrdered s) :
    ((w.proofs s.nodes).map PartialProof.nodeId).Nodup ∧
      ((w.proofs s.nodes).map (fun proof => (proof.x : ZMod P))).Nodup ∧
      (w.proofs s.nodes).length = w.answered ∧
      ∀ proof ∈ w.proofs s.nodes, ∃ i, HonestProof prim reg password nonce i proof := by
  have hproof (i : ℕ) (hi : i ∈ List.range' 1 nNodes) (proof : PartialProof)
      (hanswer : (w.answers (i : ℤ)).join = some proof) :
      ∃ k < nNodes, i = k+1 ∧ proof = reg.proofOf prim password nonce k := by
    rw [List.mem_range'_1] at hi
    obtain ⟨k, rfl⟩ := Nat.exists_eq_add_of_le' hi.1
    exact ⟨k, by omega, rfl, htold k (by omega) proof (Option.join_eq_some_iff.mp hanswer)⟩
  rw [proofs_eq s h]
  refine ⟨?_, ?_, List.length_filterMap_eq_countP, ?_⟩
  · have hids : ((List.range' 1 nNodes).map (fun i : ℕ => (i : ℤ))).Nodup := by decide
    refine List.Nodup.sublist (map_filterMap_sublist _ _ _ _ ?_) hids
    intro i hi proof hanswer
    obtain ⟨k, -, rfl, rfl⟩ := hproof i hi proof hanswer
    rfl
  · have hxs : ((List.range' 1 nNodes).map (fun i : ℕ => (i : ZMod P))).Nodup := by
      apply List.Nodup.map_on _ List.nodup_range'
      intro i hi j hj hij
      rw [List.mem_range'_1] at hi hj
      exact index_cast_injective i j (by omega) (by omega) hij
    refine List.Nodup.sublist (map_filterMap_sublist _ _ _ _ ?_) hxs
    intro i hi proof hanswer
    obtain ⟨k, -, rfl, rfl⟩ := hproof i hi proof hanswer
    exact Int.cast_natCast (k+1)
  · intro proof hmem
    obtain ⟨i, hi, hanswer⟩ := List.mem_filterMap.mp hmem
    obtain ⟨k, hk, -, rfl⟩ := hproof i hi proof hanswer
    exact ⟨k+1, honestProof_compute prim reg password nonce (k+1) (by omega) _⟩

end Runs

def deploymentChallenges (prim : Primitives) (net : Network) :
    TicketSystem Deployment DeploymentEvent String Challenge where
  step := Deployment.handle prim net
  live := fun d => d.running.system.pending
  issued := DeploymentEvent.issued
  redeems := fun _ _ _ => False
  live_step := fun d e i entry h => (handle_issued d e i entry h).imp_right (fun h => ⟨h, id⟩)
  redeems_live := fun _ _ _ h => h.elim

/-- `uuid4` never repeats. -/
def FreshDeployment (events : List DeploymentEvent) : Prop :=
  (events.filterMap (fun e => e.issued.map Prod.fst)).Nodup

/-- However requests, restarts and services that come and go are interleaved: a handler for a
DID whose registration has returned, with a good signature on a challenge that is still open
when it resumes, succeeds if a threshold of services has answered it, and otherwise tells
that the quorum was not reached. -/
theorem deployment_decides (prim : Primitives) (hdec : prim.DecryptsEncrypted)
    (hrepr : prim.PrintsFloats) (net : Network) (hnet : net.Wired) (start : StartInputs)
    (before after : List DeploymentEvent) (reg : RegisterInputs) (password : String)
    (reply : RegisterReply)
    (hreply : (register prim reg password
      (runDeployment prim net start before).running.system).1 = .ok reply)
    (hspared : ∀ e ∈ before ++ after, e.SparesDid prim (reg.did prim))
    (hfresh : FreshDeployment (before ++ .register password reg :: after)) (d : Deployment)
    (hd : d = runDeployment prim net start (before ++ .register password reg :: after))
    (number : ℕ) (w : Waiting) (hw : d.waiting number = some w)
    (hdid : w.request.did = reg.did prim) (entry : Challenge)
    (hentry : d.running.system.pending w.request.challengeId = some entry)
    (hnonce : fromBytes (sha3_256 entry.nonce) % P ≠ 0) (inp : AuthInputs)
    (hlive : inp.consumedAt ≤ entry.expiresAt) (hwrite : inp.logWrite = .committed)
    (signature : Bytes) (hsig : fromhex w.request.signature = some signature)
    (hverify : prim.verify (reg.publicKey prim) (entry.nonce.val ++ encode (reg.did prim))
      signature = true) :
    let s := d.running.system
    let result := (authenticate prim inp w.request.did w.request.challengeId w.request.signature
      (some (w.proofs s.nodes)) s).1
    (threshold ≤ w.answered → ∃ token, result = .ok (success token)) ∧
      (w.answered < threshold → result = .ok (fail "quorum_not_reached")) := by
  intro s result
  have hfollows :=
    follows_run hdec hnet start _ (events_spare hspared (.register password reg))
  have hdurable :=
    durable_runDeployment hdec hnet start before after reply hspared hreply
  rw [← hd] at hfollows hdurable
  obtain ⟨keys, hkeys, -⟩ := hfollows.sound.systemKeys
  obtain ⟨e, he, peeked, hissued, -, htold⟩ := hfollows.told number w hw
  obtain ⟨e', he', hissued'⟩ := hfollows.pending _ entry hentry
  -- the challenge that is open is the one that the handler has peeked at
  have hsame := (deploymentChallenges prim net).issued_value _ hfresh e e' _ peeked entry he he'
    hissued hissued'
  subst hsame
  obtain ⟨hids, hxs, hlen, hhonest⟩ :=
    told_proofs w entry.nonce (htold hdid) s hfollows.sound.ordered
  have hresult : result = (decideProofs prim inp (reg.did prim) entry.nonce (w.proofs s.nodes)
      { s with pending := ChallengeManager.remove w.request.challengeId s.pending }).1 := by
    unfold result
    rw [hdid]
    exact congrArg Prod.fst (authenticate_eq_decide hdurable.enrolled.recorded hrepr inp
      w.request.challengeId w.request.signature (some (w.proofs s.nodes)) entry signature hentry
      hlive hsig hverify)
  rw [hresult]
  constructor
  · intro henough
    apply decideProofs_carried
      (s := { s with pending := ChallengeManager.remove w.request.challengeId s.pending })
      hdurable.enrolled.recorded hrepr inp entry.nonce entry.nonce (sessionH_ne_zero _ hnonce)
      (w.proofs s.nodes) (w.proofs s.nodes) hids hxs _ (List.Sublist.refl _) _ hhonest keys hkeys
      hwrite
    · intro proof hproof
      obtain ⟨i, hi⟩ := hhonest proof hproof
      exact hi.carried
    · rwa [hlen]
  · intro hfew
    apply decideProofs_few inp (reg.did prim) entry.nonce _ hwrite
    rwa [hlen]

/-! ## Whoever asks the services -/

section Disclosure
variable {prim : Primitives} {net : Network} {reg : RegisterInputs} {password : String}

/-- A service that is up, on a table that is not locked, answers for a durable registration
with the proof of its share. -/
theorem fetch_durable (hdec : prim.DecryptsEncrypted) (d : Deployment)
    (hdurable : reg.Durable prim password d.running)
    (hkeys : ∀ id aesKey, d.services id = some aesKey →
      d.running.dir.storeKey id = some aesKey) (k : ℕ) (hk : k < nNodes)
    (hup : d.services ((k+1 : ℕ) : ℤ) ≠ none) (hopen : d.locked ((k+1 : ℕ) : ℤ) = false)
    (nonce : Bytes) :
    d.fetch prim ((k+1 : ℕ) : ℤ) (reg.did prim) (hex nonce) =
      some (reg.proofOf prim password nonce k) := by
  obtain ⟨aesKey, hservice⟩ := Option.ne_none_iff_exists'.mp hup
  obtain ⟨aesKey', hkey, hrow⟩ := hdurable.onDisk.stored k hk
  -- the service has the key under which the row was written
  have hsame := hkeys _ _ hservice
  rw [hkey, Option.some.injEq] at hsame
  subst hsame
  rw [Deployment.fetch, hservice]
  dsimp only
  rw [hopen, if_neg Bool.false_ne_true, partialProofEndpoint_row hdec k nonce aesKey' _ hrow]
  rfl

/-- A threshold of honest proofs with different indices, or more, gives the secret back. -/
theorem recoverSecret_honest (nonce : Bytes) (hH : (sessionH nonce P : ZMod P) ≠ 0)
    (proofs : List PartialProof) (hlen : threshold ≤ proofs.length)
    (hx : (proofs.map (fun proof => (proof.x : ZMod P))).Nodup)
    (hhonest : ∀ proof ∈ proofs, ∃ i, HonestProof prim reg password nonce i proof) :
    recoverSecretFromPartialProofs proofs P = .ok (reg.secret prim password) := by
  have hrange := reg.secret_range prim password
  apply recover_honest P (reg.secret prim password) (sessionH nonce P)
    (List.ofFn (fun k => ((reg.draws k).val : ℤ)+1)) proofs (by omega) hlen _ hx hH
  · intro proof hproof
    obtain ⟨i, hi⟩ := hhonest proof hproof
    exact ((carries_iff _ _).mp hi.carried).2
  · intro proof hproof
    obtain ⟨i, hi⟩ := hhonest proof hproof
    rw [hi.value, hi.x_eq, Int.cast_natCast, reg.yValue_cast]
    rfl
  · rw [List.length_ofFn]
    exact hlen

/-- The services ask nobody to sign: after a registration has returned, anyone who reaches a
threshold of them, on tables that no failed commit has locked, with one nonce of his own
choice recovers the secret. -/
theorem services_disclose_secret (prim : Primitives) (hdec : prim.DecryptsEncrypted)
    (net : Network) (hnet : net.Wired) (start : StartInputs)
    (before after : List DeploymentEvent) (reg : RegisterInputs) (password : String)
    (reply : RegisterReply)
    (hreply : (register prim reg password
      (runDeployment prim net start before).running.system).1 = .ok reply)
    (hspared : ∀ e ∈ before ++ after, e.SparesDid prim (reg.did prim)) (ks : List ℕ)
    (hdistinct : ks.Nodup) (hks : ∀ k ∈ ks, k < nNodes) (henough : threshold ≤ ks.length)
    (nonce : Bytes) (hnonce : fromBytes (sha3_256 nonce) % P ≠ 0) :
    let d := runDeployment prim net start (before ++ .register password reg :: after)
    (∀ k ∈ ks, d.services ((k+1 : ℕ) : ℤ) ≠ none ∧ d.locked ((k+1 : ℕ) : ℤ) = false) →
      ∃ proofs, ks.map (fun k =>
          d.fetch prim ((k+1 : ℕ) : ℤ) (reg.did prim) (hex nonce)) = proofs.map some ∧
        recoverSecretFromPartialProofs proofs P = .ok (reg.secret prim password) := by
  intro d hup
  have hfollows :=
    follows_run hdec hnet start _ (events_spare hspared (.register password reg))
  have hdurable :=
    durable_runDeployment hdec hnet start before after reply hspared hreply
  refine ⟨ks.map (reg.proofOf prim password nonce), ?_, ?_⟩
  · rw [List.map_map]
    apply List.map_congr_left
    intro k hk
    exact fetch_durable hdec d hdurable hfollows.keys k (hks k hk) (hup k hk).1 (hup k hk).2
      nonce
  · have hhonest : ∀ proof ∈ ks.map (reg.proofOf prim password nonce),
        ∃ i, HonestProof prim reg password nonce i proof := by
      intro proof hproof
      obtain ⟨k, hk, rfl⟩ := List.mem_map.mp hproof
      exact ⟨k+1, honestProof_compute prim reg password nonce (k+1) (hks k hk) _⟩
    apply recoverSecret_honest nonce (sessionH_ne_zero _ hnonce) _ _ _ hhonest
    · rwa [List.length_map]
    · rw [List.map_map]
      apply List.Nodup.map_on _ hdistinct
      intro i hi j hj hij
      -- the indices of the nodes stay different modulo `P`
      have hcast : ((i+1 : ℕ) : ZMod P) = ((j+1 : ℕ) : ZMod P) := by
        simpa only [Function.comp_apply, RegisterInputs.proofOf, computePartialProof,
          Int.cast_natCast] using hij
      have hle := hks i hi
      have hle' := hks j hj
      exact Nat.succ_injective (index_cast_injective (i+1) (j+1) (by omega) (by omega) hcast)

end Disclosure

/-! ## Five nodes, the services of three of which are up -/

/-- The addresses of `NODE_PEERS`, and where each service listens. -/
def sampleNetwork : Network where
  peers := readPeers "node1:8001,node2:8002,node3:8003,node4:8004,node5:8005"
  hosts := fun address => [("node1:8001", 1), ("node2:8002", 2), ("node3:8003", 3),
    ("node4:8004", 4), ("node5:8005", 5)].lookup address

theorem sampleNetwork_wired : sampleNetwork.Wired := by
  intro k hk
  rw [nNodes] at hk
  interval_cases k <;> decide

def sampleRequest : AuthRequest :=
  ⟨sampleDid [7], "c", sampleSignature [7] (zeroToken 32)⟩

def sampleServices : List DeploymentEvent :=
  [.startService 1 (zeroToken 32), .startService 2 (zeroToken 32), .startService 3 (zeroToken 32)]

/-- A challenge, and three services that start. -/
def sampleReady : List DeploymentEvent :=
  .challenge (sampleDid [7]) ⟨zeroToken 32, "c", 0⟩ :: sampleServices

/-- A handler that peeks, and requests that reach the first `count` services. -/
def sampleServed (count : ℕ) : List DeploymentEvent :=
  .authenticate 0 sampleRequest 1 (sampleAuth []) ::
    (List.range count).map (fun k => .serve 0 ((k+1 : ℕ) : ℤ))

def sampleDeployment : Deployment :=
  runDeployment samplePrimitives sampleNetwork sampleStart
    ([] ++ .register "pw" (cleanRegister [7]) :: sampleReady)

theorem sampleReady_spares : ∀ e ∈ [] ++ sampleReady,
    e.SparesDid samplePrimitives ((cleanRegister [7]).did samplePrimitives) := by
  simp [sampleReady, sampleServices, DeploymentEvent.SparesDid]

/-- All writes of the registration commit, so no table is locked. -/
theorem sampleRegistered_locked (more : List DeploymentEvent)
    (hmore : ∀ e ∈ more, e.CommitsShares) : (runDeployment samplePrimitives sampleNetwork
      sampleStart ([] ++ .register "pw" (cleanRegister [7]) :: more)).locked = fun _ => false := by
  apply locked_runDeployment
  rw [List.nil_append, List.forall_mem_cons]
  exact ⟨fun i message => nofun, hmore⟩

theorem sampleServices_up (prim : Primitives) (net : Network) (d : Deployment)
    (hlocked : d.locked = fun _ => false) (k : ℕ) (hk : k < threshold) :
    (run (Deployment.handle prim net) d sampleServices).services ((k+1 : ℕ) : ℤ) ≠ none := by
  rw [threshold] at hk
  interval_cases k <;>
  · simp [sampleServices, Deployment.handle, hlocked]

theorem sampleDeployment_up (k : ℕ) (hk : k < threshold) :
    sampleDeployment.services ((k+1 : ℕ) : ℤ) ≠ none := by
  have hsplit : sampleDeployment = run (Deployment.handle samplePrimitives sampleNetwork)
      (runDeployment samplePrimitives sampleNetwork sampleStart
        ([] ++ .register "pw" (cleanRegister [7]) ::
          [.challenge (sampleDid [7]) ⟨zeroToken 32, "c", 0⟩])) sampleServices := by
    rw [runDeployment, ← run_append]
    rfl
  rw [hsplit]
  apply sampleServices_up _ _ _ _ k hk
  apply sampleRegistered_locked
  simp [DeploymentEvent.CommitsShares]

theorem sampleDeployment_open (k : ℕ) : sampleDeployment.locked ((k+1 : ℕ) : ℤ) = false := by
  have hnone := sampleRegistered_locked sampleReady (by
    simp [sampleReady, sampleServices, DeploymentEvent.CommitsShares])
  exact congrFun hnone _

theorem sampleDeployment_pending : sampleDeployment.running.system.pending "c" =
    some (sampleChallenge (zeroToken 32) (sampleDid [7])) := rfl

theorem services_disclose_secret_sample : ∃ proofs,
    recoverSecretFromPartialProofs proofs P =
      .ok ((cleanRegister [7]).secret samplePrimitives "pw") := by
  obtain ⟨reply, hreply⟩ := sampleLife_returns
  obtain ⟨proofs, -, hproofs⟩ := services_disclose_secret samplePrimitives
    SamplePrimitives.decryptsEncrypted sampleNetwork sampleNetwork_wired sampleStart []
    sampleReady (cleanRegister [7]) "pw" reply hreply sampleReady_spares (List.range threshold)
    List.nodup_range (fun k hk => (List.mem_range.mp hk).trans (by decide))
    List.length_range.ge (zeroToken 32).val zeroToken_hash
    (fun k hk => ⟨sampleDeployment_up k (List.mem_range.mp hk), sampleDeployment_open k⟩)
  exact ⟨proofs, hproofs⟩

/-- The handler after the answers of the first `count` nodes. -/
def sampleWaiting (count : ℕ) : Waiting where
  request := sampleRequest
  nonceHex := hex (zeroToken 32)
  answers := fun id => if 1 ≤ id ∧ id ≤ count then
    some (some ((cleanRegister [7]).proofOf samplePrimitives "pw" (zeroToken 32).val
      (id-1).toNat)) else none

theorem sampleDeployment_durable :
    (cleanRegister [7]).Durable samplePrimitives "pw" sampleDeployment.running := by
  obtain ⟨reply, hreply⟩ := sampleLife_returns
  exact durable_runDeployment SamplePrimitives.decryptsEncrypted sampleNetwork_wired sampleStart []
    sampleReady reply sampleReady_spares hreply

theorem sampleDeployment_follows : sampleDeployment.Follows samplePrimitives (cleanRegister [7])
    "pw" ([] ++ .register "pw" (cleanRegister [7]) :: sampleReady) :=
  follows_run SamplePrimitives.decryptsEncrypted sampleNetwork_wired sampleStart _
    (events_spare sampleReady_spares (.register "pw" (cleanRegister [7])))

theorem sampleServed_first : sampleDeployment.handle samplePrimitives sampleNetwork
    (.authenticate 0 sampleRequest 1 (sampleAuth [])) =
      sampleDeployment.setWaiting 0 (some (sampleWaiting 0)) := by
  have hpeek : ChallengeManager.peek sampleRequest.challengeId 1
      sampleDeployment.running.system.pending = some (zeroToken 32).val := by
    rw [ChallengeManager.peek, sampleRequest]
    dsimp only
    rw [sampleDeployment_pending]
    exact if_neg (not_lt.mpr sampleAuth_live)
  rw [Deployment.handle, hpeek]
  have hnone : (sampleWaiting 0).answers = fun _ => none := by
    funext id
    exact if_neg (by omega)
  dsimp only
  rw [← hnone]
  rfl

/-- Each service that is up answers with its proof. -/
theorem sampleServed_next (k : ℕ) (hk : k < threshold) :
    (sampleDeployment.setWaiting 0 (some (sampleWaiting k))).handle samplePrimitives
        sampleNetwork (.serve 0 ((k+1 : ℕ) : ℤ)) =
      sampleDeployment.setWaiting 0 (some (sampleWaiting (k+1))) := by
  have hlt : k < nNodes := hk.trans (by decide)
  have hfetch := fetch_durable SamplePrimitives.decryptsEncrypted
    (sampleDeployment.setWaiting 0 (some (sampleWaiting k))) sampleDeployment_durable
    sampleDeployment_follows.keys k hlt (sampleDeployment_up k hk) (sampleDeployment_open k)
    (zeroToken 32).val
  have hnew : (sampleWaiting k).answers ((k+1 : ℕ) : ℤ) = none := if_neg (by omega)
  have hanswers : Function.update (sampleWaiting k).answers ((k+1 : ℕ) : ℤ)
      (some (some ((cleanRegister [7]).proofOf samplePrimitives "pw" (zeroToken 32).val k))) =
        (sampleWaiting (k+1)).answers := by
    funext id
    by_cases hid : id = ((k+1 : ℕ) : ℤ)
    · subst hid
      rw [Function.update_self, sampleWaiting]
      dsimp only
      rw [if_pos ⟨by omega, by omega⟩, show (((k+1 : ℕ) : ℤ)-1).toNat = k by omega]
    · rw [Function.update_of_ne hid]
      exact if_congr (by omega) rfl rfl
  rw [Deployment.handle_served _ _ _ 0 _ (sampleWaiting k) _ (Deployment.setWaiting_same _ _ _)
    (sampleNetwork_wired k hlt) hnew, Deployment.setWaiting_twice]
  rw [← hfetch] at hanswers
  exact congrArg (fun answers => sampleDeployment.setWaiting 0
    (some ⟨sampleRequest, hex (zeroToken 32), answers⟩)) hanswers

theorem sampleServed_eq (count : ℕ) (hcount : count ≤ threshold) :
    run (Deployment.handle samplePrimitives sampleNetwork) sampleDeployment
      (sampleServed count) = sampleDeployment.setWaiting 0 (some (sampleWaiting count)) := by
  induction count with
  | zero =>
    rw [sampleServed, run_cons, sampleServed_first]
    rfl
  | succ count ih =>
    rw [sampleServed, List.range_succ, List.map_append, List.map_singleton, ← List.cons_append,
      run_snoc]
    exact (congrArg (fun d => Deployment.handle samplePrimitives sampleNetwork d _)
      (ih (by omega))).trans (sampleServed_next count (by omega))

theorem deployment_decides_served : ∃ token, (authenticate samplePrimitives (sampleAuth [])
    (sampleDid [7]) "c" (sampleSignature [7] (zeroToken 32))
    (some ((sampleWaiting threshold).proofs sampleDeployment.running.system.nodes))
    sampleDeployment.running.system).1 = .ok (success token) := by
  obtain ⟨reply, hreply⟩ := sampleLife_returns
  obtain ⟨d, hd, hrunning, hwaiting⟩ : ∃ d : Deployment,
      d = runDeployment samplePrimitives sampleNetwork sampleStart
        ([] ++ .register "pw" (cleanRegister [7]) :: (sampleReady ++ sampleServed threshold)) ∧
      d.running = sampleDeployment.running ∧ d.waiting 0 = some (sampleWaiting threshold) := by
    refine ⟨_, ?_, Deployment.setWaiting_running 0 _ _, Deployment.setWaiting_same 0 _ _⟩
    rw [← List.cons_append, ← List.append_assoc, runDeployment, run_append]
    exact (sampleServed_eq threshold le_rfl).symm
  have hpending := sampleDeployment_pending
  rw [← hrunning] at hpending ⊢
  refine (deployment_decides samplePrimitives SamplePrimitives.decryptsEncrypted
    SamplePrimitives.printsFloats sampleNetwork sampleNetwork_wired sampleStart []
    (sampleReady ++ sampleServed threshold) (cleanRegister [7]) "pw" reply hreply ?_ ?_ d hd 0
    (sampleWaiting threshold) hwaiting rfl _ hpending (sampleChallenge_hash _) (sampleAuth [])
    sampleAuth_live rfl _ (fromhex_hex _) (SamplePrimitives.verifiesSigned [7] [] _)).1 le_rfl
  · simp [sampleReady, sampleServices, sampleServed, DeploymentEvent.SparesDid]
  · exact List.nodup_singleton _

end DecentralizedIDP
