import DecentralizedIDP.SampleRuns

/-! The relation between a registration row and the five share stores, kept through
every run, failed registrations included. -/
namespace DecentralizedIDP
open Foundations

def Op.registeredDid (prim : Primitives) : Op → Option String
  | .register _ inp => some (inp.did prim)
  | _ => none

/-- The generated DIDs of a run are pairwise distinct. -/
def DistinctDids (prim : Primitives) (ops : List Op) : Prop :=
  (ops.filterMap (Op.registeredDid prim)).Nodup

/-- Every registration row is the newest of its DID, and comes from a call whose
shares are all in place. -/
def RowsEnrolled (prim : Primitives) (past : List Op) (s : System) : Prop :=
  ∀ e ∈ s.ledger, e.entryType = "DID_REGISTER" →
    Ledger.latestRegister e.did s.ledger = some e ∧
    ∃ inp password, Op.register password inp ∈ past ∧ inp.did prim = e.did ∧
      inp.Enrolled prim password s

theorem distinctDids_snoc (prim : Primitives) (past : List Op) (op : Op)
    (h : DistinctDids prim (past ++ [op])) : DistinctDids prim past ∧
      ∀ password inp, Op.register password inp ∈ past → op.SparesDid prim (inp.did prim) := by
  rw [DistinctDids, List.filterMap_append, List.nodup_append] at h
  refine ⟨h.1, fun password inp hmem => ?_⟩
  cases op with
  | register password' other =>
    have hother : other.did prim ∈
        [Op.register password' other].filterMap (Op.registeredDid prim) := by
      simp [Op.registeredDid]
    have hinp : inp.did prim ∈ past.filterMap (Op.registeredDid prim) :=
      List.mem_filterMap.mpr ⟨_, hmem, rfl⟩
    -- the DID would stand twice among those of the run
    exact fun heq => h.2.2 _ hinp _ hother heq.symm
  | _ => trivial

/-- The rows that were there keep their relation to the stores. -/
theorem rowsEnrolled_old (prim : Primitives) (past : List Op) (s : System) (op : Op)
    (hnodes : NodesOrdered s)
    (hspares : ∀ password inp, Op.register password inp ∈ past → op.SparesDid prim (inp.did prim))
    (hlatest : ∀ did, op.SparesDid prim did → Ledger.latestRegister did (step prim s op).ledger =
      Ledger.latestRegister did s.ledger)
    (h : RowsEnrolled prim past s) (e : Entry ℚ) (he : e ∈ s.ledger)
    (htype : e.entryType = "DID_REGISTER") :
    Ledger.latestRegister e.did (step prim s op).ledger = some e ∧
    ∃ inp password, Op.register password inp ∈ past ++ [op] ∧ inp.did prim = e.did ∧
      inp.Enrolled prim password (step prim s op) := by
  -- the call behind the row is in the past, so the operation spares its DID
  obtain ⟨hnewest, inp, password, hmem, hdid, henrolled⟩ := h e he htype
  have hop := hspares password inp hmem
  refine ⟨?_, inp, password, List.mem_append_left _ hmem, hdid,
    enrolled_step prim inp password s op hnodes hop henrolled⟩
  rw [hlatest e.did (hdid ▸ hop), hnewest]

/-- A registration row found after an authentication was there before. -/
theorem registerRow_auth (prim : Primitives) (inp : AuthInputs)
    (did challengeId signatureHex : String) (preCollected : Option (List PartialProof))
    (s : System) (e : Entry ℚ)
    (he : e ∈ (authenticate prim inp did challengeId signatureHex preCollected s).2.ledger)
    (htype : e.entryType = "DID_REGISTER") : e ∈ s.ledger := by
  obtain ⟨rows, heq, hrows⟩ :=
    authenticate_effect prim inp did challengeId signatureHex preCollected s
  rw [heq] at he
  rcases List.mem_append.mp he with he | he
  · exact he
  · rcases hrows with rfl | ⟨data, rfl⟩ | ⟨entry, pair, chosen, token, rfl, -⟩
    · cases he
    · rw [List.mem_singleton.mp he] at htype
      exact absurd (show "AUTH_FAIL" = "DID_REGISTER" from htype) (by decide)
    · rw [List.mem_singleton.mp he] at htype
      exact absurd (show "AUTH_SUCCESS" = "DID_REGISTER" from htype) (by decide)

theorem rowsEnrolled_step (prim : Primitives) (past : List Op) (s : System) (op : Op)
    (hnodes : NodesOrdered s) (hdistinct : DistinctDids prim (past ++ [op]))
    (h : RowsEnrolled prim past s) : RowsEnrolled prim (past ++ [op]) (step prim s op) := by
  have hspares := (distinctDids_snoc prim past op hdistinct).2
  intro e he htype
  cases op with
  | register password inp =>
    -- without a row of its own, the call only touches shares of its own DID
    rcases inp.register_cases prim password s hnodes.length.le with
      ⟨-, _, heq⟩ | ⟨-, -, _, heq⟩ | ⟨-, -, r, files, heq, -⟩
    · rw [step, heq] at he
      exact rowsEnrolled_old prim past s _ hnodes hspares
        (fun did _ => by rw [step, heq]) h e he htype
    · rw [step, heq] at he
      exact rowsEnrolled_old prim past s _ hnodes hspares
        (fun did _ => by rw [step, heq]) h e he htype
    · rw [step, heq] at he
      rcases List.mem_append.mp he with he | he
      · exact rowsEnrolled_old prim past s _ hnodes hspares (fun did hdid => by
          rw [step, heq]
          exact inp.latestRegister_ledgerRow_other prim password did (fun hd => hdid hd.symm) _)
          h e he htype
      · -- the row of this very call
        rw [List.mem_singleton] at he
        refine ⟨?_, inp, password, List.mem_append_right _ (List.mem_singleton_self _), ?_, ?_⟩
        · rw [step, heq, Ledger.latestRegister_snoc, he, if_pos]
          simp [Ledger.isRegister, RegisterInputs.ledgerRow, Ledger.newEntry]
        · rw [he]
          rfl
        · rw [step, heq]
          exact inp.enrolled_of_ledgerRow prim password s files
  | authenticate did challengeId signatureHex preCollected inp =>
    have hlatest (d : String) := latestRegister_auth prim inp did challengeId signatureHex
      preCollected s d
    have hold := registerRow_auth prim inp did challengeId signatureHex preCollected s e he htype
    exact rowsEnrolled_old prim past s _ hnodes hspares (fun d _ => hlatest d) h e hold htype
  | _ => exact rowsEnrolled_old prim past s _ hnodes hspares (fun _ _ => rfl) h e he htype

theorem rowsEnrolled_run (prim : Primitives) (aesKeys : ℕ → Token 32)
    (systemKeys : Option SystemKeys) (ops : List Op) (hdistinct : DistinctDids prim ops) :
    RowsEnrolled prim ops (runOps prim aesKeys systemKeys ops) := by
  -- the history of an invariant: distinct DIDs so far, and the rows they led to
  refine (run_history (step prim)
    (fun past s => NodesOrdered s ∧ (DistinctDids prim past → RowsEnrolled prim past s))
    ?_ (initial aesKeys systemKeys) ⟨nodesOrdered_initial aesKeys systemKeys, ?_⟩ ops).2 hdistinct
  · rintro past s op ⟨hnodes, h⟩
    exact ⟨nodesOrdered_step prim s op hnodes, fun hd => rowsEnrolled_step prim past s op hnodes hd
      (h (distinctDids_snoc prim past op hd).1)⟩
  · intro _ e he
    cases he

/-! ## What the row and the stores say together -/

/-- The registration `entry` and the share stores agree: the secret derived from what
the getters return is in range, opens the commitment and is what any threshold of
the stored shares reconstructs, and each share verifies against its commitment. -/
structure Consistent (prim : Primitives) (s : System) (entry : Entry ℚ) (password : String)
    (publicKey nonce salt : Bytes) (commitments : List Bytes) (S : ℤ) (y : ℕ → ℤ) : Prop where
  newest : Ledger.latestRegister entry.did s.ledger = some entry
  publicKey_eq : Ledger.getPublicKey entry.did s.ledger = .ok (some publicKey)
  nonce_eq : Ledger.getRegistrationNonce entry.did s.ledger = .ok (some nonce)
  commitments_eq : Ledger.getFeldmanCommitments entry.did s.ledger = .ok (some commitments)
  salt_eq : ∃ document, loads entry.dataJson = some document ∧
    (Ledger.subscript document "feldman_salt" >>= Ledger.bytesFromhex) = .ok salt
  secret_eq : S = deriveIdentitySecret publicKey nonce password
  secret_range : 1 ≤ S ∧ S ≤ (P : ℤ)-1
  commitment_eq : ∃ text, Ledger.getCommitmentHash entry.did s.ledger = .ok (some (.str text)) ∧
    commitmentHash S = .ok text
  nodes_length : s.nodes.length = nNodes
  share_eq : ∀ k node, s.nodes[k]? = some node → node.nodeId = ((k+1 : ℕ) : ℤ) ∧
    node.shareStore.getShare prim entry.did = .ok (some (((k+1 : ℕ) : ℤ), y (k+1)))
  share_range : ∀ i, 0 ≤ y i ∧ y i < P
  share_verifies : ∀ k < nNodes,
    verifyShare (((k+1 : ℕ) : ℤ), y (k+1)) commitments salt = .ok true
  reconstructs : ∀ shares : List (ℤ × ℤ), shares.length = threshold → shares.Nodup →
    (∀ share ∈ shares, ∃ node ∈ s.nodes,
      node.shareStore.getShare prim entry.did = .ok (some share)) →
    reconstructSecret shares P = .ok S

theorem RegisterInputs.verifyShare_enrolled (prim : Primitives) (inp : RegisterInputs)
    (password : String) (k : ℕ) (hk : k < nNodes) :
    verifyShare (((k+1 : ℕ) : ℤ), inp.yValue prim password (k+1))
      (inp.commitments prim password) inp.feldmanSalt = .ok true := by
  have hget : ((inp.shares prim password).map Prod.snd)[k]? =
      some (inp.yValue prim password (k+1)) := by
    rw [List.getElem?_map, inp.shares_getElem? prim password k hk, Option.map_some]
  -- node `k+1` checks the commitment at position `k`
  rw [Nat.cast_add_one]
  apply verifyShare_committed _ _ k _ _ (inp.values_fit prim password) hget
  rw [List.length_map, shares_length]
  decide

theorem RegisterInputs.stored_share_mem (prim : Primitives) (hdec : prim.DecryptsEncrypted)
    (inp : RegisterInputs) (password : String) (s : System) (hnodes : NodesOrdered s)
    (h : inp.Enrolled prim password s) (node : Node) (hnode : node ∈ s.nodes) (share : ℤ × ℤ)
    (hshare : node.shareStore.getShare prim (inp.did prim) = .ok (some share)) :
    share ∈ inp.shares prim password := by
  obtain ⟨k, hk⟩ := List.mem_iff_getElem?.mp hnode
  rw [inp.getShare_enrolled h hdec k node hk, Except.ok.injEq, Option.some.injEq] at hshare
  rw [← hshare]
  exact List.mem_of_getElem? (inp.shares_getElem? prim password k (hnodes.nodeId k node hk).1)

/-- In every reachable state, each registration row is consistent with all stores. -/
theorem registration_consistent (prim : Primitives) (hdec : prim.DecryptsEncrypted)
    (hrepr : prim.PrintsFloats) (aesKeys : ℕ → Token 32) (systemKeys : Option SystemKeys)
    (ops : List Op) (hdistinct : DistinctDids prim ops) (entry : Entry ℚ)
    (hentry : entry ∈ (runOps prim aesKeys systemKeys ops).ledger)
    (htype : entry.entryType = "DID_REGISTER") :
    ∃ inp password publicKey nonce salt commitments S y,
      Op.register password inp ∈ ops ∧ inp.did prim = entry.did ∧
      Consistent prim (runOps prim aesKeys systemKeys ops) entry password publicKey nonce salt
        commitments S y := by
  have hnodes := nodesOrdered_run prim aesKeys systemKeys ops
  obtain ⟨hnewest, inp, password, hmem, hdid, h⟩ :=
    rowsEnrolled_run prim aesKeys systemKeys ops hdistinct entry hentry htype
  refine ⟨inp, password, inp.publicKey prim, inp.registrationNonce, inp.feldmanSalt,
    inp.commitments prim password, inp.secret prim password, inp.yValue prim password, hmem, hdid,
    ?_⟩
  obtain ⟨document, hdocument, hsalt⟩ := inp.feldmanSalt_recorded h.recorded hrepr
  exact
    { newest := hnewest
      publicKey_eq := hdid ▸ inp.getPublicKey_recorded h.recorded hrepr
      nonce_eq := hdid ▸ inp.getRegistrationNonce_recorded h.recorded hrepr
      commitments_eq := hdid ▸ inp.getFeldmanCommitments_recorded h.recorded hrepr
      salt_eq := ⟨document, Ledger.loads_of_getRegisterData entry.did _ entry document hnewest
        (hdid ▸ hdocument), hsalt⟩
      secret_eq := rfl
      secret_range := inp.secret_range prim password
      commitment_eq := ⟨_, hdid ▸ inp.getCommitmentHash_recorded h.recorded hrepr,
        inp.commitmentHash_eq prim password⟩
      nodes_length := hnodes.length
      share_eq := fun k node hnode => ⟨(hnodes.nodeId k node hnode).2,
        hdid ▸ inp.getShare_enrolled h hdec k node hnode⟩
      share_range := inp.yValue_range prim password
      share_verifies := inp.verifyShare_enrolled prim password
      reconstructs := by
        intro shares hlen hnodup hshares
        apply inp.reconstructSecret_shares prim password shares hlen.ge hnodup
        intro share hshare
        obtain ⟨node, hnode, hget⟩ := hshares share hshare
        exact inp.stored_share_mem prim hdec password _ hnodes h node hnode share (hdid ▸ hget) }

theorem registration_consistent_clean : ∃ inp password publicKey nonce salt commitments S y,
    Op.register password inp ∈ [Op.register "pw" (cleanRegister [7])] ∧
    inp.did samplePrimitives = (cleanRegister [7]).did samplePrimitives ∧
    Consistent samplePrimitives (runOps samplePrimitives (fun _ => zeroToken 32) (some sampleKeys)
      [Op.register "pw" (cleanRegister [7])])
      ((cleanRegister [7]).ledgerRow samplePrimitives "pw" []) password publicKey nonce salt
      commitments S y := by
  have hledger := cleanRegister_ledger [7] "pw" sampleInitial sampleInitial_ordered
  refine registration_consistent samplePrimitives SamplePrimitives.decryptsEncrypted
    SamplePrimitives.printsFloats _ _ [Op.register "pw" (cleanRegister [7])]
    (List.nodup_singleton _) ((cleanRegister [7]).ledgerRow samplePrimitives "pw" []) ?_ rfl
  rw [runOps, run_cons, run_nil]
  exact hledger ▸ List.mem_singleton_self _

end DecentralizedIDP
