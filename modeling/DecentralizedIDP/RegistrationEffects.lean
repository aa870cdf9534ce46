import DecentralizedIDP.Registration

/-! Everything a registration can do to the shared state, and what an enrolled DID
reads back as. -/
namespace DecentralizedIDP
open Foundations

namespace RegisterInputs
variable (prim : Primitives) (inp : RegisterInputs) (password : String)

/-- The ledger row of the call, appended to `ledger`. -/
def ledgerRow (ledger : Ledger ℚ) : Entry ℚ :=
  Ledger.newEntry prim.repr inp.appendedAt "DID_REGISTER" (inp.did prim)
    (inp.data prim password) ledger

/-- Every share write of the call commits. -/
def AllStored (count : ℕ) : Prop := ∀ j < count, (inp.stores (1+j)).write = .committed

/-- What a call that succeeds returns. -/
def reply : RegisterReply where
  status := "success"
  did := inp.did prim
  publicKey := hex (inp.publicKey prim)
  keyfilePath := keyfilePath (inp.did prim)
  message := "Private key saved to keyfile. Keep your password safe."

theorem publish_eq (s : System) :
    publish prim inp password (prim.generateKeypair inp.keySeed) (inp.did prim)
        (inp.secret prim password) (inp.commitments prim password) inp.feldmanSalt s =
      match s.ledger.append prim.repr inp.ledgerWrite inp.appendedAt "DID_REGISTER"
          (inp.did prim) (inp.data prim password) with
      | (.error e, ledger) => (.error e, { s with ledger := ledger })
      | (.ok _, ledger) =>
        match saveKeyfile prim inp.keyfile (prim.generateKeypair inp.keySeed).1
            (prim.generateKeypair inp.keySeed).2 password (keyfilePath (inp.did prim))
            prim.algName s.files with
        | (.error e, files) => (.error e, { s with ledger := ledger, files := files })
        | (.ok (), files) =>
          (.ok (inp.reply prim), { s with ledger := ledger, files := files }) := by
  rw [publish, inp.commitmentHash_eq prim password]
  rfl

theorem register_eq (s : System) :
    register prim inp password s =
      match distribute prim inp.stores (inp.did prim) (inp.shares prim password)
          (inp.commitments prim password) 1 s.nodes with
      | (.error e, nodes) => (.error e, { s with nodes := nodes })
      | (.ok (), nodes) =>
        publish prim inp password (prim.generateKeypair inp.keySeed) (inp.did prim)
          (inp.secret prim password) (inp.commitments prim password) inp.feldmanSalt
          { s with nodes := nodes } := by
  have hrange := inp.secret_range prim password
  have hshares := inp.generateShares_eq prim password
  have hcommitments := inp.generateCommitments_eq prim password
  rw [secret, publicKey] at hrange
  rw [secret, publicKey] at hshares
  simp only [register]
  -- up to the first write nothing can fail: the secret is in range and every value fits
  rw [if_neg (not_not.mpr hrange), hshares]
  simp only [hcommitments]
  rfl

/-- Everything one call can do. Its writes happen in order; a call that raises stops
at the first write that fails and leaves those before it in place. -/
theorem register_cases (s : System) (hnodes : s.nodes.length ≤ nNodes) :
    (¬inp.AllStored s.nodes.length ∧ ∃ e, register prim inp password s = (.error e,
      { s with nodes := inp.putShares prim password 1 (reached inp.stores 1 s.nodes.length)
                 s.nodes })) ∨
    (inp.AllStored s.nodes.length ∧ (∃ message, inp.ledgerWrite = .rejected message) ∧
      ∃ e, register prim inp password s =
        (.error e, { s with nodes := inp.putShares prim password 1 s.nodes.length s.nodes })) ∨
    (inp.AllStored s.nodes.length ∧ (∀ message, inp.ledgerWrite ≠ .rejected message) ∧
      ∃ r files, register prim inp password s =
        (r, { s with nodes := inp.putShares prim password 1 s.nodes.length s.nodes,
                     ledger := s.ledger ++ [inp.ledgerRow prim password s.ledger],
                     files := files }) ∧
        ((∃ reply, r = .ok reply) ↔
          inp.ledgerWrite = .committed ∧ inp.keyfile.write = .written)) := by
  obtain ⟨r, hdistribute, hok⟩ := inp.distribute_eq prim password 0 s.nodes (by omega)
  rw [zero_add] at hdistribute hok
  rw [register_eq, hdistribute]
  -- the loop over the nodes failed, or every share is stored and the ledger write decides
  cases r with
  | error e =>
    refine Or.inl ⟨fun h => ?_, e, rfl⟩
    cases hok.mpr h
  | ok u =>
    have hall : inp.AllStored s.nodes.length := hok.mp rfl
    rw [reached_all inp.stores 1 s.nodes.length hall]
    simp only [publish_eq]
    cases hwrite : inp.ledgerWrite with
    | rejected message => exact Or.inr (Or.inl ⟨hall, ⟨message, rfl⟩, _, rfl⟩)
    | uncommitted message =>
      refine Or.inr (Or.inr ⟨hall, by simp, _, s.files, rfl, ?_⟩)
      simp
    | committed =>
      obtain ⟨r, files, hsave, hwritten⟩ := saveKeyfile_cases prim inp.keyfile
        (prim.generateKeypair inp.keySeed).1 (prim.generateKeypair inp.keySeed).2 password
        (keyfilePath (inp.did prim)) prim.algName s.files
      cases r with
      | error e =>
        refine Or.inr (Or.inr ⟨hall, by simp, .error e, files, ?_, ?_⟩)
        · simp only [Ledger.append, WriteStatus.perform, hsave]
          rfl
        · simp [← hwritten]
      | ok u =>
        refine Or.inr (Or.inr ⟨hall, by simp, .ok (inp.reply prim), files, ?_, ?_⟩)
        · simp only [Ledger.append, WriteStatus.perform, hsave]
          rfl
        · simp [← hwritten]

/-- Registering touches the nodes, the ledger and the files only. -/
theorem register_frame (s : System) : ∃ nodes ledger files,
    (register prim inp password s).2 =
      { s with nodes := nodes, ledger := ledger, files := files } := by
  rw [register_eq]
  split
  · next e nodes hdistribute => exact ⟨nodes, s.ledger, s.files, rfl⟩
  · next nodes hdistribute =>
    rw [publish_eq]
    split
    · next e ledger happend => exact ⟨nodes, ledger, s.files, rfl⟩
    · next row ledger happend =>
      split
      · next e files hsave => exact ⟨nodes, ledger, files, rfl⟩
      · next files hsave => exact ⟨nodes, ledger, files, rfl⟩

/-- A call whose writes all commit returns, with every share and the row in place. -/
theorem register_committed (s : System) (hnodes : s.nodes.length ≤ nNodes)
    (hstores : inp.AllStored s.nodes.length) (hledger : inp.ledgerWrite = .committed)
    (hkeyfile : inp.keyfile.write = .written) :
    ∃ reply files, register prim inp password s = (.ok reply,
      { s with nodes := inp.putShares prim password 1 s.nodes.length s.nodes,
               ledger := s.ledger ++ [inp.ledgerRow prim password s.ledger],
               files := files }) := by
  rcases inp.register_cases prim password s hnodes with
    ⟨hno, -⟩ | ⟨-, ⟨message, hno⟩, -⟩ | ⟨-, -, r, files, heq, hok⟩
  · exact absurd hstores hno
  · rw [hledger] at hno
    cases hno
  -- of the three outcomes only this one has all writes in place
  · obtain ⟨reply, rfl⟩ := hok.mpr ⟨hledger, hkeyfile⟩
    exact ⟨reply, files, heq⟩

/-! ## The shares of one call -/

theorem mem_shares (share : ℤ × ℤ) (h : share ∈ inp.shares prim password) :
    ∃ i ≤ nNodes, share = ((i : ℤ), inp.yValue prim password i) := by
  obtain ⟨i, hi, rfl⟩ := List.mem_map.mp h
  rw [List.mem_range'_1] at hi
  exact ⟨i, by omega, rfl⟩

/-- Any threshold of different shares, in any order, gives back the secret. -/
theorem reconstructSecret_shares (shares : List (ℤ × ℤ)) (hlen : threshold ≤ shares.length)
    (hnodup : shares.Nodup) (hmem : ∀ share ∈ shares, share ∈ inp.shares prim password) :
    reconstructSecret shares P = .ok (inp.secret prim password) := by
  have hrange := inp.secret_range prim password
  apply reconstructSecret_ok P (inp.secret prim password)
    (List.ofFn (fun k => ((inp.draws k).val : ℤ)+1)) shares (by omega)
  · rw [List.length_ofFn]
    exact hlen
  · -- different shares of one call have different indices
    apply List.Nodup.map_on _ hnodup
    intro a ha b hb heq
    obtain ⟨i, hi, rfl⟩ := inp.mem_shares prim password a (hmem a ha)
    obtain ⟨j, hj, rfl⟩ := inp.mem_shares prim password b (hmem b hb)
    rw [Int.cast_natCast, Int.cast_natCast] at heq
    rw [index_cast_injective i j hi hj heq]
  · intro share hshare
    obtain ⟨i, -, rfl⟩ := inp.mem_shares prim password share (hmem share hshare)
    rw [Int.cast_natCast]
    exact inp.yValue_cast prim password i

/-! ## Enrolled DIDs -/

/-- The newest registration of the DID and its row at every node are those of the call. -/
structure Enrolled (s : System) : Prop where
  entry : ∃ e, Ledger.latestRegister (inp.did prim) s.ledger = some e ∧
    e.dataJson = dumpsSorted (inp.data prim password)
  stored : ∀ k node, s.nodes[k]? = some node → node.shareStore.shares (inp.did prim) =
    some (inp.row prim password (k+1) node.shareStore.aesKey)

theorem data_valid (hrepr : prim.PrintsFloats) : ∀ m ∈ inp.data prim password, m.2.Valid := by
  intro m hm
  simp only [data, registerData, List.mem_cons, List.not_mem_nil, or_false] at hm
  -- only the list of commitments and the float can be malformed at all
  rcases hm with rfl | rfl | rfl | rfl | rfl | rfl
  · trivial
  · trivial
  · trivial
  · apply (validElems_iff _).mpr
    intro e he
    obtain ⟨c, -, rfl⟩ := List.mem_map.mp he
    trivial
  · trivial
  · exact hrepr _

theorem data_keys_nodup : ((inp.data prim password).map Prod.fst).Nodup := by
  simp only [data, registerData, List.map_cons, List.map_nil]
  decide

/-- The newest registration of the DID carries the data of the call. -/
def Recorded (ledger : Ledger ℚ) : Prop :=
  ∃ e, Ledger.latestRegister (inp.did prim) ledger = some e ∧
    e.dataJson = dumpsSorted (inp.data prim password)

section Getters
variable {prim inp password} {ledger : Ledger ℚ} (h : inp.Recorded prim password ledger)
  (hrepr : prim.PrintsFloats)
include h hrepr

/-- A getter reads the field that the call wrote. -/
theorem getField_recorded {β : Type} (f : Json → Except PyError β) (key : String) (v : Json) (b : β)
    (hm : (key, v) ∈ inp.data prim password) (hf : f v = .ok b) :
    Ledger.getField f key (inp.did prim) ledger = .ok (some b) := by
  obtain ⟨e, he, hjson⟩ := h
  exact Ledger.getField_payload _ _ e _ he hjson (inp.data_valid prim password hrepr)
    (inp.data_keys_nodup prim password) f key v b hm hf

theorem getPublicKey_recorded :
    Ledger.getPublicKey (inp.did prim) ledger = .ok (some (inp.publicKey prim)) := by
  apply getField_recorded h hrepr _ _ (.str (hex (inp.publicKey prim)))
  · simp [data, registerData]
  · rw [Ledger.bytesFromhex, fromhex_hex]

theorem getCommitmentHash_recorded : Ledger.getCommitmentHash (inp.did prim) ledger =
    .ok (some (.str (inp.commitment prim password))) := by
  apply getField_recorded h hrepr _ _ (.str (inp.commitment prim password))
  · simp [data, registerData]
  · rfl

theorem getRegistrationNonce_recorded : Ledger.getRegistrationNonce (inp.did prim) ledger =
    .ok (some inp.registrationNonce.val) := by
  apply getField_recorded h hrepr _ _ (.str (hex inp.registrationNonce))
  · simp [data, registerData]
  · rw [Ledger.bytesFromhex, fromhex_hex]

theorem getFeldmanCommitments_recorded : Ledger.getFeldmanCommitments (inp.did prim) ledger =
    .ok (some (inp.commitments prim password)) := by
  obtain ⟨e, he, hjson⟩ := h
  apply Ledger.getFeldmanCommitments_payload _ _ e _ he hjson (inp.data_valid prim password hrepr)
    (inp.data_keys_nodup prim password)
  simp [data, registerData]

/-- The salt has no getter of its own; it is read from the DID document. -/
theorem feldmanSalt_recorded : ∃ document, Ledger.getDidDocument (inp.did prim) ledger =
    .ok (some document) ∧ (Ledger.subscript document "feldman_salt" >>= Ledger.bytesFromhex) =
      .ok inp.feldmanSalt.val := by
  obtain ⟨e, he, hjson⟩ := h
  refine ⟨_, Ledger.getRegisterData_payload _ _ e _ he hjson
    (inp.data_valid prim password hrepr), ?_⟩
  rw [Ledger.subscript_sortMembers _ (inp.data_keys_nodup prim password) _
    (.str (hex inp.feldmanSalt)) (by simp [data, registerData])]
  simp only [bind, Except.bind, Ledger.bytesFromhex, fromhex_hex]

end Getters

section Reading
variable {prim inp password} {s : System} (h : inp.Enrolled prim password s)
include h

theorem Enrolled.recorded : inp.Recorded prim password s.ledger := h.entry

theorem getShare_enrolled (hdec : prim.DecryptsEncrypted) (k : ℕ) (node : Node)
    (hnode : s.nodes[k]? = some node) : node.shareStore.getShare prim (inp.did prim) =
      .ok (some (((k+1 : ℕ) : ℤ), inp.yValue prim password (k+1))) :=
  ShareStore.getShare_stored prim hdec _ _ _ _ _ _ (inp.yValue_fits prim password (k+1))
    (h.stored k node hnode)

theorem computePartialProof_enrolled (hdec : prim.DecryptsEncrypted) (k : ℕ) (node : Node)
    (hnode : s.nodes[k]? = some node) (honline : node.online = true)
    (hhonest : node.byzantine = false) (fakeValue : Fin (P-1)) (challengeNonce : Bytes) :
    node.computePartialProof prim fakeValue (inp.did prim) challengeNonce =
      .ok (computePartialProof (((k+1 : ℕ) : ℤ), inp.yValue prim password (k+1)) challengeNonce
        node.nodeId P) := by
  rw [Node.computePartialProof, honline, getShare_enrolled h hdec k node hnode, hhonest]
  rfl

end Reading

/-! ## What keeps a DID enrolled -/

/-- No node's row for the DID changes, nor its key. -/
def SharesKept (did : String) (nodes nodes' : List Node) : Prop :=
  ∀ (k : ℕ) (node' : Node), nodes'[k]? = some node' → ∃ node : Node, nodes[k]? = some node ∧
    node'.shareStore.shares did = node.shareStore.shares did ∧
    node'.shareStore.aesKey = node.shareStore.aesKey

theorem sharesKept_refl (did : String) (nodes : List Node) : SharesKept did nodes nodes :=
  fun _ node' h => ⟨node', h, rfl, rfl⟩

theorem enrolled_frame (s s' : System) (h : inp.Enrolled prim password s)
    (hledger : Ledger.latestRegister (inp.did prim) s'.ledger =
      Ledger.latestRegister (inp.did prim) s.ledger)
    (hnodes : SharesKept (inp.did prim) s.nodes s'.nodes) : inp.Enrolled prim password s' := by
  refine ⟨by rw [hledger]; exact h.entry, fun k node' hnode' => ?_⟩
  obtain ⟨node, hnode, hshares, hkey⟩ := hnodes k node' hnode'
  rw [hshares, hkey]
  exact h.stored k node hnode

theorem putShares_kept (did : String) (hdid : did ≠ inp.did prim) (count : ℕ)
    (nodes : List Node) : SharesKept did nodes (inp.putShares prim password 1 count nodes) := by
  intro k node' hnode'
  -- whether or not the loop reached the node, the row of the other DID is the old one
  rw [putShares_getElem?] at hnode'
  obtain ⟨node, hnode, rfl⟩ := Option.map_eq_some_iff.mp hnode'
  refine ⟨node, hnode, ?_⟩
  split_ifs
  · exact ⟨ShareStore.putRow_other _ _ _ _ hdid, rfl⟩
  · exact ⟨rfl, rfl⟩

theorem latestRegister_ledgerRow_other (did : String) (hdid : did ≠ inp.did prim)
    (ledger : Ledger ℚ) : Ledger.latestRegister did
      (ledger ++ [inp.ledgerRow prim password ledger]) = Ledger.latestRegister did ledger := by
  rw [Ledger.latestRegister_snoc, if_neg]
  simp only [Ledger.isRegister, ledgerRow, Ledger.newEntry, Bool.and_eq_true, beq_iff_eq, not_and]
  exact fun _ h => hdid h.symm

/-- The registration of another DID, however it ends, keeps this one enrolled. -/
theorem enrolled_register_other (other : RegisterInputs) (otherPassword : String) (s : System)
    (hlen : s.nodes.length ≤ nNodes) (hdid : inp.did prim ≠ other.did prim)
    (h : inp.Enrolled prim password s) :
    inp.Enrolled prim password (register prim other otherPassword s).2 := by
  have hkept (count : ℕ) := other.putShares_kept prim otherPassword _ hdid count s.nodes
  rcases other.register_cases prim otherPassword s hlen with
    ⟨-, e, heq⟩ | ⟨-, -, e, heq⟩ | ⟨-, -, r, files, heq, -⟩
  · exact heq ▸ inp.enrolled_frame prim password s _ h rfl (hkept _)
  · exact heq ▸ inp.enrolled_frame prim password s _ h rfl (hkept _)
  · exact heq ▸ inp.enrolled_frame prim password s _ h
      (other.latestRegister_ledgerRow_other prim otherPassword _ hdid _) (hkept _)

/-- A call that got as far as its ledger row has enrolled its DID. -/
theorem enrolled_of_ledgerRow (s : System) (files : Files) :
    inp.Enrolled prim password
      { s with nodes := inp.putShares prim password 1 s.nodes.length s.nodes,
               ledger := s.ledger ++ [inp.ledgerRow prim password s.ledger],
               files := files } := by
  constructor
  · refine ⟨inp.ledgerRow prim password s.ledger, ?_, rfl⟩
    rw [Ledger.latestRegister_snoc, if_pos]
    simp [Ledger.isRegister, ledgerRow, Ledger.newEntry]
  · intro k node' hnode'
    dsimp only at hnode'
    rw [putShares_getElem?] at hnode'
    obtain ⟨node, hnode, rfl⟩ := Option.map_eq_some_iff.mp hnode'
    have hk := (List.getElem?_eq_some_iff.mp hnode).1
    -- the row was appended, so the loop had been through all nodes
    rw [if_pos hk, add_comm 1 k]
    exact ShareStore.putRow_same _ _ _

end RegisterInputs

end DecentralizedIDP
