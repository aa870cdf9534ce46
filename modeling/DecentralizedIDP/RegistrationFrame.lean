import DecentralizedIDP.SampleRuns

/-! What a registration leaves alone. Everything about an identity is keyed by its DID,
and the DID carries the first eight bytes of the key's digest. -/
namespace DecentralizedIDP
open Foundations

/-- The lookups of the DID and every node's share of it read the same in both states. -/
structure Undisturbed (prim : Primitives) (did : String) (s s' : System) : Prop where
  publicKey : Ledger.getPublicKey did s'.ledger = Ledger.getPublicKey did s.ledger
  commitmentHash : Ledger.getCommitmentHash did s'.ledger = Ledger.getCommitmentHash did s.ledger
  registrationNonce :
    Ledger.getRegistrationNonce did s'.ledger = Ledger.getRegistrationNonce did s.ledger
  feldmanCommitments :
    Ledger.getFeldmanCommitments did s'.ledger = Ledger.getFeldmanCommitments did s.ledger
  shares : ∀ k : ℕ, s'.nodes[k]?.map (fun node => node.shareStore.getShare prim did) =
    s.nodes[k]?.map (fun node => node.shareStore.getShare prim did)

/-- Two keys have one DID exactly when their digests start with the same eight bytes. -/
theorem didOf_eq_iff (a b : Bytes) :
    didOf a = didOf b ↔ (sha3_256 a).take 8 = (sha3_256 b).take 8 := by
  have hdigits (key : Bytes) : String.ofList ((sha3Hex key).toList.take 16) =
      hex ((sha3_256 key).take 8) := by
    rw [sha3Hex, hex, String.toList_ofList, hex, hexChars_take 8]
  rw [didOf, didOf, hdigits, hdigits]
  constructor
  · intro h
    exact hex_injective (String.append_right_inj _ |>.mp h)
  · intro h
    rw [h]

theorem getRegisterData_congr (did : String) (ledger ledger' : Ledger ℚ)
    (h : Ledger.latestRegister did ledger' = Ledger.latestRegister did ledger) :
    Ledger.getRegisterData did ledger' = Ledger.getRegisterData did ledger := by
  rw [Ledger.getRegisterData, Ledger.getRegisterData, h]

/-- The newest registration and the rows of the stores are all that the lookups read. -/
theorem undisturbed_frame (prim : Primitives) (did : String) (s s' : System)
    (hledger : Ledger.latestRegister did s'.ledger = Ledger.latestRegister did s.ledger)
    (hlen : s'.nodes.length = s.nodes.length)
    (hnodes : RegisterInputs.SharesKept did s.nodes s'.nodes) : Undisturbed prim did s s' := by
  have hdata := getRegisterData_congr did s.ledger s'.ledger hledger
  constructor
  · rw [Ledger.getPublicKey, Ledger.getField, hdata]
    rfl
  · rw [Ledger.getCommitmentHash, Ledger.getField, hdata]
    rfl
  · rw [Ledger.getRegistrationNonce, Ledger.getField, hdata]
    rfl
  · rw [Ledger.getFeldmanCommitments, hdata]
    rfl
  · intro k
    cases hnode : s'.nodes[k]? with
    | none =>
      have hshort : s.nodes[k]? = none := by
        rw [List.getElem?_eq_none_iff] at hnode ⊢
        omega
      rw [hshort]
    | some node' =>
      obtain ⟨node, hold, hshares, hkey⟩ := hnodes k node' hnode
      have hshare : node'.shareStore.getShare prim did = node.shareStore.getShare prim did := by
        rw [ShareStore.getShare, ShareStore.getShare, hshares, hkey]
      rw [hold, Option.map_some, Option.map_some, hshare]

/-- However a registration ends, every other DID reads as before. -/
theorem register_undisturbed (prim : Primitives) (aesKeys : ℕ → Token 32)
    (systemKeys : Option SystemKeys) (ops : List Op) (inp : RegisterInputs)
    (password did : String) (hdid : did ≠ inp.did prim) :
    Undisturbed prim did (runOps prim aesKeys systemKeys ops)
      (register prim inp password (runOps prim aesKeys systemKeys ops)).2 := by
  have hlen := (nodesOrdered_run prim aesKeys systemKeys ops).length.le
  set s := runOps prim aesKeys systemKeys ops
  have hcount (count : ℕ) := inp.putShares_length prim password 1 count s.nodes
  have hkept (count : ℕ) := inp.putShares_kept prim password did hdid count s.nodes
  -- the row, if the call gets that far, belongs to the other DID
  have hrow := inp.latestRegister_ledgerRow_other prim password did hdid s.ledger
  rcases inp.register_cases prim password s hlen with
    ⟨-, e, heq⟩ | ⟨-, -, e, heq⟩ | ⟨-, -, r, files, heq, -⟩
  · rw [heq]
    exact undisturbed_frame prim did s _ rfl (hcount _) (hkept _)
  · rw [heq]
    exact undisturbed_frame prim did s _ rfl (hcount _) (hkept _)
  · rw [heq]
    exact undisturbed_frame prim did s _ hrow (hcount _) (hkept _)

/-! ## Two keys with one DID -/

/-- Encodings of two curve points whose digests start with `a39a723fefe31b11`. -/
def firstKey : Bytes := toBytes 32 0x96dc5f2485a1687d

def secondKey : Bytes := toBytes 32 0x8afd621fcc32e9a0

theorem firstKey_digest : sha3_256 firstKey =
    toBytes 32 0xa39a723fefe31b11ce9c4f291a50632840fcb8d409992ca6f9ec9a85d220d9bf := by
  decide +kernel

theorem secondKey_digest : sha3_256 secondKey =
    toBytes 32 0xa39a723fefe31b11f59211bcc4bc1cca88ed2141ed18f890dc64121db964bed7 := by
  decide +kernel

theorem digests_differ : sha3_256 firstKey ≠ sha3_256 secondKey := by
  rw [firstKey_digest, secondKey_digest]
  decide +kernel

theorem colliding_did : (cleanRegister firstKey).did samplePrimitives =
    (cleanRegister secondKey).did samplePrimitives := by
  apply (didOf_eq_iff firstKey secondKey).mpr
  rw [firstKey_digest, secondKey_digest]
  decide +kernel

/-- When another key is recorded under the DID, its lookups have changed. -/
theorem disturbed_of_recorded (prim : Primitives) (hrepr : prim.PrintsFloats)
    (first second : RegisterInputs) (password password' : String) (s s' : System)
    (hdid : first.did prim = second.did prim) (hkey : first.publicKey prim ≠ second.publicKey prim)
    (hfirst : first.Recorded prim password s.ledger)
    (hsecond : second.Recorded prim password' s'.ledger) :
    ¬Undisturbed prim (first.did prim) s s' := by
  intro h
  have hbefore := first.getPublicKey_recorded hfirst hrepr
  have hafter := second.getPublicKey_recorded hsecond hrepr
  rw [← hdid, h.publicKey, hbefore] at hafter
  exact hkey (Option.some.inj (Except.ok.inj hafter))

theorem cleanRegister_recorded (seed : Bytes) (password : String) (s : System)
    (hnodes : NodesOrdered s) : (cleanRegister seed).Recorded samplePrimitives password
      (register samplePrimitives (cleanRegister seed) password s).2.ledger := by
  obtain ⟨reply, files, heq⟩ := (cleanRegister seed).register_committed samplePrimitives password s
    hnodes.length.le (cleanRegister_stored seed _) rfl rfl
  rw [heq]
  exact ((cleanRegister seed).enrolled_of_ledgerRow samplePrimitives password s files).recorded

/-- The coordinator after one key was registered. -/
def registeredOnce (seed : Bytes) : System :=
  runOps samplePrimitives (fun _ => zeroToken 32) (some sampleKeys)
    [.register "pw" (cleanRegister seed)]

theorem registeredOnce_recorded (seed : Bytes) :
    (cleanRegister seed).Recorded samplePrimitives "pw" (registeredOnce seed).ledger := by
  rw [registeredOnce, runOps, run_cons, run_nil, step]
  exact cleanRegister_recorded seed "pw" _ (nodesOrdered_initial _ _)

theorem register_undisturbed_sample :
    Undisturbed samplePrimitives ((cleanRegister firstKey).did samplePrimitives)
      (registeredOnce firstKey)
      (register samplePrimitives (cleanRegister [7]) "pw" (registeredOnce firstKey)).2 := by
  apply register_undisturbed samplePrimitives _ _ _ (cleanRegister [7]) "pw"
  intro h
  have hdigest := (didOf_eq_iff firstKey [7]).mp h
  rw [firstKey_digest] at hdigest
  revert hdigest
  decide +kernel

/-- Registering the second key after the first takes the first one's DID over. -/
theorem colliding_key_disturbs :
    sha3_256 ((cleanRegister firstKey).publicKey samplePrimitives) ≠
        sha3_256 ((cleanRegister secondKey).publicKey samplePrimitives) ∧
      ¬Undisturbed samplePrimitives ((cleanRegister firstKey).did samplePrimitives)
        (registeredOnce firstKey)
        (register samplePrimitives (cleanRegister secondKey) "pw" (registeredOnce firstKey)).2 := by
  refine ⟨digests_differ, ?_⟩
  have hkeys : (cleanRegister firstKey).publicKey samplePrimitives ≠
      (cleanRegister secondKey).publicKey samplePrimitives :=
    fun heq => digests_differ (congrArg sha3_256 heq)
  exact disturbed_of_recorded samplePrimitives SamplePrimitives.printsFloats _ _ "pw" "pw" _ _
    colliding_did hkeys (registeredOnce_recorded firstKey)
    (cleanRegister_recorded secondKey "pw" (registeredOnce firstKey) (nodesOrdered_run _ _ _ _))

end DecentralizedIDP
