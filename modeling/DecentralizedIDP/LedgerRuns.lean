import DecentralizedIDP.SampleRuns

/-! The ledger over whole runs: rows are only added, the chain stays valid, and every
lookup of a DID reads the newest row that registered it. -/
namespace DecentralizedIDP
open Foundations

namespace Ledger
variable {τ : Type}

/-- The entry registers the DID, and no row after it does. -/
def Newest (did : String) (ledger : Ledger τ) (entry : Entry τ) : Prop :=
  entry.entryType = "DID_REGISTER" ∧ entry.did = did ∧ ∃ before after,
    ledger = before ++ entry :: after ∧
      ∀ row ∈ after, row.did = did → row.entryType ≠ "DID_REGISTER"

theorem isRegister_iff (did : String) (entry : Entry τ) :
    isRegister did entry = true ↔ entry.entryType = "DID_REGISTER" ∧ entry.did = did := by
  rw [isRegister, Bool.and_eq_true, beq_iff_eq, beq_iff_eq]

theorem latestRegister_newest (did : String) (ledger : Ledger τ) (entry : Entry τ)
    (h : latestRegister did ledger = some entry) : Newest did ledger entry := by
  obtain ⟨hreg, after, before, hsplit, hafter⟩ := List.find?_eq_some_iff_append.mp h
  obtain ⟨htype, hdid⟩ := (isRegister_iff did entry).mp hreg
  refine ⟨htype, hdid, before.reverse, after.reverse, ?_, ?_⟩
  · have hrev := congrArg List.reverse hsplit
    rwa [List.reverse_reverse, List.reverse_append, List.reverse_cons, List.append_assoc] at hrev
  · intro row hrow hrowDid hrowType
    have hno := hafter row (List.mem_reverse.mp hrow)
    rw [(isRegister_iff did row).mpr ⟨hrowType, hrowDid⟩] at hno
    cases hno

theorem latestRegister_none (did : String) (ledger : Ledger τ)
    (h : latestRegister did ledger = none) :
    ∀ row ∈ ledger, row.did = did → row.entryType ≠ "DID_REGISTER" := by
  intro row hrow hdid htype
  obtain ⟨latest, hlatest⟩ := latestRegister_isSome ledger row hrow htype
  rw [hdid, h] at hlatest
  cases hlatest

/-- What the four getters return is decoded from this entry. -/
structure ReadsFrom (did : String) (ledger : Ledger τ) (entry : Entry τ) (document : Json) : Prop
    where
  parsed : loads entry.dataJson = some document
  publicKey : ∃ key, getPublicKey did ledger = .ok (some key) ∧
    (subscript document "public_key" >>= bytesFromhex) = .ok key
  commitmentHash : ∃ commitment, getCommitmentHash did ledger = .ok (some commitment) ∧
    subscript document "commitment_hash" = .ok commitment
  registrationNonce : ∃ nonce, getRegistrationNonce did ledger = .ok (some nonce) ∧
    (subscript document "nonce" >>= bytesFromhex) = .ok nonce
  feldmanCommitments : ∃ commitments, getFeldmanCommitments did ledger = .ok (some commitments) ∧
    (subscript document "feldman_commitments" >>= elements >>= List.mapM bytesFromhex) =
      .ok commitments

/-- No getter finds the DID. -/
structure ReadsNothing (did : String) (ledger : Ledger τ) : Prop where
  publicKey : getPublicKey did ledger = .ok none
  commitmentHash : getCommitmentHash did ledger = .ok none
  registrationNonce : getRegistrationNonce did ledger = .ok none
  feldmanCommitments : getFeldmanCommitments did ledger = .ok none

theorem readsNothing_of_none (did : String) (ledger : Ledger τ)
    (h : latestRegister did ledger = none) : ReadsNothing did ledger := by
  have hdata : getRegisterData did ledger = .ok none := by rw [getRegisterData, h]
  constructor
  · rw [getPublicKey, getField, hdata]
    rfl
  · rw [getCommitmentHash, getField, hdata]
    rfl
  · rw [getRegistrationNonce, getField, hdata]
    rfl
  · rw [getFeldmanCommitments, hdata]
    rfl

end Ledger

/-! ## The rows of a run -/

/-- Every registration row carries the data of some registration of its DID. -/
def RowsRecorded (prim : Primitives) (ledger : Ledger ℚ) : Prop :=
  ∀ e ∈ ledger, e.entryType = "DID_REGISTER" → ∃ inp password,
    RegisterInputs.did prim inp = e.did ∧
      e.dataJson = dumpsSorted (RegisterInputs.data prim inp password)

theorem rowsRecorded_snoc (prim : Primitives) (ledger : Ledger ℚ) (row : Entry ℚ)
    (hrow : Appends prim ledger row) (h : RowsRecorded prim ledger) :
    RowsRecorded prim (ledger ++ [row]) := by
  intro e he htype
  rcases List.mem_append.mp he with he | he
  · exact h e he htype
  · rw [List.mem_singleton.mp he] at htype ⊢
    rcases hrow with ⟨inp, password, rfl⟩ | ⟨time, entryType, did, data, hother, rfl⟩
    · exact ⟨inp, password, rfl, rfl⟩
    · exact absurd htype hother

theorem linked_appends (prim : Primitives) (ledger : Ledger ℚ) (row : Entry ℚ)
    (hrow : Appends prim ledger row)
    (h : (Ledger.chainFormat prim.repr).Linked Ledger.zeroHash ledger) :
    (Ledger.chainFormat prim.repr).Linked Ledger.zeroHash (ledger ++ [row]) := by
  rcases hrow with ⟨inp, password, rfl⟩ | ⟨time, entryType, did, data, -, rfl⟩
  · exact Ledger.linked_newEntry prim.repr _ _ _ _ ledger h
  · exact Ledger.linked_newEntry prim.repr _ _ _ _ ledger h

/-- The chain is valid and the registration rows decode, after every step of every run. -/
theorem ledger_run (prim : Primitives) (aesKeys : ℕ → Token 32) (systemKeys : Option SystemKeys)
    (ops : List Op) :
    Ledger.verifyChain prim.repr (runOps prim aesKeys systemKeys ops).ledger = true ∧
      RowsRecorded prim (runOps prim aesKeys systemKeys ops).ledger := by
  rw [Ledger.verifyChain_iff]
  refine (run_invariant (step prim) (fun s => NodesOrdered s ∧
    (Ledger.chainFormat prim.repr).Linked Ledger.zeroHash s.ledger ∧ RowsRecorded prim s.ledger)
    ?_ (initial aesKeys systemKeys) ⟨nodesOrdered_initial aesKeys systemKeys, trivial, ?_⟩ ops).2
  · intro s op h
    obtain ⟨hnodes, hlinked, hrecorded⟩ := h
    refine ⟨nodesOrdered_step prim s op hnodes, ?_⟩
    rcases step_appends prim s op hnodes with heq | ⟨row, heq, hrow⟩
    · rw [heq]
      exact ⟨hlinked, hrecorded⟩
    · rw [heq]
      exact ⟨linked_appends prim _ row hrow hlinked, rowsRecorded_snoc prim _ row hrow hrecorded⟩
  · intro e he
    cases he

/-- A DID with a registration row has one whose data is that of a registration. -/
theorem recorded_of_latest (prim : Primitives) (ledger : Ledger ℚ) (h : RowsRecorded prim ledger)
    (did : String) (entry : Entry ℚ) (hlatest : Ledger.latestRegister did ledger = some entry) :
    ∃ inp password, RegisterInputs.did prim inp = did ∧
      entry.dataJson = dumpsSorted (RegisterInputs.data prim inp password) := by
  obtain ⟨hmem, htype, hdid⟩ := Ledger.latestRegister_mem did ledger entry hlatest
  obtain ⟨inp, password, hinp, hdata⟩ := h entry hmem htype
  exact ⟨inp, password, hinp.trans hdid, hdata⟩

/-- A DID either has no registration row, or the newest one is that of a registration. -/
theorem recorded_cases (prim : Primitives) (ledger : Ledger ℚ) (h : RowsRecorded prim ledger)
    (did : String) : Ledger.ReadsNothing did ledger ∨
      ∃ inp password, RegisterInputs.did prim inp = did ∧ inp.Recorded prim password ledger := by
  cases hlatest : Ledger.latestRegister did ledger with
  | none => exact Or.inl (Ledger.readsNothing_of_none did ledger hlatest)
  | some entry =>
    obtain ⟨inp, password, rfl, hdata⟩ := recorded_of_latest prim ledger h did entry hlatest
    exact Or.inr ⟨inp, password, rfl, entry, hlatest, hdata⟩

theorem RegisterInputs.readsFrom (prim : Primitives) (hrepr : prim.PrintsFloats)
    (inp : RegisterInputs) (password : String) (ledger : Ledger ℚ) (entry : Entry ℚ)
    (hlatest : Ledger.latestRegister (inp.did prim) ledger = some entry)
    (hdata : entry.dataJson = dumpsSorted (inp.data prim password)) :
    ∃ document, Ledger.ReadsFrom (inp.did prim) ledger entry document := by
  have h : inp.Recorded prim password ledger := ⟨entry, hlatest, hdata⟩
  have hfield := Ledger.subscript_sortMembers (inp.data prim password)
    (inp.data_keys_nodup prim password)
  have hkey := hfield "public_key" (.str (hex (inp.publicKey prim))) (by simp [data, registerData])
  have hcommitment := hfield "commitment_hash" (.str (inp.commitment prim password))
    (by simp [data, registerData])
  have hnonce := hfield "nonce" (.str (hex inp.registrationNonce)) (by simp [data, registerData])
  have hfeldman := hfield "feldman_commitments"
    (.arr ((inp.commitments prim password).map (fun c => .str (hex c))))
    (by simp [data, registerData])
  refine ⟨.obj (sortMembers (inp.data prim password)), ?_, ?_, ?_, ?_, ?_⟩
  · rw [hdata, loads_dumpsSorted _ (inp.data_valid prim password hrepr)]
  · refine ⟨_, inp.getPublicKey_recorded h hrepr, ?_⟩
    simp only [hkey, bind, Except.bind, Ledger.bytesFromhex, fromhex_hex]
  · exact ⟨_, inp.getCommitmentHash_recorded h hrepr, hcommitment⟩
  · refine ⟨_, inp.getRegistrationNonce_recorded h hrepr, ?_⟩
    simp only [hnonce, bind, Except.bind, Ledger.bytesFromhex, fromhex_hex]
  · refine ⟨_, inp.getFeldmanCommitments_recorded h hrepr, ?_⟩
    simp only [hfeldman, bind, Except.bind, Ledger.elements, Ledger.mapM_bytesFromhex]

/-- After every run, the next operation adds at most one row at the end, the chain is
valid, and the getters of a DID all read its newest registration. -/
theorem ledger_append_only (prim : Primitives) (hrepr : prim.PrintsFloats)
    (aesKeys : ℕ → Token 32) (systemKeys : Option SystemKeys) (ops : List Op) :
    (∀ op, ∃ rows, (step prim (runOps prim aesKeys systemKeys ops) op).ledger =
        (runOps prim aesKeys systemKeys ops).ledger ++ rows ∧ rows.length ≤ 1) ∧
    Ledger.verifyChain prim.repr (runOps prim aesKeys systemKeys ops).ledger = true ∧
    ∀ did,
      (∃ entry document,
        Ledger.Newest did (runOps prim aesKeys systemKeys ops).ledger entry ∧
        Ledger.ReadsFrom did (runOps prim aesKeys systemKeys ops).ledger entry document) ∨
      ((∀ row ∈ (runOps prim aesKeys systemKeys ops).ledger,
          row.did = did → row.entryType ≠ "DID_REGISTER") ∧
        Ledger.ReadsNothing did (runOps prim aesKeys systemKeys ops).ledger) := by
  obtain ⟨hchain, hrecorded⟩ := ledger_run prim aesKeys systemKeys ops
  have hnodes := nodesOrdered_run prim aesKeys systemKeys ops
  refine ⟨fun op => step_ledger prim _ op hnodes, hchain, fun did => ?_⟩
  cases hlatest : Ledger.latestRegister did (runOps prim aesKeys systemKeys ops).ledger with
  | none =>
    exact Or.inr ⟨Ledger.latestRegister_none did _ hlatest,
      Ledger.readsNothing_of_none did _ hlatest⟩
  | some entry =>
    obtain ⟨inp, password, rfl, hdata⟩ := recorded_of_latest prim _ hrecorded did entry hlatest
    obtain ⟨document, hreads⟩ := inp.readsFrom prim hrepr password _ entry hlatest hdata
    exact Or.inl ⟨entry, document, Ledger.latestRegister_newest _ _ entry hlatest, hreads⟩

theorem ledger_append_only_sample :
    Ledger.verifyChain samplePrimitives.repr (runOps samplePrimitives (fun _ => zeroToken 32)
      (some sampleKeys) answeredOps).ledger = true :=
  (ledger_append_only samplePrimitives SamplePrimitives.printsFloats _ _ answeredOps).2.1

end DecentralizedIDP
