import DecentralizedIDP.CoordinatorRestarts

/-! The audit log: what `get_all_entries` reads from the ledger, and the calls that its
lines tell of. -/
namespace DecentralizedIDP
open Foundations

/-- A line of the log. -/
structure AuditEntry (τ : Type) where
  id : ℕ
  entryType : String
  did : String
  data : Json
  timestamp : τ
  entryHash : String

namespace Ledger
variable {τ : Type}

/-- The lines from this id on. One document that does not decode makes the whole call raise. -/
def entriesFrom (id : ℕ) : Ledger τ → Except PyError (List (AuditEntry τ))
  | [] => .ok []
  | row :: rows =>
    match loads row.dataJson with
    | none => .error (.valueError "JSONDecodeError")
    | some data =>
      match entriesFrom (id+1) rows with
      | .error e => .error e
      | .ok entries =>
        .ok (⟨id, row.entryType, row.did, data, row.timestamp, row.entryHash⟩ :: entries)

/-- The ids count from one: rows are only appended, and one that is rolled back takes its id
back with it. -/
def getAllEntries (ledger : Ledger τ) : Except PyError (List (AuditEntry τ)) :=
  entriesFrom 1 ledger

/-- Where every row decodes, the log has a line for each of them. -/
theorem entriesFrom_ok {κ : Type*} (R : Entry τ → κ → Prop) (T : AuditEntry τ → κ → Prop)
    (hread : ∀ row k id, R row k → ∃ data, loads row.dataJson = some data ∧
      T ⟨id, row.entryType, row.did, data, row.timestamp, row.entryHash⟩ k)
    (ledger : Ledger τ) (ks : List κ) (h : List.Forall₂ R ledger ks) (id : ℕ) :
    ∃ entries, entriesFrom id ledger = .ok entries ∧
      entries.map AuditEntry.id = List.range' id entries.length ∧ List.Forall₂ T entries ks := by
  induction h generalizing id with
  | nil => exact ⟨[], rfl, rfl, List.Forall₂.nil⟩
  | cons hrow _ ih =>
    obtain ⟨data, hdata, htells⟩ := hread _ _ id hrow
    obtain ⟨entries, hentries, hids, hall⟩ := ih (id+1)
    refine ⟨_ :: entries, ?_, ?_, List.Forall₂.cons htells hall⟩
    · rw [entriesFrom, hdata]
      simp only [hentries]
    · rw [List.map_cons, hids, List.length_cons, List.range'_succ]

end Ledger

/-! ## How an authentication ends -/

/-- The ends of `authenticate` that leave a row. -/
inductive Ruling where
  | rejected (reason : String)
  | granted (quorumNodes : List ℤ) (token : String)

namespace Ruling

def entryType : Ruling → String
  | .rejected _ => "AUTH_FAIL"
  | .granted _ _ => "AUTH_SUCCESS"

def data : Ruling → List (String × Json)
  | .rejected reason => [("reason", .str reason)]
  | .granted quorumNodes token => successData quorumNodes token

def result : Ruling → AuthResult
  | .rejected reason => fail reason
  | .granted _ token => success token

def log (prim : Primitives) (inp : AuthInputs) (did : String) (ruling : Ruling) (s : System) :
    Except PyError AuthResult × System :=
  logged prim inp ruling.entryType did ruling.data ruling.result s

end Ruling

/-- The same call, but for how its write to the ledger ends. -/
def AuthInputs.writing (inp : AuthInputs) (write : WriteStatus) : AuthInputs :=
  { inp with logWrite := write }

/-- A token of a ruling is one that was issued. -/
def Ruling.Sound (prim : Primitives) (inp : AuthInputs) (did : String) (s : System) :
    Ruling → Prop
  | .rejected _ => True
  | .granted quorumNodes token => Iat.issue prim s.systemKeys inp.token did quorumNodes = .ok token

/-- However the write of its row goes, the call comes to the same ruling, or to none. -/
def Ends (prim : Primitives) (inp : AuthInputs) (did : String) (s : System)
    (call : AuthInputs → Except PyError AuthResult × System) : Prop :=
  (∃ r, ∀ write, call (inp.writing write) = (r, s)) ∨
    ∃ ruling : Ruling, ruling.Sound prim inp did s ∧
      ∀ write, call (inp.writing write) = ruling.log prim (inp.writing write) did s

section Ends
variable (prim : Primitives) (inp : AuthInputs) (did : String)

theorem ends_raised (s : System) (r : Except PyError AuthResult)
    (call : AuthInputs → Except PyError AuthResult × System)
    (h : ∀ write, call (inp.writing write) = (r, s)) : Ends prim inp did s call :=
  Or.inl ⟨r, h⟩

theorem ends_rejected (s : System) (reason : String)
    (call : AuthInputs → Except PyError AuthResult × System)
    (h : ∀ write, call (inp.writing write) = reject prim (inp.writing write) did reason s) :
    Ends prim inp did s call :=
  Or.inr ⟨.rejected reason, trivial, h⟩

theorem decideProofs_ends (nonce : Bytes) (proofs : List PartialProof) (s : System) :
    Ends prim inp did s (fun inp => decideProofs prim inp did nonce proofs s) := by
  -- only the last step of each branch looks at the write
  unfold decideProofs
  cases runPbftRound (roundId nonce did) proofs with
  | none => exact ends_rejected prim inp did s _ _ (fun _ => rfl)
  | some honestProofs =>
    dsimp only
    cases s.ledger.getCommitmentHash did with
    | error e => exact ends_raised prim inp did s _ _ (fun _ => rfl)
    | ok stored =>
      dsimp only
      cases chooseSubset stored (cleanProofs proofs honestProofs) with
      | error e => exact ends_raised prim inp did s _ _ (fun _ => rfl)
      | ok found =>
        cases found with
        | none => exact ends_rejected prim inp did s _ _ (fun _ => rfl)
        | some chosen =>
          cases htoken : Iat.issue prim s.systemKeys inp.token did
              (chosen.map PartialProof.nodeId) with
          | error e =>
            apply ends_raised prim inp did s (.error e)
            intro write
            simp only [AuthInputs.writing, htoken]
          | ok token =>
            refine Or.inr ⟨.granted (chosen.map PartialProof.nodeId) token, htoken, ?_⟩
            intro write
            simp only [AuthInputs.writing, htoken]
            rfl

theorem checkRequest_ends (signatureHex : String) (preCollected : Option (List PartialProof))
    (nonce : Bytes) (s : System) :
    Ends prim inp did s
      (fun inp => checkRequest prim inp did signatureHex preCollected nonce s) := by
  unfold checkRequest
  cases s.ledger.getPublicKey did with
  | error e => exact ends_raised prim inp did s _ _ (fun _ => rfl)
  | ok found =>
    cases found with
    | none => exact ends_raised prim inp did s _ _ (fun _ => rfl)
    | some publicKey =>
      dsimp only
      cases fromhex signatureHex with
      | none => exact ends_rejected prim inp did s _ _ (fun _ => rfl)
      | some signature =>
        dsimp only
        cases prim.verify publicKey (nonce ++ encode did) signature with
        | false =>
          apply ends_rejected prim inp did s "invalid_signature"
          intro write
          simp only [Bool.not_false, if_true]
        | true =>
          have hdecide := decideProofs_ends prim inp did nonce
            (deliveredProofs prim inp preCollected s.nodes did nonce) s
          simp only [Bool.not_true, Bool.false_eq_true, if_false]
          exact hdecide

theorem authenticate_ends (challengeId signatureHex : String)
    (preCollected : Option (List PartialProof)) (s : System) :
    Ends prim inp did { s with pending := ChallengeManager.remove challengeId s.pending }
      (fun inp => authenticate prim inp did challengeId signatureHex preCollected s) := by
  have hpending := ChallengeManager.consume_pending challengeId inp.consumedAt s.pending
  unfold authenticate
  cases hconsume : ChallengeManager.consume challengeId inp.consumedAt s.pending with
  | mk found pending =>
    rw [hconsume] at hpending
    dsimp only at hpending
    subst hpending
    cases found with
    | none =>
      apply ends_raised prim inp did _ (.ok (fail "challenge_expired_or_invalid"))
      intro write
      simp only [AuthInputs.writing, hconsume]
    | some nonce =>
      have hcheck := checkRequest_ends prim inp did signatureHex preCollected nonce
        { s with pending := ChallengeManager.remove challengeId s.pending }
      have hcall (write : WriteStatus) : ChallengeManager.consume challengeId
          (inp.writing write).consumedAt s.pending =
            (some nonce, ChallengeManager.remove challengeId s.pending) := hconsume
      unfold Ends
      simp only [hcall]
      exact hcheck

end Ends

/-! ## What the lines tell -/

/-- The call comes to this ruling once its row is written, and if it returns anything, it
returns what the ruling says. -/
structure Ruling.Decides (prim : Primitives) (inp : AuthInputs) (did challengeId : String)
    (signatureHex : String) (preCollected : Option (List PartialProof)) (s : System)
    (ruling : Ruling) : Prop where
  sound : ruling.Sound prim inp did s
  written : (authenticate prim (inp.writing .committed) did challengeId signatureHex preCollected
    s).1 = .ok ruling.result
  returned : ∀ result, (authenticate prim inp did challengeId signatureHex preCollected s).1 =
    .ok result → result = ruling.result

/-- The row that the operation writes in this state. -/
def Wrote (prim : Primitives) (r : Running) : LifeOp → Entry ℚ → Prop
  | .call (.register password inp), row => row = inp.ledgerRow prim password r.system.ledger
  | .call (.authenticate did challengeId signatureHex preCollected inp), row =>
    ∃ ruling : Ruling, ruling.Decides prim inp did challengeId signatureHex preCollected r.system ∧
      row = Ledger.newEntry prim.repr inp.loggedAt ruling.entryType did ruling.data r.system.ledger
  | _, _ => False

/-- The line of the log tells what the operation did in this state. -/
def LifeOp.ReportedBy (prim : Primitives) (r : Running) : LifeOp → AuditEntry ℚ → Prop
  | .call (.register password inp), line => line.entryType = "DID_REGISTER" ∧
      line.did = inp.did prim ∧ line.timestamp = inp.appendedAt ∧
      line.data = .obj (sortMembers (inp.data prim password))
  | .call (.authenticate did challengeId signatureHex preCollected inp), line =>
    ∃ ruling : Ruling, ruling.Decides prim inp did challengeId signatureHex preCollected r.system ∧
      line.entryType = ruling.entryType ∧ line.did = did ∧ line.timestamp = inp.loggedAt ∧
      line.data = .obj (sortMembers ruling.data)
  | _, _ => False

/-- The operation is a call that returned after it wrote its row. -/
def LifeOp.Logged (prim : Primitives) (r : Running) : LifeOp → Prop
  | .call op => Running.Logged prim r.system op
  | .restart _ => False

section Rows
variable (prim : Primitives) (r : Running)

theorem register_wrote (hsound : r.Sound) (password : String) (inp : RegisterInputs) :
    ((register prim inp password r.system).2.ledger = r.system.ledger ∧
      ¬Running.Logged prim r.system (.register password inp)) ∨
    ∃ row, (register prim inp password r.system).2.ledger = r.system.ledger ++ [row] ∧
      Wrote prim r (.call (.register password inp)) row := by
  have hraised (e : PyError) (h : (register prim inp password r.system).1 = .error e) :
      ¬Running.Logged prim r.system (.register password inp) := by
    intro hlogged
    rw [Running.Logged, h] at hlogged
    obtain ⟨reply, hreply⟩ := hlogged
    cases hreply
  rcases inp.register_cases prim password r.system hsound.ordered.length.le with
    ⟨-, e, heq⟩ | ⟨-, -, e, heq⟩ | ⟨-, -, result, files, heq, -⟩
  · exact Or.inl ⟨by rw [heq], hraised e (congrArg Prod.fst heq)⟩
  · exact Or.inl ⟨by rw [heq], hraised e (congrArg Prod.fst heq)⟩
  · rw [heq]
    exact Or.inr ⟨_, rfl, rfl⟩

theorem authenticate_wrote (did challengeId signatureHex : String)
    (preCollected : Option (List PartialProof)) (inp : AuthInputs) :
    (authenticate prim inp did challengeId signatureHex preCollected r.system).2.ledger =
        r.system.ledger ∨
    ∃ row, (authenticate prim inp did challengeId signatureHex preCollected r.system).2.ledger =
        r.system.ledger ++ [row] ∧
      Wrote prim r (.call (.authenticate did challengeId signatureHex preCollected inp)) row := by
  rcases authenticate_ends prim inp did challengeId signatureHex preCollected r.system with
    ⟨result, hends⟩ | ⟨ruling, hruling, hends⟩
  · left
    have hcall := hends inp.logWrite
    dsimp only [AuthInputs.writing] at hcall
    rw [hcall]
  · have hcall := hends inp.logWrite
    have hwritten : (authenticate prim (inp.writing .committed) did challengeId signatureHex
        preCollected r.system).1 = .ok ruling.result :=
      congrArg Prod.fst ((hends .committed).trans (logged_committed prim _ rfl _ _ _ _ _))
    dsimp only [AuthInputs.writing] at hcall
    have hlogged := logged_cases prim inp ruling.entryType did ruling.data ruling.result
      { r.system with pending := ChallengeManager.remove challengeId r.system.pending }
    rw [← Ruling.log, ← hcall] at hlogged
    rcases hlogged with ⟨result, heq, hresult⟩ | ⟨e, heq⟩
    · refine Or.inr ⟨_, by rw [heq], ruling, ⟨hruling, hwritten, ?_⟩, rfl⟩
      intro result' hresult'
      rw [heq] at hresult'
      exact hresult result' hresult'
    · exact Or.inl (by rw [heq])

/-- An operation writes a row or none, and one that returns after it wrote has committed it. -/
theorem step_wrote (op : LifeOp) (h : (Running.ledgerLog prim).Behind r) :
    ((r.step prim op).system.ledger = r.system.ledger ∧ ¬op.Logged prim r) ∨
    (∃ row, (r.step prim op).system.ledger = r.system.ledger ++ [row] ∧ Wrote prim r op row ∧
      (op.Logged prim r → (r.step prim op).dir.ledger = (r.step prim op).system.ledger)) ∨
    ((r.step prim op).system.ledger = r.dir.ledger ∧ ¬op.Logged prim r) := by
  cases op with
  | restart inp =>
    obtain ⟨storeKey, heq, -⟩ := lifespan_eq prim inp r.system.files r.dir
    refine Or.inr (Or.inr ⟨?_, id⟩)
    rw [Running.step, Running.startOn, heq]
  | call op =>
    have hcommit (hlogged : Running.Logged prim r.system op) :
        (stepDisk prim r.system r.dir op).ledger = (step prim r.system op).ledger :=
      (Running.stepDisk_ledger prim r.system r.dir op h.1.ordered).resolve_left
        (fun hno => hno.2 hlogged)
    cases op with
    | register password inp =>
      rcases register_wrote prim r h.1 password inp with hnone | ⟨row, heq, hrow⟩
      · exact Or.inl hnone
      · exact Or.inr (Or.inl ⟨row, heq, hrow, hcommit⟩)
    | authenticate did challengeId signatureHex preCollected inp =>
      rcases authenticate_wrote prim r did challengeId signatureHex preCollected inp with
        hnone | ⟨row, heq, hrow⟩
      · exact Or.inl ⟨hnone, fun hlogged => hlogged.2 hnone⟩
      · exact Or.inr (Or.inl ⟨row, heq, hrow, hcommit⟩)
    | _ => exact Or.inl ⟨rfl, id⟩

/-- The document of a row decodes to what the call passed to `append`. -/
theorem ruling_valid (inp : AuthInputs) (did : String) (hkeys : ∃ keys, r.system.systemKeys =
    some keys) (ruling : Ruling) (h : ruling.Sound prim inp did r.system) :
    ∀ m ∈ ruling.data, m.2.Valid := by
  cases ruling with
  | rejected reason => simp [Ruling.data, Json.Valid]
  | granted quorumNodes token =>
    obtain ⟨keys, hkeys⟩ := hkeys
    have hissue : Iat.issue prim (some keys) inp.token did quorumNodes = .ok token := hkeys ▸ h
    rw [Ruling.data, successData, Iat.extractJti_issue prim keys inp.token did quorumNodes token
      hissue]
    simp [Json.Valid, validElems_iff]

theorem reported_of_wrote (hrepr : prim.PrintsFloats) (hsound : r.Sound) (op : LifeOp)
    (row : Entry ℚ) (h : Wrote prim r op row) (id : ℕ) :
    ∃ data, loads row.dataJson = some data ∧ op.ReportedBy prim r
      ⟨id, row.entryType, row.did, data, row.timestamp, row.entryHash⟩ := by
  cases op with
  | restart inp => exact h.elim
  | call op =>
    cases op with
    | register password inp =>
      obtain rfl : row = inp.ledgerRow prim password r.system.ledger := h
      exact ⟨_, loads_dumpsSorted _ (inp.data_valid prim password hrepr), rfl, rfl, rfl, rfl⟩
    | authenticate did challengeId signatureHex preCollected inp =>
      obtain ⟨ruling, hdecides, rfl⟩ := h
      obtain ⟨keys, hkeys, -⟩ := hsound.systemKeys
      have hvalid := ruling_valid prim r inp did ⟨keys, hkeys⟩ ruling hdecides.sound
      exact ⟨_, loads_dumpsSorted _ hvalid, ruling, hdecides, rfl, rfl, rfl, rfl⟩
    | _ => exact h.elim

end Rows

/-- Whatever calls, crashes and restarts there were, the audit log reads back: its lines are
numbered from one, they tell of different calls in the order in which these were made, each
line says what its call did, and no call that returned after it wrote a line is missing. -/
theorem audit_log_tells_calls (prim : Primitives) (hrepr : prim.PrintsFloats)
    (start : StartInputs) (ops : List LifeOp) :
    ∃ entries calls, (runLife prim start ops).system.ledger.getAllEntries = .ok entries ∧
      entries.map AuditEntry.id = List.range' 1 entries.length ∧
      calls.Pairwise (· < ·) ∧
      List.Forall₂ (fun line k => ∃ op, ops[k]? = some op ∧
        LifeOp.ReportedBy prim (runLife prim start (ops.take k)) op line) entries calls ∧
      ∀ k op, ops[k]? = some op → LifeOp.Logged prim (runLife prim start (ops.take k)) op →
        k ∈ calls := by
  have hfirst := Running.behind_first prim start
  have hempty : (Running.ledgerLog prim).seen (Running.first prim start) = [] := by
    change (Running.first prim start).system.ledger = []
    rw [first_system]
    rfl
  obtain ⟨calls, hattributed, hkept⟩ := (Running.ledgerLog prim).attributed_run
    (Wrote prim) (fun r op => LifeOp.Logged prim r op) (step_wrote prim) hfirst hempty ops
  obtain ⟨entries, hentries, hids, hlines⟩ := Ledger.entriesFrom_ok _
    (fun line k => ∃ op, ops[k]? = some op ∧
      LifeOp.ReportedBy prim (runLife prim start (ops.take k)) op line)
    (by
      rintro row k id ⟨op, hop, hwrote⟩
      obtain ⟨data, hdata, hreported⟩ := reported_of_wrote prim _ hrepr
        (Running.sound_life prim start (ops.take k)) op row hwrote id
      exact ⟨data, hdata, op, hop, hreported⟩)
    _ calls hattributed.written 1
  refine ⟨entries, calls, hentries, hids, hattributed.sorted, hlines, ?_⟩
  intro k op hop hlogged
  exact List.mem_of_mem_take (hkept k op hop hlogged)

/-- The registration that returned before the restart has its line. -/
theorem audit_log_tells_calls_sample : ∃ entries line,
    (runLife samplePrimitives sampleStart sampleLife).system.ledger.getAllEntries = .ok entries ∧
      line ∈ entries ∧ line.entryType = "DID_REGISTER" ∧ line.did = sampleDid [7] := by
  obtain ⟨entries, calls, hentries, -, -, hlines, hall⟩ := audit_log_tells_calls samplePrimitives
    SamplePrimitives.printsFloats sampleStart sampleLife
  have hmem := hall 0 (.call (.register "pw" (cleanRegister [7]))) rfl sampleLife_returns
  obtain ⟨line, hline, op, hop, hreported⟩ := exists_mem_left hlines 0 hmem
  cases hop
  exact ⟨entries, line, hentries, hline, hreported.1, hreported.2.1⟩

end DecentralizedIDP
