import DecentralizedIDP.SampleRuns

/-! What a registration that raises leaves behind. There is no rollback: the writes
made before the failing step stay. -/
namespace DecentralizedIDP
open Foundations

/-- The message of an exception. -/
def PyError.text : PyError → String
  | .valueError m => m
  | .overflowError m => m
  | .typeError m => m
  | .keyError k => "'" ++ k ++ "'"
  | .indexError m => m
  | .assertionError m => m
  | .runtimeError m => m
  | .osError m => m
  | .operationalError m => m
  | .invalidTag => ""
  | .nodeOfflineError m => m
  | .shareNotFoundError m => m

structure RegisterResponse where
  status : String
  did : Option String
  publicKey : Option String
  keyfilePath : Option String
  message : Option String
  error : Option String

/-- `POST /register`. -/
def registerEndpoint (prim : Primitives) (inp : RegisterInputs) (password : String) (s : System) :
    RegisterResponse × System :=
  match register prim inp password s with
  | (.ok result, s) =>
    ({ status := result.status, did := some result.did, publicKey := some result.publicKey,
       keyfilePath := some result.keyfilePath, message := some result.message, error := none }, s)
  | (.error e, s) =>
    ({ status := "error", did := none, publicKey := none, keyfilePath := none, message := none,
       error := some e.text }, s)

/-- What is left of a call that got to the `k`-th node: each node before has the row of
the attempt in place of what it held for the DID, and nothing else differs. -/
def PrefixStored (prim : Primitives) (inp : RegisterInputs) (password : String) (k : ℕ)
    (nodes nodes' : List Node) : Prop :=
  nodes'.length = nodes.length ∧ ∀ (j : ℕ) (node : Node), nodes[j]? = some node → ∃ node' : Node,
    nodes'[j]? = some node' ∧ node'.nodeId = node.nodeId ∧ node'.online = node.online ∧
    node'.byzantine = node.byzantine ∧ node'.shareStore.aesKey = node.shareStore.aesKey ∧
    ∀ did, node'.shareStore.shares did =
      if did = inp.did prim ∧ j < k then
        some (inp.row prim password (j+1) node.shareStore.aesKey)
      else node.shareStore.shares did

theorem putShares_prefixStored (prim : Primitives) (inp : RegisterInputs) (password : String)
    (k : ℕ) (nodes : List Node) :
    PrefixStored prim inp password k nodes (inp.putShares prim password 1 k nodes) := by
  refine ⟨inp.putShares_length prim password 1 k nodes, fun j node hnode => ?_⟩
  refine ⟨_, by rw [inp.putShares_getElem?, hnode, Option.map_some], ?_⟩
  split_ifs with hj
  · refine ⟨rfl, rfl, rfl, rfl, fun did => ?_⟩
    rw [add_comm 1 j]
    -- a node that was reached has the new row, and its rows for other DIDs
    by_cases hdid : did = inp.did prim
    · rw [if_pos ⟨hdid, hj⟩, hdid]
      exact ShareStore.putRow_same _ _ _
    · rw [if_neg (fun h => hdid h.1)]
      exact ShareStore.putRow_other _ _ _ _ hdid
  · exact ⟨rfl, rfl, rfl, rfl, fun did => by rw [if_neg (fun h => hj h.2)]⟩

/-- A registration that raises, in any reachable state, leaves exactly the writes it made
before the failing step: the shares of the nodes it reached, and the ledger row if
all five shares were committed and the insert was not refused. -/
theorem register_error_keeps_writes (prim : Primitives) (aesKeys : ℕ → Token 32)
    (systemKeys : Option SystemKeys) (ops : List Op) (inp : RegisterInputs) (password : String)
    (e : PyError) (s' : System)
    (hraise : register prim inp password (runOps prim aesKeys systemKeys ops) = (.error e, s')) :
    let s := runOps prim aesKeys systemKeys ops
    let k := reached inp.stores 1 nNodes
    PrefixStored prim inp password k s.nodes s'.nodes ∧ (k = 0 → s'.nodes = s.nodes) ∧
    s'.pending = s.pending ∧ s'.systemKeys = s.systemKeys ∧
    (((inp.AllStored nNodes → ∃ message, inp.ledgerWrite = .rejected message) ∧
        s'.ledger = s.ledger ∧ s'.files = s.files) ∨
      (inp.AllStored nNodes ∧ (∀ message, inp.ledgerWrite ≠ .rejected message) ∧
        s'.ledger = s.ledger ++ [inp.ledgerRow prim password s.ledger])) := by
  intro s k
  have hlen : s.nodes.length = nNodes := (nodesOrdered_run prim aesKeys systemKeys ops).length
  have hnone (n : ℕ) (h : n = 0) : inp.putShares prim password 1 n s.nodes = s.nodes := by
    rw [h, RegisterInputs.putShares_zero]
  -- three ways to raise: a share write fails, the insert is refused, or a step after it fails
  rcases inp.register_cases prim password s hlen.le with
    ⟨hstores, _, heq⟩ | ⟨hstores, hwrite, _, heq⟩ | ⟨hstores, hwrite, r, files, heq, -⟩
  · rw [hlen] at hstores heq
    obtain ⟨-, rfl⟩ := Prod.mk.inj (hraise.symm.trans heq)
    exact ⟨putShares_prefixStored prim inp password k s.nodes, hnone k, rfl, rfl,
      Or.inl ⟨fun h => absurd h hstores, rfl, rfl⟩⟩
  · rw [hlen] at hstores heq
    have hk : k = nNodes := reached_all inp.stores 1 nNodes hstores
    obtain ⟨-, rfl⟩ := Prod.mk.inj (hraise.symm.trans heq)
    rw [hk]
    exact ⟨putShares_prefixStored prim inp password nNodes s.nodes, hnone nNodes, rfl, rfl,
      Or.inl ⟨fun _ => hwrite, rfl, rfl⟩⟩
  · rw [hlen] at hstores heq
    have hk : k = nNodes := reached_all inp.stores 1 nNodes hstores
    obtain ⟨-, rfl⟩ := Prod.mk.inj (hraise.symm.trans heq)
    rw [hk]
    exact ⟨putShares_prefixStored prim inp password nNodes s.nodes, hnone nNodes, rfl, rfl,
      Or.inr ⟨hstores, hwrite, rfl⟩⟩

/-! ## A call that raises after its writes -/

/-- A first registration whose keyfile cannot be opened. -/
def unsavedRegister : RegisterInputs :=
  sampleRegister [7] (fun _ => .committed) .committed (.unopened "Permission denied")

theorem unsavedRegister_raises : ∃ e s',
    register samplePrimitives unsavedRegister "pw" sampleInitial = (.error e, s') ∧
    s'.ledger = [unsavedRegister.ledgerRow samplePrimitives "pw" sampleInitial.ledger] := by
  rcases unsavedRegister.register_cases samplePrimitives "pw" sampleInitial
      sampleInitial_ordered.length.le with
    ⟨hno, -⟩ | ⟨-, ⟨message, hno⟩, -⟩ | ⟨-, -, r, files, heq, hok⟩
  · exact absurd (fun _ _ => rfl) hno
  · cases hno
  · cases r with
    | error e => exact ⟨e, _, heq, rfl⟩
    | ok reply => cases (hok.mp ⟨reply, rfl⟩).2

/-- The endpoint answers `error`, and the row of the attempt remains. -/
theorem registerEndpoint_error_keeps_row :
    (registerEndpoint samplePrimitives unsavedRegister "pw" sampleInitial).1.status = "error" ∧
    (registerEndpoint samplePrimitives unsavedRegister "pw" sampleInitial).2.ledger ≠
      sampleInitial.ledger := by
  obtain ⟨e, s', heq, hledger⟩ := unsavedRegister_raises
  rw [registerEndpoint, heq]
  refine ⟨rfl, ?_⟩
  rw [hledger]
  exact List.cons_ne_nil _ _

theorem register_error_keeps_writes_unsaved : ∃ s' : System,
    PrefixStored samplePrimitives unsavedRegister "pw" (reached unsavedRegister.stores 1 nNodes)
      (runOps samplePrimitives (fun _ => zeroToken 32) (some sampleKeys) []).nodes s'.nodes := by
  obtain ⟨e, s', heq, -⟩ := unsavedRegister_raises
  exact ⟨s', (register_error_keeps_writes samplePrimitives (fun _ => zeroToken 32)
    (some sampleKeys) [] unsavedRegister "pw" e s' heq).1⟩

end DecentralizedIDP
