import DecentralizedIDP.ApiHandlers
import DecentralizedIDP.DataDirectory
import DecentralizedIDP.RegistrationAtomicity

/-! The nodes as services of their own, which share the data directory with the coordinator and
answer over HTTP while other requests come and go. -/
namespace DecentralizedIDP
open Foundations

/-! ## The endpoints -/

structure HTTPException where
  statusCode : ℕ
  detail : String
  deriving DecidableEq, Repr

/-- The endpoint of a node service. Whatever the node raises becomes a 500. -/
def partialProofEndpoint (prim : Primitives) (fakeValue : Fin (P-1)) (node : Node)
    (did challengeNonce : String) : Except HTTPException PartialProof :=
  let proof := do
    let nonce ← Ledger.bytesFromhex (.str challengeNonce)
    node.computePartialProof prim fakeValue did nonce
  match proof with
  | .ok proof => .ok proof
  | .error e => .error ⟨500, e.text⟩

/-! ## Where requests go -/

/-- `_peers`: the addresses in `NODE_PEERS`, counted from one. -/
def readPeers (nodePeers : String) (nodeId : ℤ) : Option String :=
  if nodePeers = "" ∨ nodeId < 1 then none
  else ((splitChars ',' nodePeers.toList)[(nodeId-1).toNat]?).map
    (fun address => strip (String.ofList address))

/-- The addresses that the coordinator knows, and the node whose service listens at each. -/
structure Network where
  peers : ℤ → Option String
  hosts : String → Option ℤ

/-- The node that a request for `nodeId` reaches. An empty address is no address. -/
def Network.route (net : Network) (nodeId : ℤ) : Option ℤ :=
  match net.peers nodeId with
  | none => none
  | some address => if address = "" then none else net.hosts address

/-! ## What the coordinator locks -/

/-- The tables that the loop over the nodes leaves locked. A commit that failed keeps its
transaction, and with it a lock against all other connections, until a later one succeeds. -/
def distributeLocked (prim : Primitives) (stores : ℕ → StoreInputs) (did : String)
    (shares : List (ℤ × ℤ)) (commitments : List Bytes) :
    ℕ → List Node → (ℤ → Bool) → ℤ → Bool
  | _, [], locked => locked
  | i, node :: nodes, locked =>
    match shares[i-1]?, commitments[i-1]? with
    | some share, some commitment =>
      match node.shareStore.storeShare prim (stores i) did share.1 share.2 (some commitment),
          (stores i).write with
      | (.error _, _), .uncommitted _ => Function.update locked node.nodeId true
      | (.error _, _), _ => locked
      | (.ok (), _), _ => distributeLocked prim stores did shares commitments (i+1) nodes
          (Function.update locked node.nodeId false)
    | _, _ => locked

/-- The steps of `register` for what they leave locked. -/
def registerLocked (prim : Primitives) (inp : RegisterInputs) (password : String) (s : System)
    (locked : ℤ → Bool) : ℤ → Bool :=
  let keys := prim.generateKeypair inp.keySeed
  let S := deriveIdentitySecret keys.2 inp.registrationNonce password
  if ¬(1 ≤ S ∧ S ≤ (P : ℤ)-1) then locked
  else
    match generateShares S threshold nNodes P inp.draws with
    | .error _ => locked
    | .ok shares =>
      match generateCommitments (shares.map Prod.snd) inp.feldmanSalt with
      | .error _ => locked
      | .ok (commitments, _) =>
        distributeLocked prim inp.stores (didOf keys.2) shares commitments 1 s.nodes locked

/-! ## The deployment -/

/-- A handler of `/authenticate` that waits for proofs, and the answers that have come. An answer
other than 200 counts as none. -/
structure Waiting where
  request : AuthRequest
  nonceHex : String
  answers : ℤ → Option (Option PartialProof)

/-- The coordinator with the directory, the tables that it has locked, the key with which each
service that is up was started, and the handlers that wait. -/
structure Deployment where
  running : Running
  locked : ℤ → Bool
  services : ℤ → Option (Token 32)
  waiting : ℕ → Option Waiting

/-- What happens between two suspensions of the coordinator, or at a service. Requests that are
not served before the handler resumes have timed out. -/
inductive DeploymentEvent where
  | register (password : String) (inp : RegisterInputs)
  | challenge (did : String) (inp : ChallengeInputs)
  | authenticate (number : ℕ) (request : AuthRequest) (peekedAt : ℚ) (inp : AuthInputs)
  | serve (number : ℕ) (nodeId : ℤ)
  | resume (number : ℕ) (inp : AuthInputs)
  | startService (nodeId : ℤ) (draw : Token 32)
  | stopService (nodeId : ℤ)
  | restart (inp : StartInputs)

namespace Waiting

/-- The answers in the order of the nodes, without those that are `None`. -/
def proofs (nodes : List Node) (w : Waiting) : List PartialProof :=
  nodes.filterMap (fun node => (w.answers node.nodeId).join)

/-- The handler's call of `authenticate`. -/
def op (nodes : List Node) (inp : AuthInputs) (w : Waiting) : Op :=
  .authenticate w.request.did w.request.challengeId w.request.signature (some (w.proofs nodes)) inp

end Waiting

namespace Deployment

def start (prim : Primitives) (inp : StartInputs) : Deployment where
  running := Running.first prim inp
  locked := fun _ => false
  services := fun _ => none
  waiting := fun _ => none

def setWaiting (number : ℕ) (w : Option Waiting) (d : Deployment) : Deployment :=
  { d with waiting := Function.update d.waiting number w }

/-- The node that a service runs, which reads the table that is on disk. -/
def serviceNode (nodeId : ℤ) (aesKey : Token 32) (dir : DataDir) : Node where
  nodeId := nodeId
  online := true
  byzantine := false
  shareStore := ⟨aesKey, dir.shares nodeId⟩

theorem draw_exists : 0 < P-1 := Nat.sub_pos_of_lt one_lt_P

/-- No service is byzantine, so the draw does not matter. -/
def anyDraw : Fin (P-1) := ⟨0, draw_exists⟩

/-- What comes back on a request for a proof of `target`: nothing from a service that is down,
and nothing but a 500 from one whose table is locked. -/
def fetch (prim : Primitives) (target : ℤ) (did nonceHex : String) (d : Deployment) :
    Option PartialProof :=
  match d.services target with
  | none => none
  | some aesKey =>
    if d.locked target then none
    else (partialProofEndpoint prim anyDraw (serviceNode target aesKey d.running.dir)
      did nonceHex).toOption

def handle (prim : Primitives) (net : Network) (d : Deployment) : DeploymentEvent → Deployment
  | .register password inp =>
    { d with running := d.running.step prim (.call (.register password inp)),
             locked := registerLocked prim inp password d.running.system d.locked }
  | .challenge did inp => { d with running := d.running.step prim (.call (.issue did inp)) }
  | .authenticate number request peekedAt inp =>
    match ChallengeManager.peek request.challengeId peekedAt d.running.system.pending with
    | none => { d with running := d.running.step prim (.call (.authenticate request.did
        request.challengeId request.signature none inp)) }
    | some nonce => d.setWaiting number (some ⟨request, hex nonce, fun _ => none⟩)
  | .serve number nodeId =>
    match d.waiting number, net.route nodeId with
    | some w, some target =>
      -- each node is asked once
      if (w.answers nodeId).isSome then d
      else
        let answer := d.fetch prim target w.request.did w.nonceHex
        let answers := Function.update w.answers nodeId (some answer)
        d.setWaiting number (some { w with answers := answers })
    | _, _ => d
  | .resume number inp =>
    match d.waiting number with
    | none => d
    | some w =>
      let running := d.running.step prim (.call (w.op d.running.system.nodes inp))
      { d.setWaiting number none with running := running }
  | .startService nodeId draw =>
    -- a service makes its node as the coordinator does, if it can open the table
    let made := Node.init draw nodeId d.running.dir
    let service := if d.locked nodeId then none else some made.1.shareStore.aesKey
    { d with running := { d.running with dir := made.2 },
             services := Function.update d.services nodeId service }
  | .stopService nodeId => { d with services := Function.update d.services nodeId none }
  | .restart inp =>
    -- the handlers that wait and the locks are lost with the process
    { d with running := d.running.step prim (.restart inp), locked := fun _ => false,
             waiting := fun _ => none }

@[simp] theorem setWaiting_same (number : ℕ) (w : Option Waiting) (d : Deployment) :
    (d.setWaiting number w).waiting number = w := by
  rw [setWaiting]
  exact Function.update_self number w d.waiting

@[simp] theorem setWaiting_running (number : ℕ) (w : Option Waiting) (d : Deployment) :
    (d.setWaiting number w).running = d.running := rfl

@[simp] theorem setWaiting_twice (number : ℕ) (w w' : Option Waiting) (d : Deployment) :
    (d.setWaiting number w).setWaiting number w' = d.setWaiting number w' := by
  simp only [setWaiting, Function.update_idem]

/-- A request that reaches a service for the first time gets its answer. -/
theorem handle_served (prim : Primitives) (net : Network) (d : Deployment) (number : ℕ)
    (nodeId : ℤ) (w : Waiting) (target : ℤ) (hw : d.waiting number = some w)
    (hroute : net.route nodeId = some target) (hnew : w.answers nodeId = none) :
    d.handle prim net (.serve number nodeId) =
      let answer := d.fetch prim target w.request.did w.nonceHex
      d.setWaiting number
        (some { w with answers := Function.update w.answers nodeId (some answer) }) := by
  rw [handle, hw, hroute]
  dsimp only
  rw [hnew, Option.isSome_none, if_neg Bool.false_ne_true]

end Deployment

def runDeployment (prim : Primitives) (net : Network) (start : StartInputs)
    (events : List DeploymentEvent) : Deployment :=
  run (Deployment.handle prim net) (Deployment.start prim start) events

end DecentralizedIDP
