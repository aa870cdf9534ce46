import DecentralizedIDP.ApiHandlers
import DecentralizedIDP.FoundationsRefinement

/-! When nodes are asked for partial proofs. The coordinator runs with either transport
and leaves a trace: the keys it looks up, the signatures it checks, and the nodes it
asks, each entry under the request to `/authenticate` that it belongs to. -/
namespace DecentralizedIDP
open Foundations

inductive Action where
  | lookedUp (did : String) (publicKey : Option Bytes)
  | checked (publicKey message signature : Bytes) (valid : Bool)
  | asked (nodeId : ℤ) (did nonceHex : String)
  deriving DecidableEq, Repr

/-- What `get_transport` returns. `peers` holds the addresses read from `NODE_PEERS`. -/
inductive NodeTransport where
  | localTransport
  | httpTransport (peers : ℤ → Option String)

namespace NodeTransport

/-- The nodes that a request goes out to over HTTP. -/
def Addresses (nodeId : ℤ) : NodeTransport → Prop
  | .localTransport => False
  | .httpTransport peers => ∃ address, peers nodeId = some address ∧ address ≠ ""

/-- The node that a request asks, if it gets as far as asking one. -/
def asks (nodes : List Node) (targetNodeId : ℤ) (did challengeNonceHex : String) :
    NodeTransport → List Action
  | .localTransport =>
    match nodes.find? (fun node => node.nodeId == targetNodeId) with
    | none => []
    | some node =>
      if !node.online then []
      else
        match fromhex challengeNonceHex with
        | none => []
        | some _ => [.asked targetNodeId did challengeNonceHex]
  | .httpTransport peers =>
    match peers targetNodeId with
    | none => []
    | some address => if address = "" then [] else [.asked targetNodeId did challengeNonceHex]

/-- What the requests of one call come to: draws of the local nodes, or whatever the
addressed peers send. -/
def Carries : NodeTransport → Transport → Prop
  | .localTransport, .localNodes _ => True
  | .httpTransport peers, .http answers => ∀ nodeId,
      ¬(httpTransport peers).Addresses nodeId → ∀ did nonceHex, answers nodeId did nonceHex = none
  | _, _ => False

end NodeTransport

/-! ## One call of `authenticate` -/

section Traced
variable (prim : Primitives) (t : NodeTransport)

/-- Step 4 asks the nodes itself unless it is handed their proofs. The order among the
threads of the pool does not matter here, so the nodes are asked in theirs. -/
def collectActions (preCollected : Option (List PartialProof)) (nodes : List Node) (did : String)
    (nonce : Bytes) : List Action :=
  match preCollected with
  | some _ => []
  | none => nodes.flatMap (fun node => t.asks nodes node.nodeId did (hex nonce))

/-- Steps 2 and 3 when there is a signature to check. -/
def checkActions (did : String) (publicKeyBytes nonce signatureBytes : Bytes) (valid : Bool) :
    List Action :=
  [.lookedUp did (some publicKeyBytes),
    .checked publicKeyBytes (nonce ++ encode did) signatureBytes valid]

/-- `checkRequest`, with what it does on the way. -/
def checkRequestTraced (inp : AuthInputs) (did signatureHex : String)
    (preCollected : Option (List PartialProof)) (nonce : Bytes) (s : System) :
    (Except PyError AuthResult × System) × List Action :=
  match s.ledger.getPublicKey did with
  | .error e => ((.error e, s), [])
  | .ok none => ((.ok (fail "did_not_found"), s), [.lookedUp did none])
  | .ok (some publicKeyBytes) =>
    match fromhex signatureHex with
    | none => (reject prim inp did "invalid_signature" s, [.lookedUp did (some publicKeyBytes)])
    | some signatureBytes =>
      let valid := prim.verify publicKeyBytes (nonce ++ encode did) signatureBytes
      let checks := checkActions did publicKeyBytes nonce signatureBytes valid
      if !valid then (reject prim inp did "invalid_signature" s, checks)
      else
        (decideProofs prim inp did nonce
          (deliveredProofs prim inp preCollected s.nodes did nonce) s,
          checks ++ collectActions t preCollected s.nodes did nonce)

def authenticateTraced (inp : AuthInputs) (did challengeId signatureHex : String)
    (preCollected : Option (List PartialProof)) (s : System) :
    (Except PyError AuthResult × System) × List Action :=
  match ChallengeManager.consume challengeId inp.consumedAt s.pending with
  | (none, pending) =>
    ((.ok (fail "challenge_expired_or_invalid"), { s with pending := pending }), [])
  | (some nonce, pending) =>
    checkRequestTraced prim t inp did signatureHex preCollected nonce { s with pending := pending }

theorem checkRequestTraced_fst (inp : AuthInputs) (did signatureHex : String)
    (preCollected : Option (List PartialProof)) (nonce : Bytes) (s : System) :
    (checkRequestTraced prim t inp did signatureHex preCollected nonce s).1 =
      checkRequest prim inp did signatureHex preCollected nonce s := by
  unfold checkRequestTraced checkRequest
  cases s.ledger.getPublicKey did with
  | error e => rfl
  | ok publicKey =>
    cases publicKey with
    | none => rfl
    | some publicKeyBytes =>
      cases fromhex signatureHex with
      | none => rfl
      | some signatureBytes =>
        simp only
        split_ifs <;> rfl

/-- The trace is all that is added to `authenticate`. -/
theorem authenticateTraced_fst (inp : AuthInputs) (did challengeId signatureHex : String)
    (preCollected : Option (List PartialProof)) (s : System) :
    (authenticateTraced prim t inp did challengeId signatureHex preCollected s).1 =
      authenticate prim inp did challengeId signatureHex preCollected s := by
  unfold authenticateTraced authenticate
  cases ChallengeManager.consume challengeId inp.consumedAt s.pending with
  | mk nonce pending =>
    cases nonce with
    | none => rfl
    | some nonce => exact checkRequestTraced_fst prim t inp did signatureHex preCollected _ _

end Traced

/-! ## The coordinator -/

/-- An action with the number of the request to `/authenticate` that took it. -/
abbrev TraceEntry := ℕ × Action

/-- The handlers, and how many requests to `/authenticate` have come in. -/
structure Coordinator where
  api : Api
  started : ℕ

/-- The inputs of a call whose proofs come over the transport `t`. -/
structure CallInputs (t : NodeTransport) where
  inp : AuthInputs
  carried : t.Carries inp.transport

/-- `ApiHandlers.Event` for either transport, and what goes on beside it. Requests to
`/authenticate` are numbered as they come in, and `resume` names one by its number. -/
inductive ClientEvent (t : NodeTransport) where
  | register (password : String) (inp : RegisterInputs)
  | challenge (did : String) (inp : ChallengeInputs)
  | authenticate (request : AuthRequest) (peekedAt : ℚ) (call : CallInputs t)
  | resume (number : ℕ) (call : CallInputs t)
  | setOnline (nodeId : ℤ) (online : Bool)
  | setByzantine (nodeId : ℤ) (byzantine : Bool)

namespace Coordinator
variable (prim : Primitives) (t : NodeTransport)

def start (system : System) : Coordinator := ⟨Api.start system, 0⟩

/-- Only the HTTP mode peeks, and goes on to collect the proofs if it finds a nonce. -/
def peekedNonce (request : AuthRequest) (peekedAt : ℚ) (pending : Pending) :
    NodeTransport → Option Bytes
  | .localTransport => none
  | .httpTransport _ => ChallengeManager.peek request.challengeId peekedAt pending

/-- The handler's call of `authenticate`. -/
def call (number : ℕ) (request : AuthRequest) (requests : Option (List ProofRequest))
    (preProofs : Option (List PartialProof)) (inp : AuthInputs) (api : Api) :
    Api × List TraceEntry :=
  (api.call prim number request requests preProofs inp,
    (authenticateTraced prim t inp request.did request.challengeId request.signature preProofs
      api.system).2.map (Prod.mk number))

/-- The nodes asked ahead of the call. They are asked until the handler resumes, and
nothing else happens to its request until then. -/
def askAhead (nodes : List Node) (requests : List ProofRequest) : List Action :=
  requests.flatMap (fun r => t.asks nodes r.1 r.2.1 r.2.2)

def handle : Machine Coordinator (ClientEvent t) (List TraceEntry)
  | c, .register password inp =>
    ({ c with api.system := (register prim inp password c.api.system).2 }, [])
  | c, .challenge did inp => ({ c with api := c.api.handle prim (.challenge did inp) }, [])
  | c, .authenticate request peekedAt ⟨inp, _⟩ =>
    match peekedNonce request peekedAt c.api.system.pending t with
    | none =>
      let called := call prim t c.started request none none inp c.api
      (⟨called.1, c.started+1⟩, called.2)
    | some nonce =>
      let requests := Api.requestsFor c.api.system.nodes request.did nonce
      (⟨c.api.setGathering c.started (some ⟨request, requests⟩), c.started+1⟩,
        (askAhead t c.api.system.nodes requests).map (Prod.mk c.started))
  | c, .resume number ⟨inp, _⟩ =>
    match c.api.gathering number with
    | none => (c, [])
    | some g =>
      -- an answer of `None` is dropped
      let proofs := g.requests.filterMap (fun r =>
        inp.transport.requestPartialProof prim c.api.system.nodes r.1 r.2.1 r.2.2)
      let called := call prim t number g.request (some g.requests) (some proofs) inp
        (c.api.setGathering number none)
      (⟨called.1, c.started⟩, called.2)
  | c, .setOnline nodeId online =>
    ({ c with api.system := step prim c.api.system (.setOnline nodeId online) }, [])
  | c, .setByzantine nodeId byzantine =>
    ({ c with api.system := step prim c.api.system (.setByzantine nodeId byzantine) }, [])

/-! ## The coordinator and the layers below -/

/-- Over HTTP a start is one of `Api`. -/
theorem handle_http_authenticate (peers : ℤ → Option String) (c : Coordinator)
    (request : AuthRequest) (peekedAt : ℚ) (inputs : CallInputs (.httpTransport peers)) :
    (handle prim (.httpTransport peers) c (.authenticate request peekedAt inputs)).1.api =
      c.api.handle prim (.authenticate c.started request peekedAt inputs.inp) := by
  rw [handle, Api.handle, peekedNonce]
  cases ChallengeManager.peek request.challengeId peekedAt c.api.system.pending with
  | none => rfl
  | some nonce => rfl

/-- A handler that resumes is one of `Api`, with the answers that the transport returns. -/
theorem handle_resume (c : Coordinator) (number : ℕ) (inputs : CallInputs t) :
    (handle prim t c (.resume number inputs)).1.api = c.api.handle prim (.resume number
      (fun r => inputs.inp.transport.requestPartialProof prim c.api.system.nodes r.1 r.2.1 r.2.2)
      inputs.inp) := by
  rw [handle, Api.handle]
  cases c.api.gathering number with
  | none => rfl
  | some g => rfl

/-- Each event acts on the coordinator's state as some of its operations do. -/
theorem handle_system (c : Coordinator) (e : ClientEvent t) : ∃ ops,
    (handle prim t c e).1.api.system = run (step prim) c.api.system ops := by
  cases e with
  | register password inp => exact ⟨[.register password inp], rfl⟩
  | challenge did inp => exact ⟨[.issue did inp], rfl⟩
  | authenticate request peekedAt inputs =>
    rw [handle]
    cases peekedNonce request peekedAt c.api.system.pending t with
    | none =>
      exact ⟨[.authenticate request.did request.challengeId request.signature none inputs.inp], rfl⟩
    | some nonce => exact ⟨[], rfl⟩
  | resume number inputs =>
    rw [handle_resume, Api.handle_system]
    exact ⟨_, rfl⟩
  | setOnline nodeId online => exact ⟨[.setOnline nodeId online], rfl⟩
  | setByzantine nodeId byzantine => exact ⟨[.setByzantine nodeId byzantine], rfl⟩

theorem final_system (system : System) (events : List (ClientEvent t)) : ∃ ops,
    ((handle prim t).final (start system) events).api.system =
      run (step prim) (Api.start system).system ops := by
  induction events using List.reverseRecOn with
  | nil => exact ⟨[], rfl⟩
  | append_singleton events e ih =>
    obtain ⟨ops, hops⟩ := ih
    obtain ⟨more, hmore⟩ := handle_system prim t ((handle prim t).final (start system) events) e
    refine ⟨ops ++ more, ?_⟩
    rw [Machine.final_snoc, hmore, hops, run_append]

/-! ## Licences -/

/-- In this request, and under the key that the ledger has for the DID, a signature on
the nonce and the DID has verified. -/
def Verified (past : List TraceEntry) (number : ℕ) (did nonceHex : String) : Prop :=
  ∃ publicKey nonce signature, nonceHex = hex nonce ∧
    ((checkActions did publicKey nonce signature true).map (Prod.mk number)).Sublist past

/-- What has to come before an entry of the trace: a node is asked for a proof only
after a verification. -/
def licence (past : List TraceEntry) (entry : TraceEntry) : Prop :=
  ∀ nodeId did nonceHex, entry.2 = .asked nodeId did nonceHex →
    Verified past entry.1 did nonceHex

/-- A request over HTTP that finds its challenge live while some node has an address. -/
def AsksAhead (c : Coordinator) : ClientEvent t → Prop
  | .authenticate request peekedAt _ =>
    (∃ nonce, peekedNonce request peekedAt c.api.system.pending t = some nonce) ∧
      ∃ node ∈ c.api.system.nodes, t.Addresses node.nodeId
  | _ => False

/-- With the local transport no step asks ahead. -/
theorem not_asksAhead_local (c : Coordinator) (e : ClientEvent .localTransport) :
    ¬AsksAhead .localTransport c e := by
  cases e with
  | authenticate request peekedAt inputs =>
    rw [AsksAhead, peekedNonce]
    simp
  | _ => exact not_false

end Coordinator

end DecentralizedIDP
