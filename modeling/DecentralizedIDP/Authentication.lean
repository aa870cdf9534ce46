import DecentralizedIDP.FoundationsSubsets
import DecentralizedIDP.NodePBFT
import DecentralizedIDP.Registration

/-! Authentication: the challenge is consumed, the signature checked, the proofs are
voted on, and the subsets of the clean ones tried until one opens the commitment. -/
namespace DecentralizedIDP
open Foundations

structure AuthResult where
  status : String
  reason : Option String
  iat : Option String
  expiresIn : Option ℕ
  deriving DecidableEq, Repr

def fail (reason : String) : AuthResult := ⟨"failed", some reason, none, none⟩

def success (token : String) : AuthResult := ⟨"success", none, some token, some iatTtlSeconds⟩

/-- What one call of `authenticate` draws and reads, how the proofs reach it, and how
its ledger write ends. `completionOrder` lists the positions of the nodes in the
order in which their requests complete. -/
structure AuthInputs where
  consumedAt : ℚ
  transport : Transport
  completionOrder : List ℕ
  token : TokenInputs
  loggedAt : ℚ
  logWrite : WriteStatus

/-- The answers of the nodes, in the order in which they complete. -/
def collectProofs (prim : Primitives) (inp : AuthInputs) (nodes : List Node) (did : String)
    (nonce : Bytes) : List PartialProof :=
  (inp.completionOrder.filterMap (fun k => nodes[k]?)).filterMap (fun node =>
    inp.transport.requestPartialProof prim nodes node.nodeId did (hex nonce))

def deliveredProofs (prim : Primitives) (inp : AuthInputs)
    (preCollected : Option (List PartialProof)) (nodes : List Node) (did : String)
    (nonce : Bytes) : List PartialProof :=
  match preCollected with
  | some proofs => proofs
  | none => collectProofs prim inp nodes did nonce

/-- Whether a decoded commitment is this text. -/
def isText (stored : Option Json) (text : String) : Bool :=
  match stored with
  | some (.str s) => text == s
  | _ => false

/-- Whether the secret recovered from the proofs hashes to the commitment. -/
def opensCommitment (stored : Option Json) (subset : List PartialProof) : Except PyError Bool := do
  let S ← recoverSecretFromPartialProofs subset P
  return isText stored (← commitmentHash S)

/-- The proofs with the majority hash and `H`, counted over all that were delivered. -/
def cleanProofs (proofs honestProofs : List PartialProof) : List PartialProof :=
  match majorityPair proofs with
  | none => honestProofs
  | some pair => proofs.filter (carries pair)

/-- The first threshold of clean proofs that opens the commitment. -/
def chooseSubset (stored : Option Json) (clean : List PartialProof) :
    Except PyError (Option (List PartialProof)) :=
  findFirst (opensCommitment stored) (combinations threshold clean)

/-- Append a row, then return `result`. -/
def logged (prim : Primitives) (inp : AuthInputs) (entryType did : String)
    (data : List (String × Json)) (result : AuthResult) (s : System) :
    Except PyError AuthResult × System :=
  match s.ledger.append prim.repr inp.logWrite inp.loggedAt entryType did data with
  | (.error e, ledger) => (.error e, { s with ledger := ledger })
  | (.ok _, ledger) => (.ok result, { s with ledger := ledger })

def reject (prim : Primitives) (inp : AuthInputs) (did reason : String) (s : System) :
    Except PyError AuthResult × System :=
  logged prim inp "AUTH_FAIL" did [("reason", .str reason)] (fail reason) s

def successData (quorumNodes : List ℤ) (token : String) : List (String × Json) :=
  [("quorum_nodes", .arr (quorumNodes.map Json.int)), ("token_jti", Iat.extractJti token)]

def roundId (nonce : Bytes) (did : String) : String :=
  String.ofList ((sha3Hex (nonce ++ encode did)).toList.take 16)

/-- Steps 5 to 9, on the proofs that were delivered. -/
def decideProofs (prim : Primitives) (inp : AuthInputs) (did : String) (nonce : Bytes)
    (proofs : List PartialProof) (s : System) : Except PyError AuthResult × System :=
  match runPbftRound (roundId nonce did) proofs with
  | none => reject prim inp did "quorum_not_reached" s
  | some honestProofs =>
    match s.ledger.getCommitmentHash did with
    | .error e => (.error e, s)
    | .ok stored =>
      match chooseSubset stored (cleanProofs proofs honestProofs) with
      | .error e => (.error e, s)
      | .ok none => reject prim inp did "commitment_mismatch" s
      | .ok (some chosen) =>
        let quorumNodes := chosen.map PartialProof.nodeId
        match Iat.issue prim s.systemKeys inp.token did quorumNodes with
        | .error e => (.error e, s)
        | .ok token =>
          logged prim inp "AUTH_SUCCESS" did (successData quorumNodes token) (success token) s

/-- Steps 2 to 9, once the challenge is consumed. -/
def checkRequest (prim : Primitives) (inp : AuthInputs) (did signatureHex : String)
    (preCollected : Option (List PartialProof)) (nonce : Bytes) (s : System) :
    Except PyError AuthResult × System :=
  match s.ledger.getPublicKey did with
  | .error e => (.error e, s)
  | .ok none => (.ok (fail "did_not_found"), s)
  | .ok (some publicKeyBytes) =>
    match fromhex signatureHex with
    | none => reject prim inp did "invalid_signature" s
    | some signatureBytes =>
      if !prim.verify publicKeyBytes (nonce ++ encode did) signatureBytes then
        reject prim inp did "invalid_signature" s
      else
        decideProofs prim inp did nonce
          (deliveredProofs prim inp preCollected s.nodes did nonce) s

def authenticate (prim : Primitives) (inp : AuthInputs) (did challengeId signatureHex : String)
    (preCollected : Option (List PartialProof)) (s : System) :
    Except PyError AuthResult × System :=
  match ChallengeManager.consume challengeId inp.consumedAt s.pending with
  | (none, pending) => (.ok (fail "challenge_expired_or_invalid"), { s with pending := pending })
  | (some nonce, pending) =>
    checkRequest prim inp did signatureHex preCollected nonce { s with pending := pending }

end DecentralizedIDP
