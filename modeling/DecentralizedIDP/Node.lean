import DecentralizedIDP.NodePartialProof
import DecentralizedIDP.NodeShareStore

/-! A single identity node: its share store, and the proof it answers with. -/
namespace DecentralizedIDP
open Foundations

structure Node where
  nodeId : ℤ
  online : Bool
  byzantine : Bool
  shareStore : ShareStore

namespace Node

/-- `fakeValue` is the draw of `secrets.randbelow(P-1)` that a byzantine node makes. -/
def computePartialProof (prim : Primitives) (fakeValue : Fin (P-1)) (did : String)
    (challengeNonce : Bytes) (node : Node) : Except PyError PartialProof :=
  if !node.online then
    .error (.nodeOfflineError ("Node " ++ decimal node.nodeId ++ " is offline"))
  else
    match node.shareStore.getShare prim did with
    | .error e => .error e
    | .ok none => .error (.shareNotFoundError
        ("Node " ++ decimal node.nodeId ++ " has no share for " ++ prim.reprStr did))
    | .ok (some share) =>
      -- a byzantine node lies about its value, and about nothing else
      if node.byzantine then
        .ok { nodeId := node.nodeId, x := share.1, partialValue := (fakeValue.val : ℤ)+1,
              H := sessionH challengeNonce P, challengeHash := sessionHash challengeNonce }
      else .ok (DecentralizedIDP.computePartialProof share challengeNonce node.nodeId P)

end Node

/-- How proofs are requested: from the nodes of this process, or from peers whose
answers are whatever they send. -/
inductive Transport where
  | localNodes (fakeValues : ℤ → Fin (P-1))
  | http (peers : ℤ → String → String → Option PartialProof)

/-- `none` where the node is unknown, offline or raises. -/
def Transport.requestPartialProof (prim : Primitives) (nodes : List Node) (targetNodeId : ℤ)
    (did challengeNonceHex : String) : Transport → Option PartialProof
  | .localNodes fakeValues =>
    match nodes.find? (fun node => node.nodeId == targetNodeId) with
    | none => none
    | some node =>
      if !node.online then none
      else
        match fromhex challengeNonceHex with
        | none => none
        | some challengeNonce =>
          -- whatever the node raises counts as no answer
          (node.computePartialProof prim (fakeValues targetNodeId) did challengeNonce).toOption
  | .http peers => peers targetNodeId did challengeNonceHex

end DecentralizedIDP
