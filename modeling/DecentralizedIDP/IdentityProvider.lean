import DecentralizedIDP.CryptoParameters
import DecentralizedIDP.FoundationsBytes
import DecentralizedIDP.FoundationsRefinement

/-! What the identity provider is for, without ledger, shares or proofs: identities stand under
their public keys, challenges are open until they are used or expire, and five nodes are
each in some condition. -/
namespace DecentralizedIDP
open Foundations

/-- The condition of a node. -/
structure Mode where
  online : Bool
  byzantine : Bool
  deriving DecidableEq, Repr

def Mode.honest : Mode := ⟨true, false⟩

/-- Identities outlive the process; open challenges and the conditions of the nodes do not. -/
structure Idp where
  registered : String → Option Bytes
  challenges : String → Option (Bytes × ℚ)
  modes : ℤ → Mode

/-- A call as its user means it. `recorded`, `saved` and `logged` say which of the writes
behind the call came through, `signed key nonce` whether the signature is good. -/
inductive IdpCall where
  | register (did : String) (publicKey : Bytes) (recorded saved : Bool)
  | challenge (challengeId : String) (nonce : Bytes) (expiresAt : ℚ)
  | peek (challengeId : String) (now : ℚ)
  | consume (challengeId : String) (now : ℚ)
  | cleanup (now : ℚ)
  | authenticate (did challengeId : String) (now : ℚ) (signed : Bytes → Bytes → Bool)
      (logged : Bool)
  | setMode (nodeId : ℤ) (change : Mode → Mode)
  | restart

inductive Outcome where
  | registered (did : String)
  | challenged (challengeId nonceHex : String)
  | nonce (found : Option Bytes)
  | authenticated
  | failed (reason : String)
  | raised
  | quiet
  deriving DecidableEq, Repr

namespace Idp

def start : Idp where
  registered := fun _ => none
  challenges := fun _ => none
  modes := fun _ => Mode.honest

/-- The nonce of a challenge that is open at this time. -/
def openNonce (challengeId : String) (now : ℚ) (a : Idp) : Option Bytes :=
  (a.challenges challengeId).bind (fun c => if now ≤ c.2 then some c.1 else none)

def close (challengeId : String) (a : Idp) : Idp :=
  { a with challenges := Function.update a.challenges challengeId none }

def nodeModes (a : Idp) : List Mode := (List.range' 1 nNodes).map (fun i : ℕ => a.modes i)

def responding (a : Idp) : ℕ := a.nodeModes.countP Mode.online

def trusted (a : Idp) : ℕ := a.nodeModes.countP (fun m => m.online && !m.byzantine)

/-- What the nodes decide about a request that is signed. -/
def verdict (a : Idp) : Outcome :=
  if a.responding < threshold then .failed "quorum_not_reached"
  else if threshold ≤ a.trusted then .authenticated
  else .failed "commitment_mismatch"

def answer (did challengeId : String) (now : ℚ) (signed : Bytes → Bytes → Bool) (logged : Bool)
    (a : Idp) : Outcome :=
  match a.openNonce challengeId now with
  | none => .failed "challenge_expired_or_invalid"
  | some nonce =>
    match a.registered did with
    | none => .failed "did_not_found"
    | some publicKey =>
      -- from here on every outcome is logged before it is told
      if !logged then .raised
      else if !signed publicKey nonce then .failed "invalid_signature"
      else a.verdict

def handle : Machine Idp IdpCall Outcome
  | a, .register did publicKey recorded saved =>
    if recorded then
      ({ a with registered := Function.update a.registered did (some publicKey) },
        if saved then .registered did else .raised)
    else (a, .raised)
  | a, .challenge challengeId nonce expiresAt =>
    let challenges := Function.update a.challenges challengeId (some (nonce, expiresAt))
    ({ a with challenges := challenges }, .challenged challengeId (hex nonce))
  | a, .peek challengeId now => (a, .nonce (a.openNonce challengeId now))
  | a, .consume challengeId now => (a.close challengeId, .nonce (a.openNonce challengeId now))
  | a, .cleanup now =>
    let challenges := fun cid => (a.challenges cid).filter (fun c => decide (now ≤ c.2))
    ({ a with challenges := challenges }, .quiet)
  | a, .authenticate did challengeId now signed logged =>
    (a.close challengeId, a.answer did challengeId now signed logged)
  | a, .setMode nodeId change =>
    ({ a with modes := Function.update a.modes nodeId (change (a.modes nodeId)) }, .quiet)
  | a, .restart =>
    ({ a with challenges := fun _ => none, modes := fun _ => Mode.honest }, .quiet)

end Idp

end DecentralizedIDP
