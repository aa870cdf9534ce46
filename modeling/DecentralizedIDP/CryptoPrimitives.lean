import DecentralizedIDP.CryptoParameters
import DecentralizedIDP.FoundationsJsonRoundTrip
import DecentralizedIDP.FoundationsKeccak

/-! What the program takes from outside: the exceptions it can raise, random byte
strings, and the signature, encryption and float-printing primitives. -/
namespace DecentralizedIDP
open Foundations

/-- An exception with its message. -/
inductive PyError where
  | valueError (message : String)
  | overflowError (message : String)
  | typeError (message : String)
  | keyError (key : String)
  | indexError (message : String)
  | assertionError (message : String)
  | runtimeError (message : String)
  | osError (message : String)
  | operationalError (message : String)
  | invalidTag
  | nodeOfflineError (message : String)
  | shareNotFoundError (message : String)
  deriving DecidableEq, Repr

/-- What `secrets.token_bytes` and `os.urandom` return. -/
abbrev Token (len : ℕ) := { bs : Bytes // bs.length = len }

/-- The signature scheme, AES-256-GCM and the printing of values. `generateKeypair`
and `sign` take the random bytes they draw; `decrypt` is `none` where the tag does
not match. -/
structure Primitives where
  pqcAvailable : Bool
  generateKeypair : Bytes → Bytes × Bytes
  sign : Bytes → Bytes → Bytes → Bytes
  verify : Bytes → Bytes → Bytes → Bool
  encrypt : Bytes → Bytes → Bytes → Option Bytes → Bytes
  decrypt : Bytes → Bytes → Bytes → Option Bytes → Option Bytes
  repr : ℚ → String
  reprStr : String → String

namespace Primitives
variable (prim : Primitives)

/-- AES-GCM decrypts what it encrypted under the same key, nonce and associated data. -/
def DecryptsEncrypted : Prop :=
  ∀ (key : Token 32) (nonce : Token 12) (data : Bytes) (aad : Option Bytes),
    prim.decrypt key nonce (prim.encrypt key nonce data aad) aad = some data

/-- The scheme verifies its own signatures. -/
def VerifiesSigned : Prop :=
  ∀ seed coins message, prim.verify (prim.generateKeypair seed).2 message
    (prim.sign coins (prim.generateKeypair seed).1 message) = true

/-- A printed float is a float literal of JSON. -/
def PrintsFloats : Prop := ∀ t, FloatLiteral (prim.repr t)

def algName : String := if prim.pqcAvailable then "ML-DSA-65" else "Ed25519"

end Primitives

/-- How a database write ends. An `INSERT` whose `commit` raises stays visible to the
connection that made it. -/
inductive WriteStatus where
  | committed
  | rejected (message : String)
  | uncommitted (message : String)
  deriving DecidableEq, Repr

/-- The outcome of a write that takes the table from `old` to `new`. -/
def WriteStatus.perform {σ : Type*} (w : WriteStatus) (old new : σ) : Except PyError Unit × σ :=
  match w with
  | .committed => (.ok (), new)
  | .rejected message => (.error (.operationalError message), old)
  | .uncommitted message => (.error (.operationalError message), new)

/-- `int.to_bytes(len, "big")`. -/
def intToBytes (len : ℕ) (n : ℤ) : Except PyError Bytes :=
  if n < 0 then .error (.overflowError "can't convert negative int to unsigned")
  else if (256:ℤ)^len ≤ n then .error (.overflowError "int too big to convert")
  else .ok (toBytes len n.toNat)

theorem intToBytes_ok (len : ℕ) (n : ℤ) (h0 : 0 ≤ n) (hn : n < 256^len) :
    intToBytes len n = .ok (toBytes len n.toNat) := by
  rw [intToBytes, if_neg (by omega), if_neg (by omega)]

theorem intToBytes_error (len : ℕ) (n : ℤ) (h : ¬(0 ≤ n ∧ n < 256^len)) :
    ∃ e, intToBytes len n = .error e := by
  rw [intToBytes]
  split_ifs with hneg hbig
  · exact ⟨_, rfl⟩
  · exact ⟨_, rfl⟩
  · exact absurd ⟨by omega, by omega⟩ h

theorem fromBytes_toBytes_int (len : ℕ) (n : ℤ) (h0 : 0 ≤ n) (hn : n < 256^len) :
    ((fromBytes (toBytes len n.toNat) : ℕ) : ℤ) = n := by
  rw [fromBytes_toBytes len _ (by zify; rwa [Int.toNat_of_nonneg h0]), Int.toNat_of_nonneg h0]

/-- `hashlib.sha3_256(..).hexdigest()`. -/
def sha3Hex (msg : Bytes) : String := hex (sha3_256 msg)

theorem encode_sha3Hex_length (msg : Bytes) : (encode (sha3Hex msg)).length = 64 := by
  rw [sha3Hex, encode_hex_length, sha3_256_length]

end DecentralizedIDP
