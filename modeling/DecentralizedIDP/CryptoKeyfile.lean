import DecentralizedIDP.CryptoPrimitives

/-! The password-protected file that holds the user's private key. -/
namespace DecentralizedIDP
open Foundations

def pbkdf2Iterations : ℕ := 600000

def deriveAesKey (password : String) (salt : Bytes) : Bytes :=
  pbkdf2Sha3 (encode password) salt pbkdf2Iterations

/-- How the write of a file ends: complete, refused before the file is opened, or
broken off after it was truncated and the first characters written. -/
inductive FileWrite where
  | written
  | unopened (message : String)
  | interrupted (characters : ℕ) (message : String)
  deriving DecidableEq, Repr

/-- The random bytes of one keyfile and the outcome of writing it. -/
structure KeyfileInputs where
  salt : Token 32
  nonce : Token 12
  write : FileWrite

/-- The files below the home directory, by path. -/
abbrev Files := String → Option String

def keyfilePayload (prim : Primitives) (inp : KeyfileInputs)
    (privateKeyBytes publicKeyBytes : Bytes) (password alg : String) : Json :=
  let aesKey := deriveAesKey password inp.salt
  let ciphertext := prim.encrypt aesKey inp.nonce privateKeyBytes none
  .obj [("version", .int 1), ("alg", .str alg), ("salt", .str (hex inp.salt)),
    ("nonce", .str (hex inp.nonce)), ("ciphertext", .str (hex ciphertext)),
    ("public_key", .str (hex publicKeyBytes))]

def saveKeyfile (prim : Primitives) (inp : KeyfileInputs) (privateKeyBytes publicKeyBytes : Bytes)
    (password path alg : String) (files : Files) : Except PyError Unit × Files :=
  let text := dumps (keyfilePayload prim inp privateKeyBytes publicKeyBytes password alg)
  match inp.write with
  | .written => (.ok (), fun f => if f = path then some text else files f)
  | .unopened message => (.error (.osError message), files)
  -- opening for writing has emptied the file already
  | .interrupted n message => (.error (.osError message),
      fun f => if f = path then some (String.ofList (text.toList.take n)) else files f)

theorem saveKeyfile_cases (prim : Primitives) (inp : KeyfileInputs)
    (privateKeyBytes publicKeyBytes : Bytes) (password path alg : String) (files : Files) :
    ∃ r files', saveKeyfile prim inp privateKeyBytes publicKeyBytes password path alg files =
        (r, files') ∧ (r = .ok () ↔ inp.write = .written) := by
  rw [saveKeyfile]
  cases inp.write with
  | written => exact ⟨_, _, rfl, by simp⟩
  | unopened message => exact ⟨_, _, rfl, by simp⟩
  | interrupted n message => exact ⟨_, _, rfl, by simp⟩

end DecentralizedIDP
