import DecentralizedIDP.CallOutcomes
import DecentralizedIDP.FoundationsJsonLayout
import DecentralizedIDP.KeyfileIntegrity
import DecentralizedIDP.NodeServices

/-! The command line client: terminals that talk to one coordinator, and keep their users in a
file of the home directory that holds the keyfiles too. -/
namespace DecentralizedIDP
open Foundations

/-! ## The home directory -/

/-- The home directory of the user, an absolute path. -/
structure Home where
  path : List Char
  absolute : path.head? = some '/'

def expanduser (home : Home) (path : String) : String :=
  match path.toList with
  | '~' :: '/' :: rest => String.ofList (home.path ++ '/' :: rest)
  | _ => path

/-- The files below the home directory, by absolute path. The coordinator has the same directory
mounted as its own. -/
def hostFiles (home : Home) (files : Files) : Files := fun path =>
  if home.path <+: path.toList then
    files (String.ofList ('~' :: path.toList.drop home.path.length))
  else none

theorem expanduser_expanded (home : Home) (rest : List Char) :
    expanduser home (String.ofList (home.path ++ rest)) = String.ofList (home.path ++ rest) := by
  have habsolute := home.absolute
  rw [expanduser, String.toList_ofList]
  split
  · next heq =>
    cases hpath : home.path with
    | nil =>
      rw [hpath] at habsolute
      cases habsolute
    | cons c cs =>
      rw [hpath, List.cons_append] at heq
      rw [hpath] at habsolute
      obtain ⟨rfl, -⟩ := List.cons.inj heq
      cases habsolute
  · rfl

theorem hostFiles_expanded (home : Home) (files : Files) (rest : List Char) :
    hostFiles home files (String.ofList (home.path ++ rest)) =
      files (String.ofList ('~' :: rest)) := by
  rw [hostFiles, String.toList_ofList, if_pos (List.prefix_append _ _), List.drop_left]

/-! ## The registry of users -/

def usersFile : String := "~/.decidp/users.json"

/-- The file holds an object, as nobody but the client writes it. -/
def loadUsers (files : Files) : Except PyError Json :=
  match files usersFile with
  | none => .ok (.obj [])
  | some text =>
    match loads text with
    | none => .error (.valueError "JSONDecodeError")
    | some users => .ok users

def writeText (write : FileWrite) (path text : String) (files : Files) :
    Except PyError Unit × Files :=
  match write with
  | .written => (.ok (), fun f => if f = path then some text else files f)
  | .unopened message => (.error (.osError message), files)
  | .interrupted n message => (.error (.osError message),
      fun f => if f = path then some (String.ofList (text.toList.take n)) else files f)

def saveUsers (write : FileWrite) (users : Json) (files : Files) : Except PyError Unit × Files :=
  writeText write usersFile (dumpsIndent 2 users) files

def userEntry (did keyfilePath : String) : Json :=
  .obj [("did", .str did), ("keyfile_path", .str keyfilePath)]

def setUser (username : String) (entry : Json) : Json → Json
  | .obj ms => .obj (setMember username entry ms)
  | users => users

/-- `users[username]["did"]` and `users[username]["keyfile_path"]`, which are texts. -/
def readEntry (entry : Json) : Except PyError (String × String) := do
  let did ← Ledger.subscript entry "did"
  let keyfilePath ← Ledger.subscript entry "keyfile_path"
  match did, keyfilePath with
  | .str did, .str keyfilePath => return (did, keyfilePath)
  | _, _ => .error (.typeError "expected str")

/-! ## What comes back from the coordinator -/

/-- The payload of a token, an empty object where it cannot be read. -/
def decodeIatPayload (token : String) : Json :=
  match splitChars '.' token.toList with
  | [_, payloadB64, _] => ((Iat.b64urlDecode payloadB64).bind loadsBytes).getD (.obj [])
  | _ => .obj []

/-! ## Terminals -/

/-- What a command shows when it ends. -/
inductive Shown where
  | usernameEmpty
  | passwordEmpty
  | cancelled
  | requestFailed
  | registered (username did keyfilePath : String)
  | registrationFailed (error : Option String)
  | unknownUsername (username : String)
  | keyfileNotFound (keyfilePath : String)
  | wrongPassword
  | succeeded (quorum : Json) (expiresIn : Option ℕ) (iat : String)
  | failed (reason : Option String)
  | traceback (e : PyError)

/-- Where a terminal stands between two requests: about to POST to `/register`, to write the
registry, to POST to `/challenge` or to `/authenticate`. -/
inductive Terminal where
  | idle
  | registering (username password : String) (users : Json)
  | saving (username did keyfilePath : String) (users : Json)
  | asking (username password did : String) (privateKey : Bytes)
  | answering (username password did challengeId signature : String)

/-- `confirm.strip().lower() == "y"`. -/
def confirmed (confirm : String) : Bool :=
  (stripChars confirm.toList).map Char.toLower == ['y']

/-- `cmd_register` up to its request. The registry is read before the request is sent. -/
def startRegister (username password confirm : String) (files : Files) : Terminal × Option Shown :=
  if username = "" then (.idle, some .usernameEmpty)
  else if password = "" then (.idle, some .passwordEmpty)
  else
    match loadUsers files with
    | .error e => (.idle, some (.traceback e))
    | .ok users =>
      if (users.get? username).isSome && !confirmed confirm then (.idle, some .cancelled)
      else (.registering username password users, none)

/-- The answer to `/register`. -/
def readRegistration (home : Home) (username : String) (users : Json)
    (response : RegisterResponse) : Terminal × Option Shown :=
  if response.status = "success" then
    match response.did, response.keyfilePath with
    | some did, some path =>
      let keyfilePath := expanduser home path
      (.saving username did keyfilePath (setUser username (userEntry did keyfilePath) users), none)
    | _, _ => (.idle, some (.traceback (.typeError "expected str, bytes or os.PathLike object")))
  else (.idle, some (.registrationFailed response.error))

/-- `cmd_authenticate` up to its first request. Every `ValueError` of the keyfile is taken for a
wrong password. -/
def startAuthenticate (prim : Primitives) (home : Home) (username password : String)
    (files : Files) : Terminal × Option Shown :=
  if username = "" then (.idle, some .usernameEmpty)
  else if password = "" then (.idle, some .passwordEmpty)
  else
    match loadUsers files with
    | .error e => (.idle, some (.traceback e))
    | .ok users =>
      match users.get? username with
      | none => (.idle, some (.unknownUsername username))
      | some entry =>
        match readEntry entry with
        | .error e => (.idle, some (.traceback e))
        | .ok (did, keyfilePath) =>
          match loadKeyfile prim (expanduser home keyfilePath) password (hostFiles home files) with
          | .ok (privateKey, _) => (.asking username password did privateKey, none)
          | .error (.osError _) => (.idle, some (.keyfileNotFound keyfilePath))
          | .error (.valueError _) => (.idle, some .wrongPassword)
          | .error e => (.idle, some (.traceback e))

/-- The answer to `/challenge` is signed. -/
def signChallenge (prim : Primitives) (coins : Bytes) (username password did : String)
    (privateKey : Bytes) (reply : ChallengeReply) : Terminal × Option Shown :=
  match fromhex reply.nonce with
  | none => (.idle, some (.traceback (.valueError "non-hexadecimal number found in fromhex()")))
  | some nonce =>
    let signature := hex (prim.sign coins privateKey (nonce ++ encode did))
    (.answering username password did reply.challengeId signature, none)

/-- The answer to `/authenticate`. A call that raises is answered with a text that is no JSON. -/
def readOutcome : Except PyError AuthResult → Shown
  | .error _ => .requestFailed
  | .ok result =>
    match result.status == "success", result.iat with
    | true, some iat =>
      .succeeded (((decodeIatPayload iat).get? "quorum").getD (.arr [])) result.expiresIn iat
    | true, none => .traceback (.typeError "'NoneType' object has no attribute 'split'")
    | false, _ => .failed result.reason

/-! ## The desk -/

def Running.withFiles (files : Files) (r : Running) : Running :=
  { r with system := { r.system with files := files } }

/-- The coordinator with its files, and the terminals that use it. -/
structure Desk where
  running : Running
  terminals : ℕ → Terminal

/-- A request is answered, or it was handled and its answer is lost. What else happens at the
coordinator is any operation; a terminal can be interrupted at any time. -/
inductive DeskEvent where
  | coordinator (op : LifeOp)
  | register (terminal : ℕ) (username password confirm : String)
  | postRegister (terminal : ℕ) (inp : RegisterInputs) (answered : Bool)
  | saveUsers (terminal : ℕ) (write : FileWrite)
  | authenticate (terminal : ℕ) (username password : String)
  | postChallenge (terminal : ℕ) (inp : ChallengeInputs) (coins : Bytes) (answered : Bool)
  | postAuthenticate (terminal : ℕ) (preCollected : Option (List PartialProof)) (inp : AuthInputs)
      (answered : Bool)
  | interrupt (terminal : ℕ)

namespace Desk

def start (prim : Primitives) (inp : StartInputs) : Desk where
  running := Running.first prim inp
  terminals := fun _ => .idle

def settle (terminal : ℕ) (next : Terminal × Option Shown) (d : Desk) : Desk × Option Shown :=
  ({ d with terminals := Function.update d.terminals terminal next.1 }, next.2)

def withFiles (files : Files) (d : Desk) : Desk :=
  { d with running := d.running.withFiles files }

/-- A command starts at a terminal that is idle; a request is sent where one is due. -/
def handle (prim : Primitives) (home : Home) (d : Desk) : DeskEvent → Desk × Option Shown
  | .coordinator op => ({ d with running := d.running.step prim op }, none)
  | .register terminal username password confirm =>
    match d.terminals terminal with
    | .idle => d.settle terminal
        (startRegister (strip username) (strip password) confirm d.running.system.files)
    | _ => (d, none)
  | .postRegister terminal inp answered =>
    match d.terminals terminal with
    | .registering username password users =>
      let response := (registerEndpoint prim inp password d.running.system).1
      let later : Desk := { d with running := d.running.step prim (.call (.register password inp)) }
      later.settle terminal (if answered then readRegistration home username users response
        else (.idle, some .requestFailed))
    | _ => (d, none)
  | .saveUsers terminal write =>
    match d.terminals terminal with
    | .saving username did keyfilePath users =>
      match saveUsers write users d.running.system.files with
      | (.ok (), files) =>
        (d.withFiles files).settle terminal (.idle, some (.registered username did keyfilePath))
      | (.error e, files) => (d.withFiles files).settle terminal (.idle, some (.traceback e))
    | _ => (d, none)
  | .authenticate terminal username password =>
    match d.terminals terminal with
    | .idle => d.settle terminal
        (startAuthenticate prim home (strip username) (strip password) d.running.system.files)
    | _ => (d, none)
  | .postChallenge terminal inp coins answered =>
    match d.terminals terminal with
    | .asking username password did privateKey =>
      let reply := (ChallengeManager.issue inp did d.running.system.pending).1
      let later : Desk := { d with running := d.running.step prim (.call (.issue did inp)) }
      later.settle terminal (if answered then
          signChallenge prim coins username password did privateKey reply
        else (.idle, some .requestFailed))
    | _ => (d, none)
  | .postAuthenticate terminal preCollected inp answered =>
    match d.terminals terminal with
    | .answering _ _ did challengeId signature =>
      let result := (authenticate prim inp did challengeId signature preCollected
        d.running.system).1
      let op : LifeOp := .call (.authenticate did challengeId signature preCollected inp)
      let later : Desk := { d with running := d.running.step prim op }
      later.settle terminal (.idle, some (if answered then readOutcome result else .requestFailed))
    | _ => (d, none)
  | .interrupt terminal => d.settle terminal (.idle, none)

end Desk

/-- The events of a day at the desk, from the first start of the coordinator on. -/
def runDesk (prim : Primitives) (home : Home) (inp : StartInputs) (events : List DeskEvent) :
    Desk :=
  run (fun d e => (d.handle prim home e).1) (Desk.start prim inp) events

end DecentralizedIDP
