import DecentralizedIDP.SystemKeyCrashes
import DecentralizedIDP.SystemRuns

/-! The data directory: what of the tables of a running coordinator is on disk, and the
coordinator that a start makes of it. -/
namespace DecentralizedIDP
open Foundations

/-- The rows of a node's `shares.db`, by DID. -/
abbrev ShareTable := String → Option ShareRow

/-- What survives a process. Tables and key files of the nodes go by node id; `keyFiles` are
`system.key` and `system.pub`. -/
structure DataDir where
  storeKey : ℤ → Option (Token 32)
  shares : ℤ → ShareTable
  keyFiles : KeyDir
  ledger : Ledger ℚ

def DataDir.blank : DataDir where
  storeKey := fun _ => none
  shares := fun _ _ => none
  keyFiles := noKeys
  ledger := []

/-! ## Starting -/

/-- The random bytes that a start draws where it finds no key. -/
structure StartInputs where
  aesKeys : ℕ → Token 32
  keySeed : Bytes

/-- The constructor of `ShareStore`: the key is loaded or generated, the table opened. -/
def ShareStore.init (draw : Token 32) (nodeId : ℤ) (dir : DataDir) : ShareStore × DataDir :=
  match dir.storeKey nodeId with
  | some aesKey => (⟨aesKey, dir.shares nodeId⟩, dir)
  | none => (⟨draw, dir.shares nodeId⟩,
      { dir with storeKey := Function.update dir.storeKey nodeId (some draw) })

/-- The constructor of `Node`. -/
def Node.init (draw : Token 32) (nodeId : ℤ) (dir : DataDir) : Node × DataDir :=
  let opened := ShareStore.init draw nodeId dir
  ({ nodeId := nodeId, online := true, byzantine := false, shareStore := opened.1 }, opened.2)

/-- The nodes are made one after the other. -/
def initNodes (draws : ℕ → Token 32) : List ℕ → DataDir → List Node × DataDir
  | [], dir => ([], dir)
  | i :: ids, dir =>
    let first := Node.init (draws i) i dir
    let rest := initNodes draws ids first.2
    (first.1 :: rest.1, rest.2)

/-- All of the steps of `init_system_keys`: the pair that is loaded, or the one that is
generated and written. -/
def loadSystemKeys (prim : Primitives) (seed : Bytes) (dir : DataDir) : SystemKeys × DataDir :=
  let made := (initSystemKeys prim seed).complete dir.keyFiles
  (made.2, { dir with keyFiles := made.1 })

/-- The start of the coordinator, which runs to its end. `files` is the home directory, which is
not part of the data directory. -/
def lifespan (prim : Primitives) (inp : StartInputs) (files : Files) (dir : DataDir) :
    System × DataDir :=
  let made := initNodes inp.aesKeys (List.range' 1 nNodes) dir
  let loaded := loadSystemKeys prim inp.keySeed made.2
  -- the ledger is opened on what is on disk; the challenges were in memory only
  ({ nodes := made.1, ledger := loaded.2.ledger, pending := fun _ => none,
     systemKeys := some loaded.1, files := files }, loaded.2)

/-! ## What the calls commit -/

/-- The tables on disk after the loop over the nodes. A `store_share` that returns has
committed everything that its connection sees, one that raises has committed nothing. -/
def distributeDisk (prim : Primitives) (stores : ℕ → StoreInputs) (did : String)
    (shares : List (ℤ × ℤ)) (commitments : List Bytes) :
    ℕ → List Node → (ℤ → ShareTable) → ℤ → ShareTable
  | _, [], disk => disk
  | i, node :: nodes, disk =>
    match shares[i-1]?, commitments[i-1]? with
    | some share, some commitment =>
      match node.shareStore.storeShare prim (stores i) did share.1 share.2 (some commitment) with
      | (.error _, _) => disk
      | (.ok (), store) => distributeDisk prim stores did shares commitments (i+1) nodes
          (Function.update disk node.nodeId store.shares)
    | _, _ => disk

/-- The ledger on disk after an append, which commits all that the connection sees when it
returns. -/
def appendDisk (result : Except PyError String × Ledger ℚ) (disk : Ledger ℚ) : Ledger ℚ :=
  match result with
  | (.ok _, seen) => seen
  | (.error _, _) => disk

/-- The ledger on disk after steps 9 to 12 of `register`. -/
def publishDisk (prim : Primitives) (inp : RegisterInputs) (keys : Bytes × Bytes) (did : String)
    (S : ℤ) (commitments : List Bytes) (salt : Bytes) (ledger disk : Ledger ℚ) : Ledger ℚ :=
  match commitmentHash S with
  | .error _ => disk
  | .ok commitment =>
    let data := registerData prim keys.2 commitment inp.registrationNonce commitments salt
      inp.registeredAt
    appendDisk (ledger.append prim.repr inp.ledgerWrite inp.appendedAt "DID_REGISTER" did data) disk

/-- The steps of `register` once more, for what they leave on disk. -/
def registerDisk (prim : Primitives) (inp : RegisterInputs) (password : String) (s : System)
    (dir : DataDir) : DataDir :=
  let keys := prim.generateKeypair inp.keySeed
  let did := didOf keys.2
  let S := deriveIdentitySecret keys.2 inp.registrationNonce password
  if ¬(1 ≤ S ∧ S ≤ (P : ℤ)-1) then dir
  else
    match generateShares S threshold nNodes P inp.draws with
    | .error _ => dir
    | .ok shares =>
      match generateCommitments (shares.map Prod.snd) inp.feldmanSalt with
      | .error _ => dir
      | .ok (commitments, salt) =>
        let stored := { dir with
          shares := distributeDisk prim inp.stores did shares commitments 1 s.nodes dir.shares }
        match distribute prim inp.stores did shares commitments 1 s.nodes with
        | (.error _, _) => stored
        | (.ok (), _) => { stored with
            ledger := publishDisk prim inp keys did S commitments salt s.ledger dir.ledger }

/-- Each append of `authenticate` stands right before a return, so a call that returns with
a row more has committed it. -/
def authenticateDisk (result : Except PyError AuthResult × System) (before disk : Ledger ℚ) :
    Ledger ℚ :=
  match result with
  | (.ok _, s) => if s.ledger.length = before.length then disk else s.ledger
  | (.error _, _) => disk

def stepDisk (prim : Primitives) (s : System) (dir : DataDir) : Op → DataDir
  | .register password inp => registerDisk prim inp password s dir
  | .authenticate did challengeId signatureHex preCollected inp =>
    let result := authenticate prim inp did challengeId signatureHex preCollected s
    { dir with ledger := authenticateDisk result s.ledger dir.ledger }
  | _ => dir

/-! ## Runs with restarts -/

/-- A coordinator on its data directory. -/
structure Running where
  system : System
  dir : DataDir

/-- A restart may come after a crash at any place of a call: one that was broken off between two
of its writes is one whose next write fails. A start itself is not broken off here; what such a
one leaves of the key files is the subject of `systemKeyMachine`. -/
inductive LifeOp where
  | call (op : Op)
  | restart (inp : StartInputs)

namespace Running

def startOn (prim : Primitives) (inp : StartInputs) (files : Files) (dir : DataDir) : Running :=
  ⟨(lifespan prim inp files dir).1, (lifespan prim inp files dir).2⟩

def step (prim : Primitives) (r : Running) : LifeOp → Running
  | .call op => ⟨DecentralizedIDP.step prim r.system op, stepDisk prim r.system r.dir op⟩
  | .restart inp => startOn prim inp r.system.files r.dir

/-- The first start, on an empty directory. -/
def first (prim : Primitives) (inp : StartInputs) : Running :=
  startOn prim inp (fun _ => none) DataDir.blank

end Running

/-- A life of the coordinator: its first start, then calls and restarts. -/
def runLife (prim : Primitives) (inp : StartInputs) (ops : List LifeOp) : Running :=
  run (Running.step prim) (Running.first prim inp) ops

end DecentralizedIDP
