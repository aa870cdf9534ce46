import DecentralizedIDP.AuthChallenge
import DecentralizedIDP.AuthIAT
import DecentralizedIDP.CryptoFeldman
import DecentralizedIDP.CryptoKeyfile
import DecentralizedIDP.LedgerTable
import DecentralizedIDP.Node

/-! Registration: the shares go to the nodes one after the other, then the ledger
row is appended, then the keyfile is written. -/
namespace DecentralizedIDP
open Foundations

/-- Everything the services share. -/
structure System where
  nodes : List Node
  ledger : Ledger ℚ
  pending : Pending
  systemKeys : Option SystemKeys
  files : Files

/-- What one call of `register` draws and reads, and how each of its writes ends.
`stores i` belongs to the `i`-th node, counted from one. -/
structure RegisterInputs where
  keySeed : Bytes
  registrationNonce : Token 32
  draws : Fin (threshold-1) → Fin (P-1)
  feldmanSalt : Token 32
  stores : ℕ → StoreInputs
  registeredAt : ℚ
  appendedAt : ℚ
  ledgerWrite : WriteStatus
  keyfile : KeyfileInputs

structure RegisterReply where
  status : String
  did : String
  publicKey : String
  keyfilePath : String
  message : String
  deriving DecidableEq, Repr

def didOf (publicKey : Bytes) : String :=
  "did:decidp:" ++ String.ofList ((sha3Hex publicKey).toList.take 16)

/-- The loop over the nodes. The `i`-th node gets the `i`-th share. -/
def distribute (prim : Primitives) (stores : ℕ → StoreInputs) (did : String)
    (shares : List (ℤ × ℤ)) (commitments : List Bytes) :
    ℕ → List Node → Except PyError Unit × List Node
  | _, [] => (.ok (), [])
  | i, node :: nodes =>
    match shares[i-1]?, commitments[i-1]? with
    | some share, some commitment =>
      match node.shareStore.storeShare prim (stores i) did share.1 share.2 (some commitment) with
      | (.error e, store) => (.error e, { node with shareStore := store } :: nodes)
      | (.ok (), store) =>
        match distribute prim stores did shares commitments (i+1) nodes with
        | (r, nodes) => (r, { node with shareStore := store } :: nodes)
    -- more nodes than shares
    | _, _ => (.error (.indexError "list index out of range"), node :: nodes)

/-- The turn of node `k+1`, whose write takes its store to `store`. -/
theorem distribute_cons (prim : Primitives) (stores : ℕ → StoreInputs) (did : String)
    (shares : List (ℤ × ℤ)) (commitments : List Bytes) (k : ℕ) (node : Node) (nodes : List Node)
    (x y : ℤ) (commitment : Bytes) (store : ShareStore)
    (hshare : shares[k]? = some (x, y)) (hcommitment : commitments[k]? = some commitment)
    (hstore : node.shareStore.storeShare prim (stores (k+1)) did x y (some commitment) =
      (stores (k+1)).write.perform node.shareStore store) :
    distribute prim stores did shares commitments (k+1) (node :: nodes) =
      match (stores (k+1)).write.perform node.shareStore store with
      | (.error e, store) => (.error e, { node with shareStore := store } :: nodes)
      | (.ok (), store) =>
        match distribute prim stores did shares commitments (k+1+1) nodes with
        | (r, nodes) => (r, { node with shareStore := store } :: nodes) := by
  rw [distribute, Nat.add_sub_cancel, hshare, hcommitment]
  simp only [hstore]

/-- The data of a `DID_REGISTER` row. -/
def registerData (prim : Primitives) (publicKey : Bytes) (commitmentHash : String)
    (registrationNonce : Bytes) (commitments : List Bytes) (salt : Bytes) (registeredAt : ℚ) :
    List (String × Json) :=
  [("public_key", .str (hex publicKey)), ("commitment_hash", .str commitmentHash),
    ("nonce", .str (hex registrationNonce)),
    ("feldman_commitments", .arr (commitments.map (fun c => .str (hex c)))),
    ("feldman_salt", .str (hex salt)), ("registered_at", .float (prim.repr registeredAt))]

def keyfilePath (did : String) : String := "~/.decidp/" ++ did ++ ".key"

/-- Steps 9 to 12, once the shares are with the nodes. -/
def publish (prim : Primitives) (inp : RegisterInputs) (password : String)
    (keys : Bytes × Bytes) (did : String) (S : ℤ) (commitments : List Bytes) (salt : Bytes)
    (s : System) : Except PyError RegisterReply × System :=
  match commitmentHash S with
  | .error e => (.error e, s)
  | .ok commitment =>
    let data := registerData prim keys.2 commitment inp.registrationNonce commitments salt
      inp.registeredAt
    match s.ledger.append prim.repr inp.ledgerWrite inp.appendedAt "DID_REGISTER" did data with
    | (.error e, ledger) => (.error e, { s with ledger := ledger })
    -- the row is in the ledger before the key is in its file
    | (.ok _, ledger) =>
      match saveKeyfile prim inp.keyfile keys.1 keys.2 password (keyfilePath did) prim.algName
          s.files with
      | (.error e, files) => (.error e, { s with ledger := ledger, files := files })
      | (.ok (), files) =>
        (.ok { status := "success", did := did, publicKey := hex keys.2,
               keyfilePath := keyfilePath did,
               message := "Private key saved to keyfile. Keep your password safe." },
          { s with ledger := ledger, files := files })

def register (prim : Primitives) (inp : RegisterInputs) (password : String) (s : System) :
    Except PyError RegisterReply × System :=
  let keys := prim.generateKeypair inp.keySeed
  let did := didOf keys.2
  let S := deriveIdentitySecret keys.2 inp.registrationNonce password
  -- the assertion of step 5; `secret_range` shows that it never fails
  if ¬(1 ≤ S ∧ S ≤ (P : ℤ)-1) then (.error (.assertionError "HKDF produced out-of-range S"), s)
  else
    match generateShares S threshold nNodes P inp.draws with
    | .error e => (.error e, s)
    | .ok shares =>
      match generateCommitments (shares.map Prod.snd) inp.feldmanSalt with
      | .error e => (.error e, s)
      | .ok (commitments, salt) =>
        match distribute prim inp.stores did shares commitments 1 s.nodes with
        | (.error e, nodes) => (.error e, { s with nodes := nodes })
        | (.ok (), nodes) =>
          publish prim inp password keys did S commitments salt { s with nodes := nodes }

/-! ## What one call enrols -/

section Enrolment
variable (prim : Primitives) (inp : RegisterInputs) (password : String)

def RegisterInputs.publicKey : Bytes := (prim.generateKeypair inp.keySeed).2

def RegisterInputs.did : String := didOf (inp.publicKey prim)

def RegisterInputs.secret : ℤ :=
  deriveIdentitySecret (inp.publicKey prim) inp.registrationNonce password

def RegisterInputs.coefficients : List ℤ :=
  shareCoefficients (inp.secret prim password) threshold P inp.draws

/-- The value of the share with index `i`. -/
def RegisterInputs.yValue (i : ℕ) : ℤ := shareValue (inp.coefficients prim password) P i

def RegisterInputs.shares : List (ℤ × ℤ) :=
  (List.range' 1 nNodes).map (fun i : ℕ => ((i : ℤ), inp.yValue prim password i))

def RegisterInputs.commitments : List Bytes :=
  ((inp.shares prim password).map Prod.snd).zipIdx.map
    (fun vi => feldmanCommitment inp.feldmanSalt vi.2 vi.1.toNat)

def RegisterInputs.commitment : String :=
  sha3Hex (toBytes 32 (inp.secret prim password).toNat)

/-- Another residue has the digest that the call commits to. -/
def RegisterInputs.SecretCollides : Prop :=
  ∃ v : ℤ, 0 ≤ v ∧ v < P ∧ v ≠ inp.secret prim password ∧
    sha3_256 (toBytes 32 v.toNat) = sha3_256 (toBytes 32 (inp.secret prim password).toNat)

def RegisterInputs.data : List (String × Json) :=
  registerData prim (inp.publicKey prim) (inp.commitment prim password) inp.registrationNonce
    (inp.commitments prim password) inp.feldmanSalt inp.registeredAt

/-- The row of the `i`-th node. -/
def RegisterInputs.row (i : ℕ) (aesKey : Token 32) : ShareRow :=
  ShareStore.shareRow prim aesKey (inp.stores i).nonce (inp.did prim) i
    (inp.yValue prim password i) (toBytes 32 (inp.yValue prim password i).toNat)
    (some (feldmanCommitment inp.feldmanSalt (i-1) (inp.yValue prim password i).toNat))

/-- The `i`-th node after its share was written. -/
def RegisterInputs.putShare (i : ℕ) (node : Node) : Node :=
  { node with shareStore :=
      node.shareStore.putRow (inp.did prim) (inp.row prim password i node.shareStore.aesKey) }

/-- The nodes from the `i`-th on, after `count` of them got their share. -/
def RegisterInputs.putShares (i : ℕ) : ℕ → List Node → List Node
  | 0, nodes => nodes
  | _+1, [] => []
  | count+1, node :: nodes =>
    inp.putShare prim password i node :: RegisterInputs.putShares (i+1) count nodes

end Enrolment

/-- How many nodes a call that starts at node `i` of `count` leaves with a new row:
those before the first write that fails, and that one too if only its commit fails. -/
def reached (stores : ℕ → StoreInputs) (i : ℕ) : ℕ → ℕ
  | 0 => 0
  | count+1 =>
    match (stores i).write with
    | .committed => reached stores (i+1) count+1
    | .rejected _ => 0
    | .uncommitted _ => 1

theorem reached_all (stores : ℕ → StoreInputs) (i count : ℕ)
    (h : ∀ j < count, (stores (i+j)).write = .committed) : reached stores i count = count := by
  induction count generalizing i with
  | zero => rfl
  | succ count ih =>
    have hfirst : (stores i).write = .committed := h 0 (by omega)
    have hrest : reached stores (i+1) count = count := by
      apply ih
      intro j hj
      rw [show i+1+j = i+(j+1) by omega]
      exact h (j+1) (by omega)
    simp only [reached, hfirst, hrest]

namespace RegisterInputs
variable (prim : Primitives) (inp : RegisterInputs) (password : String)

/-! ## The pure steps never fail -/

theorem secret_range : 1 ≤ inp.secret prim password ∧ inp.secret prim password ≤ (P : ℤ)-1 :=
  deriveIdentitySecret_range _ _ _

theorem yValue_range (i : ℕ) : 0 ≤ inp.yValue prim password i ∧ inp.yValue prim password i < P :=
  shareValue_range P _ i

theorem yValue_fits (i : ℕ) :
    0 ≤ inp.yValue prim password i ∧ inp.yValue prim password i < 256^32 := by
  have hP : (P : ℤ) < 256^32 := by exact_mod_cast P_lt
  exact ⟨(inp.yValue_range prim password i).1, (inp.yValue_range prim password i).2.trans hP⟩

theorem yValue_cast (i : ℕ) : ((inp.yValue prim password i : ℤ) : ZMod P) =
    (sharePoly P (inp.coefficients prim password)).eval (i : ZMod P) :=
  shareValue_cast P _ i

theorem generateShares_eq :
    generateShares (inp.secret prim password) threshold nNodes P inp.draws =
      .ok (inp.shares prim password) :=
  generateShares_ok _ _ _ _ _ (inp.secret_range prim password) (by decide)

theorem shares_length : (inp.shares prim password).length = nNodes := by
  rw [shares, List.length_map, List.length_range']

theorem shares_getElem? (i : ℕ) (hi : i < nNodes) :
    (inp.shares prim password)[i]? = some (((i+1 : ℕ) : ℤ), inp.yValue prim password (i+1)) := by
  rw [shares, List.getElem?_map, List.getElem?_range' hi, Option.map_some, add_comm 1, one_mul]

theorem values_fit : ∀ v ∈ (inp.shares prim password).map Prod.snd, 0 ≤ v ∧ v < 256^32 := by
  intro v hv
  obtain ⟨share, hshare, rfl⟩ := List.mem_map.mp hv
  obtain ⟨i, -, rfl⟩ := List.mem_map.mp hshare
  exact inp.yValue_fits prim password i

theorem generateCommitments_eq :
    generateCommitments ((inp.shares prim password).map Prod.snd) inp.feldmanSalt =
      .ok (inp.commitments prim password, inp.feldmanSalt) := by
  apply generateCommitments_ok
  · rw [List.length_map, shares_length]
    decide
  · exact inp.values_fit prim password

theorem commitments_getElem? (i : ℕ) (hi : i < nNodes) :
    (inp.commitments prim password)[i]? =
      some (feldmanCommitment inp.feldmanSalt i (inp.yValue prim password (i+1)).toNat) := by
  rw [commitments, List.getElem?_map, List.getElem?_zipIdx, List.getElem?_map,
    inp.shares_getElem? prim password i hi]
  simp

theorem commitmentHash_eq :
    commitmentHash (inp.secret prim password) = .ok (inp.commitment prim password) := by
  have h := inp.secret_range prim password
  exact commitmentHash_ok _ (by omega) (by omega)

/-- What opens the commitment without being the secret is a collision. -/
theorem secretCollides_of_opened (v : ℤ) (h0 : 0 ≤ v) (hlt : v < P)
    (hne : v ≠ inp.secret prim password)
    (hopen : sha3Hex (toBytes 32 v.toNat) = inp.commitment prim password) :
    inp.SecretCollides prim password := by
  rw [commitment] at hopen
  exact ⟨v, h0, hlt, hne, hex_injective hopen⟩

/-! ## The loop over the nodes -/

@[simp] theorem putShares_zero (i : ℕ) (nodes : List Node) :
    inp.putShares prim password i 0 nodes = nodes := by rw [putShares.eq_def]

@[simp] theorem putShares_nil (i count : ℕ) :
    inp.putShares prim password i count [] = [] := by cases count <;> rw [putShares.eq_def]

theorem putShares_length (i count : ℕ) (nodes : List Node) :
    (inp.putShares prim password i count nodes).length = nodes.length := by
  induction nodes generalizing i count with
  | nil => rw [putShares_nil]
  | cons node nodes ih =>
    cases count with
    | zero => rw [putShares_zero]
    | succ count => rw [putShares, List.length_cons, ih, List.length_cons]

theorem putShares_getElem? (i count j : ℕ) (nodes : List Node) :
    (inp.putShares prim password i count nodes)[j]? = nodes[j]?.map (fun node =>
      if j < count then inp.putShare prim password (i+j) node else node) := by
  induction nodes generalizing i count j with
  | nil => simp
  | cons node nodes ih =>
    cases count with
    | zero => simp
    | succ count =>
      rw [putShares]
      cases j with
      | zero => simp
      | succ j =>
        rw [List.getElem?_cons_succ, ih, List.getElem?_cons_succ]
        congr 1
        funext node
        rw [show i+1+j = i+(j+1) by omega]
        simp only [Nat.add_lt_add_iff_right]

theorem index_fits (i : ℕ) (hi : i ≤ nNodes) : -2^63 ≤ (i : ℤ) ∧ (i : ℤ) < 2^63 := by
  have hn : (i : ℤ) ≤ 5 := by exact_mod_cast hi
  constructor
  · exact le_trans (by norm_num) (Int.natCast_nonneg i)
  · exact hn.trans_lt (by norm_num)

/-- One turn of the loop, for a node that has a share. -/
theorem storeShare_node (k : ℕ) (hk : k < nNodes) (node : Node) :
    node.shareStore.storeShare prim (inp.stores (k+1)) (inp.did prim) ((k+1 : ℕ) : ℤ)
        (inp.yValue prim password (k+1))
        (some (feldmanCommitment inp.feldmanSalt k (inp.yValue prim password (k+1)).toNat)) =
      (inp.stores (k+1)).write.perform node.shareStore
        (inp.putShare prim password (k+1) node).shareStore :=
  ShareStore.storeShare_eq _ _ _ _ _ _ _ (inp.yValue_fits prim password (k+1))
    (index_fits (k+1) hk)

theorem putShare_eta (i : ℕ) (node : Node) :
    { node with shareStore := (inp.putShare prim password i node).shareStore } =
      inp.putShare prim password i node := rfl

/-- The loop leaves the nodes that were reached with their shares, and succeeds when
every write commits. -/
theorem distribute_eq (k : ℕ) (nodes : List Node) (hlen : k+nodes.length ≤ nNodes) :
    ∃ r, distribute prim inp.stores (inp.did prim) (inp.shares prim password)
        (inp.commitments prim password) (k+1) nodes =
        (r, inp.putShares prim password (k+1) (reached inp.stores (k+1) nodes.length) nodes) ∧
      (r = .ok () ↔ ∀ j < nodes.length, (inp.stores (k+1+j)).write = .committed) := by
  -- on the nodes that are left; the index of the first of them goes up with each
  induction nodes generalizing k with
  | nil => exact ⟨.ok (), by rw [distribute, List.length_nil, reached, putShares_zero], by simp⟩
  | cons node nodes ih =>
    rw [List.length_cons] at hlen
    have hk : k < nNodes := by omega
    rw [distribute_cons prim inp.stores _ _ _ k node nodes _ _ _ _
      (inp.shares_getElem? prim password k hk) (inp.commitments_getElem? prim password k hk)
      (inp.storeShare_node prim password k hk node), List.length_cons, reached]
    -- only a committed write lets the loop go on
    cases hwrite : (inp.stores (k+1)).write with
    | committed =>
      obtain ⟨r, hr, hok⟩ := ih (k+1) (by omega)
      refine ⟨r, ?_, ?_⟩
      · simp only [WriteStatus.perform, hr, putShares, putShare_eta]
      · rw [hok]
        constructor
        · intro h j hj
          cases j with
          | zero => exact hwrite
          | succ j => exact (show k+1+(j+1) = k+1+1+j by omega) ▸ h j (by omega)
        · intro h j hj
          exact (show k+1+1+j = k+1+(j+1) by omega) ▸ h (j+1) (by omega)
    | rejected message =>
      refine ⟨.error (.operationalError message), ?_, ?_⟩
      · simp only [WriteStatus.perform, putShares_zero]
      · simp only [reduceCtorEq, false_iff, not_forall]
        exact ⟨0, by omega, by rw [add_zero, hwrite]; simp⟩
    | uncommitted message =>
      refine ⟨.error (.operationalError message), ?_, ?_⟩
      · simp only [WriteStatus.perform, putShares, putShare_eta]
      · simp only [reduceCtorEq, false_iff, not_forall]
        exact ⟨0, by omega, by rw [add_zero, hwrite]; simp⟩

end RegisterInputs

end DecentralizedIDP
