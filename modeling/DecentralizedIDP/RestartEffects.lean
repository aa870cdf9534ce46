import DecentralizedIDP.DataDirectory
import DecentralizedIDP.FoundationsDurability
import DecentralizedIDP.LedgerRuns

/-! What a start reads from the data directory and what each call leaves there. -/
namespace DecentralizedIDP
open Foundations

/-! ## Starting -/

theorem ShareStore.init_eq (draw : Token 32) (nodeId : ℤ) (dir : DataDir) :
    let aesKey := (dir.storeKey nodeId).getD draw
    ShareStore.init draw nodeId dir = (⟨aesKey, dir.shares nodeId⟩,
      { dir with storeKey := Function.update dir.storeKey nodeId (some aesKey) }) := by
  intro aesKey
  unfold aesKey ShareStore.init
  cases hkey : dir.storeKey nodeId with
  | none => rfl
  | some aesKey =>
    -- the key that is there is the one that is written in the closed form
    have hsame : Function.update dir.storeKey nodeId (some aesKey) = dir.storeKey := by
      rw [← hkey, Function.update_eq_self]
    simp only [Option.getD_some, hsame]

/-- The key with which a node of this id comes up. -/
def loadedKey (draws : ℕ → Token 32) (dir : DataDir) (i : ℕ) : Token 32 :=
  (dir.storeKey i).getD (draws i)

/-- A fresh node object on the table that is on disk. -/
def openedNode (draws : ℕ → Token 32) (dir : DataDir) (i : ℕ) : Node where
  nodeId := i
  online := true
  byzantine := false
  shareStore := ⟨loadedKey draws dir i, dir.shares i⟩

/-- The nodes of a start, and the directory with a key for each of them. -/
theorem initNodes_eq (draws : ℕ → Token 32) (ids : List ℕ) (hids : ids.Nodup) (dir : DataDir) :
    (initNodes draws ids dir).1 = ids.map (openedNode draws dir) ∧
      ∃ storeKey, (initNodes draws ids dir).2 = { dir with storeKey := storeKey } ∧
        (∀ i ∈ ids, storeKey (i : ℤ) = some (loadedKey draws dir i)) ∧
        ∀ j : ℤ, (∀ i ∈ ids, j ≠ i) → storeKey j = dir.storeKey j := by
  induction ids generalizing dir with
  | nil => exact ⟨rfl, dir.storeKey, rfl, by simp, fun _ _ => rfl⟩
  | cons i ids ih =>
    rw [List.nodup_cons] at hids
    -- the nodes after the first are made in the directory that the first one leaves
    obtain ⟨hnodes, storeKey, hdir, hkeys, hothers⟩ := ih hids.2
      (ShareStore.init (draws i) i dir).2
    have hfirst := ShareStore.init_eq (draws i) i dir
    have hloaded : ∀ j ∈ ids, loadedKey draws (ShareStore.init (draws i) i dir).2 j =
        loadedKey draws dir j := by
      intro j hj
      have hne : (j : ℤ) ≠ i := by
        intro heq
        exact hids.1 ((Nat.cast_injective heq) ▸ hj)
      rw [loadedKey, hfirst]
      dsimp only
      rw [Function.update_of_ne hne, loadedKey]
    constructor
    · rw [initNodes, List.map_cons]
      refine congrArg₂ List.cons ?_ ?_
      · rw [Node.init, hfirst]
        rfl
      · refine hnodes.trans (List.map_congr_left ?_)
        intro j hj
        rw [openedNode, hloaded j hj, openedNode, hfirst]
    · refine ⟨storeKey, ?_, ?_, ?_⟩
      · refine hdir.trans ?_
        rw [hfirst]
      · intro j hj
        rcases List.mem_cons.mp hj with rfl | hj
        · rw [hothers j (fun k hk heq => hids.1 ((Nat.cast_injective heq) ▸ hk)), hfirst]
          exact Function.update_self _ _ _
        · rw [hkeys j hj, hloaded j hj]
      · intro j hj
        rw [hothers j (fun k hk => hj k (List.mem_cons_of_mem _ hk)), hfirst]
        exact Function.update_of_ne (hj i List.mem_cons_self) _ _

section Lifespan
variable (prim : Primitives) (inp : StartInputs) (files : Files) (dir : DataDir)

/-- The pair that the start ends up with. -/
def StartInputs.loadedSystemKeys : SystemKeys :=
  ((initSystemKeys prim inp.keySeed).complete dir.keyFiles).2

/-- The key files that the start leaves. -/
def StartInputs.leftKeyFiles : KeyDir :=
  ((initSystemKeys prim inp.keySeed).complete dir.keyFiles).1

theorem leftKeyFiles_hold : HoldsKeys (inp.loadedSystemKeys prim dir) (inp.leftKeyFiles prim dir) :=
  complete_holds prim inp.keySeed dir.keyFiles

/-- Whatever was on disk is what the coordinator comes up with, and the keys that it comes up
with are on disk. -/
theorem lifespan_eq : ∃ storeKey,
    lifespan prim inp files dir =
      ({ nodes := (List.range' 1 nNodes).map (openedNode inp.aesKeys dir), ledger := dir.ledger,
         pending := fun _ => none, systemKeys := some (inp.loadedSystemKeys prim dir),
         files := files },
        { dir with storeKey := storeKey, keyFiles := inp.leftKeyFiles prim dir }) ∧
      (∀ i ∈ List.range' 1 nNodes, storeKey (i : ℤ) = some (loadedKey inp.aesKeys dir i)) ∧
      ∀ j : ℤ, (∀ i ∈ List.range' 1 nNodes, j ≠ i) → storeKey j = dir.storeKey j := by
  obtain ⟨hnodes, storeKey, hdir, hkeys, hothers⟩ :=
    initNodes_eq inp.aesKeys (List.range' 1 nNodes) List.nodup_range' dir
  refine ⟨storeKey, ?_, hkeys, hothers⟩
  rw [lifespan]
  simp only [hnodes, hdir]
  rfl

/-- The first start makes the coordinator whose runs the other results are about. -/
theorem first_system : (Running.first prim inp).system = initial inp.aesKeys
    (some ⟨(prim.generateKeypair inp.keySeed).1, (prim.generateKeypair inp.keySeed).2⟩) := by
  obtain ⟨storeKey, heq, -⟩ := lifespan_eq prim inp (fun _ => none) DataDir.blank
  rw [Running.first, Running.startOn, heq]
  rfl

end Lifespan

/-! ## What the loop over the nodes commits -/

/-- How many of the writes from the `i`-th on commit before one of them does not. -/
def committedCount (stores : ℕ → StoreInputs) (i : ℕ) : ℕ → ℕ
  | 0 => 0
  | count+1 =>
    match (stores i).write with
    | .committed => committedCount stores (i+1) count+1
    | .rejected _ => 0
    | .uncommitted _ => 0

/-- The turn of node `k+1`, whose write takes its store to `store`. -/
theorem distributeDisk_cons (prim : Primitives) (stores : ℕ → StoreInputs) (did : String)
    (shares : List (ℤ × ℤ)) (commitments : List Bytes) (k : ℕ) (node : Node) (nodes : List Node)
    (x y : ℤ) (commitment : Bytes) (store : ShareStore) (disk : ℤ → ShareTable)
    (hshare : shares[k]? = some (x, y)) (hcommitment : commitments[k]? = some commitment)
    (hstore : node.shareStore.storeShare prim (stores (k+1)) did x y (some commitment) =
      (stores (k+1)).write.perform node.shareStore store) :
    distributeDisk prim stores did shares commitments (k+1) (node :: nodes) disk =
      match (stores (k+1)).write with
      | .committed => distributeDisk prim stores did shares commitments (k+1+1) nodes
          (Function.update disk node.nodeId store.shares)
      | .rejected _ => disk
      | .uncommitted _ => disk := by
  rw [distributeDisk, Nat.add_sub_cancel, hshare, hcommitment]
  simp only [hstore]
  cases (stores (k+1)).write with
  | committed => rfl
  | rejected message => rfl
  | uncommitted message => rfl

namespace RegisterInputs
variable (prim : Primitives) (inp : RegisterInputs) (password : String)

/-- The nodes whose write committed have on disk what their connections see, the others have
what was there before. -/
theorem distributeDisk_eq (k : ℕ) (nodes : List Node) (hlen : k+nodes.length ≤ nNodes)
    (hids : (nodes.map Node.nodeId).Nodup) (disk : ℤ → ShareTable) :
    (∀ id ∉ nodes.map Node.nodeId, distributeDisk prim inp.stores (inp.did prim)
        (inp.shares prim password) (inp.commitments prim password) (k+1) nodes disk id = disk id) ∧
      ∀ (j : ℕ) (node : Node), nodes[j]? = some node →
        distributeDisk prim inp.stores (inp.did prim) (inp.shares prim password)
            (inp.commitments prim password) (k+1) nodes disk node.nodeId =
          if j < committedCount inp.stores (k+1) nodes.length then
            (inp.putShare prim password (k+1+j) node).shareStore.shares
          else disk node.nodeId := by
  induction nodes generalizing k disk with
  | nil =>
    constructor
    · intro id _
      rw [distributeDisk]
    · intro j node hnode
      cases hnode
  | cons node nodes ih =>
    rw [List.length_cons] at hlen
    rw [List.map_cons, List.nodup_cons] at hids
    have hk : k < nNodes := by omega
    rw [distributeDisk_cons prim inp.stores _ _ _ k node nodes _ _ _ _ disk
      (inp.shares_getElem? prim password k hk) (inp.commitments_getElem? prim password k hk)
      (inp.storeShare_node prim password k hk node), List.length_cons, committedCount]
    -- only a committed write is on disk, and only it lets the loop go on
    cases hwrite : (inp.stores (k+1)).write with
    | committed =>
      dsimp only
      obtain ⟨hothers, hnodes⟩ := ih (k+1) (by omega) hids.2 (Function.update disk node.nodeId
        (inp.putShare prim password (k+1) node).shareStore.shares)
      constructor
      · intro id hid
        rw [List.map_cons, List.mem_cons, not_or] at hid
        rw [hothers id hid.2, Function.update_of_ne hid.1]
      · intro j node' hnode'
        cases j with
        | zero =>
          rw [List.getElem?_cons_zero, Option.some.injEq] at hnode'
          subst hnode'
          rw [hothers _ hids.1, Function.update_self, if_pos (by omega), add_zero]
        | succ j =>
          rw [List.getElem?_cons_succ] at hnode'
          have hmem : node'.nodeId ∈ nodes.map Node.nodeId :=
            List.mem_map_of_mem (List.mem_of_getElem? hnode')
          have hne : node'.nodeId ≠ node.nodeId := by
            intro heq
            exact hids.1 (heq ▸ hmem)
          rw [hnodes j node' hnode', Function.update_of_ne hne,
            show k+1+1+j = k+1+(j+1) by omega]
          simp only [Nat.add_lt_add_iff_right]
    | rejected message => exact ⟨fun _ _ => rfl, fun j _ _ => (if_neg (Nat.not_lt_zero j)).symm⟩
    | uncommitted message => exact ⟨fun _ _ => rfl, fun j _ _ => (if_neg (Nat.not_lt_zero j)).symm⟩

theorem committedCount_all (stores : ℕ → StoreInputs) (i count : ℕ)
    (h : ∀ j < count, (stores (i+j)).write = .committed) :
    committedCount stores i count = count := by
  induction count generalizing i with
  | zero => rfl
  | succ count ih =>
    have hfirst : (stores i).write = .committed := h 0 (by omega)
    have hrest : committedCount stores (i+1) count = count := by
      apply ih
      intro j hj
      rw [show i+1+j = i+(j+1) by omega]
      exact h (j+1) (by omega)
    simp only [committedCount, hfirst, hrest]

theorem publishDisk_eq (ledger disk : Ledger ℚ) :
    publishDisk prim inp (prim.generateKeypair inp.keySeed) (inp.did prim)
        (inp.secret prim password) (inp.commitments prim password) inp.feldmanSalt ledger disk =
      appendDisk (ledger.append prim.repr inp.ledgerWrite inp.appendedAt "DID_REGISTER"
        (inp.did prim) (inp.data prim password)) disk := by
  rw [publishDisk, inp.commitmentHash_eq prim password]
  rfl

theorem registerDisk_eq (s : System) (dir : DataDir) :
    let stored := { dir with
      shares := distributeDisk prim inp.stores (inp.did prim) (inp.shares prim password)
        (inp.commitments prim password) 1 s.nodes dir.shares }
    registerDisk prim inp password s dir =
      match distribute prim inp.stores (inp.did prim) (inp.shares prim password)
          (inp.commitments prim password) 1 s.nodes with
      | (.error _, _) => stored
      | (.ok (), _) => { stored with
          ledger := publishDisk prim inp (prim.generateKeypair inp.keySeed) (inp.did prim)
            (inp.secret prim password) (inp.commitments prim password) inp.feldmanSalt s.ledger
            dir.ledger } := by
  intro stored
  have hrange := inp.secret_range prim password
  have hshares := inp.generateShares_eq prim password
  have hcommitments := inp.generateCommitments_eq prim password
  rw [secret, publicKey] at hrange
  rw [secret, publicKey] at hshares
  simp only [registerDisk]
  rw [if_neg (not_not.mpr hrange), hshares]
  simp only [hcommitments]
  rfl

/-- A call commits its row exactly when all its shares and the row itself are written. -/
theorem registerDisk_ledger (s : System) (dir : DataDir) (hnodes : s.nodes.length ≤ nNodes) :
    (registerDisk prim inp password s dir).ledger = dir.ledger ∧
        ¬(inp.AllStored s.nodes.length ∧ inp.ledgerWrite = .committed) ∨
      (registerDisk prim inp password s dir).ledger =
          s.ledger ++ [inp.ledgerRow prim password s.ledger] ∧
        inp.AllStored s.nodes.length ∧ inp.ledgerWrite = .committed := by
  obtain ⟨r, hdistribute, hok⟩ := inp.distribute_eq prim password 0 s.nodes (by omega)
  rw [zero_add] at hdistribute hok
  rw [registerDisk_eq, hdistribute]
  cases r with
  | error e =>
    refine Or.inl ⟨rfl, fun h => ?_⟩
    cases hok.mpr h.1
  | ok u =>
    have hall : inp.AllStored s.nodes.length := hok.mp rfl
    simp only [publishDisk_eq, Ledger.append]
    cases hwrite : inp.ledgerWrite with
    | committed => exact Or.inr ⟨rfl, hall, rfl⟩
    | rejected message => exact Or.inl ⟨rfl, by simp⟩
    | uncommitted message => exact Or.inl ⟨rfl, by simp⟩

/-- Nothing else of the directory changes. -/
theorem registerDisk_frame (s : System) (dir : DataDir) :
    (registerDisk prim inp password s dir).storeKey = dir.storeKey ∧
      (registerDisk prim inp password s dir).keyFiles = dir.keyFiles ∧
      (registerDisk prim inp password s dir).shares =
        distributeDisk prim inp.stores (inp.did prim) (inp.shares prim password)
          (inp.commitments prim password) 1 s.nodes dir.shares := by
  rw [registerDisk_eq]
  split
  · exact ⟨rfl, rfl, rfl⟩
  · exact ⟨rfl, rfl, rfl⟩

end RegisterInputs

end DecentralizedIDP
