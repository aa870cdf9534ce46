import DecentralizedIDP.CryptoPrimitives

/-! The encrypted table of shares that each node keeps, one row for a DID. -/
namespace DecentralizedIDP
open Foundations

structure ShareRow where
  xCoord : ℤ
  yCoordEncrypted : Bytes
  aesNonce : Bytes
  shareHash : String
  feldmanCommitment : Option Bytes
  deriving DecidableEq

/-- The store of one node, as its own connection sees the table. -/
structure ShareStore where
  aesKey : Token 32
  shares : String → Option ShareRow

/-- The nonce drawn by one write and how the write ends. -/
structure StoreInputs where
  nonce : Token 12
  write : WriteStatus

def shareHash (x y : ℤ) : String := sha3Hex (encode (decimal x ++ decimal y))

/-- SQLite stores integers of 64 bits. -/
def sqliteInteger (n : ℤ) : Except PyError ℤ :=
  if -2^63 ≤ n ∧ n < 2^63 then .ok n
  else .error (.overflowError "Python int too large to convert to SQLite INTEGER")

namespace ShareStore

/-- The row written for a share. -/
def shareRow (prim : Primitives) (aesKey : Token 32) (nonce : Token 12) (did : String) (x y : ℤ)
    (plain : Bytes) (feldmanCommitment : Option Bytes) : ShareRow where
  xCoord := x
  yCoordEncrypted := prim.encrypt aesKey nonce plain (some (encode did))
  aesNonce := nonce
  shareHash := shareHash x y
  feldmanCommitment := feldmanCommitment

def putRow (store : ShareStore) (did : String) (row : ShareRow) : ShareStore :=
  { store with shares := fun d => if d = did then some row else store.shares d }

def storeShare (prim : Primitives) (inp : StoreInputs) (did : String) (x y : ℤ)
    (feldmanCommitment : Option Bytes) (store : ShareStore) : Except PyError Unit × ShareStore :=
  -- both conversions stand before the `INSERT`, so when one raises the old row stays
  match intToBytes 32 y with
  | .error e => (.error e, store)
  | .ok plain =>
    match sqliteInteger x with
    | .error e => (.error e, store)
    | .ok x =>
      inp.write.perform store
        (store.putRow did (shareRow prim store.aesKey inp.nonce did x y plain feldmanCommitment))

def getShare (prim : Primitives) (did : String) (store : ShareStore) :
    Except PyError (Option (ℤ × ℤ)) :=
  match store.shares did with
  | none => .ok none
  | some row =>
    -- the tag covers `y` and the DID, the hash below covers `x` and `y`
    match prim.decrypt store.aesKey row.aesNonce row.yCoordEncrypted (some (encode did)) with
    | none => .error .invalidTag
    | some yBytes =>
      let y : ℤ := fromBytes yBytes
      if shareHash row.xCoord y ≠ row.shareHash then
        .error (.valueError ("Share integrity check failed for DID " ++ prim.reprStr did ++
          " — data may be tampered"))
      else .ok (some (row.xCoord, y))

def deleteShare (did : String) (store : ShareStore) : ShareStore :=
  { store with shares := fun d => if d = did then none else store.shares d }

def hasShare (did : String) (store : ShareStore) : Bool := (store.shares did).isSome

@[simp] theorem putRow_same (store : ShareStore) (did : String) (row : ShareRow) :
    (store.putRow did row).shares did = some row := if_pos rfl

theorem putRow_other (store : ShareStore) (did other : String) (row : ShareRow)
    (h : other ≠ did) : (store.putRow did row).shares other = store.shares other := if_neg h

/-- A write of a value that fits succeeds or fails as the database does. -/
theorem storeShare_eq (prim : Primitives) (inp : StoreInputs) (did : String) (x y : ℤ)
    (feldmanCommitment : Option Bytes) (store : ShareStore) (hy : 0 ≤ y ∧ y < 256^32)
    (hx : -2^63 ≤ x ∧ x < 2^63) :
    storeShare prim inp did x y feldmanCommitment store =
      inp.write.perform store (store.putRow did (shareRow prim store.aesKey inp.nonce did x y
        (toBytes 32 y.toNat) feldmanCommitment)) := by
  rw [storeShare, intToBytes_ok 32 y hy.1 hy.2, sqliteInteger, if_pos hx]

/-- What was stored is read back. -/
theorem getShare_stored (prim : Primitives) (hdec : prim.DecryptsEncrypted) (nonce : Token 12)
    (did : String) (x y : ℤ) (feldmanCommitment : Option Bytes) (store : ShareStore)
    (hy : 0 ≤ y ∧ y < 256^32)
    (hrow : store.shares did = some (shareRow prim store.aesKey nonce did x y
      (toBytes 32 y.toNat) feldmanCommitment)) :
    getShare prim did store = .ok (some (x, y)) := by
  have hval := fromBytes_toBytes_int 32 y hy.1 hy.2
  have hplain := hdec store.aesKey nonce (toBytes 32 y.toNat) (some (encode did))
  rw [getShare, hrow]
  simp only [shareRow, hplain, hval]
  rw [if_neg (not_not.mpr rfl)]

end ShareStore

end DecentralizedIDP
