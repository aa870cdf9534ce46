import DecentralizedIDP.CryptoPrimitives
import DecentralizedIDP.FoundationsHashChain

/-! The audit ledger: an append-only table whose rows are chained by their hashes,
and the lookups of a DID's registration. The timestamp type `τ` is whatever the
column holds; it enters the hash through `repr`. -/
namespace DecentralizedIDP
open Foundations

structure Entry (τ : Type) where
  entryType : String
  did : String
  dataJson : String
  timestamp : τ
  entryHash : String
  previousHash : String
  deriving DecidableEq

/-- The rows in the order of their ids. -/
abbrev Ledger (τ : Type) := List (Entry τ)

namespace Ledger
variable {τ : Type} (repr : τ → String)

def zeroHash : String := String.ofList (List.replicate 64 '0')

def lastHash (ledger : Ledger τ) : String := (ledger.getLast?.map Entry.entryHash).getD zeroHash

def hashPreimage (previousHash entryType did dataJson : String) (timestamp : τ) : Bytes :=
  encode previousHash ++ encode entryType ++ encode did ++ encode dataJson ++
    encode (repr timestamp)

def computeHash (previousHash entryType did dataJson : String) (timestamp : τ) : String :=
  sha3Hex (hashPreimage repr previousHash entryType did dataJson timestamp)

/-- The row that `append` writes. -/
def newEntry (timestamp : τ) (entryType did : String) (data : List (String × Json))
    (ledger : Ledger τ) : Entry τ where
  entryType := entryType
  did := did
  dataJson := dumpsSorted data
  timestamp := timestamp
  entryHash := computeHash repr ledger.lastHash entryType did (dumpsSorted data) timestamp
  previousHash := ledger.lastHash

def append (write : WriteStatus) (timestamp : τ) (entryType did : String)
    (data : List (String × Json)) (ledger : Ledger τ) : Except PyError String × Ledger τ :=
  let entry := newEntry repr timestamp entryType did data ledger
  match write.perform ledger (ledger ++ [entry]) with
  | (.ok (), ledger) => (.ok entry.entryHash, ledger)
  | (.error e, ledger) => (.error e, ledger)

-- the loop of `verify_chain`; its variable starts at the zero hash
def verifyFrom (expectedPrevious : String) : Ledger τ → Bool
  | [] => true
  | row :: rows =>
    if row.previousHash ≠ expectedPrevious then false
    else if computeHash repr row.previousHash row.entryType row.did row.dataJson row.timestamp ≠
        row.entryHash then false
    else verifyFrom row.entryHash rows

def verifyChain (ledger : Ledger τ) : Bool := verifyFrom repr zeroHash ledger

/-! ## Lookups -/

def isRegister (did : String) (entry : Entry τ) : Bool :=
  entry.entryType == "DID_REGISTER" && entry.did == did

def latestRegister (did : String) (ledger : Ledger τ) : Option (Entry τ) :=
  ledger.reverse.find? (isRegister did)

def getRegisterData (did : String) (ledger : Ledger τ) : Except PyError (Option Json) :=
  match latestRegister did ledger with
  | none => .ok none
  | some entry =>
    match loads entry.dataJson with
    | none => .error (.valueError "JSONDecodeError")
    | some data => .ok (some data)

/-- Whether a decoded value counts as true; a float does when its mantissa has a
digit other than zero. -/
def truthy : Json → Bool
  | .null => false
  | .bool b => b
  | .int n => n != 0
  | .float t => (t.toList.takeWhile (fun c => c != 'e' && c != 'E')).any
      (fun c => c.isDigit && c != '0')
  | .str s => s != ""
  | .arr es => !es.isEmpty
  | .obj ms => !ms.isEmpty

/-- `data[key]`. -/
def subscript (data : Json) (key : String) : Except PyError Json :=
  match data with
  -- only a dict has keys; on any other JSON value the source raises
  | .obj ms =>
    match (Json.obj ms).get? key with
    | some v => .ok v
    | none => .error (.keyError key)
  | .arr _ => .error (.typeError "list indices must be integers or slices, not str")
  | .str _ => .error (.typeError "string indices must be integers, not 'str'")
  | .null => .error (.typeError "'NoneType' object is not subscriptable")
  | .bool _ => .error (.typeError "'bool' object is not subscriptable")
  | .int _ => .error (.typeError "'int' object is not subscriptable")
  | .float _ => .error (.typeError "'float' object is not subscriptable")

/-- What a `for` loop runs over. -/
def elements : Json → Except PyError (List Json)
  | .arr es => .ok es
  | .str s => .ok (s.toList.map (fun c => .str (String.ofList [c])))
  | .obj ms => .ok (ms.map (fun m => .str m.1))
  | .null => .error (.typeError "'NoneType' object is not iterable")
  | .bool _ => .error (.typeError "'bool' object is not iterable")
  | .int _ => .error (.typeError "'int' object is not iterable")
  | .float _ => .error (.typeError "'float' object is not iterable")

/-- `bytes.fromhex(v)`. -/
def bytesFromhex : Json → Except PyError Bytes
  | .str s =>
    match fromhex s with
    | some bs => .ok bs
    | none => .error (.valueError "non-hexadecimal number found in fromhex() arg")
  | _ => .error (.typeError "fromhex() argument must be str")

/-- `f(data[key]) if data else None`, which most getters are. -/
def getField {β : Type} (f : Json → Except PyError β) (key did : String) (ledger : Ledger τ) :
    Except PyError (Option β) := do
  match ← getRegisterData did ledger with
  | none => return none
  | some data =>
    -- an empty document reads as no document
    if truthy data then return some (← f (← subscript data key)) else return none

def getCommitmentHash (did : String) (ledger : Ledger τ) : Except PyError (Option Json) :=
  getField pure "commitment_hash" did ledger

def getRegistrationNonce (did : String) (ledger : Ledger τ) : Except PyError (Option Bytes) :=
  getField bytesFromhex "nonce" did ledger

def getPublicKey (did : String) (ledger : Ledger τ) : Except PyError (Option Bytes) :=
  getField bytesFromhex "public_key" did ledger

def getDidDocument (did : String) (ledger : Ledger τ) : Except PyError (Option Json) :=
  getRegisterData did ledger

/-- Unlike the other getters it tests `data is None`. -/
def getFeldmanCommitments (did : String) (ledger : Ledger τ) :
    Except PyError (Option (List Bytes)) := do
  match ← getRegisterData did ledger with
  | none => return none
  | some .null => return none
  | some data =>
    return some (← (← elements (← subscript data "feldman_commitments")).mapM bytesFromhex)

/-! ## Chains -/

/-- The ledger as a chain of hashed records. -/
def chainFormat : ChainFormat (Entry τ) Bytes String where
  link := Entry.previousHash
  stored := Entry.entryHash
  preimage := fun row =>
    hashPreimage repr row.previousHash row.entryType row.did row.dataJson row.timestamp
  digest := sha3Hex

theorem verifyFrom_iff (expectedPrevious : String) (ledger : Ledger τ) :
    verifyFrom repr expectedPrevious ledger = true ↔
      (chainFormat repr).Linked expectedPrevious ledger := by
  induction ledger generalizing expectedPrevious with
  | nil => simp [verifyFrom, ChainFormat.Linked]
  | cons row rows ih =>
    -- the loop checks the link first and then the digest, the chain asks for both
    rw [verifyFrom, ChainFormat.Linked, ← ih]
    simp only [chainFormat, computeHash]
    by_cases hprev : row.previousHash = expectedPrevious
    · rw [if_neg (not_not.mpr hprev)]
      split_ifs with hhash
      · simp [hhash]
      · simp [hprev]
    · rw [if_pos hprev]
      simp [hprev]

theorem verifyChain_iff (ledger : Ledger τ) :
    verifyChain repr ledger = true ↔ (chainFormat repr).Linked zeroHash ledger :=
  verifyFrom_iff repr zeroHash ledger

/-- Appending a row keeps the chain valid. -/
theorem linked_newEntry (timestamp : τ) (entryType did : String) (data : List (String × Json))
    (ledger : Ledger τ) (h : (chainFormat repr).Linked zeroHash ledger) :
    (chainFormat repr).Linked zeroHash
      (ledger ++ [newEntry repr timestamp entryType did data ledger]) :=
  ((chainFormat repr).linked_snoc zeroHash ledger _).mpr ⟨h, rfl, rfl⟩

/-! ## What the lookups return -/

theorem latestRegister_snoc (did : String) (ledger : Ledger τ) (entry : Entry τ) :
    latestRegister did (ledger ++ [entry]) =
      if isRegister did entry = true then some entry else latestRegister did ledger := by
  rw [latestRegister, List.reverse_append, List.reverse_singleton, List.singleton_append,
    List.find?_cons, ← latestRegister]
  split_ifs with h
  · rw [h]
  · rw [Bool.not_eq_true] at h
    rw [h]

theorem latestRegister_mem (did : String) (ledger : Ledger τ) (entry : Entry τ)
    (h : latestRegister did ledger = some entry) :
    entry ∈ ledger ∧ entry.entryType = "DID_REGISTER" ∧ entry.did = did := by
  have hmem := List.mem_of_find?_eq_some h
  have hreg := List.find?_some h
  simp only [isRegister, Bool.and_eq_true, beq_iff_eq] at hreg
  exact ⟨List.mem_reverse.mp hmem, hreg.1, hreg.2⟩

theorem latestRegister_isSome (ledger : Ledger τ) (entry : Entry τ) (h : entry ∈ ledger)
    (htype : entry.entryType = "DID_REGISTER") :
    ∃ latest, latestRegister entry.did ledger = some latest := by
  apply Option.isSome_iff_exists.mp
  rw [latestRegister, List.find?_isSome]
  exact ⟨entry, List.mem_reverse.mpr h, by simp [isRegister, htype]⟩

theorem loads_of_getRegisterData (did : String) (ledger : Ledger τ) (entry : Entry τ) (data : Json)
    (hlatest : latestRegister did ledger = some entry)
    (h : getRegisterData did ledger = .ok (some data)) : loads entry.dataJson = some data := by
  rw [getRegisterData, hlatest] at h
  cases hloads : loads entry.dataJson with
  | none =>
    simp only [hloads] at h
    cases h
  | some data' =>
    simp only [hloads, Except.ok.injEq, Option.some.injEq] at h
    rw [h]

theorem subscript_sortMembers (data : List (String × Json)) (hkeys : (data.map Prod.fst).Nodup)
    (key : String) (v : Json) (hm : (key, v) ∈ data) :
    subscript (.obj (sortMembers data)) key = .ok v := by
  rw [subscript, get?_sortMembers data key v hkeys hm]

theorem mapM_bytesFromhex (bss : List Bytes) :
    (bss.map (fun bs => Json.str (hex bs))).mapM bytesFromhex = .ok bss := by
  induction bss with
  | nil => rfl
  | cons bs bss ih =>
    rw [List.map_cons, List.mapM_cons, ih, bytesFromhex, fromhex_hex]
    rfl

section Payload
variable (did : String) (ledger : Ledger τ) (entry : Entry τ) (data : List (String × Json))
  (hlatest : latestRegister did ledger = some entry) (hjson : entry.dataJson = dumpsSorted data)
  (hvalid : ∀ m ∈ data, m.2.Valid) (hkeys : (data.map Prod.fst).Nodup)
include hlatest hjson hvalid

theorem getRegisterData_payload :
    getRegisterData did ledger = .ok (some (.obj (sortMembers data))) := by
  rw [getRegisterData, hlatest]
  simp only [hjson, loads_dumpsSorted data hvalid]

include hkeys

/-- A getter reads the field that was written. -/
theorem getField_payload {β : Type} (f : Json → Except PyError β) (key : String) (v : Json) (b : β)
    (hm : (key, v) ∈ data) (hf : f v = .ok b) : getField f key did ledger = .ok (some b) := by
  have htruthy : truthy (.obj (sortMembers data)) = true := by
    have hperm := List.perm_insertionSort (fun a b : String × Json => a.1 ≤ b.1) data
    -- the document has a field, so the test `if data` lets it through
    have hmem : (key, v) ∈ sortMembers data := hperm.mem_iff.mpr hm
    simp [truthy, List.ne_nil_of_mem hmem]
  rw [getField, getRegisterData_payload did ledger entry data hlatest hjson hvalid]
  simp only [bind, Except.bind, htruthy, ↓reduceIte,
    subscript_sortMembers data hkeys key v hm, hf, pure,
    Except.pure]

theorem getFeldmanCommitments_payload (commitments : List Bytes)
    (hm : ("feldman_commitments", Json.arr (commitments.map (fun c => .str (hex c)))) ∈ data) :
    getFeldmanCommitments did ledger = .ok (some commitments) := by
  have hbytes := mapM_bytesFromhex commitments
  rw [getFeldmanCommitments, getRegisterData_payload did ledger entry data hlatest hjson hvalid]
  simp only [bind, Except.bind,
    subscript_sortMembers data hkeys _ _ hm, elements, hbytes,
    pure, Except.pure]

end Payload

/-- A getter that finds a value has read it from the newest registration. -/
theorem getField_some {β : Type} (f : Json → Except PyError β) (key did : String)
    (ledger : Ledger τ) (b : β) (h : getField f key did ledger = .ok (some b)) :
    ∃ entry data v, latestRegister did ledger = some entry ∧ loads entry.dataJson = some data ∧
      subscript data key = .ok v ∧ f v = .ok b := by
  -- every step of the getter has to return for the value to come out
  rw [getField, getRegisterData] at h
  cases hlatest : latestRegister did ledger with
  | none =>
    rw [hlatest] at h
    cases h
  | some entry =>
    rw [hlatest] at h
    cases hdata : loads entry.dataJson with
    | none =>
      simp only [hdata, bind, Except.bind] at h
      cases h
    | some data =>
      simp only [hdata, bind, Except.bind] at h
      split_ifs at h
      · cases hv : subscript data key with
        | error e =>
          rw [hv] at h
          cases h
        | ok v =>
          cases hb : f v with
          | error e =>
            simp only [hv, hb] at h
            cases h
          | ok b' =>
            simp only [hv, hb, pure, Except.pure, Except.ok.injEq, Option.some.injEq] at h
            exact ⟨entry, data, v, rfl, hdata, hv, h ▸ hb⟩
      · cases h

end Ledger

end DecentralizedIDP
