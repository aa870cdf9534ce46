import DecentralizedIDP.FoundationsRefinement
import DecentralizedIDP.SamplePrimitives
import DecentralizedIDP.NodeShareStore

/-! The store of a node over whole sequences of calls and re-openings: to its users it is
a map from DIDs to shares, as long as no transaction that a refused share left open gets in
the way. -/
namespace DecentralizedIDP
open Foundations

/-! ## The store on disk -/

/-- The directory of a node: `store.key` and the table of `shares.db`. -/
structure NodeDir where
  storeKey : Option (Token 32)
  shares : String → Option ShareRow

/-- A directory with nothing in it. -/
def NodeDir.empty : NodeDir := ⟨none, fun _ => none⟩

/-- The transaction of a connection. `BEGIN` takes no lock. The first read after it takes a
shared one, which is held to the end of the transaction, and a commit that failed holds the
one that keeps new readers out. -/
inductive Transaction where
  | closed
  | begun
  | reading
  | pending
  deriving DecidableEq

/-- The directory, the handle that is open on it, the transaction of its connection, and
whether a handle that was opened before, and not closed, is still reading. -/
structure StoreSession where
  dir : NodeDir
  store : ShareStore
  transaction : Transaction
  readers : Bool

/-- The constructor of the store: `drawn` is what it draws for a key, which only counts
when there is no key in the directory. -/
def NodeDir.openStore (drawn : Token 32) (readers : Bool) (dir : NodeDir) : StoreSession where
  dir := { dir with storeKey := some (dir.storeKey.getD drawn) }
  store := { aesKey := dir.storeKey.getD drawn, shares := dir.shares }
  transaction := .closed
  readers := readers

namespace StoreSession

/-- A commit needs every other reader gone. -/
def commitStatus (s : StoreSession) : WriteStatus :=
  if s.readers then .uncommitted "database is locked" else .committed

/-- What a write and its commit leave. -/
def commit (s : StoreSession) (store : ShareStore) : StoreSession :=
  if s.readers then { s with store := store, transaction := .pending }
  else { s with
    dir := { s.dir with shares := store.shares }
    store := store
    transaction := .closed }

/-- `sqlite3` executes `BEGIN` before an `INSERT`, and before it binds the values. -/
def begin (s : StoreSession) : StoreSession :=
  { s with transaction := if s.transaction = .closed then .begun else s.transaction }

/-- A `SELECT`, whose lock stays when there is a transaction. -/
def read (s : StoreSession) : StoreSession :=
  { s with transaction := if s.transaction = .begun then .reading else s.transaction }

/-- What a call of `store_share` leaves: nothing is executed for a `y` that does not fit,
and nothing rolled back for such an `x`. -/
def afterStore (s : StoreSession) (x y : ℤ) (store : ShareStore) : StoreSession :=
  match intToBytes 32 y, sqliteInteger x with
  | .error _, _ => s
  | .ok _, .error _ => s.begin
  | .ok _, .ok _ => s.commit store

end StoreSession

/-- A use of the store, with the random bytes that it draws. When it is opened again the
old handle may have been closed before; or else that stays open from then on, unused. -/
inductive StoreCall where
  | storeShare (did : String) (x y : ℤ) (feldmanCommitment : Option Bytes) (nonce : Token 12)
  | getShare (did : String)
  | hasShare (did : String)
  | deleteShare (did : String)
  | reopen (drawn : Token 32) (closed : Bool)

/-- What comes back, with exceptions from `ε`. -/
inductive StoreReply (ε : Type) where
  | stored (r : Except ε Unit)
  | share (r : Except ε (Option (ℤ × ℤ)))
  | has (found : Bool)
  | deleted (r : Except ε Unit)
  | opened (r : Except ε Unit)

/-- A new handle, beside the old one or in its place. -/
def StoreSession.reopen (s : StoreSession) (drawn : Token 32) (closed : Bool) :
    StoreSession × StoreReply PyError :=
  if closed then (s.dir.openStore drawn s.readers, .opened (.ok ()))
  else if s.transaction = .pending then
    -- the constructor cannot read the schema
    (s, .opened (.error (.operationalError "database is locked")))
  else
    (s.dir.openStore drawn (s.readers || s.transaction = .reading), .opened (.ok ()))

/-- The store, with SQLite's locks. -/
def shareStoreMachine (prim : Primitives) :
    Machine StoreSession StoreCall (StoreReply PyError) := fun s call =>
  match call with
  | .storeShare did x y feldmanCommitment nonce =>
    match s.store.storeShare prim ⟨nonce, s.commitStatus⟩ did x y feldmanCommitment with
    | (r, store) => (s.afterStore x y store, .stored r)
  | .getShare did => (s.read, .share (s.store.getShare prim did))
  | .hasShare did => (s.read, .has (s.store.hasShare did))
  | .deleteShare did =>
    match s.commitStatus.perform s.store (s.store.deleteShare did) with
    | (r, store) => (s.commit store, .deleted r)
  | .reopen drawn closed => s.reopen drawn closed

/-- A new directory is opened and used. -/
def storeSession (prim : Primitives) (drawn : Token 32) (calls : List StoreCall) : StoreSession :=
  (shareStoreMachine prim).final (NodeDir.empty.openStore drawn false) calls

/-! ## The map -/

/-- The shares that the columns can hold: 64 signed bits for `x`, 32 bytes for `y`. -/
def ShareFits (x y : ℤ) : Prop := (-2^63 ≤ x ∧ x < 2^63) ∧ 0 ≤ y ∧ y < 2^256

instance (x y : ℤ) : Decidable (ShareFits x y) := inferInstanceAs (Decidable (_ ∧ _))

/-- What a call means for the map. -/
def shareWrite : StoreCall → Option (String × Option (ℤ × ℤ))
  | .storeShare did x y _ _ => if ShareFits x y then some (did, some (x, y)) else none
  | .deleteShare did => some (did, none)
  | _ => none

def shareMapReply (m : String → Option (ℤ × ℤ)) : StoreCall → StoreReply Unit
  | .storeShare _ x y _ _ => .stored (if ShareFits x y then .ok () else .error ())
  | .getShare did => .share (.ok (m did))
  | .hasShare did => .has (m did).isSome
  | .deleteShare _ => .deleted (.ok ())
  | .reopen _ _ => .opened (.ok ())

/-- The finite map that the store is for. -/
def shareMap : Machine (String → Option (ℤ × ℤ)) StoreCall (StoreReply Unit) := fun m call =>
  (applyWrite m (shareWrite call), shareMapReply m call)

/-- A user of the map sees that there was an exception, but not which. -/
def StoreReply.forget : StoreReply PyError → StoreReply Unit
  | .stored r => .stored (r.mapError (fun _ => ()))
  | .share r => .share (r.mapError (fun _ => ()))
  | .has found => .has found
  | .deleted r => .deleted (r.mapError (fun _ => ()))
  | .opened r => .opened (r.mapError (fun _ => ()))

/-! ## The transaction that a refused share leaves -/

namespace StoreCall

/-- The call gets as far as a commit. -/
def Commits : StoreCall → Prop
  | .storeShare _ x y _ _ => ShareFits x y
  | .deleteShare _ => True
  | _ => False

/-- The `INSERT` of the call fails on `x`. -/
def FailsInsert : StoreCall → Prop
  | .storeShare _ x y _ _ => (0 ≤ y ∧ y < 2^256) ∧ ¬(-2^63 ≤ x ∧ x < 2^63)
  | _ => False

def Reads : StoreCall → Prop
  | .getShare _ => True
  | .hasShare _ => True
  | _ => False

/-- The call ends the transaction of the handle, or leaves the handle. -/
def EndsTransaction : StoreCall → Prop
  | .reopen _ _ => True
  | call => call.Commits

/-- The store is opened again and the old handle stays. -/
def LeavesOpen : StoreCall → Prop
  | .reopen _ closed => closed = false
  | _ => False

end StoreCall

/-- A share was refused for its `x` in this handle, after its last commit. -/
def LeftBegun (calls : List StoreCall) : Prop :=
  Since (fun _ call => call.FailsInsert) StoreCall.EndsTransaction calls

/-- And something was read after that. -/
def LeftReading (calls : List StoreCall) : Prop :=
  Since (fun before call => call.Reads ∧ LeftBegun before) StoreCall.EndsTransaction calls

/-- A handle in which that is so was left open. -/
def ReaderLeft (calls : List StoreCall) : Prop :=
  Since (fun before call => call.LeavesOpen ∧ LeftReading before) (fun _ => False) calls

/-- Nothing is committed once a handle has been left so. -/
def Unlocked (calls : List StoreCall) : Prop :=
  Preceded (fun before call => call.Commits → ¬ReaderLeft before) calls

/-! ## What a sound store holds -/

/-- The row is one that this store writes for a share that fits. -/
def RowOf (prim : Primitives) (aesKey : Token 32) (did : String) (row : ShareRow) (share : ℤ × ℤ) :
    Prop :=
  ShareFits share.1 share.2 ∧ ∃ nonce feldmanCommitment, row = ShareStore.shareRow prim aesKey nonce
    did share.1 share.2 (toBytes 32 share.2.toNat) feldmanCommitment

/-- All rows were written under the key. -/
def ShareStore.Sound (prim : Primitives) (store : ShareStore) : Prop :=
  ∀ did row, store.shares did = some row → ∃ share, RowOf prim store.aesKey did row share

/-- The map that the table stands for. -/
def ShareStore.shareOf (prim : Primitives) (store : ShareStore) (did : String) : Option (ℤ × ℤ) :=
  (store.getShare prim did).toOption.join

/-- Directory and handle agree, with nothing that waits for a commit. -/
structure StoreSession.Sound (prim : Primitives) (s : StoreSession) : Prop where
  key : s.dir.storeKey = some s.store.aesKey
  table : s.dir.shares = s.store.shares
  committed : s.transaction ≠ .pending
  rows : s.store.Sound prim

section Rows
variable {prim : Primitives} (hdec : prim.DecryptsEncrypted)
include hdec

theorem RowOf.getShare {store : ShareStore} {did : String} {row : ShareRow} {share : ℤ × ℤ}
    (h : RowOf prim store.aesKey did row share) (hrow : store.shares did = some row) :
    store.getShare prim did = .ok (some share) := by
  obtain ⟨⟨-, h0, hlt⟩, nonce, feldmanCommitment, rfl⟩ := h
  exact ShareStore.getShare_stored prim hdec nonce did _ _ feldmanCommitment store
    ⟨h0, hlt.trans_eq (by norm_num)⟩ hrow

namespace ShareStore

theorem Sound.getShare_eq {store : ShareStore} (h : store.Sound prim) (did : String) :
    store.getShare prim did = .ok (store.shareOf prim did) := by
  rw [shareOf]
  cases hrow : store.shares did with
  | none =>
    rw [getShare, hrow]
    rfl
  | some row =>
    obtain ⟨share, hshare⟩ := h did row hrow
    rw [hshare.getShare hdec hrow]
    rfl

theorem Sound.hasShare_eq {store : ShareStore} (h : store.Sound prim) (did : String) :
    store.hasShare did = (store.shareOf prim did).isSome := by
  rw [hasShare, shareOf]
  cases hrow : store.shares did with
  | none =>
    rw [getShare, hrow]
    rfl
  | some row =>
    obtain ⟨share, hshare⟩ := h did row hrow
    rw [hshare.getShare hdec hrow]
    rfl

omit hdec in
variable (prim) in
theorem getShare_congr (store store' : ShareStore) (did : String)
    (hkey : store'.aesKey = store.aesKey) (hrow : store'.shares did = store.shares did) :
    store'.getShare prim did = store.getShare prim did := by
  rw [getShare, getShare, hkey, hrow]

/-- A row written for a share makes the map hold it. -/
theorem shareOf_putRow (store : ShareStore) (did : String) (row : ShareRow) (share : ℤ × ℤ)
    (h : RowOf prim store.aesKey did row share) :
    (store.putRow did row).shareOf prim =
      Function.update (store.shareOf prim) did (some share) := by
  funext other
  by_cases hother : other = did
  · subst hother
    have hwritten : RowOf prim (store.putRow other row).aesKey other row share := h
    rw [Function.update_self, shareOf, hwritten.getShare hdec (putRow_same _ _ _)]
    rfl
  · rw [Function.update_of_ne hother, shareOf, shareOf, getShare_congr prim store
      (store.putRow did row) other rfl (store.putRow_other did other row hother)]

omit hdec in
theorem shareOf_deleteShare (store : ShareStore) (did : String) :
    (store.deleteShare did).shareOf prim = Function.update (store.shareOf prim) did none := by
  funext other
  by_cases hother : other = did
  · subst hother
    rw [Function.update_self, shareOf, getShare, deleteShare]
    simp only [↓reduceIte]
    rfl
  · rw [Function.update_of_ne hother, shareOf, shareOf, getShare_congr prim store
      (store.deleteShare did) other rfl (if_neg hother)]

omit hdec in
theorem Sound.putRow {store : ShareStore} (h : store.Sound prim) (did : String) (row : ShareRow)
    (share : ℤ × ℤ) (hrow : RowOf prim store.aesKey did row share) :
    (store.putRow did row).Sound prim := by
  intro other row' hother
  simp only [ShareStore.putRow] at hother ⊢
  split_ifs at hother with hdid
  · exact ⟨share, hdid ▸ Option.some.inj hother ▸ hrow⟩
  · exact h other row' hother

omit hdec in
theorem Sound.deleteShare {store : ShareStore} (h : store.Sound prim) (did : String) :
    (store.deleteShare did).Sound prim := by
  intro other row hother
  simp only [ShareStore.deleteShare] at hother ⊢
  split_ifs at hother with hdid
  exact h other row hother

end ShareStore

end Rows

namespace StoreSession
variable {prim : Primitives} {s : StoreSession}

theorem sound_openStore (drawn : Token 32) : (NodeDir.empty.openStore drawn false).Sound prim where
  key := rfl
  table := rfl
  committed := nofun
  rows := fun _ _ hrow => nomatch hrow

theorem Sound.commit (h : s.Sound prim) (hreaders : s.readers = false) (store : ShareStore)
    (hkey : store.aesKey = s.store.aesKey) (hrows : store.Sound prim) :
    (s.commit store).Sound prim := by
  rw [StoreSession.commit, if_neg (by simp [hreaders])]
  exact ⟨h.key.trans (congrArg some hkey.symm), rfl, nofun, hrows⟩

theorem Sound.begin (h : s.Sound prim) : s.begin.Sound prim where
  key := h.key
  table := h.table
  committed := by
    simp only [StoreSession.begin]
    split_ifs
    · nofun
    · exact h.committed
  rows := h.rows

theorem Sound.read (h : s.Sound prim) : s.read.Sound prim where
  key := h.key
  table := h.table
  committed := by
    simp only [StoreSession.read]
    split_ifs
    · nofun
    · exact h.committed
  rows := h.rows

/-- Opening again finds the key in the directory, whatever would have been drawn, and the
table as it was. -/
theorem Sound.openStore_store (h : s.Sound prim) (drawn : Token 32) (readers : Bool) :
    (s.dir.openStore drawn readers).store = s.store := by
  rw [NodeDir.openStore, h.key, h.table]
  rfl

theorem Sound.openStore (h : s.Sound prim) (drawn : Token 32) (readers : Bool) :
    (s.dir.openStore drawn readers).Sound prim where
  key := rfl
  table := rfl
  committed := nofun
  rows := by
    rw [h.openStore_store]
    exact h.rows

/-- The store opens again beside a handle that has nothing waiting, and instead of one. -/
theorem reopen_eq (hcommitted : s.transaction ≠ .pending) (drawn : Token 32) (closed : Bool) :
    s.reopen drawn closed = (s.dir.openStore drawn (s.readers ||
      (!closed && decide (s.transaction = .reading))), .opened (.ok ())) := by
  cases closed with
  | true => simp [StoreSession.reopen]
  | false => simp [StoreSession.reopen, hcommitted]

end StoreSession

/-! ## The store simulates the map -/

theorem StoreSession.commitStatus_perform (s : StoreSession) (old new : ShareStore) :
    s.commitStatus.perform old new =
      (if s.readers then .error (.operationalError "database is locked") else .ok (), new) := by
  cases hreaders : s.readers with
  | true => simp [commitStatus, hreaders, WriteStatus.perform]
  | false => simp [commitStatus, hreaders, WriteStatus.perform]

section Simulates
variable (prim : Primitives) (s : StoreSession)

theorem shareStore_fits (did : String) (x y : ℤ) (feldmanCommitment : Option Bytes)
    (nonce : Token 12) (h : ShareFits x y) :
    shareStoreMachine prim s (.storeShare did x y feldmanCommitment nonce) =
      (s.commit (s.store.putRow did (ShareStore.shareRow prim s.store.aesKey nonce did x y
        (toBytes 32 y.toNat) feldmanCommitment)),
      .stored (if s.readers then .error (.operationalError "database is locked") else .ok ())) := by
  have hlt : y < 256^32 := h.2.2.trans_eq (by norm_num)
  have hy := intToBytes_ok 32 y h.2.1 hlt
  have hx : sqliteInteger x = .ok x := if_pos h.1
  simp only [shareStoreMachine, ShareStore.storeShare_eq prim _ did x y feldmanCommitment s.store
    ⟨h.2.1, hlt⟩ h.1, StoreSession.commitStatus_perform, StoreSession.afterStore, hy, hx]

/-- A share that does not fit is refused. If it is for its `x`, a transaction stays open. -/
theorem shareStore_unfit (did : String) (x y : ℤ) (feldmanCommitment : Option Bytes)
    (nonce : Token 12) (h : ¬ShareFits x y) :
    ∃ e, shareStoreMachine prim s (.storeShare did x y feldmanCommitment nonce) =
      (if 0 ≤ y ∧ y < 2^256 then s.begin else s, .stored (.error e)) := by
  by_cases hy : 0 ≤ y ∧ y < 2^256
  · have hx : ¬(-2^63 ≤ x ∧ x < 2^63) := fun hx => h ⟨hx, hy⟩
    have hplain := intToBytes_ok 32 y hy.1 (hy.2.trans_eq (by norm_num))
    simp only [shareStoreMachine, ShareStore.storeShare, StoreSession.afterStore, hplain,
      sqliteInteger, if_neg hx, if_pos hy]
    exact ⟨_, rfl⟩
  · obtain ⟨e, he⟩ := intToBytes_error 32 y (fun hy' => hy ⟨hy'.1, hy'.2.trans_eq (by norm_num)⟩)
    simp only [shareStoreMachine, ShareStore.storeShare, StoreSession.afterStore, he, if_neg hy]
    exact ⟨e, rfl⟩

theorem shareStore_deleteShare (did : String) :
    shareStoreMachine prim s (.deleteShare did) = (s.commit (s.store.deleteShare did),
      .deleted (if s.readers then .error (.operationalError "database is locked")
        else .ok ())) := by
  simp only [shareStoreMachine, StoreSession.commitStatus_perform]

@[simp] theorem StoreSession.commit_store (store : ShareStore) :
    (s.commit store).store = store := by
  rw [commit]
  split_ifs <;> rfl

/-- A call commits in the handle only when no other handle is reading. -/
def StoreSession.Free (call : StoreCall) : Prop := call.Commits → s.readers = false

variable {prim s} (hdec : prim.DecryptsEncrypted)
include hdec

/-- A call on a sound session leaves it sound, and does and replies what the map does. -/
theorem shareStore_step (call : StoreCall) (h : s.Sound prim) (hfree : s.Free call) :
    (shareStoreMachine prim s call).1.Sound prim ∧
    shareMap (s.store.shareOf prim) call = ((shareStoreMachine prim s call).1.store.shareOf prim,
      (shareStoreMachine prim s call).2.forget) := by
  cases call with
  | storeShare did x y feldmanCommitment nonce =>
    by_cases hfits : ShareFits x y
    · have hrow : RowOf prim s.store.aesKey did (ShareStore.shareRow prim s.store.aesKey nonce did
          x y (toBytes 32 y.toNat) feldmanCommitment) (x, y) :=
        ⟨hfits, nonce, feldmanCommitment, rfl⟩
      have hreaders := hfree hfits
      rw [shareStore_fits prim s did x y feldmanCommitment nonce hfits]
      simp only [shareMap, shareWrite, shareMapReply, if_pos hfits, applyWrite,
        StoreSession.commit_store, ShareStore.shareOf_putRow hdec s.store did _ (x, y) hrow,
        hreaders, Bool.false_eq_true, if_false]
      exact ⟨h.commit hreaders _ rfl (h.rows.putRow did _ (x, y) hrow), rfl⟩
    -- the store refuses what the map leaves out
    · obtain ⟨e, he⟩ := shareStore_unfit prim s did x y feldmanCommitment nonce hfits
      rw [he]
      simp only [shareMap, shareWrite, shareMapReply, if_neg hfits, applyWrite]
      split_ifs with hy
      · exact ⟨h.begin, rfl⟩
      · exact ⟨h, rfl⟩
  | getShare did =>
    refine ⟨h.read, ?_⟩
    simp only [shareStoreMachine, shareMap, shareWrite, applyWrite, shareMapReply,
      h.rows.getShare_eq hdec did, StoreReply.forget]
    rfl
  | hasShare did =>
    refine ⟨h.read, ?_⟩
    simp only [shareStoreMachine, shareMap, shareWrite, applyWrite, shareMapReply,
      h.rows.hasShare_eq hdec did, StoreReply.forget]
    rfl
  | deleteShare did =>
    have hreaders := hfree trivial
    rw [shareStore_deleteShare]
    simp only [shareMap, shareWrite, applyWrite, shareMapReply, StoreSession.commit_store,
      ShareStore.shareOf_deleteShare, hreaders, Bool.false_eq_true, if_false]
    exact ⟨h.commit hreaders _ rfl (h.rows.deleteShare did), rfl⟩
  | reopen drawn closed =>
    simp only [shareStoreMachine, StoreSession.reopen_eq h.committed, h.openStore_store, shareMap,
      shareWrite, applyWrite, shareMapReply]
    exact ⟨h.openStore drawn _, rfl⟩

omit hdec in
/-- A commit that another handle keeps out raises, where the map takes the write. -/
theorem shareStore_locked (m : String → Option (ℤ × ℤ)) (call : StoreCall)
    (h : ¬s.Free call) : (shareMap m call).2 ≠ (shareStoreMachine prim s call).2.forget := by
  obtain ⟨hcommits, hreaders⟩ : call.Commits ∧ s.readers = true := by
    simpa [StoreSession.Free] using h
  cases call with
  | storeShare did x y feldmanCommitment nonce =>
    have hfits : ShareFits x y := hcommits
    rw [shareStore_fits prim s did x y feldmanCommitment nonce hfits]
    simp [shareMap, shareMapReply, hfits, hreaders, StoreReply.forget, Except.mapError]
  | deleteShare did =>
    rw [shareStore_deleteShare]
    simp [shareMap, shareMapReply, hreaders, StoreReply.forget, Except.mapError]
  | _ => exact hcommits.elim

/-- The store simulates the map that it is for. -/
def shareStoreSimulation : GoodSimulation (shareStoreMachine prim) shareMap where
  rel := fun s m => s.Sound prim ∧ s.store.shareOf prim = m
  good := StoreSession.Free
  meaning := id
  view := StoreReply.forget
  commutes := by
    rintro s m call ⟨hsound, rfl⟩ hfree
    obtain ⟨hnext, hmap⟩ := shareStore_step hdec call hsound hfree
    refine ⟨⟨hnext, ?_⟩, ?_⟩
    · rw [id, hmap]
    · rw [id, hmap]

end Simulates

/-! ## Handles left reading -/

/-- The transaction of the handle, and the readers beside it, as the calls have them. -/
structure StoreSession.Follows (calls : List StoreCall) (s : StoreSession) : Prop where
  begun : s.transaction ≠ .closed ↔ LeftBegun calls
  reading : s.transaction = .reading ↔ LeftReading calls
  readers : s.readers = true ↔ ReaderLeft calls

theorem follows_newStore (drawn : Token 32) :
    (NodeDir.empty.openStore drawn false).Follows [] where
  begun := by simp [NodeDir.openStore, LeftBegun, since_nil]
  reading := by simp [NodeDir.openStore, LeftReading, since_nil]
  readers := by simp [NodeDir.openStore, ReaderLeft, since_nil]

section Follows
variable {calls : List StoreCall} (call : StoreCall)

theorem leftBegun_snoc : LeftBegun (calls ++ [call]) ↔
    call.FailsInsert ∨ (¬call.EndsTransaction ∧ LeftBegun calls) := since_snoc _ _ _ _

theorem leftReading_snoc : LeftReading (calls ++ [call]) ↔
    (call.Reads ∧ LeftBegun calls) ∨ (¬call.EndsTransaction ∧ LeftReading calls) :=
  since_snoc _ _ _ _

theorem readerLeft_snoc : ReaderLeft (calls ++ [call]) ↔
    (call.LeavesOpen ∧ LeftReading calls) ∨ ReaderLeft calls := by
  rw [ReaderLeft, since_snoc, not_false_iff, true_and]
  rfl

namespace StoreSession.Follows
variable {s : StoreSession} (h : s.Follows calls)
include h

theorem commit (hcommits : call.Commits) (hreaders : s.readers = false) (store : ShareStore) :
    (s.commit store).Follows (calls ++ [call]) := by
  have hnot : ¬call.FailsInsert ∧ call.EndsTransaction ∧ ¬call.Reads ∧ ¬call.LeavesOpen := by
    cases call with
    | storeShare did x y feldmanCommitment nonce =>
      exact ⟨fun hfails => hfails.2 hcommits.1, hcommits, id, id⟩
    | deleteShare did => exact ⟨id, trivial, id, id⟩
    | _ => exact hcommits.elim
  rw [StoreSession.commit, if_neg (by simp [hreaders])]
  constructor
  · simp [leftBegun_snoc, hnot]
  · simp [leftReading_snoc, hnot]
  · simp [readerLeft_snoc, hnot, ← h.readers]

theorem begin (hfails : call.FailsInsert) : s.begin.Follows (calls ++ [call]) := by
  have hnot : ¬call.EndsTransaction ∧ ¬call.Reads ∧ ¬call.LeavesOpen := by
    cases call with
    | storeShare did x y feldmanCommitment nonce => exact ⟨fun hfits => hfails.2 hfits.1, id, id⟩
    | _ => exact hfails.elim
  constructor
  · simp only [StoreSession.begin, leftBegun_snoc, hfails, true_or, iff_true]
    split_ifs with hclosed
    · nofun
    · exact hclosed
  · simp only [StoreSession.begin, leftReading_snoc, hnot, false_and, not_false_iff, true_and,
      false_or, ← h.reading]
    split_ifs with hclosed
    · simp [hclosed]
    · exact Iff.rfl
  · simp [StoreSession.begin, readerLeft_snoc, hnot, h.readers]

theorem keep (hnot : ¬call.FailsInsert ∧ ¬call.EndsTransaction ∧ ¬call.Reads ∧ ¬call.LeavesOpen) :
    s.Follows (calls ++ [call]) where
  begun := by simp [leftBegun_snoc, hnot, h.begun]
  reading := by simp [leftReading_snoc, hnot, h.reading]
  readers := by simp [readerLeft_snoc, hnot, h.readers]

theorem read (hcommitted : s.transaction ≠ .pending) (hreads : call.Reads) :
    s.read.Follows (calls ++ [call]) := by
  have hnot : ¬call.FailsInsert ∧ ¬call.EndsTransaction ∧ ¬call.LeavesOpen := by
    cases call with
    | getShare did => exact ⟨id, id, id⟩
    | hasShare did => exact ⟨id, id, id⟩
    | _ => exact hreads.elim
  -- a transaction that is open reads from now on
  cases htransaction : s.transaction with
  | pending => exact absurd htransaction hcommitted
  | _ =>
    constructor
    · simp [StoreSession.read, leftBegun_snoc, hnot, ← h.begun, htransaction]
    · simp [StoreSession.read, leftReading_snoc, hnot, hreads, ← h.begun, ← h.reading,
        htransaction]
    · simp [StoreSession.read, readerLeft_snoc, hnot, h.readers]

theorem openStore (drawn drawn' : Token 32) (closed : Bool) :
    (s.dir.openStore drawn (s.readers || (!closed && decide (s.transaction = .reading)))).Follows
      (calls ++ [.reopen drawn' closed]) where
  begun := by
    simp [NodeDir.openStore, leftBegun_snoc, StoreCall.FailsInsert, StoreCall.EndsTransaction]
  reading := by
    simp [NodeDir.openStore, leftReading_snoc, StoreCall.Reads, StoreCall.EndsTransaction]
  readers := by
    simp [NodeDir.openStore, readerLeft_snoc, StoreCall.LeavesOpen, h.readers, h.reading, or_comm]

end StoreSession.Follows

end Follows

theorem follows_storeCall (prim : Primitives) (s : StoreSession) (calls : List StoreCall)
    (call : StoreCall) (h : s.Follows calls) (hcommitted : s.transaction ≠ .pending)
    (hfree : s.Free call) : (shareStoreMachine prim s call).1.Follows (calls ++ [call]) := by
  cases call with
  | storeShare did x y feldmanCommitment nonce =>
    by_cases hfits : ShareFits x y
    · rw [shareStore_fits prim s did x y feldmanCommitment nonce hfits]
      exact h.commit (.storeShare did x y feldmanCommitment nonce) hfits (hfree hfits) _
    · obtain ⟨e, he⟩ := shareStore_unfit prim s did x y feldmanCommitment nonce hfits
      rw [he]
      split_ifs with hy
      · exact h.begin _ ⟨hy, fun hx => hfits ⟨hx, hy⟩⟩
      · exact h.keep _ ⟨fun hfails => hy hfails.1, hfits, id, id⟩
  | getShare did => exact h.read _ hcommitted trivial
  | hasShare did => exact h.read _ hcommitted trivial
  | deleteShare did =>
    rw [shareStore_deleteShare]
    exact h.commit (.deleteShare did) trivial (hfree trivial) _
  | reopen drawn closed =>
    rw [shareStoreMachine, StoreSession.reopen_eq hcommitted]
    exact h.openStore drawn drawn closed

/-! ## What the store answers -/

/-- The DID that a call is about. -/
def StoreCall.did : StoreCall → Option String
  | .storeShare did _ _ _ _ => some did
  | .getShare did => some did
  | .hasShare did => some did
  | .deleteShare did => some did
  | .reopen _ _ => none

/-- The call stores a share that fits for the DID, or deletes it. -/
def StoreCall.Touches (did : String) : StoreCall → Prop
  | .storeShare other x y _ _ => other = did ∧ ShareFits x y
  | .deleteShare other => other = did
  | _ => False

/-- The share was stored for the DID, and nothing stored or deleted there since. -/
def LastStored (did : String) (x y : ℤ) (calls : List StoreCall) : Prop :=
  ∃ before after feldmanCommitment nonce, ShareFits x y ∧
    calls = before ++ .storeShare did x y feldmanCommitment nonce :: after ∧
    ∀ call ∈ after, ¬call.Touches did

theorem writes_shareWrite (did : String) (call : StoreCall) :
    Writes shareWrite did call ↔ call.Touches did := by
  cases call with
  | storeShare other x y feldmanCommitment nonce =>
    by_cases hfits : ShareFits x y
    · simp [Writes, shareWrite, StoreCall.Touches, hfits]
    · simp [Writes, shareWrite, StoreCall.Touches, hfits]
  | deleteShare other => simp [Writes, shareWrite, StoreCall.Touches]
  | _ => simp [Writes, shareWrite, StoreCall.Touches]

theorem lastStored_iff (did : String) (x y : ℤ) (calls : List StoreCall) :
    LastStored did x y calls ↔ LastWrite shareWrite did (some (x, y)) calls := by
  constructor
  · rintro ⟨before, after, feldmanCommitment, nonce, hfits, rfl, hafter⟩
    refine ⟨before, _, after, rfl, if_pos hfits, ?_⟩
    intro later hlater
    rw [writes_shareWrite]
    exact hafter later hlater
  · rintro ⟨before, call, after, rfl, hwrite, hafter⟩
    -- only a store that fits writes a share
    cases call with
    | storeShare other x' y' feldmanCommitment nonce =>
      rw [shareWrite] at hwrite
      split_ifs at hwrite with hfits
      obtain ⟨rfl, rfl, rfl⟩ : other = did ∧ x' = x ∧ y' = y := by simpa using hwrite
      refine ⟨before, after, feldmanCommitment, nonce, hfits, rfl, ?_⟩
      intro later hlater
      rw [← writes_shareWrite]
      exact hafter later hlater
    | deleteShare other => simp [shareWrite] at hwrite
    | _ => cases hwrite

section Answers
variable {prim : Primitives} (hdec : prim.DecryptsEncrypted) (drawn : Token 32)
  (calls : List StoreCall)
include hdec

section GoodRun
variable (hgood : (shareStoreMachine prim).GoodRun StoreSession.Free
  (NodeDir.empty.openStore drawn false) calls)
include hgood

theorem storeSession_good : (storeSession prim drawn calls).Sound prim ∧
    (storeSession prim drawn calls).store.shareOf prim = shareMap.final (fun _ => none) calls := by
  have hstart : (NodeDir.empty.openStore drawn false).store.shareOf prim = fun _ => none := rfl
  have hrun := (shareStoreSimulation hdec).run _ _
    ⟨StoreSession.sound_openStore drawn, hstart⟩ calls hgood
  rw [shareStoreSimulation, List.map_id] at hrun
  exact hrun.1

theorem storeSession_follows : (storeSession prim drawn calls).Follows calls := by
  induction calls using List.reverseRecOn with
  | nil => exact follows_newStore drawn
  | append_singleton calls call ih =>
    obtain ⟨hbefore, hfree⟩ := (Machine.goodRun_snoc _ _ _ _ _).mp hgood
    have hsound := (storeSession_good hdec drawn calls hbefore).1
    rw [storeSession, Machine.final_snoc]
    exact follows_storeCall prim _ calls call (ih hbefore) hsound.committed hfree

end GoodRun

/-- No commit meets a reader exactly when nothing is committed after a handle was left
reading. -/
theorem goodRun_iff : (shareStoreMachine prim).GoodRun StoreSession.Free
    (NodeDir.empty.openStore drawn false) calls ↔ Unlocked calls := by
  induction calls using List.reverseRecOn with
  | nil => exact ⟨fun _ => preceded_nil _, fun _ => trivial⟩
  | append_singleton calls call ih =>
    rw [Machine.goodRun_snoc, Unlocked, preceded_snoc, ← Unlocked, ← ih]
    -- up to the last call the locks are what the calls say
    apply and_congr_right
    intro hgood
    have hreaders := (storeSession_follows hdec drawn calls hgood).readers
    rw [← hreaders, Bool.not_eq_true]
    rfl

variable {calls} (h : Unlocked calls)
include h

theorem storeSession_sound : (storeSession prim drawn calls).Sound prim :=
  (storeSession_good hdec drawn calls ((goodRun_iff hdec drawn calls).mpr h)).1

theorem storeSession_shareOf :
    (storeSession prim drawn calls).store.shareOf prim = shareMap.final (fun _ => none) calls :=
  (storeSession_good hdec drawn calls ((goodRun_iff hdec drawn calls).mpr h)).2

theorem storeSession_getShare (did : String) :
    (storeSession prim drawn calls).store.getShare prim did =
      .ok (shareMap.final (fun _ => none) calls did) := by
  rw [← storeSession_shareOf hdec drawn h]
  exact (storeSession_sound hdec drawn h).rows.getShare_eq hdec did

theorem storeSession_hasShare (did : String) :
    (storeSession prim drawn calls).store.hasShare did =
      (shareMap.final (fun _ => none) calls did).isSome := by
  rw [← storeSession_shareOf hdec drawn h]
  exact (storeSession_sound hdec drawn h).rows.hasShare_eq hdec did

theorem hasShare_of_lastStored (did : String) (x y : ℤ) (hlast : LastStored did x y calls) :
    (storeSession prim drawn calls).store.hasShare did = true := by
  have hvalue := (run_applyWrite shareWrite did (x, y) calls).mpr
    ((lastStored_iff _ _ _ _).mp hlast)
  rw [storeSession_hasShare hdec drawn h]
  exact Option.isSome_iff_exists.mpr ⟨_, hvalue⟩

/-- A call about another DID changes nothing for this one. -/
theorem storeSession_other (call : StoreCall) (other : String) (hother : call.did ≠ some other) :
    (storeSession prim drawn (calls ++ [call])).store.getShare prim other =
      (storeSession prim drawn calls).store.getShare prim other := by
  have hsound := storeSession_sound hdec drawn h
  rw [storeSession, Machine.final_snoc, ← storeSession]
  cases call with
  | storeShare did x y feldmanCommitment nonce =>
    have hdid : other ≠ did := fun heq => hother (congrArg some heq.symm)
    by_cases hfits : ShareFits x y
    · rw [shareStore_fits prim _ did x y feldmanCommitment nonce hfits, StoreSession.commit_store]
      exact ShareStore.getShare_congr prim (storeSession prim drawn calls).store _ other rfl
        (ShareStore.putRow_other _ did other _ hdid)
    · obtain ⟨e, he⟩ := shareStore_unfit prim (storeSession prim drawn calls) did x y
        feldmanCommitment nonce hfits
      rw [he]
      split_ifs <;> rfl
  | deleteShare did =>
    have hdid : other ≠ did := fun heq => hother (congrArg some heq.symm)
    rw [shareStore_deleteShare, StoreSession.commit_store]
    exact ShareStore.getShare_congr prim (storeSession prim drawn calls).store _ other rfl
      (if_neg hdid)
  | reopen drawn' closed =>
    rw [shareStoreMachine, StoreSession.reopen_eq hsound.committed, hsound.openStore_store]
  | _ => rfl

end Answers

/-- After the calls the store stands for the map: its replies are those of the map, it
gives the shares that were stored last, a call about one DID changes no other, and a share
that does not fit is refused and changes nothing. -/
structure RefinesShareMap (prim : Primitives) (drawn : Token 32) (calls : List StoreCall) :
    Prop where
  replies : ((shareStoreMachine prim).replies (NodeDir.empty.openStore drawn false) calls).map
    StoreReply.forget = shareMap.replies (fun _ => none) calls
  lookup : ∀ did, ∃ found, (storeSession prim drawn calls).store.getShare prim did = .ok found ∧
    (storeSession prim drawn calls).store.hasShare did = found.isSome ∧
    ∀ x y, found = some (x, y) ↔ LastStored did x y calls
  other : ∀ (call : StoreCall) (other : String), call.did ≠ some other →
    (storeSession prim drawn (calls ++ [call])).store.getShare prim other =
      (storeSession prim drawn calls).store.getShare prim other
  refused : ∀ did x y feldmanCommitment nonce, ¬ShareFits x y → ∃ e next,
    shareStoreMachine prim (storeSession prim drawn calls)
        (.storeShare did x y feldmanCommitment nonce) = (next, .stored (.error e)) ∧
      next.store = (storeSession prim drawn calls).store ∧
      next.dir = (storeSession prim drawn calls).dir

/-- As long as every handle is closed before the store is opened again, nothing gets in
the way. -/
theorem unlocked_of_closed (calls : List StoreCall) (h : ∀ call ∈ calls, ¬call.LeavesOpen) :
    Unlocked calls := by
  rintro before call after rfl - hleft
  obtain ⟨-, left, hmem, hopen, -⟩ := hleft.exists_mem
  exact h left (List.mem_append_left _ hmem) hopen

/-- The store of a node refines a finite map from DIDs to shares exactly as long as nothing
is committed beside a handle that was left reading in the transaction of a refused share. -/
theorem share_store_refines_map_iff (prim : Primitives) (hdec : prim.DecryptsEncrypted)
    (drawn : Token 32) (calls : List StoreCall) :
    RefinesShareMap prim drawn calls ↔ Unlocked calls := by
  have hstart : (NodeDir.empty.openStore drawn false).store.shareOf prim = fun _ => none := rfl
  have hreplies := (shareStoreSimulation hdec).replies_iff
    (fun s m call _ hlocked => shareStore_locked m call hlocked) _ _
    ⟨StoreSession.sound_openStore drawn, hstart⟩ calls
  rw [← goodRun_iff hdec drawn calls]
  constructor
  -- the first commit that meets a reader raises, which the map never does
  · intro h
    apply hreplies.mp
    rw [shareStoreSimulation, List.map_id]
    exact h.replies.symm
  · intro hgood
    have h := (goodRun_iff hdec drawn calls).mp hgood
    have hequal := hreplies.mpr hgood
    rw [shareStoreSimulation, List.map_id] at hequal
    refine ⟨hequal.symm, ?_, storeSession_other hdec drawn h, ?_⟩
    · intro did
      refine ⟨_, storeSession_getShare hdec drawn h did, storeSession_hasShare hdec drawn h did, ?_⟩
      intro x y
      rw [lastStored_iff]
      exact run_applyWrite shareWrite did (x, y) calls
    · intro did x y feldmanCommitment nonce hfits
      obtain ⟨e, he⟩ := shareStore_unfit prim (storeSession prim drawn calls) did x y
        feldmanCommitment nonce hfits
      refine ⟨e, _, he, ?_⟩
      split_ifs
      · exact ⟨rfl, rfl⟩
      · exact ⟨rfl, rfl⟩

def zeroKey : Token 32 := ⟨List.replicate 32 0, rfl⟩

def zeroNonce : Token 12 := ⟨List.replicate 12 0, rfl⟩

/-- A share is refused for its `x`, something is read, and the store is opened beside the
handle in which that was. -/
def lockedCalls : List StoreCall :=
  [.storeShare "a" (2^63) 5 none zeroNonce, .getShare "a", .reopen zeroKey false,
    .storeShare "a" 1 7 none zeroNonce]

/-- A share is replaced and read through another handle, after stores that were refused. -/
def replacedCalls : List StoreCall :=
  [.storeShare "a" 1 5 none zeroNonce, .storeShare "a" 1 7 none zeroNonce,
    .storeShare "a" 1 (-1) none zeroNonce, .storeShare "a" (2^63) 5 none zeroNonce,
    .hasShare "a", .reopen zeroKey true, .deleteShare "b"]

theorem share_store_refines_map_iff_replaced :
    RefinesShareMap samplePrimitives zeroKey replacedCalls ∧
    (storeSession samplePrimitives zeroKey replacedCalls).store.getShare samplePrimitives "a" =
      .ok (some (1, 7)) := by
  have hrefines := (share_store_refines_map_iff samplePrimitives
    SamplePrimitives.decryptsEncrypted zeroKey replacedCalls).mpr (by
      apply unlocked_of_closed
      simp [replacedCalls, StoreCall.LeavesOpen])
  refine ⟨hrefines, ?_⟩
  obtain ⟨found, hget, -, hiff⟩ := hrefines.lookup "a"
  have hlast : LastStored "a" 1 7 replacedCalls := by
    refine ⟨[.storeShare "a" 1 5 none zeroNonce], _, none, zeroNonce, ?_, rfl, ?_⟩
    · norm_num [ShareFits]
    · simp [StoreCall.Touches, ShareFits]
  rw [hget, (hiff 1 7).mpr hlast]

/-- The next share is not taken then: the database is locked, and no later handle finds
it. -/
theorem refused_share_locks_store :
    LastStored "a" 1 7 lockedCalls ∧
    ((shareStoreMachine samplePrimitives).replies (NodeDir.empty.openStore zeroKey false)
      lockedCalls)[3]? = some (.stored (.error (.operationalError "database is locked"))) ∧
    (storeSession samplePrimitives zeroKey (lockedCalls ++ [.reopen zeroKey true])).store.getShare
      samplePrimitives "a" = .ok none ∧
    ¬RefinesShareMap samplePrimitives zeroKey lockedCalls := by
  have hfits : ShareFits 1 7 := by norm_num [ShareFits]
  have hlocked : ((shareStoreMachine samplePrimitives).replies
      (NodeDir.empty.openStore zeroKey false) lockedCalls)[3]? =
        some (.stored (.error (.operationalError "database is locked"))) := rfl
  have hmap : (shareMap.replies (fun _ => none) lockedCalls)[3]? = some (.stored (.ok ())) := by
    simp [lockedCalls, Machine.replies, shareMap, shareMapReply, hfits]
  refine ⟨?_, hlocked, rfl, ?_⟩
  · exact ⟨lockedCalls.take 3, [], none, zeroNonce, hfits, rfl, by simp⟩
  · intro hrefines
    rw [← hrefines.replies, List.getElem?_map, hlocked] at hmap
    cases hmap

end DecentralizedIDP
