import DecentralizedIDP.FoundationsTickets
import DecentralizedIDP.LedgerBinding

/-! Appends through several handles on one database file. A call selects the last hash and
then inserts a row on top of it, and between the two the others can insert theirs. -/
namespace DecentralizedIDP
open Foundations

namespace Ledger

/-- The arguments of one call of `append`, and the time it reads. -/
structure AppendCall (τ : Type) where
  entryType : String
  did : String
  data : List (String × Json)
  timestamp : τ

/-- The database steps of the `k`-th call; the second one commits. -/
inductive DbStep where
  | select (k : ℕ)
  | insert (k : ℕ)
  deriving DecidableEq

def DbStep.call : DbStep → ℕ
  | .select k => k
  | .insert k => k

/-- The table, and the hash that each call has selected. A handle keeps nothing else. -/
structure Handles (τ : Type) where
  table : Ledger τ
  selected : ℕ → Option String

section Handles
variable {τ : Type} (repr : τ → String)

/-- The row that a call inserts on top of the hash it has selected. -/
def AppendCall.row (call : AppendCall τ) (previousHash : String) : Entry τ where
  entryType := call.entryType
  did := call.did
  dataJson := dumpsSorted call.data
  timestamp := call.timestamp
  entryHash := computeHash repr previousHash call.entryType call.did (dumpsSorted call.data)
    call.timestamp
  previousHash := previousHash

variable (calls : ℕ → AppendCall τ)

def dbStep (s : Handles τ) : DbStep → Handles τ
  -- `_last_hash` selects, and nothing holds the table until the insert
  | .select k =>
    { s with selected := fun i => if i = k then some s.table.lastHash else s.selected i }
  | .insert k =>
    match s.selected k with
    | none => s
    | some previousHash => { s with table := s.table ++ [(calls k).row repr previousHash] }

/-- The steps of the first `n` calls in some order, each call selecting before it inserts. -/
def Interleaves (n : ℕ) (steps : List DbStep) : Prop :=
  ∀ k, steps.filter (fun x => x.call = k) = if k < n then [.select k, .insert k] else []

/-- The calls in the order of their inserts. -/
def inserted (steps : List DbStep) : List ℕ :=
  steps.filterMap (fun x => match x with | .select _ => none | .insert k => some k)

/-- No call inserts between the two steps of another. -/
def Undisturbed (steps : List DbStep) : Prop :=
  ∀ k before between after,
    steps = before ++ .select k :: (between ++ .insert k :: after) → inserted between = []

/-- A call that is alone does what `append` does. -/
theorem append_eq_dbSteps (s : Handles τ) (k : ℕ) :
    (run (dbStep repr calls) s [.select k, .insert k]).table =
      (s.table.append repr .committed (calls k).timestamp (calls k).entryType (calls k).did
        (calls k).data).2 := by
  simp only [run_cons, run_nil, dbStep, ↓reduceIte]
  rfl

/-! ## The order of the steps -/

theorem Interleaves.nodup {n : ℕ} {steps : List DbStep} (h : Interleaves n steps) :
    steps.Nodup := by
  apply List.nodup_iff_count_le_one.mpr
  intro x
  rw [← List.count_filter (p := fun y => y.call = x.call) (by simp), h x.call]
  split_ifs with hk
  · cases x <;> simp [DbStep.call]
  · simp

/-- Before a call inserts, it has selected. -/
theorem Interleaves.select_mem {n k : ℕ} {before after : List DbStep}
    (h : Interleaves n (before ++ .insert k :: after)) : .select k ∈ before := by
  have hfilter := h k
  rw [List.filter_append, List.filter_cons_of_pos (by simp [DbStep.call])] at hfilter
  split_ifs at hfilter with hk
  · cases hbefore : before.filter (fun x => x.call = k) with
    | nil =>
      rw [hbefore] at hfilter
      simp at hfilter
    | cons x xs =>
      rw [hbefore, List.cons_append, List.cons.injEq] at hfilter
      have hmem : x ∈ before.filter (fun x => x.call = k) := by simp [hbefore]
      rw [hfilter.1] at hmem
      exact (List.mem_filter.mp hmem).1
  · simp at hfilter

theorem mem_inserted (k : ℕ) (steps : List DbStep) : k ∈ inserted steps ↔ .insert k ∈ steps := by
  rw [inserted, List.mem_filterMap]
  constructor
  · rintro ⟨x, hx, heq⟩
    cases x with
    | select j => cases heq
    | insert j =>
      cases heq
      exact hx
  · intro h
    exact ⟨_, h, rfl⟩

/-- Every call inserts once. -/
theorem Interleaves.inserted_perm {n : ℕ} {steps : List DbStep} (h : Interleaves n steps) :
    (inserted steps).Perm (List.range n) := by
  have hnodup : (inserted steps).Nodup := by
    apply h.nodup.filterMap
    intro x y k hx hy
    cases x with
    | select j => cases hx
    | insert j =>
      cases y with
      | select i => cases hy
      | insert i =>
        cases hx
        cases hy
        rfl
  apply (List.perm_ext_iff_of_nodup hnodup List.nodup_range).mpr
  intro k
  have hmem : DbStep.insert k ∈ steps ↔
      DbStep.insert k ∈ steps.filter (fun x => x.call = k) := by
    simp [DbStep.call]
  rw [mem_inserted, hmem, h k, List.mem_range]
  split_ifs with hk
  · simp [hk]
  · simp [hk]

/-! ## What the steps do to the table -/

theorem run_selected (s : Handles τ) (steps : List DbStep) (k : ℕ) (h : .select k ∉ steps) :
    (run (dbStep repr calls) s steps).selected k = s.selected k := by
  induction steps generalizing s with
  | nil => rfl
  | cons x steps ih =>
    rw [List.mem_cons, not_or] at h
    rw [run_cons, ih _ h.2]
    cases x with
    | select j => exact if_neg (fun hkj => h.1 (by rw [hkj]))
    | insert j =>
      rw [dbStep]
      split <;> rfl

theorem run_table_grows (s : Handles τ) (steps : List DbStep) :
    s.table <+: (run (dbStep repr calls) s steps).table := by
  apply run_invariant (dbStep repr calls) (fun s' => s.table <+: s'.table) _ s List.prefix_rfl
  intro s' x h
  cases x with
  | select j => exact h
  | insert j =>
    rw [dbStep]
    split
    · exact h
    · exact h.trans (List.prefix_append _ _)

section Run
variable (s : Handles τ) {n : ℕ}

/-- A call inserts its row on top of the hash that was last when it selected. -/
theorem run_insert (k : ℕ) (head between after : List DbStep)
    (h : Interleaves n (head ++ .select k :: (between ++ .insert k :: after))) :
    (run (dbStep repr calls) s (head ++ .select k :: between ++ [.insert k])).table =
      (run (dbStep repr calls) s (head ++ .select k :: between)).table ++
        [(calls k).row repr (run (dbStep repr calls) s head).table.lastHash] := by
  have hagain : DbStep.select k ∉ between := by
    intro hmem
    have hnodup := (List.nodup_append.mp h.nodup).2.1
    exact (List.nodup_cons.mp hnodup).1 (List.mem_append_left _ hmem)
  have hselected : (run (dbStep repr calls) s (head ++ .select k :: between)).selected k =
      some (run (dbStep repr calls) s head).table.lastHash := by
    rw [run_append, run_cons, run_selected repr calls _ between k hagain, dbStep]
    exact if_pos rfl
  rw [run_snoc, dbStep, hselected]

/-- Every insert has added one row, that of its call. -/
theorem run_rows (steps rest : List DbStep) (h : Interleaves n (steps ++ rest)) :
    ∃ rows, (run (dbStep repr calls) s steps).table = s.table ++ rows ∧
      List.Forall₂ (fun k row => ∃ previousHash, row = (calls k).row repr previousHash)
        (inserted steps) rows := by
  induction steps using List.reverseRecOn generalizing rest with
  | nil => exact ⟨[], by simp, List.Forall₂.nil⟩
  | append_singleton steps x ih =>
    rw [List.append_assoc, List.singleton_append] at h
    obtain ⟨rows, htable, hrows⟩ := ih (x :: rest) h
    cases x with
    | select k =>
      refine ⟨rows, ?_, by simpa [inserted] using hrows⟩
      rw [run_snoc]
      exact htable
    | insert k =>
      -- the steps before are split where the call has selected
      obtain ⟨head, between, rfl⟩ := List.append_of_mem h.select_mem
      have hinsert := run_insert repr calls s k head between rest (by simpa using h)
      rw [hinsert, htable, List.append_assoc]
      refine ⟨_, rfl, ?_⟩
      have hlast : inserted (head ++ .select k :: between ++ [.insert k]) =
          inserted (head ++ .select k :: between) ++ [k] := by
        simp [inserted]
      rw [hlast]
      exact List.rel_append hrows (List.Forall₂.cons ⟨_, rfl⟩ List.Forall₂.nil)

/-- The table is as it was when a call selected exactly when nothing was inserted since. -/
theorem table_eq_iff (k : ℕ) (head between rest : List DbStep)
    (h : Interleaves n (head ++ .select k :: (between ++ rest))) :
    (run (dbStep repr calls) s head).table =
      (run (dbStep repr calls) s (head ++ .select k :: between)).table ↔
        inserted between = [] := by
  have hinit := run_table_grows repr calls (run (dbStep repr calls) s head)
    (.select k :: between)
  rw [← run_append] at hinit
  obtain ⟨rows, htable, hrows⟩ := run_rows repr calls s head (.select k :: (between ++ rest)) h
  obtain ⟨more, htable', hmore⟩ := run_rows repr calls s (head ++ .select k :: between) rest
    (by simpa using h)
  -- both tables have one row for each insert, so counting the inserts tells them apart
  have hlen := hrows.length_eq
  have hlen' : (inserted head).length+(inserted between).length = more.length := by
    rw [← hmore.length_eq]
    simp [inserted]
  constructor
  · intro heq
    rw [htable, htable'] at heq
    have heqLen := congrArg List.length heq
    rw [List.length_append, List.length_append] at heqLen
    exact List.eq_nil_of_length_eq_zero (by omega)
  · intro hnone
    apply hinit.eq_of_length
    rw [hnone, List.length_nil] at hlen'
    rw [htable, htable', List.length_append, List.length_append]
    omega

/-- Undisturbed calls build on the last row, so that every row is linked to the one before. -/
theorem linked_undisturbed (hs : (chainFormat repr).Linked zeroHash s.table)
    (steps rest : List DbStep) (h : Interleaves n (steps ++ rest))
    (hundisturbed : Undisturbed (steps ++ rest)) :
    (chainFormat repr).Linked zeroHash (run (dbStep repr calls) s steps).table := by
  induction steps using List.reverseRecOn generalizing rest with
  | nil => exact hs
  | append_singleton steps x ih =>
    rw [List.append_assoc, List.singleton_append] at h hundisturbed
    have hlinked := ih (x :: rest) h hundisturbed
    cases x with
    | select k =>
      rw [run_snoc]
      exact hlinked
    | insert k =>
      obtain ⟨head, between, rfl⟩ := List.append_of_mem h.select_mem
      rw [List.append_assoc, List.cons_append] at h hundisturbed
      have hnone := hundisturbed k head between rest rfl
      have hsame := (table_eq_iff repr calls s k head between _ h).mpr hnone
      rw [run_insert repr calls s k head between rest h, hsame]
      exact ((chainFormat repr).linked_snoc zeroHash _ _).mpr ⟨hlinked, rfl, rfl⟩

/-- A call that was disturbed leaves a row that is linked to an earlier one. -/
theorem undisturbed_of_linked (steps : List DbStep) (h : Interleaves n steps)
    (hlinked : (chainFormat repr).Linked zeroHash (run (dbStep repr calls) s steps).table)
    (hnone : ¬Exhibits repr (run (dbStep repr calls) s steps).table
      (run (dbStep repr calls) s steps).table) : Undisturbed steps := by
  rintro k head between after rfl
  have hfree := collisionFree repr _ _ hnone
  have hgrows (first last : List DbStep)
      (heq : first ++ last = head ++ .select k :: (between ++ .insert k :: after)) :
      (run (dbStep repr calls) s first).table <+: (run (dbStep repr calls) s
        (head ++ .select k :: (between ++ .insert k :: after))).table := by
    rw [← heq, run_append]
    exact run_table_grows repr calls _ last
  have hhead := hgrows head (.select k :: (between ++ .insert k :: after)) rfl
  have hbefore := hgrows (head ++ .select k :: between) (.insert k :: after) (by simp)
  obtain ⟨more, hmore⟩ := hgrows (head ++ .select k :: between ++ [.insert k]) after (by simp)
  rw [run_insert repr calls s k head between after h] at hmore
  apply (table_eq_iff repr calls s k head between _ h).mp
  apply (chainFormat repr).prefix_of_head _ zeroHash (chainFormat_readable repr) _ hlinked hfree _ _
    hhead hbefore
  -- the row carries the hash that was last when it selected, and stands after the later rows
  rw [← hmore, List.append_assoc, List.singleton_append] at hlinked
  exact (chainFormat repr).link_at zeroHash _ more _ hlinked

/-- However the calls interleave, the table grows by one row for each. It stays valid
exactly when no call inserts between the two steps of another, unless it then exhibits a
collision or a preimage of zero. -/
theorem handles_valid_iff (hs : verifyChain repr s.table = true) (steps : List DbStep)
    (h : Interleaves n steps) :
    (∃ order rows, order.Perm (List.range n) ∧
      (run (dbStep repr calls) s steps).table = s.table ++ rows ∧
      List.Forall₂ (fun k row => ∃ previousHash, row = (calls k).row repr previousHash)
        order rows) ∧
    (Undisturbed steps → verifyChain repr (run (dbStep repr calls) s steps).table = true) ∧
    (verifyChain repr (run (dbStep repr calls) s steps).table = true →
      Undisturbed steps ∨ Exhibits repr (run (dbStep repr calls) s steps).table
        (run (dbStep repr calls) s steps).table) := by
  have happend : steps = steps ++ [] := (List.append_nil steps).symm
  refine ⟨?_, ?_, ?_⟩
  · obtain ⟨rows, htable, hrows⟩ := run_rows repr calls s steps [] (happend ▸ h)
    exact ⟨inserted steps, rows, h.inserted_perm, htable, hrows⟩
  · intro hundisturbed
    rw [verifyChain_iff] at hs ⊢
    exact linked_undisturbed repr calls s hs steps [] (happend ▸ h) (happend ▸ hundisturbed)
  · intro hvalid
    by_cases hexhibits : Exhibits repr (run (dbStep repr calls) s steps).table
        (run (dbStep repr calls) s steps).table
    · exact Or.inr hexhibits
    · rw [verifyChain_iff] at hvalid
      exact Or.inl (undisturbed_of_linked repr calls s steps h hvalid hexhibits)

end Run

end Handles

/-! ## Two calls on two handles -/

def sampleCalls (k : ℕ) : AppendCall ℚ where
  entryType := "AUTH_FAIL"
  did := if k = 0 then "did:decidp:0" else "did:decidp:1"
  data := []
  timestamp := 0

def noRows : Handles ℚ := ⟨[], fun _ => none⟩

theorem handles_valid_iff_sample :
    ∃ order rows, order.Perm (List.range 2) ∧
      (run (dbStep samplePrimitives.repr sampleCalls) noRows
        [.select 0, .insert 0, .select 1, .insert 1]).table = noRows.table ++ rows ∧
      List.Forall₂ (fun k row => ∃ previousHash,
        row = (sampleCalls k).row samplePrimitives.repr previousHash) order rows := by
  have hsteps : Interleaves 2 [.select 0, .insert 0, .select 1, .insert 1] := by
    intro k
    match k with
    | 0 => rfl
    | 1 => rfl
    | k+2 => simp [DbStep.call]
  exact (handles_valid_iff samplePrimitives.repr sampleCalls noRows rfl _ hsteps).1

/-- When both select before either inserts, both rows are linked to the same one. -/
theorem simultaneous_appends_fork :
    verifyChain samplePrimitives.repr noRows.table = true ∧
      Interleaves 2 [.select 0, .select 1, .insert 0, .insert 1] ∧
      verifyChain samplePrimitives.repr (run (dbStep samplePrimitives.repr sampleCalls) noRows
        [.select 0, .select 1, .insert 0, .insert 1]).table = false := by
  refine ⟨rfl, ?_, ?_⟩
  · intro k
    match k with
    | 0 => rfl
    | 1 => rfl
    | k+2 => simp [DbStep.call]
  · rw [← Bool.not_eq_true, verifyChain_iff]
    rintro ⟨-, -, hlink, -⟩
    -- the second row would have to carry the digest of the first, which is not zero
    have hdigest : List.replicate 32 0 = sha3_256 (hashPreimage samplePrimitives.repr zeroHash
        "AUTH_FAIL" "did:decidp:0" "\x7b\x7d" 0) := by
      apply hex_injective
      rw [← zeroHash_eq]
      exact hlink
    exact singleRow_digest hdigest.symm

end Ledger

end DecentralizedIDP
