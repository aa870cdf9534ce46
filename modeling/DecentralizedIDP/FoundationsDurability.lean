import DecentralizedIDP.FoundationsTickets

/-! Logs of which a part is on disk: what a writer appends is kept only once it commits,
and a restart goes on from what was kept. -/
namespace Foundations

variable {σ α β : Type*}

/-- A log as its writer sees it and as it is on disk. A step adds rows to what is seen, and
commits all of it or nothing; or it is a restart, after which only what is on disk is seen. -/
structure DurableLog (step : σ → α → σ) (β : Type*) where
  inv : σ → Prop
  seen : σ → List β
  disk : σ → List β
  inv_step : ∀ s a, inv s → inv (step s a)
  writes : ∀ s a, inv s →
    (seen s <+: seen (step s a) ∧ (disk (step s a) = disk s ∨ disk (step s a) = seen (step s a))) ∨
      (seen (step s a) = disk s ∧ disk (step s a) = disk s)

namespace DurableLog
variable {step : σ → α → σ} (L : DurableLog step β)

/-- What is on disk is a first part of what is seen. -/
def Behind (s : σ) : Prop := L.inv s ∧ L.disk s <+: L.seen s

theorem behind_step (s : σ) (a : α) (h : L.Behind s) : L.Behind (step s a) := by
  refine ⟨L.inv_step s a h.1, ?_⟩
  rcases L.writes s a h.1 with ⟨hseen, hdisk | hdisk⟩ | ⟨hseen, hdisk⟩
  · rw [hdisk]
    exact h.2.trans hseen
  · exact hdisk ▸ List.prefix_rfl
  · have hsame := hdisk.trans hseen.symm
    exact hsame ▸ List.prefix_rfl

theorem disk_step (s : σ) (a : α) (h : L.Behind s) : L.disk s <+: L.disk (step s a) := by
  rcases L.writes s a h.1 with ⟨hseen, hdisk | hdisk⟩ | ⟨-, hdisk⟩
  · exact hdisk ▸ List.prefix_rfl
  · rw [hdisk]
    exact h.2.trans hseen
  · exact hdisk ▸ List.prefix_rfl

theorem behind_run (s : σ) (h : L.Behind s) (acts : List α) : L.Behind (run step s acts) :=
  run_invariant step L.Behind L.behind_step s h acts

/-- Nothing that is on disk is lost or overwritten by what comes later. -/
theorem disk_run (s : σ) (h : L.Behind s) (acts : List α) :
    L.disk s <+: L.disk (run step s acts) := by
  induction acts generalizing s with
  | nil => exact List.prefix_rfl
  | cons a acts ih => exact (L.disk_step s a h).trans (ih _ (L.behind_step s a h))

/-- What a step commits is there after every run that follows. -/
theorem committed_run (s : σ) (h : L.Behind s) (a : α)
    (hcommit : L.disk (step s a) = L.seen (step s a)) (acts : List α) :
    L.seen (step s a) <+: L.disk (run step (step s a) acts) := by
  have hlater := L.disk_run (step s a) (L.behind_step s a h) acts
  rwa [hcommit] at hlater

end DurableLog

/-! ## Who wrote what -/

section Attribution
variable {step : σ → α → σ} {wrote : σ → α → β → Prop} {s : σ} {acts : List α}

/-- The `k`-th step of the run wrote the row. -/
def WrittenBy (step : σ → α → σ) (wrote : σ → α → β → Prop) (s : σ) (acts : List α) (row : β)
    (k : ℕ) : Prop := ∃ a, acts[k]? = some a ∧ wrote (run step s (acts.take k)) a row

/-- The rows have writers, one after the other in the order of the run. -/
structure Attributed (step : σ → α → σ) (wrote : σ → α → β → Prop) (s : σ) (acts : List α)
    (rows : List β) (writers : List ℕ) : Prop where
  sorted : writers.Pairwise (· < ·)
  written : List.Forall₂ (WrittenBy step wrote s acts) rows writers

theorem exists_mem_left {R : β → ℕ → Prop} {rows : List β} {writers : List ℕ}
    (h : List.Forall₂ R rows writers) (k : ℕ) (hk : k ∈ writers) : ∃ row ∈ rows, R row k := by
  induction h with
  | nil => cases hk
  | cons hrow _ ih =>
    rcases List.mem_cons.mp hk with rfl | hk
    · exact ⟨_, List.mem_cons_self, hrow⟩
    · obtain ⟨row, hmem, hrow⟩ := ih hk
      exact ⟨row, List.mem_cons_of_mem _ hmem, hrow⟩

theorem getElem?_snoc_cases (a b : α) (k : ℕ) (h : (acts ++ [a])[k]? = some b) :
    (k < acts.length ∧ acts[k]? = some b) ∨ (k = acts.length ∧ b = a) := by
  have hlt := (List.getElem?_eq_some_iff.mp h).1
  rw [List.length_append, List.length_singleton] at hlt
  by_cases hk : k < acts.length
  · rw [List.getElem?_append_left hk] at h
    exact Or.inl ⟨hk, h⟩
  · obtain rfl : k = acts.length := by omega
    rw [List.getElem?_concat_length, Option.some.injEq] at h
    exact Or.inr ⟨rfl, h.symm⟩

theorem WrittenBy.lt {row : β} {k : ℕ} (h : WrittenBy step wrote s acts row k) :
    k < acts.length := by
  obtain ⟨a, hk, -⟩ := h
  exact (List.getElem?_eq_some_iff.mp hk).1

theorem WrittenBy.snoc {row : β} {k : ℕ} (h : WrittenBy step wrote s acts row k) (a : α) :
    WrittenBy step wrote s (acts ++ [a]) row k := by
  have hlt := h.lt
  obtain ⟨b, hk, hwrote⟩ := h
  refine ⟨b, ?_, ?_⟩
  · rw [List.getElem?_append_left hlt]
    exact hk
  · rw [List.take_append_of_le_length hlt.le]
    exact hwrote

namespace Attributed
variable {rows : List β} {writers : List ℕ} (h : Attributed step wrote s acts rows writers)
include h

theorem writer_lt (k : ℕ) (hk : k ∈ writers) : k < acts.length := by
  obtain ⟨row, -, hrow⟩ := exists_mem_left h.written k hk
  exact hrow.lt

theorem snoc (a : α) : Attributed step wrote s (acts ++ [a]) rows writers :=
  ⟨h.sorted, h.written.imp (fun _ _ hrow => hrow.snoc a)⟩

theorem take (n : ℕ) : Attributed step wrote s acts (rows.take n) (writers.take n) :=
  ⟨h.sorted.sublist (List.take_sublist n writers), List.forall₂_take n h.written⟩

theorem write (a : α) (row : β) (hwrote : wrote (run step s acts) a row) :
    Attributed step wrote s (acts ++ [a]) (rows ++ [row]) (writers ++ [acts.length]) := by
  constructor
  case sorted =>
    refine List.pairwise_append.mpr ⟨h.sorted, List.pairwise_singleton _ _, ?_⟩
    intro k hk n hn
    rw [List.mem_singleton.mp hn]
    exact h.writer_lt k hk
  case written =>
    have hlast : WrittenBy step wrote s (acts ++ [a]) row acts.length :=
      ⟨a, List.getElem?_concat_length, by rw [List.take_left]; exact hwrote⟩
    exact List.rel_append (h.snoc a).written (List.Forall₂.cons hlast List.Forall₂.nil)

end Attributed

/-- A log into which a step writes one row or none. The rows that are seen go back to steps of
the run, and a step whose row is kept for good is still among them. -/
theorem DurableLog.attributed_run (L : DurableLog step β) (wrote : σ → α → β → Prop)
    (kept : σ → α → Prop)
    (hstep : ∀ s a, L.Behind s →
      (L.seen (step s a) = L.seen s ∧ ¬kept s a) ∨
      (∃ row, L.seen (step s a) = L.seen s ++ [row] ∧ wrote s a row ∧
        (kept s a → L.disk (step s a) = L.seen (step s a))) ∨
      (L.seen (step s a) = L.disk s ∧ ¬kept s a))
    (hbehind : L.Behind s) (hempty : L.seen s = []) (acts : List α) :
    ∃ writers, Attributed step wrote s acts (L.seen (run step s acts)) writers ∧
      ∀ k a, acts[k]? = some a → kept (run step s (acts.take k)) a →
        k ∈ writers.take (L.disk (run step s acts)).length := by
  induction acts using List.reverseRecOn with
  | nil =>
    refine ⟨[], ⟨List.Pairwise.nil, ?_⟩, ?_⟩
    · rw [run_nil, hempty]
      exact List.Forall₂.nil
    · intro k a hk
      cases hk
  | append_singleton acts a ih =>
    obtain ⟨writers, hattr, hkept⟩ := ih
    have hbefore := L.behind_run s hbehind acts
    have hgrows := (L.disk_step _ a hbefore).length_le
    -- a step before this one is kept as long as nothing on disk goes
    have hold (later : List ℕ) (hfront : writers.take (L.disk (run step s acts)).length <+: later)
        (k : ℕ) (b : α) (hk : k < acts.length) (hb : acts[k]? = some b)
        (hkb : kept (run step s ((acts ++ [a]).take k)) b) :
        k ∈ later.take (L.disk (step (run step s acts) a)).length := by
      rw [List.take_append_of_le_length hk.le] at hkb
      have hshort := (List.length_take_le (L.disk (run step s acts)).length writers).trans hgrows
      exact (List.prefix_take_iff.mpr ⟨hfront, hshort⟩).subset (hkept k b hb hkb)
    rw [run_snoc]
    rcases hstep _ a hbefore with ⟨hseen, hno⟩ | ⟨row, hseen, hwrote, hcommit⟩ | ⟨hseen, hno⟩
    · refine ⟨writers, hseen ▸ hattr.snoc a, ?_⟩
      intro k b hk hkb
      rcases getElem?_snoc_cases a b k hk with ⟨hlt, hb⟩ | ⟨rfl, rfl⟩
      · exact hold writers (List.take_prefix _ _) k b hlt hb hkb
      · rw [List.take_left] at hkb
        exact absurd hkb hno
    · refine ⟨writers ++ [acts.length], hseen ▸ hattr.write a row hwrote, ?_⟩
      intro k b hk hkb
      rcases getElem?_snoc_cases a b k hk with ⟨hlt, hb⟩ | ⟨rfl, rfl⟩
      · exact hold _ ((List.take_prefix _ _).trans (List.prefix_append _ _)) k b hlt hb hkb
      · rw [List.take_left] at hkb
        have hlength := hattr.written.length_eq
        rw [hcommit hkb, hseen, List.length_append, hlength, List.length_singleton,
          ← List.length_singleton (a := acts.length), ← List.length_append, List.take_length]
        exact List.mem_append_right _ (List.mem_singleton_self _)
    · -- after a restart the first rows are left, and their writers
      have hfront := List.prefix_iff_eq_take.mp hbefore.2
      refine ⟨writers.take (L.disk (run step s acts)).length, ?_, ?_⟩
      · rw [hseen, hfront, List.length_take, min_eq_left hbefore.2.length_le]
        exact (hattr.take _).snoc a
      · intro k b hk hkb
        rcases getElem?_snoc_cases a b k hk with ⟨hlt, hb⟩ | ⟨rfl, rfl⟩
        · exact hold _ List.prefix_rfl k b hlt hb hkb
        · rw [List.take_left] at hkb
          exact absurd hkb hno

end Attribution

end Foundations
