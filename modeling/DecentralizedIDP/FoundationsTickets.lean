import Mathlib.Data.List.Induction
import Mathlib.Order.Lattice
import Mathlib.Data.Nat.Init
import Mathlib.Data.List.Nodup
import Mathlib.Data.List.TakeDrop

/-! Runs of a transition system, and single-use tickets in them: a live ticket was
issued, and one that was redeemed is never live again unless it is issued anew. -/
namespace Foundations

variable {σ α ι β : Type*}

/-! ## Runs -/

def run (step : σ → α → σ) (s : σ) (acts : List α) : σ := acts.foldl step s

@[simp] theorem run_nil (step : σ → α → σ) (s : σ) : run step s [] = s := rfl

@[simp] theorem run_cons (step : σ → α → σ) (s : σ) (a : α) (acts : List α) :
    run step s (a :: acts) = run step (step s a) acts := rfl

theorem run_append (step : σ → α → σ) (s : σ) (acts more : List α) :
    run step s (acts ++ more) = run step (run step s acts) more := by
  simp only [run, List.foldl_append]

theorem run_snoc (step : σ → α → σ) (s : σ) (acts : List α) (a : α) :
    run step s (acts ++ [a]) = step (run step s acts) a := by
  rw [run_append, run_cons, run_nil]

theorem run_take_succ (step : σ → α → σ) (s : σ) (acts : List α) (k : ℕ) (a : α)
    (ha : acts[k]? = some a) :
    run step s (acts.take (k+1)) = step (run step s (acts.take k)) a := by
  obtain ⟨hk, rfl⟩ := List.getElem?_eq_some_iff.mp ha
  rw [List.take_succ_eq_append_getElem hk, run_snoc]

/-- What holds at the start and is kept by every step holds after every run. -/
theorem run_invariant (step : σ → α → σ) (I : σ → Prop) (hstep : ∀ s a, I s → I (step s a))
    (s : σ) (hs : I s) (acts : List α) : I (run step s acts) := by
  induction acts generalizing s with
  | nil => exact hs
  | cons a acts ih => exact ih (step s a) (hstep s a hs)

/-- An invariant that mentions the actions taken so far. -/
theorem run_history (step : σ → α → σ) (I : List α → σ → Prop)
    (hstep : ∀ past s a, I past s → I (past ++ [a]) (step s a)) (s : σ) (hs : I [] s)
    (acts : List α) : I acts (run step s acts) := by
  induction acts using List.reverseRecOn with
  | nil => exact hs
  | append_singleton acts a ih => exact run_snoc step s acts a ▸ hstep acts _ a ih

/-! ## Logs -/

/-- In a run whose steps append at most one row to a log, every row has its step: the
log before it ends where the row starts, and the log after it ends with the row. -/
theorem log_origin (step : σ → α → σ) (I : σ → Prop) (hI : ∀ s a, I s → I (step s a))
    (log : σ → List β)
    (happend : ∀ s a, I s → ∃ rows, log (step s a) = log s ++ rows ∧ rows.length ≤ 1)
    (s : σ) (hs : I s) (hempty : log s = []) (acts : List α) (k : ℕ) (row : β)
    (hrow : (log (run step s acts))[k]? = some row) :
    ∃ (m : ℕ) (a : α), acts[m]? = some a ∧
      log (run step s (acts.take m)) = (log (run step s acts)).take k ∧
      log (step (run step s (acts.take m)) a) = (log (run step s acts)).take k ++ [row] := by
  -- from the last action backwards, since the log grows at the end
  induction acts using List.reverseRecOn with
  | nil =>
    rw [run_nil, hempty] at hrow
    cases hrow
  | append_singleton acts a ih =>
    obtain ⟨rows, hrows, hlen⟩ := happend _ a (run_invariant step I hI s hs acts)
    rw [run_snoc] at hrow ⊢
    rw [hrows] at hrow ⊢
    -- the row was there before the last step, or it is the one that this step wrote
    by_cases hk : k < (log (run step s acts)).length
    · rw [List.getElem?_append_left hk] at hrow
      obtain ⟨m, b, hb, hbefore, hafter⟩ := ih hrow
      have hm := (List.getElem?_eq_some_iff.mp hb).1
      refine ⟨m, b, by rwa [List.getElem?_append_left hm], ?_⟩
      rw [List.take_append_of_le_length hm.le, List.take_append_of_le_length hk.le]
      exact ⟨hbefore, hafter⟩
    · rw [List.getElem?_append_right (not_lt.mp hk)] at hrow
      have hlt := (List.getElem?_eq_some_iff.mp hrow).1
      have hk : k = (log (run step s acts)).length := by omega
      subst hk
      rw [Nat.sub_self] at hrow
      have hrows' : rows = [row] := by
        match rows, hlen, hrow with
        | [r], _, hrow => rw [Option.some.inj hrow]
      refine ⟨acts.length, a, by simp, ?_⟩
      rw [List.take_left, List.take_left, hrows, hrows']
      exact ⟨rfl, rfl⟩

/-- What an action draws, a later one does not draw again if no draw repeats. -/
theorem filterMap_snoc_fresh (draw : α → Option ι) (acts : List α) (a : α)
    (hfresh : ((acts ++ [a]).filterMap draw).Nodup) (b : α) (hb : b ∈ acts) (i : ι)
    (hi : draw b = some i) : draw a ≠ some i := by
  intro ha
  have hsplit : (acts ++ [a]).filterMap draw = acts.filterMap draw ++ [i] := by
    rw [List.filterMap_append, List.filterMap_cons_some ha, List.filterMap_nil]
  rw [hsplit] at hfresh
  have hdisjoint := (List.nodup_append.mp hfresh).2.2
  exact hdisjoint i (List.mem_filterMap.mpr ⟨b, hb, hi⟩) i (List.mem_singleton_self i) rfl

/-- Two actions that draw the same value are one. -/
theorem drawn_once {ι : Type*} (draw : α → Option ι) (acts : List α)
    (hfresh : (acts.filterMap draw).Nodup) (k m : ℕ) (a b : α) (i : ι) (ha : acts[k]? = some a)
    (hb : acts[m]? = some b) (hia : draw a = some i) (hib : draw b = some i) : k = m := by
  have hpairs := List.pairwise_filterMap.mp hfresh
  have hdistinct (k m : ℕ) (a b : α) (hkm : k < m) (ha : acts[k]? = some a)
      (hb : acts[m]? = some b) (hia : draw a = some i) (hib : draw b = some i) : False := by
    obtain ⟨hk, rfl⟩ := List.getElem?_eq_some_iff.mp ha
    obtain ⟨hm, rfl⟩ := List.getElem?_eq_some_iff.mp hb
    exact List.pairwise_iff_getElem.mp hpairs k m hk hm hkm i hia i hib rfl
  rcases lt_trichotomy k m with h | h | h
  · exact (hdistinct k m a b h ha hb hia hib).elim
  · exact h
  · exact (hdistinct m k b a h hb ha hib hia).elim

/-! ## Tickets -/

/-- `issued` is the ticket an action creates, `redeems s a i` says that action `a`
taken in `s` uses up ticket `i`. -/
structure TicketSystem (σ α ι β : Type*) where
  step : σ → α → σ
  live : σ → ι → Option β
  issued : α → Option (ι × β)
  redeems : σ → α → ι → Prop
  live_step : ∀ s a i v, live (step s a) i = some v →
    issued a = some (i, v) ∨ (live s i = some v ∧ ¬redeems s a i)
  redeems_live : ∀ s a i, redeems s a i → ∃ v, live s i = some v

namespace TicketSystem
variable (T : TicketSystem σ α ι β)

/-- No two actions create one ticket. -/
def Fresh (acts : List α) : Prop :=
  (acts.filterMap (fun a => (T.issued a).map Prod.fst)).Nodup

theorem issued_once (acts : List α) (hfresh : T.Fresh acts) (k m : ℕ) (a b : α) (i : ι) (v w : β)
    (ha : acts[k]? = some a) (hb : acts[m]? = some b) (hia : T.issued a = some (i, v))
    (hib : T.issued b = some (i, w)) : k = m := by
  have hpairs := List.pairwise_filterMap.mp hfresh
  have hdistinct (k m : ℕ) (a b : α) (v w : β) (hkm : k < m) (ha : acts[k]? = some a)
      (hb : acts[m]? = some b) (hia : T.issued a = some (i, v)) (hib : T.issued b = some (i, w)) :
      False := by
    obtain ⟨hk, rfl⟩ := List.getElem?_eq_some_iff.mp ha
    obtain ⟨hm, rfl⟩ := List.getElem?_eq_some_iff.mp hb
    exact List.pairwise_iff_getElem.mp hpairs k m hk hm hkm i (by rw [hia, Option.map_some])
      i (by rw [hib, Option.map_some]) rfl
  rcases lt_trichotomy k m with h | h | h
  · exact (hdistinct k m a b v w h ha hb hia hib).elim
  · exact h
  · exact (hdistinct m k b a w v h hb ha hib hia).elim

/-- Actions that create one ticket give it one value. -/
theorem issued_value (acts : List α) (hfresh : T.Fresh acts) (a b : α) (i : ι) (v w : β)
    (ha : a ∈ acts) (hb : b ∈ acts) (hia : T.issued a = some (i, v))
    (hib : T.issued b = some (i, w)) : w = v := by
  obtain ⟨k, hk⟩ := List.mem_iff_getElem?.mp ha
  obtain ⟨m, hm⟩ := List.mem_iff_getElem?.mp hb
  have heq := T.issued_once acts hfresh k m a b i v w hk hm hia hib
  rw [← heq, hk, Option.some.injEq] at hm
  rw [← hm, hia, Option.some.injEq, Prod.mk.injEq] at hib
  exact hib.2.symm

/-- A ticket that is live after a run was live before it or issued in it. -/
theorem live_run (s : σ) (acts : List α) (i : ι) (v : β)
    (h : T.live (run T.step s acts) i = some v) :
    T.live s i = some v ∨ ∃ (k : ℕ) (a : α), acts[k]? = some a ∧ T.issued a = some (i, v) := by
  induction acts using List.reverseRecOn with
  | nil => exact Or.inl h
  | append_singleton acts a ih =>
    rw [run_snoc] at h
    -- the last action issued it, or left it as it was
    rcases T.live_step _ _ _ _ h with h | ⟨h, -⟩
    · exact Or.inr ⟨acts.length, a, by simp, h⟩
    · rcases ih h with h | ⟨k, b, hb, hi⟩
      · exact Or.inl h
      · have hk := (List.getElem?_eq_some_iff.mp hb).1
        exact Or.inr ⟨k, b, by rwa [List.getElem?_append_left hk], hi⟩

/-- A ticket that is live again after it was not has been issued in between. -/
theorem live_since (s : σ) (acts : List α) (j m : ℕ) (i : ι) (v : β) (hjm : j ≤ m)
    (hnone : T.live (run T.step s (acts.take j)) i = none)
    (h : T.live (run T.step s (acts.take m)) i = some v) :
    ∃ k a, j ≤ k ∧ k < m ∧ acts[k]? = some a ∧ T.issued a = some (i, v) := by
  have hfirst : (acts.take m).take j = acts.take j := by rw [List.take_take, min_eq_left hjm]
  rw [← List.take_append_drop j (acts.take m), hfirst, run_append] at h
  rcases T.live_run _ _ i v h with hlive | ⟨n, a, ha, hi⟩
  · rw [hnone] at hlive
    cases hlive
  · rw [List.getElem?_drop, List.getElem?_take] at ha
    split_ifs at ha with hn
    exact ⟨j+n, a, Nat.le_add_right j n, hn, ha, hi⟩

section SingleUse
variable (s : σ) (acts : List α) (hinit : ∀ i, T.live s i = none)
include hinit

theorem live_issued (n : ℕ) (i : ι) (v : β) (h : T.live (run T.step s (acts.take n)) i = some v) :
    ∃ k a, k < n ∧ acts[k]? = some a ∧ T.issued a = some (i, v) := by
  rcases T.live_run s _ i v h with h | ⟨k, a, ha, hi⟩
  · rw [hinit i] at h
    cases h
  · rw [List.getElem?_take] at ha
    split_ifs at ha with hk
    exact ⟨k, a, hk, ha, hi⟩

/-- After a ticket was redeemed it is never live again. -/
theorem not_live_of_redeemed (hfresh : T.Fresh acts) (k n : ℕ) (a : α) (i : ι) (hkn : k < n)
    (ha : acts[k]? = some a) (hr : T.redeems (run T.step s (acts.take k)) a i) :
    T.live (run T.step s (acts.take n)) i = none := by
  obtain ⟨v, hv⟩ := T.redeems_live _ _ _ hr
  obtain ⟨m, b, hm, hb, hib⟩ := T.live_issued s acts hinit k i v hv
  -- only a second issue of `i` could bring it back
  induction n, hkn using Nat.le_induction with
  | base =>
    rw [run_take_succ T.step s acts k a ha, Option.eq_none_iff_forall_ne_some]
    intro w hw
    rcases T.live_step _ _ _ _ hw with h | ⟨-, h⟩
    · exact absurd (T.issued_once acts hfresh k m a b i w v ha hb h hib) (by omega)
    · exact h hr
  | succ n hkn ih =>
    cases hc : acts[n]? with
    -- past the end of the run nothing changes any more
    | none =>
      have hlen := List.getElem?_eq_none_iff.mp hc
      rwa [List.take_of_length_le (by omega), ← List.take_of_length_le hlen]
    | some c =>
      rw [run_take_succ T.step s acts n c hc, Option.eq_none_iff_forall_ne_some]
      intro w hw
      rcases T.live_step _ _ _ _ hw with h | ⟨h, -⟩
      · exact absurd (T.issued_once acts hfresh n m c b i w v hc hb h hib) (by omega)
      · rw [ih] at h
        cases h

/-- No ticket is redeemed twice. -/
theorem redeemed_once (hfresh : T.Fresh acts) (k n : ℕ) (a b : α) (i : ι)
    (ha : acts[k]? = some a) (hb : acts[n]? = some b)
    (hra : T.redeems (run T.step s (acts.take k)) a i)
    (hrb : T.redeems (run T.step s (acts.take n)) b i) : k = n := by
  -- a ticket that was redeemed first at `k` is no longer live at a later `n`
  have hless (k n : ℕ) (a b : α) (hkn : k < n) (ha : acts[k]? = some a)
      (hra : T.redeems (run T.step s (acts.take k)) a i)
      (hrb : T.redeems (run T.step s (acts.take n)) b i) : False := by
    obtain ⟨v, hv⟩ := T.redeems_live _ _ _ hrb
    rw [T.not_live_of_redeemed s acts hinit hfresh k n a i hkn ha hra] at hv
    cases hv
  rcases lt_trichotomy k n with h | h | h
  · exact (hless k n a b h ha hra hrb).elim
  · exact h
  · exact (hless n k b a h hb hrb hra).elim

end SingleUse

end TicketSystem

end Foundations
