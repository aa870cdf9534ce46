import DecentralizedIDP.FoundationsRefinement

/-! Programs of atomic steps that a crash can break off, and machines whose replies settle
on one value. -/
namespace Foundations

variable {σ ι α : Type*}

/-! ## Programs -/

/-- What comes after a step may depend on the state that it leaves. -/
inductive Prog (σ α : Type*) where
  | done (result : α)
  | step (effect : σ → σ) (next : σ → Prog σ α)

namespace Prog

/-- All of the steps. -/
def complete : Prog σ α → σ → σ × α
  | done result, s => (s, result)
  | step effect next, s => complete (next (effect s)) (effect s)

/-- The first steps only, and their state. -/
def breakOff : ℕ → Prog σ α → σ → σ
  | 0, _, s => s
  | _+1, done _, s => s
  | k+1, step effect next, s => breakOff k (next (effect s)) (effect s)

/-- One start, which crashes after a number of steps or returns. -/
def start (p : Prog σ α) (crashAfter : Option ℕ) (s : σ) : σ × Option α :=
  match crashAfter with
  | none => ((p.complete s).1, some (p.complete s).2)
  | some k => (p.breakOff k s, none)

/-- Every state that the program goes through is one of these. -/
def Along (I : σ → Prop) : Prog σ α → σ → Prop
  | done _, s => I s
  | step effect next, s => I s ∧ Along I (next (effect s)) (effect s)

theorem Along.breakOff {I : σ → Prop} {p : Prog σ α} {s : σ} (h : p.Along I s) (k : ℕ) :
    I (p.breakOff k s) := by
  induction p generalizing s k with
  | done result =>
    cases k with
    | zero => exact h
    | succ k => exact h
  | step effect next ih =>
    cases k with
    | zero => exact h.1
    | succ k => exact ih _ h.2 k

theorem Along.complete {I : σ → Prop} {p : Prog σ α} {s : σ} (h : p.Along I s) :
    I (p.complete s).1 := by
  induction p generalizing s with
  | done result => exact h
  | step effect next ih => exact ih _ h.2

/-- Wherever it crashes or returns, a start leaves one of these states. -/
theorem Along.start {I : σ → Prop} {p : Prog σ α} {s : σ} (h : p.Along I s)
    (crashAfter : Option ℕ) : I (p.start crashAfter s).1 := by
  cases crashAfter with
  | none => exact h.complete
  | some k => exact h.breakOff k

end Prog

/-! ## Replies that settle -/

/-- A state settled on a value stays so, and no other value is replied from it. -/
structure Settling (M : Machine σ ι (Option α)) where
  settled : α → σ → Prop
  stays : ∀ a s call, settled a s → settled a (M s call).1
  only : ∀ a b s call, settled a s → (M s call).2 = some b → b = a

namespace Settling
variable {M : Machine σ ι (Option α)} (S : Settling M)

theorem replies_settled (a : α) (s : σ) (h : S.settled a s) (calls : List ι) (b : α)
    (hb : some b ∈ M.replies s calls) : b = a := by
  induction calls generalizing s with
  | nil => simp [Machine.replies] at hb
  | cons call calls ih =>
    rw [Machine.replies, List.mem_cons] at hb
    rcases hb with hb | hb
    · exact S.only a b s call h hb.symm
    · exact ih _ (S.stays a s call h) hb

section Run
variable (unsettled : σ → Prop) (good : σ → ι → Prop) (origin : ι → α → Prop)
  (hstep : ∀ s call, unsettled s → good s call →
    (unsettled (M s call).1 ∧ (M s call).2 = none) ∨
      ∃ a, origin call a ∧ S.settled a (M s call).1 ∧ ∀ b, (M s call).2 = some b → b = a)
include hstep

/-- Where a good call leaves the state unsettled or settles it on a value of its own, all the
replies of a run of good calls are one value, which one of its calls has brought. -/
theorem replies_agree (s : σ) (hs : unsettled s) (calls : List ι)
    (hgood : ∀ m call, calls[m]? = some call → good (M.final s (calls.take m)) call) :
    (∀ b, some b ∉ M.replies s calls) ∨
      ∃ call ∈ calls, ∃ a, origin call a ∧ ∀ b, some b ∈ M.replies s calls → b = a := by
  induction calls generalizing s with
  | nil =>
    left
    intro b hb
    simp [Machine.replies] at hb
  | cons call calls ih =>
    have hfirst : good s call := hgood 0 call rfl
    rcases hstep s call hs hfirst with ⟨hnext, hnone⟩ | ⟨a, horigin, hsettled, honly⟩
    · -- nothing is settled yet, so the rest decides
      have hrest := ih (M s call).1 hnext (fun m later hlater => hgood (m+1) later hlater)
      rw [Machine.replies, hnone]
      rcases hrest with hno | ⟨later, hlater, a, horigin, honly⟩
      · left
        intro b hb
        exact hno b (by simpa using hb)
      · right
        refine ⟨later, List.mem_cons_of_mem _ hlater, a, horigin, ?_⟩
        intro b hb
        exact honly b (by simpa using hb)
    · right
      refine ⟨call, List.mem_cons_self, a, horigin, ?_⟩
      intro b hb
      rw [Machine.replies, List.mem_cons] at hb
      rcases hb with hb | hb
      · exact honly b hb.symm
      · exact S.replies_settled a _ hsettled calls b hb

end Run

end Settling

end Foundations
