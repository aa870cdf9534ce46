import DecentralizedIDP.FoundationsTickets
import Mathlib.Logic.Function.Basic

/-! Processes that take turns on one shared state, in any order and any number of them. -/
namespace Foundations

variable {σ ρ : Type*}

/-- The shared state, and where each process stands. A process that has died takes no turn. -/
structure Pool (σ ρ : Type*) where
  shared : σ
  phase : ℕ → ρ

namespace Pool
variable (act : ℕ → ρ → σ → ρ × σ)

/-- Process `p` takes its next step. -/
def turn (pool : Pool σ ρ) (p : ℕ) : Pool σ ρ where
  shared := (act p (pool.phase p) pool.shared).2
  phase := Function.update pool.phase p (act p (pool.phase p) pool.shared).1

theorem turn_phase_self (pool : Pool σ ρ) (p : ℕ) :
    (pool.turn act p).phase p = (act p (pool.phase p) pool.shared).1 :=
  Function.update_self _ _ _

theorem turn_phase_of_ne (pool : Pool σ ρ) (p q : ℕ) (h : q ≠ p) :
    (pool.turn act p).phase q = pool.phase q :=
  Function.update_of_ne h _ _

/-- A process that its own steps keep in some phases stays there in every schedule. -/
theorem phase_run (I : ρ → Prop) (p : ℕ) (hact : ∀ r s, I r → I (act p r s).1)
    (pool : Pool σ ρ) (h : I (pool.phase p)) (schedule : List ℕ) :
    I ((run (turn act) pool schedule).phase p) := by
  apply run_invariant (turn act) (fun pool => I (pool.phase p)) _ _ h
  intro pool q h
  by_cases hq : p = q
  · rw [← hq, turn_phase_self]
    exact hact _ _ h
  · rw [turn_phase_of_ne act pool q p hq]
    exact h

/-- A process that takes no turn stays where it is. -/
theorem phase_of_notMem (p : ℕ) (pool : Pool σ ρ) (schedule : List ℕ) (hp : p ∉ schedule) :
    (run (turn act) pool schedule).phase p = pool.phase p := by
  induction schedule generalizing pool with
  | nil => rfl
  | cons q schedule ih =>
    rw [List.mem_cons, not_or] at hp
    rw [run_cons, ih _ hp.2, turn_phase_of_ne act pool q p hp.1]

/-- What every good turn keeps holds as long as all turns are good. -/
theorem good_run (I : Pool σ ρ → Prop) (good : Pool σ ρ → ℕ → Prop)
    (hturn : ∀ pool p, I pool → good pool p → I (pool.turn act p)) (pool : Pool σ ρ) (h : I pool)
    (schedule : List ℕ)
    (hgood : ∀ m p, schedule[m]? = some p → good (run (turn act) pool (schedule.take m)) p) :
    I (run (turn act) pool schedule) := by
  induction schedule using List.reverseRecOn with
  | nil => exact h
  | append_singleton schedule p ih =>
    rw [run_snoc]
    apply hturn
    · apply ih
      intro m q hq
      have hm := (List.getElem?_eq_some_iff.mp hq).1
      have hearlier := hgood m q (by rw [List.getElem?_append_left hm]; exact hq)
      rwa [List.take_append_of_le_length hm.le] at hearlier
    · have hlast := hgood schedule.length p (by simp)
      rwa [List.take_left] at hlast

end Pool

end Foundations
