import DecentralizedIDP.AuthChallenge
import DecentralizedIDP.FoundationsRefinement

/-! Runs of the challenge manager with and without `_cleanup_expired`: no other call
notices it. -/
namespace DecentralizedIDP
open Foundations

/-- A use of the manager, with the clock that it reads. -/
inductive ChallengeCall where
  | issue (inp : ChallengeInputs) (did : String)
  | peek (challengeId : String) (now : ℚ)
  | consume (challengeId : String) (now : ℚ)
  | cleanupExpired (now : ℚ)

namespace ChallengeCall

def now : ChallengeCall → ℚ
  | issue inp _ => inp.now
  | peek _ now => now
  | consume _ now => now
  | cleanupExpired now => now

/-- Every call but the cleanup. -/
def visible : ChallengeCall → Bool
  | cleanupExpired _ => false
  | _ => true

end ChallengeCall

/-- What comes back. -/
inductive ChallengeOutcome where
  | issued (reply : ChallengeReply)
  | nonce (found : Option Bytes)
  | cleaned

namespace ChallengeManager

def machine : Machine Pending ChallengeCall ChallengeOutcome := fun pending call =>
  match call with
  | .issue inp did => ((issue inp did pending).2, .issued (issue inp did pending).1)
  | .peek challengeId now => (pending, .nonce (peek challengeId now pending))
  | .consume challengeId now =>
    ((consume challengeId now pending).2, .nonce (consume challengeId now pending).1)
  | .cleanupExpired now => (cleanupExpired now pending, .cleaned)

/-! ## What a cleanup leaves -/

/-- The cleanup keeps the entries that have not expired as they are, and no others. -/
theorem cleanupExpired_some (now : ℚ) (pending : Pending) (challengeId : String)
    (entry : Challenge) : cleanupExpired now pending challengeId = some entry ↔
      pending challengeId = some entry ∧ now ≤ entry.expiresAt := by
  rw [cleanupExpired, Option.filter_eq_some_iff, Bool.not_eq_true', decide_eq_false_iff_not,
    not_lt]

theorem cleanupExpired_later (now later : ℚ) (hlater : now ≤ later) (pending : Pending) :
    cleanupExpired later (cleanupExpired now pending) = cleanupExpired later pending := by
  funext challengeId
  ext entry
  -- what is live at the later time was live at the earlier one
  rw [cleanupExpired_some, cleanupExpired_some, cleanupExpired_some]
  constructor
  · intro h
    exact ⟨h.1.1, h.2⟩
  · intro h
    exact ⟨⟨h.1, hlater.trans h.2⟩, h.2⟩

/-- At the boundary instant `peek` and the cleanup agree: the challenge is live. -/
theorem peek_cleanupExpired (challengeId : String) (now : ℚ) (pending : Pending) :
    peek challengeId now (cleanupExpired now pending) = peek challengeId now pending := by
  unfold peek cleanupExpired
  cases pending challengeId with
  | none => rfl
  | some entry =>
    by_cases hexpired : entry.expiresAt < now
    · simp [Option.filter, hexpired]
    · simp [Option.filter, hexpired]

theorem remove_cleanupExpired (challengeId : String) (now : ℚ) (pending : Pending) :
    cleanupExpired now (remove challengeId pending) =
      remove challengeId (cleanupExpired now pending) := by
  funext cid
  by_cases h : cid = challengeId
  · simp only [remove, cleanupExpired, h, ↓reduceIte, Option.filter_none]
  · simp only [remove, cleanupExpired, h, ↓reduceIte]

theorem issue_cleanupExpired (inp : ChallengeInputs) (did : String) (now : ℚ)
    (pending : Pending) :
    cleanupExpired now (issue inp did (cleanupExpired now pending)).2 =
      cleanupExpired now (issue inp did pending).2 := by
  funext cid
  have hidem := congrFun (cleanupExpired_later now now le_rfl pending) cid
  unfold issue cleanupExpired at *
  dsimp only at *
  -- under the new id stands the new entry, whatever was there before
  split_ifs with h
  · rfl
  · exact hidem

/-! ## Two managers with the same live challenges -/

/-- A cleanup at this time would leave the same entries. -/
def SameLive (now : ℚ) (p q : Pending) : Prop := cleanupExpired now p = cleanupExpired now q

theorem SameLive.later {now later : ℚ} {p q : Pending} (h : SameLive now p q)
    (hlater : now ≤ later) : SameLive later p q := by
  calc cleanupExpired later p = cleanupExpired later (cleanupExpired now p) :=
        (cleanupExpired_later now later hlater p).symm
    _ = cleanupExpired later (cleanupExpired now q) := by rw [h]
    _ = cleanupExpired later q := cleanupExpired_later now later hlater q

theorem SameLive.peek {now : ℚ} {p q : Pending} (h : SameLive now p q) (challengeId : String) :
    peek challengeId now p = ChallengeManager.peek challengeId now q := by
  rw [← peek_cleanupExpired, h, peek_cleanupExpired]

theorem SameLive.remove {now : ℚ} {p q : Pending} (h : SameLive now p q) (challengeId : String) :
    SameLive now (remove challengeId p) (ChallengeManager.remove challengeId q) := by
  unfold SameLive
  rw [remove_cleanupExpired, h, remove_cleanupExpired]

theorem SameLive.issue {now : ℚ} {p q : Pending} (h : SameLive now p q) (inp : ChallengeInputs)
    (did : String) : SameLive now (issue inp did p).2 (ChallengeManager.issue inp did q).2 := by
  unfold SameLive
  rw [← issue_cleanupExpired, h, issue_cleanupExpired]

theorem SameLive.cleanupExpired {now : ℚ} {p q : Pending} (h : SameLive now p q) :
    SameLive now (cleanupExpired now p) q := by
  unfold SameLive
  rw [cleanupExpired_later now now le_rfl, h]

/-- A cleanup goes unnoticed: the live challenges are all that the other calls see. -/
def cleanupUnnoticed : Unnoticed machine ChallengeCall.now ChallengeCall.visible where
  rel := SameLive
  mono := fun _ _ _ _ hlater h => h.later hlater
  reply := by
    intro p q call hvisible h
    cases call with
    | issue inp did => rfl
    | peek challengeId now => exact congrArg ChallengeOutcome.nonce (h.peek challengeId)
    | consume challengeId now =>
      apply congrArg ChallengeOutcome.nonce
      -- `consume` finds what `peek` finds
      rw [← peek_eq_consume, ← peek_eq_consume]
      exact h.peek challengeId
    | cleanupExpired now => cases hvisible
  both := by
    intro p q call hvisible h
    cases call with
    | issue inp did => exact h.issue inp did
    | peek challengeId now => exact h
    | consume challengeId now =>
      unfold machine
      dsimp only
      rw [consume_pending, consume_pending]
      exact h.remove challengeId
    | cleanupExpired now => cases hvisible
  alone := by
    intro p q call hvisible h
    cases call with
    | cleanupExpired now => exact h.cleanupExpired
    | _ => cases hvisible

/-- While the clock does not go back, the calls of a run get the replies that they get in
the run without its cleanups. A cleanup takes out what has expired, and nothing else. -/
theorem cleanup_invisible (calls : List ChallengeCall)
    (hclock : (calls.map ChallengeCall.now).Pairwise (· ≤ ·)) :
    (∀ pending, machine.observed ChallengeCall.visible pending calls =
      machine.replies pending (calls.filter ChallengeCall.visible)) ∧
    ∀ now pending,
      (∀ challengeId entry, cleanupExpired now pending challengeId = some entry →
        ¬entry.expiresAt < now) ∧
      ∀ challengeId entry, pending challengeId = some entry → entry.expiresAt ≥ now →
        cleanupExpired now pending challengeId = some entry := by
  refine ⟨?_, ?_⟩
  · intro pending
    exact cleanupUnnoticed.observed_eq calls hclock pending pending (fun _ _ => rfl)
  · intro now pending
    constructor
    · intro challengeId entry h
      exact not_lt.mpr ((cleanupExpired_some now pending challengeId entry).mp h).2
    · intro challengeId entry hentry hlive
      exact (cleanupExpired_some now pending challengeId entry).mpr ⟨hentry, hlive⟩

/-- A cleanup at the very instant a challenge expires, and one after it. -/
def boundaryCalls : List ChallengeCall :=
  let nonce : Token 32 := ⟨List.replicate 32 7, rfl⟩
  [.issue ⟨nonce, "c", 0⟩ "a", .cleanupExpired 30, .peek "c" 30, .consume "c" 30,
    .issue ⟨nonce, "d", 30⟩ "a", .cleanupExpired 61, .consume "d" 61]

theorem cleanup_invisible_boundary :
    machine.observed ChallengeCall.visible (fun _ => none) boundaryCalls =
      machine.replies (fun _ => none) (boundaryCalls.filter ChallengeCall.visible) ∧
    (boundaryCalls.map ChallengeCall.now).Pairwise (· ≤ ·) := by
  have hclock : (boundaryCalls.map ChallengeCall.now).Pairwise (· ≤ ·) := by
    simp only [boundaryCalls, List.map_cons, List.map_nil, ChallengeCall.now]
    norm_num
  exact ⟨(cleanup_invisible boundaryCalls hclock).1 _, hclock⟩

end ChallengeManager

end DecentralizedIDP
