import DecentralizedIDP.CryptoPrimitives

/-! Single-use challenge nonces. Times are rationals; the double in which the program
keeps `expires_at` is taken to be exact. -/
namespace DecentralizedIDP
open Foundations

structure Challenge where
  nonce : Token 32
  did : String
  expiresAt : ℚ

/-- `_pending`, by challenge id. -/
abbrev Pending := String → Option Challenge

/-- What one call of `issue` draws, and the clock it reads. -/
structure ChallengeInputs where
  nonce : Token 32
  challengeId : String
  now : ℚ

structure ChallengeReply where
  challengeId : String
  nonce : String
  expiresIn : ℕ
  deriving DecidableEq, Repr

namespace ChallengeManager

def issue (inp : ChallengeInputs) (did : String) (pending : Pending) : ChallengeReply × Pending :=
  ({ challengeId := inp.challengeId, nonce := hex inp.nonce, expiresIn := challengeTtlSeconds },
   fun cid => if cid = inp.challengeId then
      some { nonce := inp.nonce, did := did, expiresAt := inp.now+challengeTtlSeconds }
    else pending cid)

def peek (challengeId : String) (now : ℚ) (pending : Pending) : Option Bytes :=
  match pending challengeId with
  | none => none
  | some entry => if now > entry.expiresAt then none else some entry.nonce.val

def remove (challengeId : String) (pending : Pending) : Pending :=
  fun cid => if cid = challengeId then none else pending cid

def consume (challengeId : String) (now : ℚ) (pending : Pending) : Option Bytes × Pending :=
  match pending challengeId with
  | none => (none, pending)
  | some entry =>
    -- expired or not, the challenge is taken out
    if now > entry.expiresAt then (none, remove challengeId pending)
    else (some entry.nonce.val, remove challengeId pending)

def cleanupExpired (now : ℚ) (pending : Pending) : Pending :=
  -- strict, as in `peek` and `consume`: at `expires_at` itself it is still live
  fun cid => (pending cid).filter (fun entry => !decide (entry.expiresAt < now))

/-- A consumed nonce is that of a pending challenge that has not expired. -/
theorem consume_some (challengeId : String) (now : ℚ) (pending : Pending) (nonce : Bytes)
    (h : (consume challengeId now pending).1 = some nonce) :
    ∃ entry, pending challengeId = some entry ∧ now ≤ entry.expiresAt ∧ nonce = entry.nonce := by
  rw [consume] at h
  split at h
  · cases h
  · next entry hentry =>
    split_ifs at h with hexpired
    · exact ⟨entry, hentry, not_lt.mp hexpired, (Option.some.inj h).symm⟩

theorem consume_live (challengeId : String) (now : ℚ) (pending : Pending) (entry : Challenge)
    (hentry : pending challengeId = some entry) (hlive : now ≤ entry.expiresAt) :
    consume challengeId now pending = (some entry.nonce.val, remove challengeId pending) := by
  rw [consume, hentry]
  exact if_neg (not_lt.mpr hlive)

/-- Consuming takes out the challenge asked for, and nothing else. -/
theorem consume_pending (challengeId : String) (now : ℚ) (pending : Pending) :
    (consume challengeId now pending).2 = remove challengeId pending := by
  rw [consume]
  split
  · next hnone =>
    funext cid
    dsimp only [remove]
    split_ifs with h
    · rw [h, hnone]
    · rfl
  · split_ifs <;> rfl

theorem peek_eq_consume (challengeId : String) (now : ℚ) (pending : Pending) :
    peek challengeId now pending = (consume challengeId now pending).1 := by
  rw [peek, consume]
  cases pending challengeId with
  | none => rfl
  | some entry =>
    simp only []
    split_ifs <;> rfl

/-- A challenge that cannot be peeked at cannot be consumed later. -/
theorem consume_of_peek_none (challengeId : String) (now later : ℚ) (pending : Pending)
    (hpeek : peek challengeId now pending = none) (hlater : now ≤ later) :
    (consume challengeId later pending).1 = none := by
  rw [peek_eq_consume] at hpeek
  by_contra hsome
  obtain ⟨nonce, hnonce⟩ := Option.ne_none_iff_exists'.mp hsome
  obtain ⟨entry, hentry, hlive, -⟩ := consume_some challengeId later pending nonce hnonce
  rw [consume_live challengeId now pending entry hentry (hlater.trans hlive)] at hpeek
  cases hpeek

end ChallengeManager

end DecentralizedIDP
