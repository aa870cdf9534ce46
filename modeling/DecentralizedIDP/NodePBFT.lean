import DecentralizedIDP.FoundationsVoting
import DecentralizedIDP.NodePartialProof

/-! One consensus round over the proofs that arrived: a vote on the challenge hash,
then on `H`, and a commit when a quorum carries both. -/
namespace DecentralizedIDP
open Foundations

/-- The most common challenge hash, and the most common `H` among the proofs that
carry it. -/
def majorityPair (proofs : List PartialProof) : Option (String × ℤ) := do
  let majorityHash ← mostCommon (proofs.map (fun p => p.challengeHash))
  -- `H` is voted on among these only: a node can send the right hash with a wrong `H`
  let candidates := proofs.filter (fun p => p.challengeHash == majorityHash)
  let majorityH ← mostCommon (candidates.map (fun p => p.H))
  return (majorityHash, majorityH)

def carries (pair : String × ℤ) (p : PartialProof) : Bool :=
  p.challengeHash == pair.1 && p.H == pair.2

structure PBFTRound where
  roundId : String
  n : ℕ
  f : ℕ
  quorum : ℕ
  prepareMessages : List PartialProof
  committed : Bool
  result : Option (List PartialProof)

namespace PBFTRound

def new (roundId : String) (n f : ℕ) : PBFTRound where
  roundId := roundId
  n := n
  f := f
  quorum := 2*f+1
  prepareMessages := []
  committed := false
  result := none

def addPrepareMessage (r : PBFTRound) (proof : PartialProof) : PBFTRound :=
  -- the first message under an id counts, whoever sent it
  { r with prepareMessages := keepNew PartialProof.nodeId r.prepareMessages proof }

def tryCommit (r : PBFTRound) : Option (List PartialProof) × PBFTRound :=
  match majorityPair r.prepareMessages with
  | none => (none, r)
  | some pair =>
    let accepted := r.prepareMessages.filter (carries pair)
    if r.quorum ≤ accepted.length then
      (some (accepted.take threshold), { r with committed := true, result := some accepted })
    else (none, r)

end PBFTRound

def pbftRound (roundId : String) (partialProofs : List PartialProof) : PBFTRound :=
  partialProofs.foldl PBFTRound.addPrepareMessage (PBFTRound.new roundId nNodes fNodes)

def runPbftRound (roundId : String) (partialProofs : List PartialProof) :
    Option (List PartialProof) :=
  (pbftRound roundId partialProofs).tryCommit.1

/-- The proofs kept and accepted by the round, all of them. -/
def pbftAccepted (roundId : String) (partialProofs : List PartialProof) : List PartialProof :=
  ((pbftRound roundId partialProofs).tryCommit.2.result).getD []

theorem pbftRound_fold (r : PBFTRound) (proofs : List PartialProof) :
    proofs.foldl PBFTRound.addPrepareMessage r =
      { r with
        prepareMessages := proofs.foldl (keepNew PartialProof.nodeId) r.prepareMessages } := by
  induction proofs generalizing r with
  | nil => rfl
  | cons p proofs ih => rw [List.foldl_cons, ih, PBFTRound.addPrepareMessage, List.foldl_cons]

/-- The messages of a round are the first proofs with each `node_id`. -/
theorem pbftRound_eq (roundId : String) (proofs : List PartialProof) :
    pbftRound roundId proofs =
      { PBFTRound.new roundId nNodes fNodes with
        prepareMessages := keepFirst PartialProof.nodeId proofs } :=
  pbftRound_fold _ proofs

/-! ## The vote -/

theorem filter_carries (proofs : List PartialProof) (pair : String × ℤ) :
    (proofs.filter (fun p => p.challengeHash == pair.1)).countP (fun p => p.H == pair.2) =
      proofs.countP (carries pair) := by
  rw [List.countP_filter]
  apply List.countP_congr
  intro p _
  simp only [carries, Bool.and_eq_true, beq_iff_eq, and_comm]

/-- A pair carried by more than half of the proofs wins the vote. -/
theorem majorityPair_of_majority (proofs : List PartialProof) (pair : String × ℤ)
    (h : proofs.length < 2*proofs.countP (carries pair)) : majorityPair proofs = some pair := by
  have hle : proofs.countP (carries pair) ≤
      proofs.countP (fun p => p.challengeHash == pair.1) := by
    -- the pair brings its hash along, so the hash has a majority too
    apply List.countP_mono_left
    intro p _ hp
    exact (Bool.and_eq_true_iff.mp hp).1
  have hhash : mostCommon (proofs.map (fun p => p.challengeHash)) = some pair.1 := by
    apply mostCommon_of_majority
    rw [List.length_map, List.count, List.countP_map]
    exact h.trans_le (Nat.mul_le_mul_left 2 hle)
  have hH : mostCommon ((proofs.filter (fun p => p.challengeHash == pair.1)).map
      (fun p => p.H)) = some pair.2 := by
    apply mostCommon_of_majority
    rw [List.length_map, List.count, List.countP_map]
    exact lt_of_le_of_lt (List.length_filter_le _ _) (h.trans_eq (by
      rw [← filter_carries]
      rfl))
  simp only [majorityPair, hhash, Option.bind_eq_bind, Option.bind_some, hH, Option.pure_def]

/-- The vote in terms of the ballots: the hash wins, and then `H` among its proofs. -/
theorem majorityPair_eq_some_iff (proofs : List PartialProof) (pair : String × ℤ) :
    majorityPair proofs = some pair ↔
      Wins (proofs.map (fun p => p.challengeHash)) pair.1 ∧
      Wins ((proofs.filter (fun p => p.challengeHash == pair.1)).map (fun p => p.H)) pair.2 := by
  rw [← mostCommon_eq_some_iff, ← mostCommon_eq_some_iff]
  constructor
  · intro h
    simp only [majorityPair, Option.bind_eq_bind, Option.bind_eq_some_iff, Option.pure_def,
      Option.some.injEq] at h
    obtain ⟨majorityHash, hhash, majorityH, hH, rfl⟩ := h
    exact ⟨hhash, hH⟩
  · rintro ⟨hhash, hH⟩
    simp only [majorityPair, hhash, Option.bind_eq_bind, Option.bind_some, hH, Option.pure_def]

theorem majorityPair_eq_none (proofs : List PartialProof) :
    majorityPair proofs = none ↔ proofs = [] := by
  constructor
  · intro h
    by_contra hne
    cases hhash : mostCommon (proofs.map (fun p => p.challengeHash)) with
    | none =>
      rw [mostCommon_eq_none, List.map_eq_nil_iff] at hhash
      exact hne hhash
    | some majorityHash =>
      -- the winning hash is carried by some proof, so the vote on `H` has a ballot
      obtain ⟨p, hp, hpeq⟩ := List.mem_map.mp (mostCommon_spec _ _ hhash).1
      have hcand : p ∈ proofs.filter (fun q => q.challengeHash == majorityHash) :=
        List.mem_filter.mpr ⟨hp, by simpa using hpeq⟩
      simp only [majorityPair, hhash, Option.bind_eq_bind, Option.bind_some, Option.pure_def,
        Option.bind_eq_none_iff, reduceCtorEq, imp_false] at h
      have hnone : mostCommon ((proofs.filter (fun q => q.challengeHash == majorityHash)).map
          (fun q => q.H)) = none := Option.eq_none_iff_forall_ne_some.mpr h
      rw [mostCommon_eq_none, List.map_eq_nil_iff] at hnone
      rw [hnone] at hcand
      cases hcand
  · rintro rfl
    rfl

/-! ## The commit -/

namespace PBFTRound
variable (r : PBFTRound)

/-- A pair carried by a quorum of the messages, when there are few enough of them for
two quorums to overlap, is the one that the round commits to. -/
theorem tryCommit_of_quorum (hlen : r.prepareMessages.length < 2*r.quorum) (pair : String × ℤ)
    (hpair : r.quorum ≤ r.prepareMessages.countP (carries pair)) :
    r.tryCommit = (some ((r.prepareMessages.filter (carries pair)).take threshold),
      { r with committed := true, result := some (r.prepareMessages.filter (carries pair)) }) := by
  have hmajority : majorityPair r.prepareMessages = some pair := by
    apply majorityPair_of_majority
    omega
  rw [List.countP_eq_length_filter] at hpair
  rw [tryCommit, hmajority]
  exact if_pos hpair

theorem tryCommit_some (accepted : List PartialProof) (h : r.tryCommit.1 = some accepted) :
    ∃ pair, r.quorum ≤ r.prepareMessages.countP (carries pair) := by
  rw [tryCommit] at h
  cases hmajority : majorityPair r.prepareMessages with
  | none =>
    rw [hmajority] at h
    cases h
  | some pair =>
    simp only [hmajority] at h
    split_ifs at h with hquorum
    exact ⟨pair, by rwa [List.countP_eq_length_filter]⟩

theorem tryCommit_isSome_iff (hlen : r.prepareMessages.length < 2*r.quorum) :
    (∃ accepted, r.tryCommit.1 = some accepted) ↔
      ∃ pair, r.quorum ≤ r.prepareMessages.countP (carries pair) := by
  constructor
  · rintro ⟨accepted, h⟩
    exact r.tryCommit_some accepted h
  · rintro ⟨pair, hpair⟩
    exact ⟨_, congrArg Prod.fst (r.tryCommit_of_quorum hlen pair hpair)⟩

end PBFTRound

/-- A quorum of the proofs, one for each `node_id`, carries the pair. -/
def HasQuorum (proofs : List PartialProof) (pair : String × ℤ) : Prop :=
  2*fNodes+1 ≤ (keepFirst PartialProof.nodeId proofs).countP (carries pair)

/-- Among at most five proofs, the pair of a quorum wins the vote over all of them too. -/
theorem majorityPair_of_quorum (proofs : List PartialProof) (hlen : proofs.length ≤ nNodes)
    (pair : String × ℤ) (h : HasQuorum proofs pair) : majorityPair proofs = some pair := by
  have hle := (keepFirst_sublist PartialProof.nodeId proofs).countP_le (p := carries pair)
  rw [HasQuorum, fNodes] at h
  rw [nNodes] at hlen
  apply majorityPair_of_majority
  omega

theorem runPbftRound_isSome_iff (roundId : String) (proofs : List PartialProof)
    (hlen : proofs.length ≤ nNodes) :
    (∃ accepted, runPbftRound roundId proofs = some accepted) ↔
      ∃ pair, HasQuorum proofs pair := by
  have hkept := (keepFirst_sublist PartialProof.nodeId proofs).length_le
  rw [runPbftRound, pbftRound_eq]
  apply PBFTRound.tryCommit_isSome_iff
  simp only [PBFTRound.new, fNodes]
  rw [nNodes] at hlen
  omega

theorem runPbftRound_of_quorum (roundId : String) (proofs : List PartialProof)
    (pair : String × ℤ)
    (hmajority : majorityPair (keepFirst PartialProof.nodeId proofs) = some pair)
    (hquorum : 3 ≤ (keepFirst PartialProof.nodeId proofs).countP (carries pair)) :
    ∃ accepted, runPbftRound roundId proofs = some accepted := by
  rw [runPbftRound, pbftRound_eq, PBFTRound.tryCommit]
  simp only [hmajority]
  rw [if_pos (by rw [← List.countP_eq_length_filter]; exact hquorum)]
  exact ⟨_, rfl⟩

/-- What a round accepts: kept proofs with the pair that wins among those kept, when
these are a quorum. -/
theorem mem_pbftAccepted (roundId : String) (proofs : List PartialProof) (proof : PartialProof) :
    proof ∈ pbftAccepted roundId proofs ↔ ∃ pair,
      majorityPair (keepFirst PartialProof.nodeId proofs) = some pair ∧
      3 ≤ (keepFirst PartialProof.nodeId proofs).countP (carries pair) ∧
      proof ∈ keepFirst PartialProof.nodeId proofs ∧ carries pair proof = true := by
  rw [pbftAccepted, pbftRound_eq, PBFTRound.tryCommit]
  cases hpair : majorityPair (keepFirst PartialProof.nodeId proofs) with
  | none => simp [PBFTRound.new]
  | some pair =>
    simp only [Option.some.injEq, exists_eq_left']
    rw [List.countP_eq_length_filter]
    split_ifs with hquorum
    · simp only [PBFTRound.new, fNodes] at hquorum
      simp only [Option.getD_some, List.mem_filter]
      exact ⟨fun h => ⟨hquorum, h⟩, fun h => h.2⟩
    · simp only [PBFTRound.new, fNodes] at hquorum
      simp only [PBFTRound.new, Option.getD_none, List.not_mem_nil, false_iff]
      exact fun h => hquorum h.1

/-- Fewer than a quorum of proofs never commit. -/
theorem runPbftRound_of_few (roundId : String) (proofs : List PartialProof)
    (h : proofs.length < threshold) : runPbftRound roundId proofs = none := by
  have hlen := (keepFirst_sublist PartialProof.nodeId proofs).length_le
  rw [runPbftRound, pbftRound_eq, PBFTRound.tryCommit]
  cases hpair : majorityPair (keepFirst PartialProof.nodeId proofs) with
  | none => rfl
  | some pair =>
    simp only []
    rw [if_neg]
    -- the winner is carried by no more proofs than there are
    have hfilter := List.length_filter_le (carries pair) (keepFirst PartialProof.nodeId proofs)
    simp only [PBFTRound.new, fNodes, threshold] at *
    omega

end DecentralizedIDP
