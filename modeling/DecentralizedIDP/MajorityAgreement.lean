import DecentralizedIDP.AuthenticationEffects

/-! The vote that a round commits to and the vote that authentication counts again over
all the proofs, duplicates included. -/
namespace DecentralizedIDP
open Foundations

/-- A round that commits on few enough proofs has found a quorum with one pair among
those it kept, and its result is all of them. -/
theorem runPbftRound_commit (id : String) (proofs returned : List PartialProof)
    (hlen : proofs.length ≤ nNodes) (hcommit : runPbftRound id proofs = some returned) :
    ∃ pair, HasQuorum proofs pair ∧
      (pbftRound id proofs).tryCommit.2.result =
        some ((keepFirst PartialProof.nodeId proofs).filter (carries pair)) ∧
      returned = ((keepFirst PartialProof.nodeId proofs).filter (carries pair)).take threshold := by
  have hkept := (keepFirst_sublist PartialProof.nodeId proofs).length_le
  rw [runPbftRound] at hcommit
  obtain ⟨pair, hquorum⟩ := PBFTRound.tryCommit_some _ returned hcommit
  rw [pbftRound_eq] at hcommit hquorum ⊢
  -- five messages are too few for two quorums that do not overlap
  have hcommitted := PBFTRound.tryCommit_of_quorum _ (by
    simp only [PBFTRound.new, fNodes]
    rw [nNodes] at hlen
    omega) pair hquorum
  rw [hcommitted] at hcommit ⊢
  exact ⟨pair, hquorum, rfl, (Option.some.inj hcommit).symm⟩

/-- A quorum of the proofs that were kept is a majority of them. -/
theorem majorityPair_kept_of_quorum (proofs : List PartialProof) (hlen : proofs.length ≤ nNodes)
    (pair : String × ℤ) (h : HasQuorum proofs pair) :
    majorityPair (keepFirst PartialProof.nodeId proofs) = some pair := by
  have hkept := (keepFirst_sublist PartialProof.nodeId proofs).length_le
  rw [HasQuorum, fNodes] at h
  rw [nNodes] at hlen
  apply majorityPair_of_majority
  omega

/-- When a round commits, its pair is the one that wins among all the proofs, and what
it accepted is searched, in the same order. -/
theorem majority_filters_agree (id : String) (proofs returned : List PartialProof)
    (hlen : proofs.length ≤ nNodes) (hcommit : runPbftRound id proofs = some returned) :
    ∃ pair accepted, majorityPair (pbftRound id proofs).prepareMessages = some pair ∧
      accepted = (pbftRound id proofs).prepareMessages.filter (carries pair) ∧
      (pbftRound id proofs).tryCommit.2.result = some accepted ∧
      returned = accepted.take threshold ∧
      majorityPair proofs = some pair ∧
      cleanProofs proofs returned = proofs.filter (carries pair) ∧
      accepted.Sublist (cleanProofs proofs returned) ∧
      ∀ subset : List PartialProof, subset.Sublist accepted → subset.length = threshold →
        subset ∈ combinations threshold (cleanProofs proofs returned) := by
  obtain ⟨pair, hquorum, hresult, hreturned⟩ := runPbftRound_commit id proofs returned hlen hcommit
  have hmajority := majorityPair_of_quorum proofs hlen pair hquorum
  have hclean := cleanProofs_of_majority proofs returned pair hmajority
  have hsub : ((keepFirst PartialProof.nodeId proofs).filter (carries pair)).Sublist
      (cleanProofs proofs returned) := by
    rw [hclean]
    exact (keepFirst_sublist _ _).filter _
  have hmessages : (pbftRound id proofs).prepareMessages =
      keepFirst PartialProof.nodeId proofs := by rw [pbftRound_eq]
  refine ⟨pair, _, ?_, by rw [hmessages], hresult, hreturned, hmajority, hclean, hsub, ?_⟩
  · rw [hmessages]
    exact majorityPair_kept_of_quorum proofs hlen pair hquorum
  · intro subset hsubset hthreshold
    exact (mem_combinations _ _ _).mpr ⟨hsubset.trans hsub, hthreshold⟩

/-- The second node answers twice, the second time with another `H`, and the fourth with
another hash. -/
def duelProofs : List PartialProof :=
  [⟨1, 1, 4, 9, "ab"⟩, ⟨2, 2, 5, 9, "ab"⟩, ⟨2, 2, 5, 8, "ab"⟩, ⟨4, 4, 6, 9, "cd"⟩,
    ⟨3, 3, 7, 9, "ab"⟩]

theorem majority_filters_agree_duel :
    ∃ pair accepted, majorityPair (pbftRound "r" duelProofs).prepareMessages = some pair ∧
      (pbftRound "r" duelProofs).tryCommit.2.result = some accepted ∧
      majorityPair duelProofs = some pair := by
  obtain ⟨pair, accepted, hkept, -, hresult, -, hall, -⟩ := majority_filters_agree "r" duelProofs
    [⟨1, 1, 4, 9, "ab"⟩, ⟨2, 2, 5, 9, "ab"⟩, ⟨3, 3, 7, 9, "ab"⟩] (by decide) (by decide)
  exact ⟨pair, accepted, hkept, hresult, hall⟩

end DecentralizedIDP
