import DecentralizedIDP.FoundationsTickets
import DecentralizedIDP.NodePBFT

/-! One round over time: messages arrive and commits are tried in any order, and what
was committed once is committed again. -/
namespace DecentralizedIDP
open Foundations

/-- The calls on a round. -/
inductive RoundCall where
  | addPrepareMessage (proof : PartialProof)
  | tryCommit

namespace RoundCall

def step (r : PBFTRound) : RoundCall → PBFTRound
  | addPrepareMessage proof => r.addPrepareMessage proof
  | tryCommit => r.tryCommit.2

/-- The message that a call delivers. -/
def message : RoundCall → Option PartialProof
  | addPrepareMessage proof => some proof
  | tryCommit => none

/-- The messages of a sequence of calls, in the order of their arrival. -/
def messages (calls : List RoundCall) : List PartialProof := calls.filterMap message

end RoundCall

/-- The round after some calls on a new one. -/
def roundAfter (roundId : String) (n f : ℕ) (calls : List RoundCall) : PBFTRound :=
  run RoundCall.step (PBFTRound.new roundId n f) calls

namespace PBFTRound

theorem tryCommit_frame (r : PBFTRound) :
    r.tryCommit.2.prepareMessages = r.prepareMessages ∧ r.tryCommit.2.quorum = r.quorum := by
  rw [tryCommit]
  cases majorityPair r.prepareMessages with
  | none => exact ⟨rfl, rfl⟩
  | some pair =>
    dsimp only
    split_ifs
    · exact ⟨rfl, rfl⟩
    · exact ⟨rfl, rfl⟩

end PBFTRound

section Round
variable (roundId : String) (n f : ℕ)

/-- Trying to commit never touches the messages. -/
theorem roundAfter_messages (calls : List RoundCall) :
    (roundAfter roundId n f calls).prepareMessages =
        keepFirst PartialProof.nodeId (RoundCall.messages calls) ∧
      (roundAfter roundId n f calls).quorum = 2*f+1 := by
  refine run_history RoundCall.step (fun past r =>
    r.prepareMessages = keepFirst PartialProof.nodeId (RoundCall.messages past) ∧
      r.quorum = 2*f+1) ?_ _ ⟨rfl, rfl⟩ calls
  intro past r call h
  obtain ⟨hmessages, hquorum⟩ := h
  rw [RoundCall.messages, List.filterMap_append, ← RoundCall.messages]
  cases call with
  | addPrepareMessage proof =>
    refine ⟨?_, hquorum⟩
    calc (r.addPrepareMessage proof).prepareMessages
        = keepNew PartialProof.nodeId r.prepareMessages proof := rfl
      _ = keepNew PartialProof.nodeId
            (keepFirst PartialProof.nodeId (RoundCall.messages past)) proof := by rw [hmessages]
      _ = keepFirst PartialProof.nodeId (RoundCall.messages past ++ [proof]) :=
          (keepFirst_snoc _ _ _).symm
  | tryCommit =>
    -- a try only sets the result and the flag
    have hframe := r.tryCommit_frame
    refine ⟨?_, hframe.2.trans hquorum⟩
    exact hframe.1.trans (hmessages.trans (congrArg _ (List.append_nil _).symm))

/-- How many different nodes the messages claim to come from. -/
def distinctIds (calls : List RoundCall) : ℕ :=
  ((RoundCall.messages calls).map PartialProof.nodeId).toFinset.card

theorem roundAfter_few (calls : List RoundCall) (hids : distinctIds calls ≤ 4*f+1) :
    (roundAfter roundId n f calls).prepareMessages.length <
      2*(roundAfter roundId n f calls).quorum := by
  obtain ⟨hmessages, hquorum⟩ := roundAfter_messages roundId n f calls
  rw [hmessages, hquorum, keepFirst_length]
  rw [distinctIds] at hids
  omega

theorem distinctIds_append (calls later : List RoundCall) :
    distinctIds calls ≤ distinctIds (calls ++ later) := by
  apply Finset.card_le_card
  intro k hk
  rw [List.mem_toFinset] at hk ⊢
  rw [RoundCall.messages, List.filterMap_append, List.map_append]
  exact List.mem_append_left _ hk

/-- A quorum stays a quorum, and its messages stay in front. -/
theorem roundAfter_append (calls later : List RoundCall) (pair : String × ℤ) :
    ∃ new, (roundAfter roundId n f (calls ++ later)).prepareMessages.filter (carries pair) =
      (roundAfter roundId n f calls).prepareMessages.filter (carries pair) ++ new := by
  rw [(roundAfter_messages roundId n f (calls ++ later)).1,
    (roundAfter_messages roundId n f calls).1, RoundCall.messages, List.filterMap_append]
  obtain ⟨new, hnew⟩ := keepFirst_append PartialProof.nodeId (RoundCall.messages calls)
    (RoundCall.messages later)
  exact ⟨new.filter (carries pair), by rw [← List.filter_append, ← hnew]; rfl⟩

/-- Of the messages that came in, the first one with each `node_id`, in their order. -/
structure Retains (messages retained : List PartialProof) : Prop where
  arrival : retained.Sublist messages
  ids : (retained.map PartialProof.nodeId).Nodup
  first : ∀ proof, proof ∈ retained ↔
    messages.find? (fun other => other.nodeId = proof.nodeId) = some proof

/-- Trying to commit keeps the messages with this pair as the result and returns the
first threshold of them. -/
structure Commits (r : PBFTRound) (pair : String × ℤ) (returned : List PartialProof) : Prop where
  returns : r.tryCommit.1 = some returned
  committed : r.tryCommit.2.committed = true
  result : r.tryCommit.2.result = some (r.prepareMessages.filter (carries pair))
  first : returned = (r.prepareMessages.filter (carries pair)).take threshold
  length : returned.length = threshold
  ids : (returned.map PartialProof.nodeId).Nodup

theorem retains_roundAfter (calls : List RoundCall) :
    Retains (RoundCall.messages calls) (roundAfter roundId n f calls).prepareMessages := by
  rw [(roundAfter_messages roundId n f calls).1]
  constructor
  · exact keepFirst_sublist _ _
  · exact keepFirst_keys_nodup _ _
  · exact mem_keepFirst _ _

theorem commits_roundAfter (hf : 1 ≤ f) (calls : List RoundCall)
    (hids : distinctIds calls ≤ 4*f+1) (pair : String × ℤ)
    (hpair : 2*f+1 ≤ (roundAfter roundId n f calls).prepareMessages.countP (carries pair)) :
    Commits (roundAfter roundId n f calls) pair
      (((roundAfter roundId n f calls).prepareMessages.filter (carries pair)).take threshold) := by
  have hquorum := (roundAfter_messages roundId n f calls).2
  have hnodup := (retains_roundAfter roundId n f calls).ids
  have htry := (roundAfter roundId n f calls).tryCommit_of_quorum
    (roundAfter_few roundId n f calls hids) pair (by rw [hquorum]; exact hpair)
  have hsub := (List.take_sublist threshold _).trans
    (List.filter_sublist (p := carries pair)
      (l := (roundAfter roundId n f calls).prepareMessages))
  constructor
  · rw [htry]
  · rw [htry]
  · rw [htry]
  · rfl
  · rw [List.length_take, ← List.countP_eq_length_filter, threshold]
    omega
  · exact hnodup.sublist (hsub.map _)

/-- Later calls leave the messages that a quorum has committed. -/
theorem commits_append (hf : 1 ≤ f) (calls later : List RoundCall)
    (hids : distinctIds (calls ++ later) ≤ 4*f+1) (pair : String × ℤ)
    (hpair : 2*f+1 ≤ (roundAfter roundId n f calls).prepareMessages.countP (carries pair)) :
    Commits (roundAfter roundId n f (calls ++ later)) pair
      (((roundAfter roundId n f calls).prepareMessages.filter (carries pair)).take threshold) := by
  -- the quorum is still there later, with the same messages in front
  obtain ⟨new, hnew⟩ := roundAfter_append roundId n f calls later pair
  have hlater : 2*f+1 ≤
      (roundAfter roundId n f (calls ++ later)).prepareMessages.countP (carries pair) := by
    rw [List.countP_eq_length_filter, hnew, List.length_append, ← List.countP_eq_length_filter]
    omega
  have hthreshold : threshold ≤
      ((roundAfter roundId n f calls).prepareMessages.filter (carries pair)).length := by
    rw [← List.countP_eq_length_filter, threshold]
    omega
  have hcommits := commits_roundAfter roundId n f hf (calls ++ later) hids pair hlater
  rwa [hnew, List.take_append_of_le_length hthreshold] at hcommits

/-- With at most `4f+1` nodes, a round commits exactly when a quorum of the retained
messages carries one pair, and every later try commits to that pair and returns the
same messages. -/
theorem commit_iff_and_stable (hf : 1 ≤ f) (calls later : List RoundCall)
    (hids : distinctIds (calls ++ later) ≤ 4*f+1) :
    Retains (RoundCall.messages calls) (roundAfter roundId n f calls).prepareMessages ∧
    ((∃ returned, (roundAfter roundId n f calls).tryCommit.1 = some returned) ↔
      ∃ pair, 2*f+1 ≤ (roundAfter roundId n f calls).prepareMessages.countP (carries pair)) ∧
    ∀ pair, 2*f+1 ≤ (roundAfter roundId n f calls).prepareMessages.countP (carries pair) →
      ∃ returned, Commits (roundAfter roundId n f calls) pair returned ∧
        Commits (roundAfter roundId n f (calls ++ later)) pair returned := by
  have hids' := (distinctIds_append calls later).trans hids
  have hquorum := (roundAfter_messages roundId n f calls).2
  refine ⟨retains_roundAfter roundId n f calls, ?_, fun pair hpair => ?_⟩
  · rw [← hquorum]
    exact PBFTRound.tryCommit_isSome_iff _ (roundAfter_few roundId n f calls hids')
  · exact ⟨_, commits_roundAfter roundId n f hf calls hids' pair hpair,
      commits_append roundId n f hf calls later hids pair hpair⟩

end Round

/-- Three messages with one pair, a try, a fourth message under a used id, a late one. -/
def sampleCalls : List RoundCall :=
  [.addPrepareMessage ⟨1, 1, 5, 9, "a"⟩, .addPrepareMessage ⟨2, 2, 6, 9, "a"⟩,
    .addPrepareMessage ⟨3, 3, 7, 9, "a"⟩, .tryCommit, .addPrepareMessage ⟨1, 1, 5, 8, "b"⟩]

theorem commit_iff_and_stable_sample : ∃ returned,
    Commits (roundAfter "r" 5 1 sampleCalls) ("a", 9) returned ∧
      Commits (roundAfter "r" 5 1 (sampleCalls ++ [.addPrepareMessage ⟨4, 4, 8, 8, "b"⟩]))
        ("a", 9) returned :=
  (commit_iff_and_stable "r" 5 1 le_rfl sampleCalls [.addPrepareMessage ⟨4, 4, 8, 8, "b"⟩]
    (by decide)).2.2 ("a", 9) (by decide)

end DecentralizedIDP
