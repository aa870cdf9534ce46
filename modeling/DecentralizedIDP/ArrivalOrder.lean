import DecentralizedIDP.AuditCompleteness

/-! Whether the order in which the proofs arrive can change the outcome of a request. -/
namespace DecentralizedIDP
open Foundations

/-- What a caller sees of an outcome: the status and reason, or that the call raised. -/
def outcomeOf : Except PyError AuthResult → Option (String × Option String)
  | .ok result => some (result.status, result.reason)
  | .error _ => none

/-- The call ends alike on these proofs in any two orders. -/
def OrderFree (prim : Primitives) (inp : AuthInputs) (did challengeId signatureHex : String)
    (proofs : List PartialProof) (s : System) : Prop :=
  ∀ first second : List PartialProof, first.Perm proofs → second.Perm proofs →
    outcomeOf (authenticate prim inp did challengeId signatureHex (some first) s).1 =
      outcomeOf (authenticate prim inp did challengeId signatureHex (some second) s).1

/-- Some threshold of the proofs opens the commitment. -/
def Opens (stored : Option Json) (clean : List PartialProof) : Prop :=
  ∃ subset, subset.Sublist clean ∧ subset.length = threshold ∧
    opensCommitment stored subset = .ok true

/-- The ids under which the pair was sent, and those under which nothing else was. -/
def heldIds (pair : String × ℤ) (proofs : List PartialProof) : Finset ℤ :=
  heldKeys PartialProof.nodeId (carries pair) proofs

def firmIds (pair : String × ℤ) (proofs : List PartialProof) : Finset ℤ :=
  firmKeys PartialProof.nodeId (carries pair) proofs

/-- The condition on the proofs: a pair sent under a quorum of ids has a quorum of ids
to itself, and its proofs do not both open the commitment and have congruent `x`. -/
def OrderProof (keys : Option SystemKeys) (stored : Option Json) (proofs : List PartialProof) :
    Prop :=
  ∀ pair, 2*fNodes+1 ≤ (heldIds pair proofs).card →
    2*fNodes+1 ≤ (firmIds pair proofs).card ∧
    (keys = none ∨
      ((proofs.filter (carries pair)).map (fun proof => (proof.x : ZMod P))).Nodup ∨
      ¬Opens stored (proofs.filter (carries pair)))

/-! ## The search in any order -/

section Search
variable (stored : Option Json)

theorem opensCommitment_perm (subset subset' : List PartialProof) (hperm : subset.Perm subset')
    (hlen : subset.length = threshold) (H : ℤ) (hH : ∀ proof ∈ subset, proof.H = H)
    (h : opensCommitment stored subset = .ok true) :
    opensCommitment stored subset' = .ok true := by
  rwa [opensCommitment, ← recover_perm P subset subset' hperm hlen.ge H hH, ← opensCommitment]

theorem opens_perm (clean clean' : List PartialProof) (hperm : clean.Perm clean') (H : ℤ)
    (hH : ∀ proof ∈ clean, proof.H = H) (h : Opens stored clean) : Opens stored clean' := by
  obtain ⟨subset, hsub, hlen, hopen⟩ := h
  obtain ⟨subset', hsame, hsub'⟩ := List.exists_perm_sublist hsub hperm
  refine ⟨subset', hsub', hsame.length_eq.trans hlen, ?_⟩
  exact opensCommitment_perm stored subset subset' hsame.symm hlen H
    (fun proof hproof => hH proof (hsub.subset hproof)) hopen

theorem opens_of_chosen (clean chosen : List PartialProof)
    (h : chooseSubset stored clean = .ok (some chosen)) : Opens stored clean :=
  ⟨chosen, chooseSubset_some stored clean chosen h⟩

/-- Without congruent `x` the search finds an opening, if there is one, and returns. -/
theorem chooseSubset_incongruent (clean : List PartialProof)
    (hx : (clean.map (fun proof => (proof.x : ZMod P))).Nodup) (hno : ¬Opens stored clean) :
    chooseSubset stored clean = .ok none := by
  apply (findFirst_eq_none _ _).mpr
  intro subset hsubset
  obtain ⟨hsub, hlen⟩ := (mem_combinations _ _ _).mp hsubset
  obtain ⟨hit, hhit⟩ := opensCommitment_returns stored subset hlen (hx.sublist (hsub.map _))
  cases hit with
  | true => exact absurd ⟨subset, hsub, hlen, hhit⟩ hno
  | false => exact hhit

/-- Two proofs with congruent `x` can be moved to the front, with a third behind them. -/
theorem exists_congruent_front (clean : List PartialProof) (hlen : threshold ≤ clean.length)
    (hx : ¬(clean.map (fun proof => (proof.x : ZMod P))).Nodup) :
    ∃ a b c rest, clean.Perm (a :: b :: c :: rest) ∧
      ¬([a, b, c].map (fun proof => (proof.x : ZMod P))).Nodup := by
  obtain ⟨a, b, rest, hperm, hab⟩ :=
    exists_perm_of_not_nodup (fun proof : PartialProof => (proof.x : ZMod P)) clean hx
  rw [hperm.length_eq, threshold] at hlen
  cases rest with
  | nil => simp at hlen
  | cons c rest =>
    refine ⟨a, b, c, rest, hperm, ?_⟩
    simp [hab]

/-- With congruent `x` and no opening the search raises. -/
theorem chooseSubset_congruent (clean : List PartialProof) (hlen : threshold ≤ clean.length)
    (hx : ¬(clean.map (fun proof => (proof.x : ZMod P))).Nodup) (hno : ¬Opens stored clean) :
    ∃ e, chooseSubset stored clean = .error e := by
  cases hchoose : chooseSubset stored clean with
  | error e => exact ⟨e, rfl⟩
  | ok found =>
    exfalso
    cases found with
    | some chosen => exact hno (opens_of_chosen stored clean chosen hchoose)
    | none =>
      -- every subset was tried, also one with the two congruent proofs
      obtain ⟨a, b, c, rest, hperm, hcongruent⟩ := exists_congruent_front clean hlen hx
      have hfirst : [a, b, c].Sublist (a :: b :: c :: rest) :=
        (((List.nil_sublist rest).cons_cons c).cons_cons b).cons_cons a
      obtain ⟨subset, hsame, hsub⟩ := List.exists_perm_sublist hfirst hperm.symm
      have htest := (findFirst_eq_none _ _).mp hchoose subset
        ((mem_combinations _ _ _).mpr ⟨hsub, hsame.length_eq⟩)
      rw [← (hsame.map _).nodup_iff] at hcongruent
      rw [opensCommitment_raises stored subset hsame.length_eq hcongruent] at htest
      cases htest

/-- An opening can be made to come first. -/
theorem exists_order_found (clean : List PartialProof) (h : Opens stored clean) :
    ∃ order chosen, order.Perm clean ∧ chooseSubset stored order = .ok (some chosen) := by
  obtain ⟨subset, hsub, hlen, hopen⟩ := h
  obtain ⟨rest, hperm⟩ := hsub.exists_perm_append
  match subset, hlen with
  | [a, b, c], hlen =>
    refine ⟨[a, b, c] ++ rest, [a, b, c], hperm.symm, ?_⟩
    obtain ⟨more, hmore⟩ := combinations_three_first a b c rest
    exact (findFirst_eq_some _ _ _).mpr ⟨[], more, hmore, by simp, hopen⟩

/-- So can a pair of congruent proofs. -/
theorem exists_order_raised (clean : List PartialProof) (hlen : threshold ≤ clean.length)
    (hx : ¬(clean.map (fun proof => (proof.x : ZMod P))).Nodup) :
    ∃ order e, order.Perm clean ∧ chooseSubset stored order = .error e := by
  obtain ⟨a, b, c, rest, hperm, hcongruent⟩ := exists_congruent_front clean hlen hx
  obtain ⟨more, hmore⟩ := combinations_three_first a b c rest
  obtain ⟨e, he⟩ := (chooseSubset_raises_iff stored (a :: b :: c :: rest)).mpr
    ⟨[], [a, b, c], more, hmore, by simp, hcongruent⟩
  exact ⟨a :: b :: c :: rest, e, hperm.symm, he⟩

end Search

/-! ## The search and the vote in any order -/

/-- What becomes of a search once the ledger takes the row. -/
def searchOutcome (keys : Option SystemKeys) :
    Except PyError (Option (List PartialProof)) → Option (String × Option String)
  | .error _ => none
  | .ok none => some ("failed", some "commitment_mismatch")
  | .ok (some _) => if keys = none then none else some ("success", none)

theorem searchOutcome_ne (keys : Option SystemKeys)
    (found : Except PyError (Option (List PartialProof))) :
    searchOutcome keys found ≠ some ("failed", some "quorum_not_reached") := by
  unfold searchOutcome
  split
  · simp
  · decide
  · split_ifs <;> decide

/-- Without system keys, a search among proofs with an opening ends in an exception. -/
theorem searchOutcome_keyless (stored : Option Json) (clean : List PartialProof)
    (h : Opens stored clean) : searchOutcome none (chooseSubset stored clean) = none := by
  cases hchoose : chooseSubset stored clean with
  | error e => rfl
  | ok found =>
    cases found with
    | some chosen => rfl
    | none =>
      obtain ⟨subset, hsub, hlen, hopen⟩ := h
      have htest := (findFirst_eq_none _ _).mp hchoose subset
        ((mem_combinations _ _ _).mpr ⟨hsub, hlen⟩)
      rw [hopen] at htest
      cases htest

/-- The search ends alike in every order, if openings and congruent `x` do not meet. -/
theorem searchOutcome_perm (keys : Option SystemKeys) (stored : Option Json)
    (clean clean' : List PartialProof) (hperm : clean.Perm clean')
    (hlen : threshold ≤ clean.length) (H : ℤ) (hH : ∀ proof ∈ clean, proof.H = H)
    (h : keys = none ∨ (clean.map (fun proof => (proof.x : ZMod P))).Nodup ∨
      ¬Opens stored clean) :
    searchOutcome keys (chooseSubset stored clean) =
      searchOutcome keys (chooseSubset stored clean') := by
  have hlen' : threshold ≤ clean'.length := hperm.length_eq ▸ hlen
  have hH' : ∀ proof ∈ clean', proof.H = H := fun proof hproof =>
    hH proof (hperm.mem_iff.mpr hproof)
  have hx := (hperm.map (fun proof : PartialProof => (proof.x : ZMod P))).nodup_iff
  by_cases hopens : Opens stored clean
  · have hopens' := opens_perm stored clean clean' hperm H hH hopens
    by_cases hnodup : (clean.map (fun proof => (proof.x : ZMod P))).Nodup
    · obtain ⟨chosen, hchosen⟩ := chooseSubset_of_hit stored clean hnodup hopens
      obtain ⟨chosen', hchosen'⟩ := chooseSubset_of_hit stored clean' (hx.mp hnodup) hopens'
      rw [hchosen, hchosen']
      rfl
    · -- without system keys a search that finds an opening raises as well
      obtain rfl : keys = none := by
        rcases h with h | h | h
        · exact h
        · exact absurd h hnodup
        · exact absurd hopens h
      rw [searchOutcome_keyless stored clean hopens, searchOutcome_keyless stored clean' hopens']
  · have hopens' : ¬Opens stored clean' := fun h' =>
      hopens (opens_perm stored clean' clean hperm.symm H hH' h')
    by_cases hnodup : (clean.map (fun proof => (proof.x : ZMod P))).Nodup
    · rw [chooseSubset_incongruent stored clean hnodup hopens,
        chooseSubset_incongruent stored clean' (hx.mp hnodup) hopens']
    · obtain ⟨e, he⟩ := chooseSubset_congruent stored clean hlen hnodup hopens
      obtain ⟨e', he'⟩ := chooseSubset_congruent stored clean' hlen'
        (fun h' => hnodup (hx.mpr h')) hopens'
      rw [he, he']
      rfl

/-- Two pairs are not both sent by a majority. -/
theorem pair_of_counts (proofs : List PartialProof) (hlen : proofs.length ≤ nNodes)
    (pair other : String × ℤ) (hpair : 2*fNodes+1 ≤ proofs.countP (carries pair))
    (hother : 2*fNodes+1 ≤ proofs.countP (carries other)) : pair = other := by
  rw [fNodes] at hpair hother
  rw [nNodes] at hlen
  have hwins := majorityPair_of_majority proofs pair (by omega)
  have hwins' := majorityPair_of_majority proofs other (by omega)
  exact Option.some.inj (hwins.symm.trans hwins')

theorem heldIds_card_le (pair : String × ℤ) (proofs : List PartialProof) :
    (heldIds pair proofs).card ≤ proofs.countP (carries pair) := by
  rw [heldIds, heldKeys, List.countP_eq_length_filter]
  exact (List.toFinset_card_le _).trans (List.length_map _).le

theorem carriers_of_held (pair : String × ℤ) (proofs : List PartialProof)
    (h : 2*fNodes+1 ≤ (heldIds pair proofs).card) :
    threshold ≤ (proofs.filter (carries pair)).length := by
  rw [← List.countP_eq_length_filter]
  exact h.trans (heldIds_card_le pair proofs)

/-- A quorum needs a quorum of ids, and has one if it has them to itself. -/
theorem held_of_quorum (proofs : List PartialProof) (pair : String × ℤ)
    (h : HasQuorum proofs pair) : 2*fNodes+1 ≤ (heldIds pair proofs).card :=
  h.trans (countP_keepFirst_le PartialProof.nodeId (carries pair) proofs)

theorem quorum_of_firm (proofs : List PartialProof) (pair : String × ℤ)
    (h : 2*fNodes+1 ≤ (firmIds pair proofs).card) : HasQuorum proofs pair :=
  h.trans (firm_le_countP_keepFirst PartialProof.nodeId (carries pair) proofs)

theorem heldIds_perm (pair : String × ℤ) (proofs proofs' : List PartialProof)
    (h : proofs.Perm proofs') : heldIds pair proofs = heldIds pair proofs' :=
  heldKeys_perm PartialProof.nodeId (carries pair) proofs proofs' h

theorem firmIds_perm (pair : String × ℤ) (proofs proofs' : List PartialProof)
    (h : proofs.Perm proofs') : firmIds pair proofs = firmIds pair proofs' :=
  firmKeys_perm PartialProof.nodeId (carries pair) proofs proofs' h

theorem filter_carries_H (pair : String × ℤ) (proofs : List PartialProof) :
    ∀ proof ∈ proofs.filter (carries pair), proof.H = pair.2 :=
  fun _ hproof => ((carries_iff _ _).mp (List.mem_filter.mp hproof).2).2

section Split
variable (pair : String × ℤ) (proofs : List PartialProof)

/-- The proofs that do not carry the pair. -/
def others : List PartialProof := proofs.filter (fun proof => !carries pair proof)

theorem others_false : ∀ proof ∈ others pair proofs, carries pair proof = false := by
  intro proof hproof
  have hno := (List.mem_filter.mp hproof).2
  rwa [Bool.not_eq_true'] at hno

theorem order_others_perm (order : List PartialProof)
    (horder : order.Perm (proofs.filter (carries pair))) :
    (order ++ others pair proofs).Perm proofs :=
  (horder.append_right _).trans (List.filter_append_perm (carries pair) proofs)

theorem order_carries (order : List PartialProof)
    (horder : order.Perm (proofs.filter (carries pair))) :
    ∀ proof ∈ order, carries pair proof = true :=
  fun _ hproof => (List.mem_filter.mp (horder.mem_iff.mp hproof)).2

theorem order_others_filter (order : List PartialProof)
    (horder : order.Perm (proofs.filter (carries pair))) :
    (order ++ others pair proofs).filter (carries pair) = order := by
  have hothers : (others pair proofs).filter (carries pair) = [] := by
    apply List.filter_eq_nil_iff.mpr
    intro proof hproof
    simp [others_false pair proofs proof hproof]
  rw [List.filter_append, List.filter_eq_self.mpr (order_carries pair proofs order horder),
    hothers, List.append_nil]

/-- With its proofs in front the pair has a quorum as soon as it has the ids. -/
theorem quorum_front (order : List PartialProof)
    (horder : order.Perm (proofs.filter (carries pair)))
    (h : 2*fNodes+1 ≤ (heldIds pair proofs).card) :
    HasQuorum (order ++ others pair proofs) pair := by
  have hfront := countP_keepFirst_front PartialProof.nodeId (carries pair) order
    (others pair proofs) (order_carries pair proofs order horder) (others_false pair proofs)
  rw [← heldIds_perm pair _ _ (order_others_perm pair proofs order horder)] at h
  exact h.trans hfront

theorem others_carriers_perm :
    (others pair proofs ++ proofs.filter (carries pair)).Perm proofs :=
  List.perm_append_comm.trans (order_others_perm pair proofs _ (List.Perm.refl _))

/-- With its proofs at the back it has none, unless it has the ids to itself. -/
theorem quorum_back (h : HasQuorum (others pair proofs ++ proofs.filter (carries pair)) pair) :
    2*fNodes+1 ≤ (firmIds pair proofs).card := by
  have hback := countP_keepFirst_back PartialProof.nodeId (carries pair) (others pair proofs)
    (proofs.filter (carries pair)) (others_false pair proofs)
    (order_carries pair proofs _ (List.Perm.refl _))
  rw [← firmIds_perm pair _ _ (others_carriers_perm pair proofs)]
  exact h.trans hback

/-- Then no other pair has one either: this one was sent by a majority. -/
theorem noQuorum_back (hlen : proofs.length ≤ nNodes)
    (hheld : 2*fNodes+1 ≤ (heldIds pair proofs).card)
    (hfirm : ¬2*fNodes+1 ≤ (firmIds pair proofs).card) (other : String × ℤ) :
    ¬HasQuorum (others pair proofs ++ proofs.filter (carries pair)) other := by
  intro hother
  have hcount := (held_of_quorum _ other hother).trans (heldIds_card_le other _)
  rw [(others_carriers_perm pair proofs).countP_eq] at hcount
  obtain rfl := pair_of_counts proofs hlen pair other
    (hheld.trans (heldIds_card_le pair proofs)) hcount
  exact hfirm (quorum_back pair proofs hother)

end Split

/-! ## The whole request -/

section Decide
variable {prim : Primitives} {reg : RegisterInputs} {password : String} {s : System}
  (hrecorded : reg.Recorded prim password s.ledger) (hrepr : prim.PrintsFloats)
  (inp : AuthInputs) (hwrite : inp.logWrite = .committed) (nonce : Bytes)

include hwrite in
theorem outcome_noQuorum (did : String) (proofs : List PartialProof)
    (hlen : proofs.length ≤ nNodes) (h : ∀ pair, ¬HasQuorum proofs pair) :
    outcomeOf (decideProofs prim inp did nonce proofs s).1 =
      some ("failed", some "quorum_not_reached") := by
  rw [decideProofs_noQuorum inp nonce proofs did hlen h, reject, logged_committed prim inp hwrite]
  rfl

include hrecorded hrepr hwrite

theorem outcome_quorum (proofs : List PartialProof) (hlen : proofs.length ≤ nNodes)
    (pair : String × ℤ) (hpair : HasQuorum proofs pair) :
    outcomeOf (decideProofs prim inp (reg.did prim) nonce proofs s).1 =
      searchOutcome s.systemKeys (chooseSubset (some (.str (reg.commitment prim password)))
        (proofs.filter (carries pair))) := by
  rw [decideProofs_quorum inp nonce proofs hrecorded hrepr hlen pair hpair]
  cases chooseSubset (some (.str (reg.commitment prim password)))
      (proofs.filter (carries pair)) with
  | error e => rfl
  | ok found =>
    cases found with
    | none =>
      rw [settleSearch, reject, logged_committed prim inp hwrite]
      rfl
    | some chosen =>
      rw [settleSearch]
      cases hkeys : s.systemKeys with
      | none => rfl
      | some keys =>
        simp only [Iat.issue, logSuccess, logged_committed prim inp hwrite]
        rfl

/-- With the carriers of the pair in front, the call ends as their search does. -/
theorem outcome_front (proofs : List PartialProof) (hlen : proofs.length ≤ nNodes)
    (pair : String × ℤ) (hheld : 2*fNodes+1 ≤ (heldIds pair proofs).card)
    (order : List PartialProof) (horder : order.Perm (proofs.filter (carries pair))) :
    outcomeOf (decideProofs prim inp (reg.did prim) nonce (order ++ others pair proofs) s).1 =
      searchOutcome s.systemKeys
        (chooseSubset (some (.str (reg.commitment prim password))) order) := by
  have hperm := order_others_perm pair proofs order horder
  rw [outcome_quorum hrecorded hrepr inp hwrite nonce _ (hperm.length_eq ▸ hlen) pair
    (quorum_front pair proofs order horder hheld), order_others_filter pair proofs order horder]

/-- If no order changes the outcome, the proofs meet the condition. -/
theorem orderProof_of_free (proofs : List PartialProof) (hlen : proofs.length ≤ nNodes)
    (hfree : ∀ first second : List PartialProof, first.Perm proofs → second.Perm proofs →
      outcomeOf (decideProofs prim inp (reg.did prim) nonce first s).1 =
        outcomeOf (decideProofs prim inp (reg.did prim) nonce second s).1) :
    OrderProof s.systemKeys (some (.str (reg.commitment prim password))) proofs := by
  intro pair hheld
  have hfront := outcome_front hrecorded hrepr inp hwrite nonce proofs hlen pair hheld
  constructor
  · -- with the carriers at the back instead, no pair would have a quorum
    by_contra hfirm
    have hnone := noQuorum_back pair proofs hlen hheld hfirm
    have hback := others_carriers_perm pair proofs
    have heq := hfree _ _ (order_others_perm pair proofs _ (List.Perm.refl _)) hback
    rw [hfront _ (List.Perm.refl _), outcome_noQuorum inp hwrite nonce (reg.did prim) _
      (hback.length_eq ▸ hlen) hnone] at heq
    exact searchOutcome_ne _ _ heq
  · -- an opening in front succeeds, two congruent proofs in front raise
    by_contra hmeet
    push Not at hmeet
    obtain ⟨hkeys, hx, hopens⟩ := hmeet
    obtain ⟨found, chosen, hfound, hchosen⟩ := exists_order_found _ _ hopens
    obtain ⟨raised, e, hraised, he⟩ :=
      exists_order_raised _ _ (carriers_of_held pair proofs hheld) hx
    have heq := hfree _ _ (order_others_perm pair proofs found hfound)
      (order_others_perm pair proofs raised hraised)
    rw [hfront found hfound, hfront raised hraised, hchosen, he] at heq
    simp only [searchOutcome, if_neg hkeys] at heq
    cases heq

/-- Under the condition every order of the proofs ends as their own order does. -/
theorem outcome_perm (proofs order : List PartialProof) (hlen : proofs.length ≤ nNodes)
    (hproof : OrderProof s.systemKeys (some (.str (reg.commitment prim password))) proofs)
    (horder : order.Perm proofs) :
    outcomeOf (decideProofs prim inp (reg.did prim) nonce order s).1 =
      outcomeOf (decideProofs prim inp (reg.did prim) nonce proofs s).1 := by
  have hlen' : order.length ≤ nNodes := horder.length_eq ▸ hlen
  by_cases hquorum : ∃ pair, 2*fNodes+1 ≤ (heldIds pair proofs).card
  · obtain ⟨pair, hheld⟩ := hquorum
    obtain ⟨hfirm, hmeet⟩ := hproof pair hheld
    have hquorum := quorum_of_firm proofs pair hfirm
    have hquorum' : HasQuorum order pair := by
      apply quorum_of_firm
      rwa [firmIds_perm pair _ _ horder]
    have hsearch := searchOutcome_perm s.systemKeys (some (.str (reg.commitment prim password)))
      _ _ (horder.symm.filter (carries pair)) (carriers_of_held pair proofs hheld) pair.2
      (filter_carries_H pair proofs) hmeet
    rw [outcome_quorum hrecorded hrepr inp hwrite nonce order hlen' pair hquorum',
      outcome_quorum hrecorded hrepr inp hwrite nonce proofs hlen pair hquorum, hsearch]
  · have hnone (arrived : List PartialProof) (harrived : arrived.Perm proofs)
        (pair : String × ℤ) : ¬HasQuorum arrived pair := by
      intro hpair
      have hheld := held_of_quorum arrived pair hpair
      rw [heldIds_perm pair _ _ harrived] at hheld
      exact hquorum ⟨pair, hheld⟩
    rw [outcome_noQuorum inp hwrite nonce (reg.did prim) order hlen' (hnone order horder),
      outcome_noQuorum inp hwrite nonce (reg.did prim) proofs hlen
        (hnone proofs (List.Perm.refl _))]

/-- In any two orders the vote and the search end alike, exactly under the condition. -/
theorem decide_orderFree_iff (proofs : List PartialProof) (hlen : proofs.length ≤ nNodes) :
    (∀ first second : List PartialProof, first.Perm proofs → second.Perm proofs →
      outcomeOf (decideProofs prim inp (reg.did prim) nonce first s).1 =
        outcomeOf (decideProofs prim inp (reg.did prim) nonce second s).1) ↔
      OrderProof s.systemKeys (some (.str (reg.commitment prim password))) proofs := by
  constructor
  · exact orderProof_of_free hrecorded hrepr inp hwrite nonce proofs hlen
  · intro hproof first second hfirst hsecond
    rw [outcome_perm hrecorded hrepr inp hwrite nonce proofs first hlen hproof hfirst,
      outcome_perm hrecorded hrepr inp hwrite nonce proofs second hlen hproof hsecond]

end Decide

/-- A call that cannot write its row raises, once it gets to the proofs. -/
theorem outcome_unwritten (prim : Primitives) (inp : AuthInputs)
    (hwrite : inp.logWrite ≠ .committed) (did : String) (nonce : Bytes)
    (proofs : List PartialProof) (s : System) :
    outcomeOf (decideProofs prim inp did nonce proofs s).1 = none := by
  have hlogged (entryType : String) (data : List (String × Json)) (result : AuthResult) :
      outcomeOf (logged prim inp entryType did data result s).1 = none := by
    rw [logged, Ledger.append]
    cases hstatus : inp.logWrite with
    | committed => exact absurd hstatus hwrite
    | rejected message => rfl
    | uncommitted message => rfl
  rcases decideProofs_cases prim inp did nonce proofs s with
    ⟨e, h⟩ | ⟨reason, h⟩ | ⟨_, _, _, chosen, token, -, -, -, -, -, h⟩
  · rw [h]
    rfl
  · rw [h, reject, hlogged]
  · rw [h, logSuccess, hlogged]

/-- A request on a reachable state ends alike in every order of its proofs exactly when
it is refused before they count, or its row cannot be written, or the proofs meet the
condition. -/
theorem orderFree_iff (prim : Primitives) (hrepr : prim.PrintsFloats) (aesKeys : ℕ → Token 32)
    (systemKeys : Option SystemKeys) (ops : List Op) (inp : AuthInputs)
    (did challengeId signatureHex : String) (proofs : List PartialProof)
    (hlen : proofs.length ≤ nNodes) :
    OrderFree prim inp did challengeId signatureHex proofs
        (runOps prim aesKeys systemKeys ops) ↔
      (inp.logWrite = .committed → ∀ entry stored,
        Admitted prim inp did challengeId signatureHex (runOps prim aesKeys systemKeys ops) entry →
        (runOps prim aesKeys systemKeys ops).ledger.getCommitmentHash did = .ok stored →
        OrderProof (runOps prim aesKeys systemKeys ops).systemKeys stored proofs) := by
  have hrows := (ledger_run prim aesKeys systemKeys ops).2
  generalize runOps prim aesKeys systemKeys ops = s at hrows
  by_cases hadmitted : ∃ entry, Admitted prim inp did challengeId signatureHex s entry
  · obtain ⟨entry, hentry⟩ := hadmitted
    obtain ⟨reg, password, rfl, hrecorded⟩ := hentry.recorded hrows
    have hstored := reg.getCommitmentHash_recorded hrecorded hrepr
    have hdecide (order : List PartialProof) :=
      authenticate_admitted prim inp (reg.did prim) challengeId signatureHex s (some order) entry
        hentry
    simp only [OrderFree, hdecide, deliveredProofs]
    by_cases hwrite : inp.logWrite = .committed
    · rw [decide_orderFree_iff (s := { s with
        pending := ChallengeManager.remove challengeId s.pending }) hrecorded hrepr inp hwrite
        entry.nonce proofs hlen]
      constructor
      · intro hproof _ other stored _ hother
        rw [hstored] at hother
        cases hother
        exact hproof
      · intro h
        exact h hwrite entry _ hentry hstored
    · refine iff_of_true ?_ (fun h => absurd h hwrite)
      intro first second _ _
      rw [outcome_unwritten prim inp hwrite, outcome_unwritten prim inp hwrite]
  · refine iff_of_true ?_ (fun _ entry _ hentry => absurd ⟨entry, hentry⟩ hadmitted)
    intro first second _ _
    rcases authenticate_refused prim inp did challengeId signatureHex s hrepr hrows
      (not_exists.mp hadmitted) with h | h | h
    · rw [h (some first), h (some second)]
    · rw [h (some first), h (some second)]
    · rw [h (some first), h (some second)]

theorem orderFree_iff_sample :
    OrderFree samplePrimitives (sampleAuth []) (sampleDid [7]) "c"
        (sampleSignature [7] (zeroToken 32)) (sampleAnswers [7] "pw" ownIds (zeroToken 32).val)
        (runOps samplePrimitives (fun _ => zeroToken 32) (some sampleKeys)
          (challengedOps [7] "pw" (zeroToken 32) (sampleDid [7]))) ↔
      ((sampleAuth []).logWrite = .committed → ∀ entry stored,
        Admitted samplePrimitives (sampleAuth []) (sampleDid [7]) "c"
          (sampleSignature [7] (zeroToken 32))
          (runOps samplePrimitives (fun _ => zeroToken 32) (some sampleKeys)
            (challengedOps [7] "pw" (zeroToken 32) (sampleDid [7]))) entry →
        (runOps samplePrimitives (fun _ => zeroToken 32) (some sampleKeys)
          (challengedOps [7] "pw" (zeroToken 32) (sampleDid [7]))).ledger.getCommitmentHash
            (sampleDid [7]) = .ok stored →
        OrderProof (runOps samplePrimitives (fun _ => zeroToken 32) (some sampleKeys)
          (challengedOps [7] "pw" (zeroToken 32) (sampleDid [7]))).systemKeys stored
          (sampleAnswers [7] "pw" ownIds (zeroToken 32).val)) := by
  apply orderFree_iff samplePrimitives SamplePrimitives.printsFloats
  rw [sampleAnswers, List.length_map, List.length_range]

/-- The copied index raises when its proof arrives first, and does no harm when last. -/
theorem copied_index_order :
    ([0,1,2,3,4].map (copiedIndex [7] "pw" (zeroToken 32).val)).length ≤ nNodes ∧
      ¬OrderFree samplePrimitives (sampleAuth []) (sampleDid [7]) "c"
        (sampleSignature [7] (zeroToken 32))
        ([0,1,2,3,4].map (copiedIndex [7] "pw" (zeroToken 32).val))
        (challenged [7] "pw" (zeroToken 32) (sampleDid [7])) := by
  refine ⟨by decide, fun hfree => ?_⟩
  have hfirst := (copiedIndex_call [7] "pw" (zeroToken 32) zeroToken_hash [0,1,2,3,4]
    (by decide)).1 (copiedIndex_harmful _ _ _ _)
  obtain ⟨token, hlast⟩ := (copiedIndex_call [7] "pw" (zeroToken 32) zeroToken_hash [1,2,3,4,0]
    (by decide)).2 (copiedIndex_harmless _ _ _ _)
  have hperm : ([1,2,3,4,0] : List ℕ).Perm [0,1,2,3,4] := by decide
  have heq := hfree _ _ (List.Perm.refl _) (hperm.map _)
  rw [hfirst, hlast] at heq
  cases heq

end DecentralizedIDP
