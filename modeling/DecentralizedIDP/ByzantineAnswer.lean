import DecentralizedIDP.SampleRuns
import Mathlib.Data.List.TakeWhile

/-! Authentication with four honest nodes and one that answers with an arbitrary
proof. Its answer can only do harm with the `x` of another node, and then only if it
arrives early. -/
namespace DecentralizedIDP
open Foundations

/-! ## A search in which two elements spoil every subset they share -/

/-- The orders of arrival in which the search for a triple meets the pair of `faulty`
and `i` first: both are among the first two, or `faulty` is and no triple before the
first one with `i` opens, or `faulty` is the third and `i` among the first two. -/
def Blocks (opens : List ℕ → Prop) (faulty i : ℕ) : List ℕ → Prop
  | a :: b :: rest =>
    if faulty = a ∨ faulty = b then
      i = a ∨ i = b ∨ ∀ c ∈ rest.takeWhile (fun c => c != i), ¬opens [a, b, c]
    else rest.head? = some faulty ∧ (i = a ∨ i = b)
  | _ => False

theorem takeWhile_split (i : ℕ) (l : List ℕ) (hi : i ∈ l) :
    ∃ post, l = l.takeWhile (fun c => c != i) ++ i :: post := by
  induction l with
  | nil => cases hi
  | cons c l ih =>
    by_cases hc : c = i
    · subst hc
      exact ⟨l, by simp⟩
    · obtain ⟨post, hpost⟩ := ih ((List.mem_cons.mp hi).resolve_left (Ne.symm hc))
      refine ⟨post, ?_⟩
      rw [List.takeWhile_cons_of_pos (by simpa using hc), List.cons_append, ← hpost]

section Search
variable {ε : Type*} (test : List ℕ → Except ε Bool) (e : ε) (faulty i : ℕ) (order : List ℕ)

/-- The triples of an order: those without `faulty` open, those with it and `i` raise,
and the others give some answer. -/
structure Spoiled : Prop where
  nodup : order.Nodup
  ne : i ≠ faulty
  opens : ∀ t, t.Sublist order → t.length = 3 → faulty ∉ t → test t = .ok true
  raises : ∀ t, t.Sublist order → t.length = 3 → faulty ∈ t → i ∈ t → test t = .error e
  answers : ∀ t, t.Sublist order → t.length = 3 → i ∉ t → ∃ b, test t = .ok b

variable {test e faulty i order}

theorem mem_triple (k a b c : ℕ) : k ∈ [a, b, c] ↔ (k = a ∨ k = b) ∨ k = c := by
  rw [List.mem_cons, List.mem_cons, List.mem_singleton, or_assoc]

theorem row_sublist (a b c : ℕ) (rest : List ℕ) (hc : c ∈ rest) :
    [a, b, c].Sublist (a :: b :: rest) :=
  ((List.singleton_sublist.mpr hc).cons_cons b).cons_cons a

/-- The search starts with the triples of the first row up to the one with `i`. -/
theorem combinations_takeWhile (a b i : ℕ) (rest : List ℕ) :
    ∃ more, combinations 3 (a :: b :: rest) =
      (rest.takeWhile (fun c => c != i)).map (fun c => [a, b, c]) ++ more := by
  obtain ⟨more, hrow⟩ := combinations_three_row a b rest
  obtain ⟨post, hpost⟩ := List.takeWhile_prefix (fun c => c != i) (l := rest)
  refine ⟨post.map (fun c => [a, b, c]) ++ more, ?_⟩
  rw [hrow, ← List.append_assoc, ← List.map_append, hpost]

theorem combinations_split (a b i : ℕ) (rest : List ℕ) (hi : i ∈ rest) :
    ∃ more, combinations 3 (a :: b :: rest) =
      (rest.takeWhile (fun c => c != i)).map (fun c => [a, b, c]) ++ [a, b, i] :: more := by
  obtain ⟨more, hrow⟩ := combinations_three_row a b rest
  obtain ⟨post, hpost⟩ := takeWhile_split i rest hi
  refine ⟨post.map (fun c => [a, b, c]) ++ more, ?_⟩
  rw [hrow, ← List.cons_append, ← List.append_assoc, ← List.map_cons (f := fun c => [a, b, c]),
    ← List.map_append, ← hpost]

/-- The triples of the first row before the one with `i` give an answer. -/
theorem Spoiled.answers_before (a b : ℕ) (rest : List ℕ)
    (h : Spoiled test e faulty i (a :: b :: rest))
    (hia : i ≠ a) (hib : i ≠ b) (t : List ℕ)
    (ht : t ∈ (rest.takeWhile (fun c => c != i)).map (fun c => [a, b, c])) :
    ∃ bool, test t = .ok bool := by
  obtain ⟨c, hc, rfl⟩ := List.mem_map.mp ht
  have hci := List.mem_takeWhile_imp hc
  rw [bne_iff_ne] at hci
  apply h.answers _ (row_sublist a b c rest ((List.takeWhile_prefix _).subset hc)) rfl
  rw [mem_triple, not_or, not_or]
  exact ⟨⟨hia, hib⟩, hci.symm⟩

/-- Whichever order blocks, the pair is met before a triple that opens. -/
theorem Spoiled.search_blocked (h : Spoiled test e faulty i order) (hlen : order.length = 5)
    (hi : i ∈ order) (hblocks : Blocks (fun t => test t = .ok true) faulty i order) :
    findFirst test (combinations 3 order) = .error e := by
  match order, h, hlen, hi, hblocks with
  | [a, b, c, d, f], h, _, hi, hblocks =>
    obtain ⟨more, hrow⟩ := combinations_three_row a b [c, d, f]
    have hfirst (hf : faulty ∈ [a, b, c]) (hi : i ∈ [a, b, c]) :
        findFirst test (combinations 3 [a, b, c, d, f]) = .error e := by
      rw [hrow]
      exact findFirst_of_error test [] _ _ e (by simp)
        (h.raises _ (row_sublist a b c _ (by simp)) rfl hf hi)
    rw [Blocks] at hblocks
    split_ifs at hblocks with hab
    · by_cases hia : i = a ∨ i = b
      · exact hfirst ((mem_triple _ _ _ _).mpr (Or.inl hab)) ((mem_triple _ _ _ _).mpr (Or.inl hia))
      · -- the triples before the one with `i` answer, and none of them opens
        rw [not_or] at hia
        have hirest : i ∈ [c, d, f] := by
          have hnota := (List.mem_cons.mp hi).resolve_left hia.1
          exact (List.mem_cons.mp hnota).resolve_left hia.2
        have hbefore := (hblocks.resolve_left hia.1).resolve_left hia.2
        obtain ⟨later, hsplit⟩ := combinations_split a b i _ hirest
        rw [hsplit]
        apply findFirst_of_error
        · intro t ht
          obtain ⟨bool, hbool⟩ := h.answers_before a b _ hia.1 hia.2 t ht
          obtain ⟨g, hg, rfl⟩ := List.mem_map.mp ht
          cases bool with
          | true => exact absurd hbool (hbefore g hg)
          | false => exact hbool
        · exact h.raises _ (row_sublist a b i _ hirest) rfl ((mem_triple _ _ _ _).mpr (Or.inl hab))
            ((mem_triple _ _ _ _).mpr (Or.inr rfl))
    · obtain ⟨hc, hia⟩ := hblocks
      have hcf : faulty = c := (Option.some.inj hc).symm
      exact hfirst ((mem_triple _ _ _ _).mpr (Or.inr hcf)) ((mem_triple _ _ _ _).mpr (Or.inl hia))

theorem Spoiled.search_unblocked (h : Spoiled test e faulty i order) (hlen : order.length = 5)
    (hblocks : ¬Blocks (fun t => test t = .ok true) faulty i order) :
    ∃ t, findFirst test (combinations 3 order) = .ok (some t) := by
  match order, h, hlen, hblocks with
  | [a, b, c, d, f], h, _, hblocks =>
    obtain ⟨more, hrow⟩ := combinations_three_row a b [c, d, f]
    have hc := row_sublist a b c [c, d, f] (by simp)
    have hd := row_sublist a b d [c, d, f] (by simp)
    rw [Blocks] at hblocks
    split_ifs at hblocks with hab
    · -- every triple before the first one with `i` answers, and one of them opens
      simp only [not_or, not_forall, not_not] at hblocks
      obtain ⟨hia, hib, g, hg, hopen⟩ := hblocks
      obtain ⟨later, hsplit⟩ := combinations_takeWhile a b i [c, d, f]
      obtain ⟨t, ht⟩ := findFirst_of_hit test _ (h.answers_before a b _ hia hib)
        ⟨_, List.mem_map_of_mem hg, hopen⟩
      refine ⟨t, ?_⟩
      rw [hsplit]
      exact findFirst_append_of_some _ _ _ _ ht
    · by_cases hcf : c = faulty
      · -- the first triple answers, as it lacks `i`, and the second opens, as it lacks `faulty`
        have hdf : d ≠ faulty := by
          rintro rfl
          have hnodup := h.nodup
          simp [hcf] at hnodup
        have hdopen : test [a, b, d] = .ok true := by
          apply h.opens _ hd rfl
          rw [mem_triple, not_or]
          exact ⟨hab, hdf.symm⟩
        obtain ⟨bool, hbool⟩ : ∃ bool, test [a, b, c] = .ok bool := by
          apply h.answers _ hc rfl
          rw [mem_triple, not_or]
          exact ⟨fun hia => hblocks ⟨congrArg some hcf, hia⟩, hcf ▸ h.ne⟩
        rw [hrow]
        simp only [List.map_cons, List.cons_append, findFirst, hbool, hdopen]
        cases bool with
        | true => exact ⟨_, rfl⟩
        | false => exact ⟨_, rfl⟩
      · have hcopen : test [a, b, c] = .ok true := by
          apply h.opens _ hc rfl
          rw [mem_triple, not_or]
          exact ⟨hab, fun hfc => hcf hfc.symm⟩
        rw [hrow]
        simp only [List.map_cons, List.cons_append, findFirst, hcopen]
        exact ⟨_, rfl⟩

end Search

/-! ## One faulty node -/

/-- The proofs that arrive when every node but one is honest: `answer k` is that of the
`k`-th node, arbitrary for `faulty`, and `order` is the order of arrival. -/
structure OneFaulty (prim : Primitives) (did : String) (nonce : Bytes) (nodes : List Node)
    (faulty : ℕ) (answer : ℕ → PartialProof) (order : List ℕ) : Prop where
  faulty_lt : faulty < nNodes
  arrival : order.Perm (List.range nNodes)
  honest : ∀ k node, k ≠ faulty → nodes[k]? = some node → node.online = true ∧
    node.byzantine = false ∧ ∃ fakeValue, node.computePartialProof prim fakeValue did nonce =
      .ok (answer k)

/-- The condition under which the answer of the faulty node makes the search raise: it
carries the session's pair and the `x` of another node, and it arrives early enough. -/
def Harmful (stored : Option Json) (nonce : Bytes) (faulty : ℕ) (answer : ℕ → PartialProof)
    (order : List ℕ) : Prop :=
  carries (sessionPair nonce) (answer faulty) = true ∧
    ∃ i < nNodes, i ≠ faulty ∧ (answer faulty).x % P = ((i+1 : ℕ) : ℤ) ∧
      Blocks (fun t => opensCommitment stored (t.map answer) = .ok true) faulty i order

theorem index_eq_iff (x : ℤ) (i : ℕ) (hi : i < nNodes) :
    x % P = ((i+1 : ℕ) : ℤ) ↔ (x : ZMod P) = ((i+1 : ℕ) : ZMod P) := by
  have hP := nNodes_lt_P
  have hcast : ((i+1 : ℕ) : ZMod P) = (((i+1 : ℕ) : ℤ) : ZMod P) := (Int.cast_natCast _).symm
  rw [hcast, ZMod.intCast_eq_intCast_iff, Int.ModEq,
    Int.emod_eq_of_lt (by omega) (by omega : ((i+1 : ℕ) : ℤ) < P)]

namespace OneFaulty
variable {prim : Primitives} {reg : RegisterInputs} {password : String} {s : System}
  {nonce : Bytes} {faulty : ℕ} {answer : ℕ → PartialProof} {order : List ℕ}
  (h : OneFaulty prim (reg.did prim) nonce s.nodes faulty answer order)
include h

theorem order_nodup : order.Nodup := h.arrival.nodup_iff.mpr List.nodup_range

theorem order_length : order.length = 5 := by
  rw [h.arrival.length_eq, List.length_range, nNodes]

theorem mem_order (k : ℕ) : k ∈ order ↔ k < nNodes := by
  rw [h.arrival.mem_iff, List.mem_range]

theorem honest_length : (order.filter (fun k => k != faulty)).length = 4 := by
  have hcount : order.countP (fun k => k == faulty) = 1 :=
    List.count_eq_one_of_mem h.order_nodup ((h.mem_order faulty).mpr h.faulty_lt)
  have hsplit := List.length_eq_countP_add_countP (fun k => k == faulty) (l := order)
  rw [hcount, h.order_length] at hsplit
  rw [← List.countP_eq_length_filter]
  have hsame : order.countP (fun k => k != faulty) =
      order.countP (fun k => decide ¬(k == faulty) = true) := by
    apply List.countP_congr
    simp
  omega

section Enrolled
variable (hordered : NodesOrdered s) (henrolled : reg.Enrolled prim password s)
  (hdec : prim.DecryptsEncrypted)
include hordered henrolled hdec

theorem honest_answer (k : ℕ) (hk : k < nNodes) (hne : k ≠ faulty) :
    (answer k).nodeId = ((k+1 : ℕ) : ℤ) ∧
      HonestProof prim reg password nonce (k+1) (answer k) := by
  have hlt : k < s.nodes.length := hordered.length.symm ▸ hk
  have hnode := List.getElem?_eq_getElem hlt
  obtain ⟨honline, hbyz, fakeValue, hanswer⟩ := h.honest k _ hne hnode
  rw [RegisterInputs.computePartialProof_enrolled henrolled hdec k _ hnode honline hbyz,
    Except.ok.injEq] at hanswer
  rw [← hanswer]
  exact ⟨(hordered.nodeId k _ hnode).2,
    honestProof_compute prim reg password nonce (k+1) (by omega) _⟩

theorem honest_x (k : ℕ) (hk : k < nNodes) (hne : k ≠ faulty) :
    ((answer k).x : ZMod P) = ((k+1 : ℕ) : ZMod P) := by
  rw [(h.honest_answer hordered henrolled hdec k hk hne).2.x_eq, Int.cast_natCast]

/-- Among any of the proofs, at most one does not carry the session's pair. -/
theorem strays_le (proofs : List PartialProof) (hsub : proofs.Sublist (order.map answer)) :
    proofs.length ≤ proofs.countP (carries (sessionPair nonce))+1 := by
  have hstray : (order.map answer).countP (fun p => !carries (sessionPair nonce) p) ≤ 1 := by
    rw [List.countP_map]
    refine le_trans (List.countP_mono_left ?_) (List.nodup_iff_count_le_one.mp h.order_nodup faulty)
    intro k hk hno
    by_contra hne
    have hcarried := (h.honest_answer hordered henrolled hdec k ((h.mem_order k).mp hk)
      (by simpa using hne)).2.carried
    simp [hcarried] at hno
  have hle := (hsub.countP_le (p := fun p => !carries (sessionPair nonce) p)).trans hstray
  -- the proofs without the pair are the rest of them
  have hsplit := List.length_eq_countP_add_countP (carries (sessionPair nonce)) (l := proofs)
  simp only [Bool.not_eq_true, ← Bool.not_eq_true', Bool.decide_eq_true] at hsplit
  omega

theorem kept_length : 4 ≤ (keepFirst PartialProof.nodeId (order.map answer)).length := by
  -- a duplicate id costs at most one proof: the four ids of the honest nodes all stay
  have hnodup : ((order.filter (fun k => k != faulty)).map (fun k => ((k+1 : ℕ) : ℤ))).Nodup := by
    apply List.Nodup.map _ (h.order_nodup.filter _)
    intro k m hkm
    simpa using hkm
  have hsub : (order.filter (fun k => k != faulty)).map (fun k => ((k+1 : ℕ) : ℤ)) ⊆
      (keepFirst PartialProof.nodeId (order.map answer)).map PartialProof.nodeId := by
    intro id hid
    obtain ⟨k, hk, rfl⟩ := List.mem_map.mp hid
    obtain ⟨hk, hne⟩ := List.mem_filter.mp hk
    rw [mem_keepFirst_keys, List.map_map]
    refine List.mem_map.mpr ⟨k, hk, ?_⟩
    exact (h.honest_answer hordered henrolled hdec k ((h.mem_order k).mp hk) (by simpa using hne)).1
  calc 4 = ((order.filter (fun k => k != faulty)).map (fun k => ((k+1 : ℕ) : ℤ))).length := by
        rw [List.length_map, h.honest_length]
    _ ≤ ((keepFirst PartialProof.nodeId (order.map answer)).map PartialProof.nodeId).length :=
      (List.subperm_of_subset hnodup hsub).length_le
    _ = (keepFirst PartialProof.nodeId (order.map answer)).length := List.length_map _

/-- The round commits, and the session's pair wins both votes. -/
theorem round (id : String) : majorityPair (order.map answer) = some (sessionPair nonce) ∧
    ∃ accepted, runPbftRound id (order.map answer) = some accepted := by
  have hkept := keepFirst_sublist PartialProof.nodeId (order.map answer)
  have hall := h.strays_le hordered henrolled hdec _ (List.Sublist.refl _)
  have hstrays := h.strays_le hordered henrolled hdec _ hkept
  have hlen := h.kept_length hordered henrolled hdec
  have hle := hkept.length_le
  rw [List.length_map, h.order_length] at hall hle
  exact ⟨majorityPair_of_majority _ _ (by rw [List.length_map, h.order_length]; omega),
    runPbftRound_of_quorum id _ (sessionPair nonce) (majorityPair_of_majority _ _ (by omega))
      (by omega)⟩

/-- Some of the proofs have incongruent `x` when the faulty one is not among them or
differs from the others. -/
theorem x_nodup (t : List ℕ) (ht : t.Sublist order)
    (hfaulty : faulty ∈ t → ∀ k ∈ t, k ≠ faulty →
      ((answer faulty).x : ZMod P) ≠ ((k+1 : ℕ) : ZMod P)) :
    ((t.map answer).map (fun proof => (proof.x : ZMod P))).Nodup := by
  have hlt (k : ℕ) (hk : k ∈ t) : k < nNodes := (h.mem_order k).mp (ht.subset hk)
  rw [List.map_map]
  apply List.Nodup.map_on _ (h.order_nodup.sublist ht)
  intro j hj k hk hjk
  simp only [Function.comp_apply] at hjk
  -- one of the two is the faulty node, or both are honest and have their own index
  by_contra hne
  by_cases hjf : j = faulty
  · subst hjf
    rw [h.honest_x hordered henrolled hdec k (hlt k hk) (Ne.symm hne)] at hjk
    exact hfaulty hj k hk (Ne.symm hne) hjk
  · by_cases hkf : k = faulty
    · subst hkf
      rw [h.honest_x hordered henrolled hdec j (hlt j hj) hne] at hjk
      exact hfaulty hk j hj hne hjk.symm
    · rw [h.honest_x hordered henrolled hdec j (hlt j hj) hjf,
        h.honest_x hordered henrolled hdec k (hlt k hk) hkf] at hjk
      have hj := hlt j hj
      have hk := hlt k hk
      have hjk := index_cast_injective (j+1) (k+1) (by omega) (by omega) hjk
      omega

/-- A triple without the faulty node opens the commitment. -/
theorem opens_honest (hH : (sessionH nonce P : ZMod P) ≠ 0) (t : List ℕ) (ht : t.Sublist order)
    (hlen : t.length = threshold) (hfaulty : faulty ∉ t) :
    opensCommitment (some (.str (reg.commitment prim password))) (t.map answer) = .ok true := by
  apply opensCommitment_honest prim reg password nonce hH
  · rwa [List.length_map]
  · exact h.x_nodup hordered henrolled hdec t ht (fun hin => absurd hin hfaulty)
  · intro proof hproof
    obtain ⟨k, hk, rfl⟩ := List.mem_map.mp hproof
    exact ⟨k+1, (h.honest_answer hordered henrolled hdec k ((h.mem_order k).mp (ht.subset hk))
      (fun heq => hfaulty (heq ▸ hk))).2⟩

/-- When the faulty node answers with the `x` of another, their pair spoils the search. -/
theorem spoiled (hH : (sessionH nonce P : ZMod P) ≠ 0) (i : ℕ) (hi : i < nNodes)
    (hne : i ≠ faulty) (hx : ((answer faulty).x : ZMod P) = ((i+1 : ℕ) : ZMod P)) :
    Spoiled (fun t => opensCommitment (some (.str (reg.commitment prim password)))
      (t.map answer)) (.valueError "Cannot compute modular inverse of 0") faulty i order where
  nodup := h.order_nodup
  ne := hne
  opens := h.opens_honest hordered henrolled hdec hH
  raises := by
    intro t ht hlen hfaulty hit
    apply opensCommitment_raises _ _ (by rwa [List.length_map])
    intro hnodup
    rw [List.map_map] at hnodup
    refine hne (List.inj_on_of_nodup_map hnodup hit hfaulty ?_)
    rw [Function.comp_apply, Function.comp_apply, hx]
    exact h.honest_x hordered henrolled hdec i hi hne
  answers := by
    intro t ht hlen hit
    apply opensCommitment_returns _ _ (by rwa [List.length_map])
    apply h.x_nodup hordered henrolled hdec t ht
    intro _ k hk hkf heq
    have hlt := (h.mem_order k).mp (ht.subset hk)
    have hki := index_cast_injective (k+1) (i+1) (by omega) (by omega) (heq.symm.trans hx)
    exact hit ((by omega : k = i) ▸ hk)

omit h hordered henrolled hdec in
/-- The search over the proofs is one over the order of their arrival. -/
theorem chooseSubset_map (stored : Option Json) : chooseSubset stored (order.map answer) =
    (findFirst (fun t => opensCommitment stored (t.map answer)) (combinations 3 order)).map
      (Option.map (List.map answer)) := by
  rw [chooseSubset, combinations_map, findFirst_map]
  rfl

theorem honest_carried (k : ℕ) (hk : k ∈ order) (hne : k ≠ faulty) :
    carries (sessionPair nonce) (answer k) = true :=
  (h.honest_answer hordered henrolled hdec k ((h.mem_order k).mp hk) hne).2.carried

/-- When the faulty answer carries the pair too, no proof is left out of the search. -/
theorem filter_carried (hfaulty : carries (sessionPair nonce) (answer faulty) = true) :
    (order.map answer).filter (carries (sessionPair nonce)) = order.map answer := by
  apply List.filter_eq_self.mpr
  intro proof hproof
  obtain ⟨k, hk, rfl⟩ := List.mem_map.mp hproof
  by_cases hkf : k = faulty
  · exact hkf ▸ hfaulty
  · exact h.honest_carried hordered henrolled hdec k hk hkf

/-- An answer without the pair, or with an `x` of its own, cannot make the search raise. -/
theorem chooseSubset_apart (hH : (sessionH nonce P : ZMod P) ≠ 0)
    (hapart : ¬(carries (sessionPair nonce) (answer faulty) = true ∧ ∃ i < nNodes, i ≠ faulty ∧
      ((answer faulty).x : ZMod P) = ((i+1 : ℕ) : ZMod P))) :
    ∃ chosen, chooseSubset (some (.str (reg.commitment prim password)))
      ((order.map answer).filter (carries (sessionPair nonce))) = .ok (some chosen) := by
  rw [List.filter_map]
  generalize hclean : order.filter (carries (sessionPair nonce) ∘ answer) = clean
  have hsub : clean.Sublist order := hclean ▸ List.filter_sublist
  have hhonest : ((order.filter (fun k => k != faulty)).take threshold).Sublist clean := by
    have heq : order.filter (fun k => k != faulty) = clean.filter (fun k => k != faulty) := by
      rw [← hclean, List.filter_filter]
      apply List.filter_congr
      intro k hk
      by_cases hkf : k = faulty
      · simp [hkf]
      · simp [h.honest_carried hordered henrolled hdec k hk hkf]
    exact (List.take_sublist _ _).trans (heq ▸ List.filter_sublist)
  have hlen : ((order.filter (fun k => k != faulty)).take threshold).length = threshold := by
    rw [List.length_take, h.honest_length]
    rfl
  -- no two of the clean proofs have one `x`, and the honest ones are among them
  apply chooseSubset_of_hit
  · apply h.x_nodup hordered henrolled hdec clean hsub
    intro hin k hk hkf hx
    rw [← hclean] at hin
    exact hapart ⟨(List.mem_filter.mp hin).2, k, (h.mem_order k).mp (hsub.subset hk), hkf, hx⟩
  · refine ⟨_, hhonest.map answer, by rw [List.length_map, hlen], ?_⟩
    apply h.opens_honest hordered henrolled hdec hH _ (hhonest.trans hsub) hlen
    intro hin
    have hmem := (List.mem_filter.mp (List.mem_of_mem_take hin)).2
    simp at hmem

/-- A harmless answer leaves the search successful. -/
theorem chooseSubset_harmless (hH : (sessionH nonce P : ZMod P) ≠ 0)
    (hharm : ¬Harmful (some (.str (reg.commitment prim password))) nonce faulty answer order) :
    ∃ chosen, chooseSubset (some (.str (reg.commitment prim password)))
      ((order.map answer).filter (carries (sessionPair nonce))) = .ok (some chosen) := by
  by_cases hpair : carries (sessionPair nonce) (answer faulty) = true ∧ ∃ i < nNodes,
      i ≠ faulty ∧ ((answer faulty).x : ZMod P) = ((i+1 : ℕ) : ZMod P)
  · obtain ⟨hfaulty, i, hi, hne, hx⟩ := hpair
    have hspoiled := h.spoiled hordered henrolled hdec hH i hi hne hx
    have hblocks : ¬Blocks (fun t => opensCommitment (some (.str (reg.commitment prim password)))
        (t.map answer) = .ok true) faulty i order :=
      fun hblocks => hharm ⟨hfaulty, i, hi, hne, (index_eq_iff _ i hi).mpr hx, hblocks⟩
    obtain ⟨t, ht⟩ := hspoiled.search_unblocked h.order_length hblocks
    refine ⟨t.map answer, ?_⟩
    rw [h.filter_carried hordered henrolled hdec hfaulty, chooseSubset_map, ht]
    rfl
  · exact h.chooseSubset_apart hordered henrolled hdec hH hpair

/-- A harmful answer makes the search raise. -/
theorem chooseSubset_harmful (hH : (sessionH nonce P : ZMod P) ≠ 0)
    (hharm : Harmful (some (.str (reg.commitment prim password))) nonce faulty answer order) :
    chooseSubset (some (.str (reg.commitment prim password)))
      ((order.map answer).filter (carries (sessionPair nonce))) =
        .error (.valueError "Cannot compute modular inverse of 0") := by
  obtain ⟨hfaulty, i, hi, hne, hx, hblocks⟩ := hharm
  have hspoiled := h.spoiled hordered henrolled hdec hH i hi hne ((index_eq_iff _ i hi).mp hx)
  rw [h.filter_carried hordered henrolled hdec hfaulty, chooseSubset_map,
    hspoiled.search_blocked h.order_length ((h.mem_order i).mpr hi) hblocks]
  rfl

/-- What the steps after the proofs return. -/
theorem decideProofs_faulty (hrepr : prim.PrintsFloats)
    (hH : (sessionH nonce P : ZMod P) ≠ 0) (inp : AuthInputs) (keys : SystemKeys)
    (hkeys : s.systemKeys = some keys) (hwrite : inp.logWrite = .committed) :
    (Harmful (some (.str (reg.commitment prim password))) nonce faulty answer order →
      (decideProofs prim inp (reg.did prim) nonce (order.map answer) s).1 =
        .error (.valueError "Cannot compute modular inverse of 0")) ∧
    (¬Harmful (some (.str (reg.commitment prim password))) nonce faulty answer order →
      ∃ token, (decideProofs prim inp (reg.did prim) nonce (order.map answer) s).1 =
        .ok (success token)) := by
  obtain ⟨hpair, accepted, hround⟩ := h.round hordered henrolled hdec
    (roundId nonce (reg.did prim))
  constructor
  · intro hharm
    rw [decideProofs_eq henrolled.recorded hrepr inp nonce _ accepted _ hround hpair,
      h.chooseSubset_harmful hordered henrolled hdec hH hharm, settleSearch]
  · intro hharm
    obtain ⟨chosen, hchosen⟩ := h.chooseSubset_harmless hordered henrolled hdec hH hharm
    exact decideProofs_success henrolled.recorded hrepr inp nonce _ accepted chosen _ keys hkeys
      hwrite hround hpair hchosen

/-- What an authentication over these proofs returns. -/
theorem authenticate_faulty (hrepr : prim.PrintsFloats) (challengeId : String) (entry : Challenge)
    (hentry : s.pending challengeId = some entry) (hsession : nonce = entry.nonce)
    (hnonce : fromBytes (sha3_256 entry.nonce) % P ≠ 0) (signatureHex : String)
    (signature : Bytes) (hsig : fromhex signatureHex = some signature)
    (hverify : prim.verify (reg.publicKey prim) (entry.nonce.val ++ encode (reg.did prim))
      signature = true)
    (inp : AuthInputs) (hlive : inp.consumedAt ≤ entry.expiresAt)
    (hwrite : inp.logWrite = .committed) (preCollected : Option (List PartialProof))
    (hdelivered : deliveredProofs prim inp preCollected s.nodes (reg.did prim) nonce =
      order.map answer) (keys : SystemKeys) (hkeys : s.systemKeys = some keys) :
    (Harmful (some (.str (reg.commitment prim password))) nonce faulty answer order →
      (authenticate prim inp (reg.did prim) challengeId signatureHex preCollected s).1 =
        .error (.valueError "Cannot compute modular inverse of 0")) ∧
    (¬Harmful (some (.str (reg.commitment prim password))) nonce faulty answer order →
      ∃ token, (authenticate prim inp (reg.did prim) challengeId signatureHex preCollected s).1 =
        .ok (success token)) := by
  subst hsession
  rw [authenticate_eq_decide henrolled.recorded hrepr inp challengeId signatureHex preCollected
    entry signature hentry hlive hsig hverify, hdelivered]
  exact OneFaulty.decideProofs_faulty
    (s := { s with pending := ChallengeManager.remove challengeId s.pending }) h hordered
    ⟨henrolled.entry, henrolled.stored⟩ hdec hrepr (sessionH_ne_zero _ hnonce) inp keys hkeys
    hwrite

end Enrolled

end OneFaulty

/-- With four honest nodes the authentication of a completed registration succeeds,
whatever the fifth answers, exactly in the orders of arrival in which its answer is
harmless. -/
theorem authenticate_tolerates_iff (prim : Primitives) (hdec : prim.DecryptsEncrypted)
    (hrepr : prim.PrintsFloats) (aesKeys : ℕ → Token 32) (keys : SystemKeys)
    (reg : RegisterInputs) (password : String) (before after : List Op)
    (hdone : Completed prim aesKeys (some keys) reg password before after) (s : System)
    (hs : s = runOps prim aesKeys (some keys) (before ++ Op.register password reg :: after))
    (challengeId : String) (entry : Challenge) (hentry : s.pending challengeId = some entry)
    (hnonce : fromBytes (sha3_256 entry.nonce) % P ≠ 0) (signatureHex : String)
    (signature : Bytes) (hsig : fromhex signatureHex = some signature)
    (hverify : prim.verify (reg.publicKey prim) (entry.nonce.val ++ encode (reg.did prim))
      signature = true)
    (inp : AuthInputs) (hlive : inp.consumedAt ≤ entry.expiresAt)
    (hwrite : inp.logWrite = .committed) (preCollected : Option (List PartialProof)) (faulty : ℕ)
    (answer : ℕ → PartialProof) (order : List ℕ)
    (hfaulty : OneFaulty prim (reg.did prim) entry.nonce s.nodes faulty answer order)
    (hdelivered : deliveredProofs prim inp preCollected s.nodes (reg.did prim) entry.nonce =
      order.map answer) :
    (∃ token, (authenticate prim inp (reg.did prim) challengeId signatureHex preCollected s).1 =
        .ok (success token)) ↔
      ¬Harmful (some (.str (reg.commitment prim password))) entry.nonce faulty answer order := by
  have hordered : NodesOrdered s := hs ▸ nodesOrdered_run prim aesKeys (some keys) _
  have henrolled : reg.Enrolled prim password s := hs ▸ hdone.enrolled
  have hkeys : s.systemKeys = some keys := hs ▸ systemKeys_run prim aesKeys (some keys) _
  obtain ⟨hraises, hsucceeds⟩ := hfaulty.authenticate_faulty hordered henrolled hdec hrepr
    challengeId entry hentry rfl hnonce signatureHex signature hsig hverify inp hlive hwrite
    preCollected hdelivered keys hkeys
  constructor
  · rintro ⟨token, htoken⟩ hharm
    rw [hraises hharm] at htoken
    cases htoken
  · exact hsucceeds

/-- The proofs of a sample session in which the first node answers with the index of
the second. -/
def copiedIndex (seed : Bytes) (password : String) (nonce : Bytes) (k : ℕ) : PartialProof :=
  if k = 0 then { sampleAnswer seed password nonce 1 with nodeId := 1, partialValue := 0 }
  else sampleAnswer seed password nonce k

section Sample
variable (seed : Bytes) (password : String) (nonce : Token 32)

theorem copiedIndex_faulty (order : List ℕ) (horder : order.Perm (List.range nNodes)) :
    OneFaulty samplePrimitives (sampleDid seed) nonce.val
      (challenged seed password nonce (sampleDid seed)).nodes 0
      (copiedIndex seed password nonce.val) order where
  faulty_lt := by decide
  arrival := horder
  honest := by
    intro k node hk hnode
    obtain ⟨honline, hbyz, hanswer⟩ :=
      challenged_honest seed password nonce (sampleDid seed) k node hnode nonce.val zeroDraw
    refine ⟨honline, hbyz, zeroDraw, ?_⟩
    rw [hanswer, copiedIndex, if_neg hk]

/-- In the order of the nodes the copied index is harmful. -/
theorem copiedIndex_harmful (stored : Option Json) :
    Harmful stored nonce.val 0 (copiedIndex seed password nonce.val) [0,1,2,3,4] := by
  have hx : (copiedIndex seed password nonce.val 0).x = ((1+1 : ℕ) : ℤ) := rfl
  refine ⟨(carries_iff _ _).mpr ⟨rfl, rfl⟩, 1, by decide, by decide, ?_, ?_⟩
  · rw [hx, index_eq_iff _ 1 (by decide), Int.cast_natCast]
  · rw [Blocks, if_pos (Or.inl rfl)]
    exact Or.inr (Or.inl rfl)

/-- When it arrives last it is not. -/
theorem copiedIndex_harmless (stored : Option Json) :
    ¬Harmful stored nonce.val 0 (copiedIndex seed password nonce.val) [1,2,3,4,0] := by
  rintro ⟨-, i, -, -, -, hblocks⟩
  rw [Blocks, if_neg (by decide)] at hblocks
  exact absurd hblocks.1 (by decide)

/-- The call on these proofs in some order of arrival. -/
theorem copiedIndex_call (hnonce : fromBytes (sha3_256 nonce) % P ≠ 0) (order : List ℕ)
    (horder : order.Perm (List.range nNodes)) :
    (Harmful (some (.str ((cleanRegister seed).commitment samplePrimitives password))) nonce.val 0
        (copiedIndex seed password nonce.val) order →
      (authenticate samplePrimitives (sampleAuth []) (sampleDid seed) "c"
        (sampleSignature seed nonce) (some (order.map (copiedIndex seed password nonce.val)))
        (challenged seed password nonce (sampleDid seed))).1 =
          .error (.valueError "Cannot compute modular inverse of 0")) ∧
    (¬Harmful (some (.str ((cleanRegister seed).commitment samplePrimitives password))) nonce.val 0
        (copiedIndex seed password nonce.val) order →
      ∃ token, (authenticate samplePrimitives (sampleAuth []) (sampleDid seed) "c"
        (sampleSignature seed nonce) (some (order.map (copiedIndex seed password nonce.val)))
        (challenged seed password nonce (sampleDid seed))).1 = .ok (success token)) := by
  have hfaulty := copiedIndex_faulty seed password nonce order horder
  have hsig := SamplePrimitives.verifiesSigned seed [] (nonce.val ++ encode (sampleDid seed))
  exact hfaulty.authenticate_faulty (sampleSession_ordered seed password _)
    (challenged_enrolled seed password nonce (sampleDid seed))
    SamplePrimitives.decryptsEncrypted SamplePrimitives.printsFloats "c"
    (sampleChallenge nonce (sampleDid seed)) (challenged_pending _ _ _ _) rfl
    hnonce (sampleSignature seed nonce) _ (fromhex_hex _) hsig
    (sampleAuth []) sampleAuth_live rfl _ rfl sampleKeys (challenged_keys _ _ _ _)

end Sample

/-- One node that answers with the index of another makes the call raise, although
the other four are honest. -/
theorem copied_index_raises :
    OneFaulty samplePrimitives (sampleDid [7]) (zeroToken 32).val
        (challenged [7] "pw" (zeroToken 32) (sampleDid [7])).nodes 0
        (copiedIndex [7] "pw" (zeroToken 32).val) [0,1,2,3,4] ∧
      fromBytes (sha3_256 (zeroToken 32)) % P ≠ 0 ∧
      (authenticate samplePrimitives (sampleAuth []) (sampleDid [7]) "c"
        (sampleSignature [7] (zeroToken 32))
        (some ([0,1,2,3,4].map (copiedIndex [7] "pw" (zeroToken 32).val)))
        (challenged [7] "pw" (zeroToken 32) (sampleDid [7]))).1 =
          .error (.valueError "Cannot compute modular inverse of 0") := by
  refine ⟨copiedIndex_faulty [7] "pw" (zeroToken 32) [0,1,2,3,4] (by decide), zeroToken_hash, ?_⟩
  exact (copiedIndex_call [7] "pw" (zeroToken 32) zeroToken_hash [0,1,2,3,4] (by decide)).1
    (copiedIndex_harmful _ _ _ _)

/-- The same answer is tolerated when it arrives last. -/
theorem authenticate_tolerates_last :
    ∃ token, (authenticate samplePrimitives (sampleAuth []) (sampleDid [7]) "c"
      (sampleSignature [7] (zeroToken 32))
      (some ([1,2,3,4,0].map (copiedIndex [7] "pw" (zeroToken 32).val)))
      (challenged [7] "pw" (zeroToken 32) (sampleDid [7]))).1 = .ok (success token) :=
  (authenticate_tolerates_iff samplePrimitives SamplePrimitives.decryptsEncrypted
    SamplePrimitives.printsFloats _ sampleKeys (cleanRegister [7]) "pw" []
    [sampleIssue (zeroToken 32) (sampleDid [7])]
    (cleanRegister_completed [7] "pw" _ _ (challenged_spares [7] _ _)) _ rfl "c"
    (sampleChallenge (zeroToken 32) (sampleDid [7])) (challenged_pending _ _ _ _)
    (sampleChallenge_hash _) _ _ (fromhex_hex _) (SamplePrimitives.verifiesSigned _ _ _)
    (sampleAuth []) sampleAuth_live rfl (some ([1,2,3,4,0].map _)) 0
    (copiedIndex [7] "pw" (zeroToken 32).val) [1,2,3,4,0]
    (copiedIndex_faulty _ _ _ _ (by decide)) rfl).mpr (copiedIndex_harmless _ _ _ _)

end DecentralizedIDP
