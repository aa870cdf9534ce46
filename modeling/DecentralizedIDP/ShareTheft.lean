import DecentralizedIDP.SampleRuns
import DecentralizedIDP.ShareReconstruction

/-! The theft of two shares. The thieves interpolate another value than the secret,
which opens the commitment only by a collision. -/
namespace DecentralizedIDP
open Foundations

structure ShareTheftAttack where
  attackerIds : List ℤ
  nodes : List Node
  ledger : Ledger ℚ

namespace ShareTheftAttack

def new (attackerNodeIds : List ℤ) (nodes : List Node) (ledger : Ledger ℚ) :
    Except PyError ShareTheftAttack :=
  if attackerNodeIds.length = 2 then
    .ok { attackerIds := attackerNodeIds, nodes := nodes, ledger := ledger }
  else .error (.assertionError "")

/-- `nodes[node_id]`, in a dict where the last of several nodes with one id stands. -/
def node (attack : ShareTheftAttack) (nodeId : ℤ) : Except PyError Node :=
  match attack.nodes.reverse.find? (fun n => n.nodeId == nodeId) with
  | some node => .ok node
  | none => .error (.keyError (decimal nodeId))

/-- The shares of some nodes, or `none` as soon as one of them has no share. -/
def stolenShares (prim : Primitives) (targetDid : String) (attack : ShareTheftAttack) :
    List ℤ → Except PyError (Option (List (ℤ × ℤ)))
  | [] => .ok (some [])
  | nodeId :: nodeIds => do
    let node ← attack.node nodeId
    match ← node.shareStore.getShare prim targetDid with
    | none => return none
    | some share => return (← stolenShares prim targetDid attack nodeIds).map (share :: ·)

/-- `stored[:32]`, which is printed. -/
def firstDigits : Option Json → Except PyError Unit
  | some (.str _) => .ok ()
  | some (.arr _) => .ok ()
  | _ => .error (.typeError "object is not subscriptable")

def trigger (prim : Primitives) (targetDid : String) (attack : ShareTheftAttack) :
    Except PyError Bool := do
  match ← stolenShares prim targetDid attack attack.attackerIds with
  | none => return false
  | some shares =>
    let fakeS ← lagrangeInterpolate shares P
    let computed ← commitmentHash fakeS
    let stored ← attack.ledger.getCommitmentHash targetDid
    if isText stored computed then return true
    else
      -- only after a mismatch is the stored commitment printed
      firstDigits stored
      return false

theorem new_eq (attackerNodeIds : List ℤ) (nodes : List Node) (ledger : Ledger ℚ)
    (attack : ShareTheftAttack) (h : new attackerNodeIds nodes ledger = .ok attack) :
    ∃ a b, attackerNodeIds = [a, b] ∧
      attack = { attackerIds := [a, b], nodes := nodes, ledger := ledger } := by
  rw [new] at h
  split_ifs at h with hlen
  obtain ⟨a, b, rfl⟩ := List.length_eq_two.mp hlen
  exact ⟨a, b, rfl, (Except.ok.inj h).symm⟩

section Enrolled
variable {prim : Primitives} {reg : RegisterInputs} {password : String} {s : System}
  (hordered : NodesOrdered s) (henrolled : reg.Enrolled prim password s)
  (hdec : prim.DecryptsEncrypted) (hrepr : prim.PrintsFloats) (attack : ShareTheftAttack)
  (hnodes : attack.nodes = s.nodes)
include hordered henrolled hdec hnodes

/-- A compromised node that exists gives up the share with its id as the index. -/
theorem node_enrolled (nodeId : ℤ) (node : Node) (h : attack.node nodeId = .ok node) :
    ∃ i : ℕ, 1 ≤ i ∧ i ≤ nNodes ∧ nodeId = i ∧
      node.shareStore.getShare prim (reg.did prim) =
        .ok (some ((i : ℤ), reg.yValue prim password i)) := by
  rw [ShareTheftAttack.node, hnodes] at h
  split at h
  · next found hfind =>
    rw [Except.ok.injEq] at h
    subst h
    obtain ⟨k, hk⟩ := List.mem_iff_getElem?.mp
      (List.mem_reverse.mp (List.mem_of_find?_eq_some hfind))
    obtain ⟨hlt, hid⟩ := hordered.nodeId k found hk
    have hsame := List.find?_some hfind
    rw [beq_iff_eq] at hsame
    exact ⟨k+1, by omega, by omega, by rw [← hsame, hid],
      RegisterInputs.getShare_enrolled henrolled hdec k found hk⟩
  · cases h

omit henrolled hdec in
theorem node_known (i : ℕ) (hi : 1 ≤ i ∧ i ≤ nNodes) :
    ∃ node, attack.node (i : ℤ) = .ok node := by
  rw [ShareTheftAttack.node, hnodes]
  split
  · exact ⟨_, rfl⟩
  · next hnone =>
    have hlt : i-1 < s.nodes.length := by
      rw [hordered.length]
      omega
    have hid := (hordered.nodeId (i-1) _ (List.getElem?_eq_getElem hlt)).2
    have hno := List.find?_eq_none.mp hnone _ (List.mem_reverse.mpr (List.getElem_mem hlt))
    rw [hid, Nat.sub_add_cancel hi.1] at hno
    exact absurd (beq_self_eq_true _) hno

/-- The two shares are of different nodes, or the interpolation divides by zero. -/
theorem stolenShares_enrolled (a b : ℤ) (shares : List (ℤ × ℤ))
    (h : stolenShares prim (reg.did prim) attack [a, b] = .ok (some shares)) :
    ∃ i j : ℕ, 1 ≤ i ∧ i ≤ nNodes ∧ 1 ≤ j ∧ j ≤ nNodes ∧ a = i ∧ b = j ∧
      shares = [((i : ℤ), reg.yValue prim password i), ((j : ℤ), reg.yValue prim password j)] := by
  simp only [stolenShares, bind, Except.bind] at h
  cases hnode : attack.node a with
  | error e => simp [hnode] at h
  | ok node =>
    obtain ⟨i, hi, hin, hai, hshare⟩ :=
      node_enrolled hordered henrolled hdec attack hnodes a node hnode
    cases hnode' : attack.node b with
    | error e => simp [hnode, hnode', hshare] at h
    | ok node' =>
      obtain ⟨j, hj, hjn, hbj, hshare'⟩ :=
        node_enrolled hordered henrolled hdec attack hnodes b node' hnode'
      simp only [hnode, hnode', hshare, hshare', pure, Except.pure, Option.map_some,
        Except.ok.injEq, Option.some.injEq] at h
      exact ⟨i, j, hi, hin, hj, hjn, hai, hbj, h.symm⟩

omit henrolled hnodes in
theorem stolenShares_known (a b : ℕ) (ha : 1 ≤ a ∧ a ≤ nNodes) (hb : 1 ≤ b ∧ b ≤ nNodes)
    (henrolled : reg.Enrolled prim password s) (hnodes : attack.nodes = s.nodes) :
    stolenShares prim (reg.did prim) attack [(a : ℤ), (b : ℤ)] =
      .ok (some [((a : ℤ), reg.yValue prim password a),
        ((b : ℤ), reg.yValue prim password b)]) := by
  obtain ⟨node, hnode⟩ := node_known hordered attack hnodes a ha
  obtain ⟨node', hnode'⟩ := node_known hordered attack hnodes b hb
  obtain ⟨i, -, -, hi, hshare⟩ := node_enrolled hordered henrolled hdec attack hnodes _ node hnode
  obtain ⟨j, -, -, hj, hshare'⟩ :=
    node_enrolled hordered henrolled hdec attack hnodes _ node' hnode'
  obtain rfl : a = i := by exact_mod_cast hi
  obtain rfl : b = j := by exact_mod_cast hj
  simp only [stolenShares, bind, Except.bind, hnode, hnode', hshare, hshare', pure, Except.pure,
    Option.map_some]

end Enrolled

section Stolen
variable (prim : Primitives) (reg : RegisterInputs) (password : String)

/-- Two shares of one registration are one short of the threshold. -/
theorem stolen_interpolate (i j : ℕ) (hi : 1 ≤ i ∧ i ≤ nNodes) (hj : 1 ≤ j ∧ j ≤ nNodes)
    (hij : i ≠ j) : ∃ v, lagrangeInterpolate
        [((i : ℤ), reg.yValue prim password i), ((j : ℤ), reg.yValue prim password j)] P = .ok v ∧
      0 ≤ v ∧ v < P ∧ v ≠ reg.secret prim password := by
  have hmem (k : ℕ) (hk : 1 ≤ k ∧ k ≤ nNodes) :
      ((k : ℤ), reg.yValue prim password k) ∈ reg.shares prim password :=
    List.mem_map.mpr ⟨k, List.mem_range'_1.mpr (by omega), rfl⟩
  apply reconstructSecret_one_short P (reg.secret_range prim password) (by decide)
    (reg.generateShares_eq prim password) nNodes_lt_P
  · intro share hshare
    rcases List.mem_cons.mp hshare with rfl | hshare
    · exact hmem i hi
    · rw [List.mem_singleton.mp hshare]
      exact hmem j hj
  · simp [hij]
  · rfl

/-- The thieves of two shares fail, or have found a collision. -/
theorem trigger_stolen (s : System) (hrecorded : reg.Recorded prim password s.ledger)
    (hrepr : prim.PrintsFloats) (attack : ShareTheftAttack) (hledger : attack.ledger = s.ledger)
    (i j : ℕ) (hi : 1 ≤ i ∧ i ≤ nNodes) (hj : 1 ≤ j ∧ j ≤ nNodes) (hij : i ≠ j)
    (hstolen : stolenShares prim (reg.did prim) attack attack.attackerIds = .ok (some
      [((i : ℤ), reg.yValue prim password i), ((j : ℤ), reg.yValue prim password j)])) :
    attack.trigger prim (reg.did prim) = .ok false ∨ reg.SecretCollides prim password := by
  obtain ⟨v, hv, h0, hlt, hne⟩ := stolen_interpolate prim reg password i j hi hj hij
  have hstored := reg.getCommitmentHash_recorded hrecorded hrepr
  rw [← hledger] at hstored
  by_cases hopen : sha3Hex (toBytes 32 v.toNat) = reg.commitment prim password
  · exact Or.inr (reg.secretCollides_of_opened prim password v h0 hlt hne hopen)
  · have htext : isText (some (.str (reg.commitment prim password)))
        (sha3Hex (toBytes 32 v.toNat)) = false := by
      rw [← Bool.not_eq_true, isText_iff, Option.some.injEq, Json.str.injEq]
      exact fun h => hopen h.symm
    left
    simp only [trigger, bind, Except.bind, hstolen, hv, commitmentHash_ok v h0 hlt, hstored, htext,
      Bool.false_eq_true, ↓reduceIte, firstDigits, pure, Except.pure]

end Stolen

/-- Whoever the attackers are, they succeed only with a collision. -/
theorem trigger_true {prim : Primitives} {reg : RegisterInputs} {password : String} {s : System}
    (hordered : NodesOrdered s) (henrolled : reg.Enrolled prim password s)
    (hdec : prim.DecryptsEncrypted) (hrepr : prim.PrintsFloats) (attackerIds : List ℤ)
    (attack : ShareTheftAttack) (hnew : new attackerIds s.nodes s.ledger = .ok attack)
    (h : attack.trigger prim (reg.did prim) = .ok true) : reg.SecretCollides prim password := by
  obtain ⟨a, b, -, rfl⟩ := new_eq attackerIds s.nodes s.ledger attack hnew
  cases hstolen : stolenShares prim (reg.did prim)
      { attackerIds := [a, b], nodes := s.nodes, ledger := s.ledger } [a, b] with
  | error e => simp [trigger, hstolen, bind, Except.bind] at h
  | ok found =>
    cases found with
    | none => simp [trigger, hstolen, bind, Except.bind, pure, Except.pure] at h
    | some shares =>
      obtain ⟨i, j, hi, hin, hj, hjn, rfl, rfl, rfl⟩ :=
        stolenShares_enrolled hordered henrolled hdec _ rfl a b shares hstolen
      by_cases hij : i = j
      · -- one node named twice: two equal shares, which cannot be interpolated
        subst hij
        have hraises := lagrangeInterpolate_error P [((i : ℤ), reg.yValue prim password i),
          ((i : ℤ), reg.yValue prim password i)] (by simp)
        simp [trigger, hstolen, hraises, bind, Except.bind] at h
      · rcases trigger_stolen prim reg password s henrolled.recorded hrepr _ rfl i j ⟨hi, hin⟩
            ⟨hj, hjn⟩ hij hstolen with hfalse | hcollides
        · rw [h] at hfalse
          cases hfalse
        · exact hcollides

end ShareTheftAttack

/-- Over every prime, one different share less than the threshold gives another value
than the secret. So the theft of two shares of a completed registration does not open
its commitment without a collision. -/
theorem one_short_never_reconstructs :
    (∀ p : ℕ, p.Prime → ∀ t n : ℕ, 1 ≤ t → t ≤ n → n < p → ∀ secret : ℤ, 1 ≤ secret →
      secret ≤ p-1 → ∀ draws : Fin (t-1) → Fin (p-1),
      ∃ shares, generateShares secret t n p draws = .ok shares ∧
        ∀ subset : List (ℤ × ℤ), subset ⊆ shares → subset.Nodup → subset.length = t-1 →
          ∃ v, reconstructSecret subset p = .ok v ∧ v ≠ secret) ∧
    (∀ prim : Primitives, prim.DecryptsEncrypted → prim.PrintsFloats →
      ∀ (aesKeys : ℕ → Token 32) (systemKeys : Option SystemKeys) (reg : RegisterInputs)
        (password : String) (before after : List Op),
      Completed prim aesKeys systemKeys reg password before after → ∀ s : System,
      s = runOps prim aesKeys systemKeys (before ++ Op.register password reg :: after) →
      ∀ (attackerIds : List ℤ) (attack : ShareTheftAttack),
      ShareTheftAttack.new attackerIds s.nodes s.ledger = .ok attack →
        (attack.trigger prim (reg.did prim) = .ok true → reg.SecretCollides prim password) ∧
        ∀ i j : ℕ, 1 ≤ i ∧ i ≤ nNodes → 1 ≤ j ∧ j ≤ nNodes → i ≠ j →
          attackerIds = [(i : ℤ), (j : ℤ)] →
          attack.trigger prim (reg.did prim) = .ok false ∨ reg.SecretCollides prim password) := by
  constructor
  · intro p hp t n ht htn hnp secret h1 hle draws
    have : Fact p.Prime := ⟨hp⟩
    have hshares := generateShares_ok secret t n p draws ⟨h1, hle⟩ ⟨ht, htn⟩
    refine ⟨_, hshares, ?_⟩
    intro subset hsub hnodup hlen
    obtain ⟨v, hv, -, -, hne⟩ := reconstructSecret_one_short p ⟨h1, hle⟩ ⟨ht, htn⟩ hshares hnp
      subset hsub hnodup (by omega)
    exact ⟨v, hv, hne⟩
  · intro prim hdec hrepr aesKeys systemKeys reg password before after hdone s hs attackerIds attack
      hnew
    have hordered : NodesOrdered s := hs ▸ nodesOrdered_run prim aesKeys systemKeys _
    have henrolled : reg.Enrolled prim password s := hs ▸ hdone.enrolled
    refine ⟨ShareTheftAttack.trigger_true hordered henrolled hdec hrepr attackerIds attack hnew, ?_⟩
    rintro i j hi hj hij rfl
    obtain ⟨a, b, hids, rfl⟩ := ShareTheftAttack.new_eq _ s.nodes s.ledger attack hnew
    rw [← hids]
    apply ShareTheftAttack.trigger_stolen prim reg password s henrolled.recorded hrepr _ rfl i j hi
      hj hij
    exact ShareTheftAttack.stolenShares_known hordered hdec _ i j hi hj henrolled rfl

theorem one_short_never_reconstructs_sample :
    (∃ shares, generateShares 4 3 5 7 (fun _ => 0) = .ok shares ∧
      ∀ subset : List (ℤ × ℤ), subset ⊆ shares → subset.Nodup → subset.length = 2 →
        ∃ v, reconstructSecret subset 7 = .ok v ∧ v ≠ 4) ∧
    (ShareTheftAttack.trigger samplePrimitives (sampleDid [7])
        ⟨[1, 4], (sampleSession [7] "pw" []).nodes, (sampleSession [7] "pw" []).ledger⟩ =
          .ok false ∨ (cleanRegister [7]).SecretCollides samplePrimitives "pw") := by
  constructor
  · exact one_short_never_reconstructs.1 7 (by norm_num) 3 5 (by decide) (by decide) (by decide) 4
      (by decide) (by decide) (fun _ => 0)
  · exact (one_short_never_reconstructs.2 samplePrimitives SamplePrimitives.decryptsEncrypted
      SamplePrimitives.printsFloats _ _ (cleanRegister [7]) "pw" [] []
      (cleanRegister_completed [7] "pw" [] [] (by simp)) _ rfl [1, 4] _ rfl).2 1 4 (by decide)
      (by decide) (by decide) rfl

end DecentralizedIDP
