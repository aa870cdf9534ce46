import DecentralizedIDP.AuthenticationEffects
import DecentralizedIDP.FoundationsTickets
import DecentralizedIDP.RegistrationEffects

/-! Runs of the coordinator: registrations, challenges and authentications in any
order, with nodes going offline or byzantine in between. -/
namespace DecentralizedIDP
open Foundations

inductive Op where
  | register (password : String) (inp : RegisterInputs)
  | issue (did : String) (inp : ChallengeInputs)
  | peek (challengeId : String) (now : ℚ)
  | consume (challengeId : String) (now : ℚ)
  | cleanup (now : ℚ)
  | authenticate (did challengeId signatureHex : String)
      (preCollected : Option (List PartialProof)) (inp : AuthInputs)
  | setOnline (nodeId : ℤ) (online : Bool)
  | setByzantine (nodeId : ℤ) (byzantine : Bool)

def setNode (nodeId : ℤ) (f : Node → Node) (nodes : List Node) : List Node :=
  nodes.map (fun node => if node.nodeId = nodeId then f node else node)

/-- The state after one operation, whether it returns or raises. -/
def step (prim : Primitives) (s : System) : Op → System
  | .register password inp => (register prim inp password s).2
  | .issue did inp => { s with pending := (ChallengeManager.issue inp did s.pending).2 }
  | .peek _ _ => s
  | .consume challengeId now =>
    { s with pending := (ChallengeManager.consume challengeId now s.pending).2 }
  | .cleanup now => { s with pending := ChallengeManager.cleanupExpired now s.pending }
  | .authenticate did challengeId signatureHex preCollected inp =>
    (authenticate prim inp did challengeId signatureHex preCollected s).2
  | .setOnline nodeId online =>
    { s with nodes := setNode nodeId (fun node => { node with online := online }) s.nodes }
  | .setByzantine nodeId byzantine =>
    { s with nodes := setNode nodeId (fun node => { node with byzantine := byzantine }) s.nodes }

/-- The coordinator at its first start: an empty ledger, no challenge, and five honest
nodes with empty stores. -/
def initial (aesKeys : ℕ → Token 32) (systemKeys : Option SystemKeys) : System where
  nodes := (List.range' 1 nNodes).map (fun i : ℕ =>
    { nodeId := i, online := true, byzantine := false, shareStore := ⟨aesKeys i, fun _ => none⟩ })
  ledger := []
  pending := fun _ => none
  systemKeys := systemKeys
  files := fun _ => none

def runOps (prim : Primitives) (aesKeys : ℕ → Token 32) (systemKeys : Option SystemKeys)
    (ops : List Op) : System := run (step prim) (initial aesKeys systemKeys) ops

/-- The state in which the `m`-th operation of a run starts. -/
def stateAt (prim : Primitives) (aesKeys : ℕ → Token 32) (systemKeys : Option SystemKeys)
    (ops : List Op) (m : ℕ) : System := runOps prim aesKeys systemKeys (ops.take m)

/-! ## The nodes -/

/-- The `i`-th node has the id `i`. -/
def NodesOrdered (s : System) : Prop :=
  s.nodes.map Node.nodeId = (List.range' 1 nNodes).map (fun i : ℕ => (i : ℤ))

theorem nodesOrdered_initial (aesKeys : ℕ → Token 32) (systemKeys : Option SystemKeys) :
    NodesOrdered (initial aesKeys systemKeys) := by
  rw [NodesOrdered, initial, List.map_map]
  rfl

theorem NodesOrdered.length {s : System} (h : NodesOrdered s) : s.nodes.length = nNodes := by
  have hlen := congrArg List.length h
  rwa [List.length_map, List.length_map, List.length_range'] at hlen

theorem NodesOrdered.nodeId {s : System} (h : NodesOrdered s) (k : ℕ) (node : Node)
    (hnode : s.nodes[k]? = some node) : k < nNodes ∧ node.nodeId = ((k+1 : ℕ) : ℤ) := by
  have hk := (List.getElem?_eq_some_iff.mp hnode).1
  rw [h.length] at hk
  have hget := congrArg (fun l => l[k]?) h
  simp only [List.getElem?_map, hnode, Option.map_some, List.getElem?_range' hk] at hget
  exact ⟨hk, (Option.some.inj hget).trans (by rw [one_mul, add_comm])⟩

theorem setNode_nodeId (nodeId : ℤ) (f : Node → Node) (hf : ∀ node, (f node).nodeId = node.nodeId)
    (nodes : List Node) : (setNode nodeId f nodes).map Node.nodeId = nodes.map Node.nodeId := by
  rw [setNode, List.map_map]
  apply List.map_congr_left
  intro node _
  simp only [Function.comp_apply]
  split_ifs
  · exact hf node
  · rfl

/-- Registering changes nothing about a node but its store. -/
theorem putShares_map {β : Type*} (f : Node → β)
    (hf : ∀ (node : Node) (store : ShareStore), f { node with shareStore := store } = f node)
    (prim : Primitives) (inp : RegisterInputs) (password : String) (i count : ℕ)
    (nodes : List Node) : (inp.putShares prim password i count nodes).map f = nodes.map f := by
  apply List.ext_getElem?
  intro k
  rw [List.getElem?_map, List.getElem?_map, RegisterInputs.putShares_getElem?, Option.map_map]
  congr 1
  funext node
  simp only [Function.comp_apply]
  split_ifs
  · exact hf node _
  · rfl

theorem authenticate_nodes (prim : Primitives) (inp : AuthInputs)
    (did challengeId signatureHex : String) (preCollected : Option (List PartialProof))
    (s : System) :
    (authenticate prim inp did challengeId signatureHex preCollected s).2.nodes = s.nodes := by
  obtain ⟨rows, heq, -⟩ :=
    authenticate_effect prim inp did challengeId signatureHex preCollected s
  rw [heq]

theorem nodesOrdered_step (prim : Primitives) (s : System) (op : Op) (h : NodesOrdered s) :
    NodesOrdered (step prim s op) := by
  cases op with
  | register password inp =>
    rw [NodesOrdered, ← h, step]
    -- however far the call got, it has only written shares into stores
    rcases inp.register_cases prim password s h.length.le with
      ⟨-, e, heq⟩ | ⟨-, -, e, heq⟩ | ⟨-, -, r, files, heq, -⟩ <;>
    · rw [heq]
      exact putShares_map Node.nodeId (fun _ _ => rfl) _ _ _ _ _ _
  | issue did inp => exact h
  | peek challengeId now => exact h
  | consume challengeId now => exact h
  | cleanup now => exact h
  | authenticate did challengeId signatureHex preCollected inp =>
    rw [NodesOrdered, step, authenticate_nodes]
    exact h
  | setOnline nodeId online =>
    exact (setNode_nodeId nodeId (fun node => { node with online := online })
      (fun _ => rfl) s.nodes).trans h
  | setByzantine nodeId byzantine =>
    exact (setNode_nodeId nodeId (fun node => { node with byzantine := byzantine })
      (fun _ => rfl) s.nodes).trans h

theorem nodesOrdered_run (prim : Primitives) (aesKeys : ℕ → Token 32)
    (systemKeys : Option SystemKeys) (ops : List Op) :
    NodesOrdered (runOps prim aesKeys systemKeys ops) :=
  run_invariant (step prim) NodesOrdered (nodesOrdered_step prim) _
    (nodesOrdered_initial aesKeys systemKeys) ops

/-! ## The system keys -/

/-- The keys the coordinator was started with are never replaced. -/
theorem systemKeys_run (prim : Primitives) (aesKeys : ℕ → Token 32)
    (systemKeys : Option SystemKeys) (ops : List Op) :
    (runOps prim aesKeys systemKeys ops).systemKeys = systemKeys := by
  -- of the operations only two build a new state, and both keep the keys
  apply run_invariant (step prim) (fun s => s.systemKeys = systemKeys) _ _ rfl ops
  intro s op h
  cases op with
  | register password inp =>
    obtain ⟨nodes, ledger, files, heq⟩ := inp.register_frame prim password s
    rw [step, heq]
    exact h
  | authenticate did challengeId signatureHex preCollected inp =>
    obtain ⟨rows, heq, -⟩ :=
      authenticate_effect prim inp did challengeId signatureHex preCollected s
    rw [step, heq]
    exact h
  | _ => exact h

/-! ## The ledger -/

/-- The row, made by the append of the ledger, is that of a registration or of another
type. -/
def Appends (prim : Primitives) (ledger : Ledger ℚ) (row : Entry ℚ) : Prop :=
  (∃ inp password, row = RegisterInputs.ledgerRow prim inp password ledger) ∨
    ∃ time entryType did data, entryType ≠ "DID_REGISTER" ∧
      row = Ledger.newEntry prim.repr time entryType did data ledger

/-- An operation appends one row, or none. -/
theorem step_appends (prim : Primitives) (s : System) (op : Op) (h : NodesOrdered s) :
    (step prim s op).ledger = s.ledger ∨
      ∃ row, (step prim s op).ledger = s.ledger ++ [row] ∧ Appends prim s.ledger row := by
  cases op with
  | register password inp =>
    rw [step]
    rcases inp.register_cases prim password s h.length.le with
      ⟨-, e, heq⟩ | ⟨-, -, e, heq⟩ | ⟨-, -, r, files, heq, -⟩
    · exact Or.inl (by rw [heq])
    · exact Or.inl (by rw [heq])
    · exact Or.inr ⟨_, by rw [heq], Or.inl ⟨inp, password, rfl⟩⟩
  | authenticate did challengeId signatureHex preCollected inp =>
    obtain ⟨rows, heq, hrows⟩ :=
      authenticate_effect prim inp did challengeId signatureHex preCollected s
    rw [step, heq]
    -- the types of the rows of an authentication are fixed texts
    rcases hrows with rfl | ⟨data, rfl⟩ | ⟨entry, pair, chosen, token, rfl, -⟩
    · exact Or.inl (List.append_nil _)
    · exact Or.inr ⟨_, rfl, Or.inr ⟨_, "AUTH_FAIL", did, data, by decide, rfl⟩⟩
    · exact Or.inr ⟨_, rfl, Or.inr ⟨_, "AUTH_SUCCESS", did, _, by decide, rfl⟩⟩
  | _ => exact Or.inl rfl

theorem step_ledger (prim : Primitives) (s : System) (op : Op) (h : NodesOrdered s) :
    ∃ rows, (step prim s op).ledger = s.ledger ++ rows ∧ rows.length ≤ 1 := by
  rcases step_appends prim s op h with heq | ⟨row, heq, -⟩
  · exact ⟨[], by rw [heq, List.append_nil], by simp⟩
  · exact ⟨[row], heq, le_rfl⟩

/-! ## Challenges are single-use tickets -/

/-- The operations that use up a pending challenge. -/
def uses (s : System) : Op → String → Prop
  | .consume challengeId _, i => challengeId = i ∧ ∃ entry, s.pending i = some entry
  | .authenticate _ challengeId _ _ _, i => challengeId = i ∧ ∃ entry, s.pending i = some entry
  | _, _ => False

/-- The challenge an operation creates. -/
def created : Op → Option (String × Challenge)
  | .issue did inp => some (inp.challengeId,
      { nonce := inp.nonce, did := did, expiresAt := inp.now+challengeTtlSeconds })
  | _ => none

theorem created_eq_some (op : Op) (challengeId : String) (entry : Challenge)
    (h : created op = some (challengeId, entry)) :
    ∃ inp, op = .issue entry.did inp ∧ inp.challengeId = challengeId ∧ entry.nonce = inp.nonce ∧
      entry.expiresAt = inp.now+challengeTtlSeconds := by
  cases op with
  | issue did inp =>
    simp only [created, Option.some.injEq, Prod.mk.injEq] at h
    obtain ⟨rfl, rfl⟩ := h
    exact ⟨inp, rfl, rfl, rfl, rfl⟩
  | _ => cases h

theorem remove_some (challengeId i : String) (pending : Pending) (entry : Challenge)
    (h : ChallengeManager.remove challengeId pending i = some entry) :
    i ≠ challengeId ∧ pending i = some entry := by
  rw [ChallengeManager.remove] at h
  split_ifs at h with hi
  exact ⟨hi, h⟩

theorem authenticate_pending (prim : Primitives) (inp : AuthInputs)
    (did challengeId signatureHex : String) (preCollected : Option (List PartialProof))
    (s : System) :
    (authenticate prim inp did challengeId signatureHex preCollected s).2.pending =
      ChallengeManager.remove challengeId s.pending := by
  obtain ⟨rows, heq, -⟩ :=
    authenticate_effect prim inp did challengeId signatureHex preCollected s
  rw [heq]

/-- A challenge that is pending after an operation was created by it, or was pending
before and not used up. -/
theorem step_pending (prim : Primitives) (s : System) (op : Op) (i : String) (entry : Challenge)
    (h : (step prim s op).pending i = some entry) :
    created op = some (i, entry) ∨ (s.pending i = some entry ∧ ¬uses s op i) := by
  cases op with
  | register password inp =>
    obtain ⟨nodes, ledger, files, heq⟩ := inp.register_frame prim password s
    rw [step, heq] at h
    exact Or.inr ⟨h, id⟩
  | issue did inp =>
    simp only [step, ChallengeManager.issue] at h
    split_ifs at h with hi
    · left
      rw [created, hi, Option.some.inj h]
    · exact Or.inr ⟨h, id⟩
  | peek challengeId now => exact Or.inr ⟨h, id⟩
  | consume challengeId now =>
    -- what is pending afterwards stands under another id, so it was not used
    rw [step, ChallengeManager.consume_pending] at h
    obtain ⟨hi, h⟩ := remove_some _ _ _ _ h
    exact Or.inr ⟨h, fun hu => hi hu.1.symm⟩
  | cleanup now =>
    simp only [step, ChallengeManager.cleanupExpired, Option.filter_eq_some_iff] at h
    exact Or.inr ⟨h.1, id⟩
  | authenticate did challengeId signatureHex preCollected inp =>
    rw [step, authenticate_pending] at h
    obtain ⟨hi, h⟩ := remove_some _ _ _ _ h
    exact Or.inr ⟨h, fun hu => hi hu.1.symm⟩
  | setOnline nodeId online => exact Or.inr ⟨h, id⟩
  | setByzantine nodeId byzantine => exact Or.inr ⟨h, id⟩

def challenges (prim : Primitives) : TicketSystem System Op String Challenge where
  step := step prim
  live := System.pending
  issued := created
  redeems := uses
  live_step := step_pending prim
  redeems_live := by
    intro s op i h
    cases op with
    | consume challengeId now => exact h.2
    | authenticate did challengeId signatureHex preCollected inp => exact h.2
    | _ => exact h.elim

/-- `uuid4` never repeats: no two calls of `issue` in the run draw one id. -/
def FreshIds (ops : List Op) : Prop := (ops.filterMap (fun op => (created op).map Prod.fst)).Nodup

/-! ## Enrolled DIDs stay enrolled -/

/-- The operation does not register this DID. -/
def Op.SparesDid (prim : Primitives) (did : String) : Op → Prop
  | .register _ inp => inp.did prim ≠ did
  | _ => True

theorem setNode_kept (did : String) (nodeId : ℤ) (f : Node → Node)
    (hf : ∀ node, (f node).shareStore = node.shareStore) (nodes : List Node) :
    RegisterInputs.SharesKept did nodes (setNode nodeId f nodes) := by
  intro k node' hnode'
  rw [setNode, List.getElem?_map] at hnode'
  obtain ⟨node, hnode, rfl⟩ := Option.map_eq_some_iff.mp hnode'
  refine ⟨node, hnode, ?_⟩
  split_ifs
  · rw [hf]
    exact ⟨rfl, rfl⟩
  · exact ⟨rfl, rfl⟩

theorem latestRegister_auth (prim : Primitives) (inp : AuthInputs)
    (did' challengeId signatureHex : String) (preCollected : Option (List PartialProof))
    (s : System) (did : String) :
    Ledger.latestRegister did
        (authenticate prim inp did' challengeId signatureHex preCollected s).2.ledger =
      Ledger.latestRegister did s.ledger := by
  obtain ⟨rows, heq, hrows⟩ :=
    authenticate_effect prim inp did' challengeId signatureHex preCollected s
  rw [heq]
  dsimp only
  -- whatever row the call appended, its type is not that of a registration
  rcases hrows with rfl | ⟨data, rfl⟩ | ⟨entry, pair, chosen, token, rfl, -⟩
  · rw [List.append_nil]
  · rw [Ledger.latestRegister_snoc, if_neg]
    simp [Ledger.isRegister, Ledger.newEntry]
  · rw [Ledger.latestRegister_snoc, if_neg]
    simp [Ledger.isRegister, successRow, Ledger.newEntry]

theorem enrolled_step (prim : Primitives) (inp : RegisterInputs) (password : String) (s : System)
    (op : Op) (hnodes : NodesOrdered s) (hop : op.SparesDid prim (inp.did prim))
    (h : inp.Enrolled prim password s) : inp.Enrolled prim password (step prim s op) := by
  have hsame := RegisterInputs.sharesKept_refl (inp.did prim) s.nodes
  cases op with
  | register password' other =>
    exact inp.enrolled_register_other prim password other password' s hnodes.length.le
      (fun heq => hop heq.symm) h
  | authenticate did challengeId signatureHex preCollected auth =>
    apply inp.enrolled_frame prim password s _ h
    · exact latestRegister_auth _ _ _ _ _ _ _ _
    · rw [step, authenticate_nodes]
      exact hsame
  | issue did challenge => exact inp.enrolled_frame prim password s _ h rfl hsame
  | peek challengeId now => exact h
  | consume challengeId now => exact inp.enrolled_frame prim password s _ h rfl hsame
  | cleanup now => exact inp.enrolled_frame prim password s _ h rfl hsame
  | setOnline nodeId online =>
    exact inp.enrolled_frame prim password s _ h rfl
      (setNode_kept _ nodeId (fun node => { node with online := online }) (fun _ => rfl) _)
  | setByzantine nodeId byzantine =>
    exact inp.enrolled_frame prim password s _ h rfl
      (setNode_kept _ nodeId (fun node => { node with byzantine := byzantine }) (fun _ => rfl) _)

/-- A registration that returns leaves its DID enrolled. -/
theorem enrolled_register (prim : Primitives) (inp : RegisterInputs) (password : String)
    (s : System) (hnodes : NodesOrdered s) (reply : RegisterReply)
    (hok : (register prim inp password s).1 = .ok reply) :
    inp.Enrolled prim password (register prim inp password s).2 := by
  rcases inp.register_cases prim password s hnodes.length.le with
    ⟨-, e, heq⟩ | ⟨-, -, e, heq⟩ | ⟨-, -, r, files, heq, -⟩
  · rw [heq] at hok
    cases hok
  · rw [heq] at hok
    cases hok
  · rw [heq]
    exact inp.enrolled_of_ledgerRow prim password s files

theorem enrolled_run (prim : Primitives) (inp : RegisterInputs) (password : String) (s : System)
    (ops : List Op) (hnodes : NodesOrdered s)
    (hops : ∀ op ∈ ops, op.SparesDid prim (inp.did prim)) (h : inp.Enrolled prim password s) :
    inp.Enrolled prim password (run (step prim) s ops) := by
  -- on the operations; each step keeps the order of the nodes and the enrolment
  induction ops generalizing s with
  | nil => exact h
  | cons op ops ih =>
    rw [run_cons]
    exact ih (step prim s op) (nodesOrdered_step prim s op hnodes)
      (fun op' hop' => hops op' (List.mem_cons_of_mem _ hop'))
      (enrolled_step prim inp password s op hnodes (hops op List.mem_cons_self) h)

/-- After `before`, the registration returned; since then nothing registered its DID. -/
structure Completed (prim : Primitives) (aesKeys : ℕ → Token 32) (systemKeys : Option SystemKeys)
    (inp : RegisterInputs) (password : String) (before after : List Op) : Prop where
  returned : ∃ reply,
    (register prim inp password (runOps prim aesKeys systemKeys before)).1 = .ok reply
  spared : ∀ op ∈ after, op.SparesDid prim (inp.did prim)

theorem Completed.enrolled {prim : Primitives} {aesKeys : ℕ → Token 32}
    {systemKeys : Option SystemKeys} {inp : RegisterInputs} {password : String}
    {before after : List Op} (h : Completed prim aesKeys systemKeys inp password before after) :
    inp.Enrolled prim password
      (runOps prim aesKeys systemKeys (before ++ Op.register password inp :: after)) := by
  have hbefore := nodesOrdered_run prim aesKeys systemKeys before
  obtain ⟨reply, hreply⟩ := h.returned
  rw [runOps, run_append, run_cons]
  exact enrolled_run prim inp password _ after (nodesOrdered_step prim _ _ hbefore) h.spared
    (enrolled_register prim inp password _ hbefore reply hreply)

end DecentralizedIDP
