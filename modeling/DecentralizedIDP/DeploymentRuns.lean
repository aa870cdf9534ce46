import DecentralizedIDP.NodeServices
import DecentralizedIDP.SessionRestarts

/-! The deployment over whole runs: what the services can read, and what the handlers that wait
have been told. -/
namespace DecentralizedIDP
open Foundations

/-! ## The rows of one registration -/

theorem step_kept (prim : Primitives) (did : String) (s : System) (op : Op) (h : NodesOrdered s)
    (hop : op.SparesDid prim did) :
    RegisterInputs.SharesKept did s.nodes (step prim s op).nodes := by
  cases op with
  | register password inp =>
    have hkept (count : ℕ) :=
      inp.putShares_kept prim password did (fun heq => hop heq.symm) count s.nodes
    rw [step]
    rcases inp.register_cases prim password s h.length.le with
      ⟨-, e, heq⟩ | ⟨-, -, e, heq⟩ | ⟨-, -, r, files, heq, -⟩ <;>
    · rw [heq]
      exact hkept _
  | authenticate did' challengeId signatureHex preCollected inp =>
    rw [step, authenticate_nodes]
    exact RegisterInputs.sharesKept_refl did s.nodes
  | setOnline nodeId online =>
    exact setNode_kept did nodeId (fun node => { node with online := online }) (fun _ => rfl) _
  | setByzantine nodeId byzantine =>
    exact setNode_kept did nodeId (fun node => { node with byzantine := byzantine })
      (fun _ => rfl) _
  | _ => exact RegisterInputs.sharesKept_refl did s.nodes

/-- No table has another row for the DID than the one that the call writes there. -/
structure RegisterInputs.OnlyRows (prim : Primitives) (reg : RegisterInputs) (password : String)
    (r : Running) : Prop where
  seen : ∀ (k : ℕ) (node : Node), r.system.nodes[k]? = some node →
    node.shareStore.shares (reg.did prim) = none ∨ node.shareStore.shares (reg.did prim) =
      some (reg.row prim password (k+1) node.shareStore.aesKey)
  disk : ∀ k < nNodes, r.dir.shares ((k+1 : ℕ) : ℤ) (reg.did prim) = none ∨
    ∃ aesKey, r.dir.storeKey ((k+1 : ℕ) : ℤ) = some aesKey ∧
      r.dir.shares ((k+1 : ℕ) : ℤ) (reg.did prim) = some (reg.row prim password (k+1) aesKey)

/-- The operation is no registration of the DID, or it is this one. -/
def LifeOp.RegistersOnly (prim : Primitives) (reg : RegisterInputs) (password : String)
    (op : LifeOp) : Prop := op.SparesDid prim (reg.did prim) ∨ op = .call (.register password reg)

section Rows
variable {prim : Primitives} {reg : RegisterInputs} {password : String}

theorem onlyRows_first (start : StartInputs) :
    reg.OnlyRows prim password (Running.first prim start) := by
  obtain ⟨storeKey, heq, -⟩ := lifespan_eq prim start (fun _ => none) DataDir.blank
  rw [Running.first, Running.startOn, heq]
  constructor
  · intro k node hnode
    obtain ⟨i, -, rfl⟩ := List.mem_map.mp (List.mem_of_getElem? hnode)
    exact Or.inl rfl
  · exact fun k _ => Or.inl rfl

theorem onlyRows_restart (r : Running) (inp : StartInputs) (h : reg.OnlyRows prim password r) :
    reg.OnlyRows prim password (r.step prim (.restart inp)) := by
  obtain ⟨storeKey, heq, hkeys, -⟩ := lifespan_eq prim inp r.system.files r.dir
  rw [Running.step, Running.startOn, heq]
  -- a node that has a row has the key of its key file
  have hrow (k : ℕ) (hk : k < nNodes) :
      r.dir.shares ((k+1 : ℕ) : ℤ) (reg.did prim) = none ∨
        r.dir.shares ((k+1 : ℕ) : ℤ) (reg.did prim) =
          some (reg.row prim password (k+1) (loadedKey inp.aesKeys r.dir (k+1))) := by
    rcases h.disk k hk with hnone | ⟨aesKey, hkey, hsome⟩
    · exact Or.inl hnone
    · rw [loadedKey, hkey, Option.getD_some]
      exact Or.inr hsome
  constructor
  · intro k node hnode
    have hk : k < nNodes := by
      have hlt := (List.getElem?_eq_some_iff.mp hnode).1
      rwa [List.length_map, List.length_range'] at hlt
    dsimp only at hnode
    rw [List.getElem?_map, List.getElem?_range' hk, Option.map_some, Option.some.injEq, one_mul,
      add_comm 1 k] at hnode
    rw [← hnode]
    exact hrow k hk
  · intro k hk
    exact (hrow k hk).imp_right
      (fun hsome => ⟨_, hkeys (k+1) (List.mem_range'_1.mpr (by omega)), hsome⟩)

theorem onlyRows_spared (r : Running) (hsound : r.Sound) (op : Op)
    (hop : op.SparesDid prim (reg.did prim)) (h : reg.OnlyRows prim password r) :
    reg.OnlyRows prim password (r.step prim (.call op)) := by
  constructor
  · intro k node' hnode'
    obtain ⟨node, hnode, hshares, hkey⟩ :=
      step_kept prim (reg.did prim) r.system op hsound.ordered hop k node' hnode'
    rw [hshares, hkey]
    exact h.seen k node hnode
  · intro k hk
    rw [Running.step, (Running.stepDisk_keys prim r.system r.dir op).1]
    cases op with
    | register otherPassword other =>
      have hlt : k < r.system.nodes.length := hsound.ordered.length.symm ▸ hk
      have hnode := List.getElem?_eq_getElem hlt
      have hid := (hsound.ordered.nodeId k _ hnode).2
      have htable := registerDisk_shares prim other otherPassword r.system r.dir hsound.ordered k _
        hnode
      rw [hid] at htable
      rw [stepDisk, htable]
      split_ifs
      · -- for this DID the connection sees what it saw before
        have hkey := hsound.storeKeys _ (List.getElem_mem hlt)
        rw [hid] at hkey
        have hother : (other.putShare prim otherPassword (k+1)
            r.system.nodes[k]).shareStore.shares (reg.did prim) =
              r.system.nodes[k].shareStore.shares (reg.did prim) :=
          ShareStore.putRow_other _ _ _ _ (fun heq => hop heq.symm)
        rw [hother]
        exact (h.seen k _ hnode).imp_right (fun hsome => ⟨_, hkey, hsome⟩)
      · exact h.disk k hk
    | _ => exact h.disk k hk

theorem onlyRows_register (r : Running) (hsound : r.Sound) (h : reg.OnlyRows prim password r) :
    reg.OnlyRows prim password (r.step prim (.call (.register password reg))) := by
  constructor
  · intro k node' hnode'
    have hput (count : ℕ)
        (hget : (reg.putShares prim password 1 count r.system.nodes)[k]? = some node') :
        node'.shareStore.shares (reg.did prim) = none ∨ node'.shareStore.shares (reg.did prim) =
          some (reg.row prim password (k+1) node'.shareStore.aesKey) := by
      rw [RegisterInputs.putShares_getElem?] at hget
      obtain ⟨node, hnode, rfl⟩ := Option.map_eq_some_iff.mp hget
      split_ifs
      · rw [add_comm 1 k]
        exact Or.inr (ShareStore.putRow_same _ _ _)
      · exact h.seen k node hnode
    rw [Running.step, step] at hnode'
    rcases reg.register_cases prim password r.system hsound.ordered.length.le with
      ⟨-, e, heq⟩ | ⟨-, -, e, heq⟩ | ⟨-, -, result, files, heq, -⟩ <;>
    · rw [heq] at hnode'
      exact hput _ hnode'
  · intro k hk
    have hlt : k < r.system.nodes.length := hsound.ordered.length.symm ▸ hk
    have hnode := List.getElem?_eq_getElem hlt
    have hid := (hsound.ordered.nodeId k _ hnode).2
    have hkey := hsound.storeKeys _ (List.getElem_mem hlt)
    have htable := registerDisk_shares prim reg password r.system r.dir hsound.ordered k _ hnode
    rw [hid] at htable hkey
    rw [Running.step, (Running.stepDisk_keys prim r.system r.dir _).1, stepDisk, htable]
    split_ifs
    · exact Or.inr ⟨_, hkey, ShareStore.putRow_same _ _ _⟩
    · exact h.disk k hk

theorem onlyRows_step (r : Running) (hsound : r.Sound) (op : LifeOp)
    (hop : op.RegistersOnly prim reg password) (h : reg.OnlyRows prim password r) :
    reg.OnlyRows prim password (r.step prim op) := by
  rcases hop with hspares | rfl
  · cases op with
    | restart inp => exact onlyRows_restart r inp h
    | call op => exact onlyRows_spared r hsound op hspares h
  · exact onlyRows_register r hsound h

end Rows

/-! ## Key files that are only added -/

/-- The directory with more key files. -/
structure ExtendsKeys (dir dir' : DataDir) : Prop where
  rest : dir' = { dir with storeKey := dir'.storeKey }
  kept : ∀ id aesKey, dir.storeKey id = some aesKey → dir'.storeKey id = some aesKey

/-- A service that starts loads its key, or adds it. -/
theorem startService_keys (draw : Token 32) (nodeId : ℤ) (dir : DataDir) :
    let made := Node.init draw nodeId dir
    ExtendsKeys dir made.2 ∧ made.2.storeKey nodeId = some made.1.shareStore.aesKey := by
  intro made
  unfold made
  rw [Node.init, ShareStore.init_eq]
  refine ⟨⟨rfl, ?_⟩, Function.update_self _ _ _⟩
  intro id aesKey hkey
  dsimp only
  by_cases hid : id = nodeId
  · rw [hid] at hkey ⊢
    rw [Function.update_self, hkey, Option.getD_some]
  · rw [Function.update_of_ne hid, hkey]

theorem step_keys_kept (prim : Primitives) (r : Running) (op : LifeOp) (id : ℤ)
    (aesKey : Token 32) (hkey : r.dir.storeKey id = some aesKey) :
    (r.step prim op).dir.storeKey id = some aesKey := by
  cases op with
  | call op => rw [Running.step, (Running.stepDisk_keys prim r.system r.dir op).1, hkey]
  | restart inp =>
    obtain ⟨storeKey, heq, hkeys, hothers⟩ := lifespan_eq prim inp r.system.files r.dir
    rw [Running.step, Running.startOn, heq]
    dsimp only
    by_cases hid : ∃ i ∈ List.range' 1 nNodes, id = (i : ℤ)
    · obtain ⟨i, hi, rfl⟩ := hid
      rw [hkeys i hi, loadedKey, hkey, Option.getD_some]
    · rw [hothers id (fun i hi heq => hid ⟨i, hi, heq⟩), hkey]

namespace ExtendsKeys
variable {prim : Primitives} {r : Running} {dir' : DataDir} (hext : ExtendsKeys r.dir dir')
include hext

theorem sound (h : r.Sound) : Running.Sound { r with dir := dir' } where
  ordered := h.ordered
  storeKeys := fun node hnode => hext.kept _ _ (h.storeKeys node hnode)
  systemKeys := by
    obtain ⟨keys, hsystem, hdisk⟩ := h.systemKeys
    refine ⟨keys, hsystem, ?_⟩
    rw [hext.rest]
    exact hdisk

theorem onlyRows {reg : RegisterInputs} {password : String} (h : reg.OnlyRows prim password r) :
    reg.OnlyRows prim password { r with dir := dir' } := by
  refine ⟨h.seen, ?_⟩
  intro k hk
  have hshares : dir'.shares = r.dir.shares := by rw [hext.rest]
  dsimp only
  rw [hshares]
  rcases h.disk k hk with hnone | ⟨aesKey, hkey, hsome⟩
  · exact Or.inl hnone
  · exact Or.inr ⟨aesKey, hext.kept _ _ hkey, hsome⟩

theorem durable {reg : RegisterInputs} {password : String} (h : reg.Durable prim password r) :
    reg.Durable prim password { r with dir := dir' } := by
  refine ⟨h.enrolled, ?_, ?_⟩
  · rw [hext.rest]
    exact h.onDisk.entry
  · intro k hk
    obtain ⟨aesKey, hkey, hrow⟩ := h.onDisk.stored k hk
    refine ⟨aesKey, hext.kept _ _ hkey, ?_⟩
    rw [hext.rest]
    exact hrow

end ExtendsKeys

/-! ## Events and the coordinator below them -/

namespace Deployment
variable (prim : Primitives) (net : Network)

/-- What an event does to the coordinator, if it does anything there. -/
def operation (d : Deployment) : DeploymentEvent → Option LifeOp
  | .register password inp => some (.call (.register password inp))
  | .challenge did inp => some (.call (.issue did inp))
  | .authenticate _ request peekedAt inp =>
    match ChallengeManager.peek request.challengeId peekedAt d.running.system.pending with
    | none => some (.call (.authenticate request.did request.challengeId request.signature none
        inp))
    | some _ => none
  | .resume number inp =>
    (d.waiting number).map (fun w => .call (w.op d.running.system.nodes inp))
  | .restart inp => some (.restart inp)
  | _ => none

/-- An event is an operation of the coordinator, adds key files, or leaves it alone. -/
theorem handle_running (d : Deployment) (e : DeploymentEvent) :
    (∃ op, d.operation e = some op ∧ (d.handle prim net e).running = d.running.step prim op) ∨
      ∃ dir', ExtendsKeys d.running.dir dir' ∧
        (d.handle prim net e).running = { d.running with dir := dir' } := by
  have hsame : ExtendsKeys d.running.dir d.running.dir := ⟨rfl, fun _ _ hkey => hkey⟩
  cases e with
  | register password inp => exact Or.inl ⟨_, rfl, rfl⟩
  | challenge did inp => exact Or.inl ⟨_, rfl, rfl⟩
  | authenticate number request peekedAt inp =>
    rw [handle, operation]
    cases ChallengeManager.peek request.challengeId peekedAt d.running.system.pending with
    | none => exact Or.inl ⟨_, rfl, rfl⟩
    | some nonce => exact Or.inr ⟨_, hsame, rfl⟩
  | serve number nodeId =>
    rw [handle]
    right
    refine ⟨_, hsame, ?_⟩
    split
    · split_ifs <;> rfl
    · rfl
  | resume number inp =>
    rw [handle, operation]
    cases d.waiting number with
    | none => exact Or.inr ⟨_, hsame, rfl⟩
    | some w => exact Or.inl ⟨_, rfl, rfl⟩
  | startService nodeId draw =>
    exact Or.inr ⟨_, (startService_keys draw nodeId d.running.dir).1, rfl⟩
  | stopService nodeId => exact Or.inr ⟨_, hsame, rfl⟩
  | restart inp => exact Or.inl ⟨_, rfl, rfl⟩

end Deployment

/-- The challenge that an event issues. -/
def DeploymentEvent.issued : DeploymentEvent → Option (String × Challenge)
  | .challenge did inp => created (.issue did inp)
  | _ => none

/-- The event registers another DID, if it registers one. -/
def DeploymentEvent.SparesDid (prim : Primitives) (did : String) : DeploymentEvent → Prop
  | .register _ inp => inp.did prim ≠ did
  | _ => True

/-- No commit of a share fails in the event. -/
def DeploymentEvent.CommitsShares : DeploymentEvent → Prop
  | .register _ inp => ∀ i message, (inp.stores i).write ≠ .uncommitted message
  | _ => True

theorem operation_issued (d : Deployment) (e : DeploymentEvent) (op : LifeOp)
    (hop : d.operation e = some op) : op.created = e.issued := by
  cases e with
  | register password inp =>
    cases hop
    rfl
  | challenge did inp =>
    cases hop
    rfl
  | authenticate number request peekedAt inp =>
    rw [Deployment.operation] at hop
    split at hop
    · cases hop
      rfl
    · cases hop
  | resume number inp =>
    obtain ⟨w, -, rfl⟩ := Option.map_eq_some_iff.mp hop
    rfl
  | restart inp =>
    cases hop
    rfl
  | _ => cases hop

theorem operation_spares (prim : Primitives) (did : String) (d : Deployment) (e : DeploymentEvent)
    (he : e.SparesDid prim did) (op : LifeOp) (hop : d.operation e = some op) :
    op.SparesDid prim did := by
  cases e with
  | register password inp =>
    cases hop
    exact he
  | challenge did' inp =>
    cases hop
    trivial
  | authenticate number request peekedAt inp =>
    rw [Deployment.operation] at hop
    split at hop
    · cases hop
      trivial
    · cases hop
  | resume number inp =>
    obtain ⟨w, -, rfl⟩ := Option.map_eq_some_iff.mp hop
    trivial
  | restart inp =>
    cases hop
    trivial
  | _ => cases hop

/-! ## Locked tables -/

/-- The loop leaves no table locked when no commit fails. -/
theorem distributeLocked_none (prim : Primitives) (stores : ℕ → StoreInputs)
    (hstores : ∀ i message, (stores i).write ≠ .uncommitted message) (did : String)
    (shares : List (ℤ × ℤ)) (commitments : List Bytes) (i : ℕ) (nodes : List Node) :
    distributeLocked prim stores did shares commitments i nodes (fun _ => false) =
      fun _ => false := by
  induction nodes generalizing i with
  | nil => rfl
  | cons node nodes ih =>
    rw [distributeLocked]
    split
    · split
      · next message _ hwrite => exact absurd hwrite (hstores i message)
      · rfl
      · rw [Function.update_eq_self]
        exact ih (i+1)
    · rfl

theorem registerLocked_none (prim : Primitives) (inp : RegisterInputs)
    (hstores : ∀ i message, (inp.stores i).write ≠ .uncommitted message) (password : String)
    (s : System) : registerLocked prim inp password s (fun _ => false) = fun _ => false := by
  rw [registerLocked]
  split_ifs
  · split
    · rfl
    · split
      · rfl
      · exact distributeLocked_none prim inp.stores hstores _ _ _ _ _
  · rfl

theorem locked_handle (prim : Primitives) (net : Network) (d : Deployment)
    (hlocked : d.locked = fun _ => false) (e : DeploymentEvent) (he : e.CommitsShares) :
    (d.handle prim net e).locked = fun _ => false := by
  cases e with
  | register password inp =>
    rw [Deployment.handle, hlocked]
    exact registerLocked_none prim inp he password _
  | authenticate number request peekedAt inp =>
    rw [Deployment.handle]
    split
    · exact hlocked
    · exact hlocked
  | serve number nodeId =>
    rw [Deployment.handle]
    split
    · split_ifs
      · exact hlocked
      · exact hlocked
    · exact hlocked
  | resume number inp =>
    rw [Deployment.handle]
    split
    · exact hlocked
    · exact hlocked
  | restart inp => rfl
  | _ => exact hlocked

/-- As long as no commit of a share has failed, every table can be read. -/
theorem locked_runDeployment (prim : Primitives) (net : Network) (start : StartInputs)
    (events : List DeploymentEvent) (hevents : ∀ e ∈ events, e.CommitsShares) :
    (runDeployment prim net start events).locked = fun _ => false := by
  induction events using List.reverseRecOn with
  | nil => rfl
  | append_singleton events e ih =>
    rw [runDeployment, run_snoc]
    apply locked_handle prim net _ _ e (hevents e (by simp))
    exact ih (fun e' he' => hevents e' (List.mem_append_left _ he'))

/-! ## What a service answers -/

/-- The proof that node `k+1` makes of its share in the session of `nonce`. -/
def RegisterInputs.proofOf (prim : Primitives) (reg : RegisterInputs) (password : String)
    (nonce : Bytes) (k : ℕ) : PartialProof :=
  computePartialProof (((k+1 : ℕ) : ℤ), reg.yValue prim password (k+1)) nonce ((k+1 : ℕ) : ℤ) P

section Fetch
variable {prim : Primitives} {reg : RegisterInputs} {password : String} {d : Deployment}
  (hdec : prim.DecryptsEncrypted) (k : ℕ) (nonce : Bytes)
include hdec

/-- A service whose table has the row answers as an honest node does. -/
theorem partialProofEndpoint_row (aesKey : Token 32) (dir : DataDir)
    (hrow : dir.shares ((k+1 : ℕ) : ℤ) (reg.did prim) =
      some (reg.row prim password (k+1) aesKey)) :
    partialProofEndpoint prim Deployment.anyDraw
        (Deployment.serviceNode ((k+1 : ℕ) : ℤ) aesKey dir) (reg.did prim) (hex nonce) =
      .ok (reg.proofOf prim password nonce k) := by
  have hshare : (⟨aesKey, dir.shares ((k+1 : ℕ) : ℤ)⟩ : ShareStore).getShare prim (reg.did prim) =
      .ok (some (((k+1 : ℕ) : ℤ), reg.yValue prim password (k+1))) :=
    ShareStore.getShare_stored prim hdec _ _ _ _ _ _ (reg.yValue_fits prim password (k+1)) hrow
  simp only [partialProofEndpoint, Ledger.bytesFromhex, fromhex_hex, bind, Except.bind,
    Node.computePartialProof, Deployment.serviceNode, hshare, Bool.not_true, Bool.false_eq_true,
    if_false]
  rfl

omit hdec in
theorem partialProofEndpoint_none (did : String) (nodeId : ℤ) (aesKey : Token 32) (dir : DataDir)
    (hrow : dir.shares nodeId did = none) :
    (partialProofEndpoint prim Deployment.anyDraw (Deployment.serviceNode nodeId aesKey dir) did
      (hex nonce)).toOption = none := by
  simp only [partialProofEndpoint, Ledger.bytesFromhex, fromhex_hex, bind, Except.bind,
    Node.computePartialProof, Deployment.serviceNode, ShareStore.getShare, hrow, Bool.not_true,
    Bool.false_eq_true, if_false]
  rfl

/-- Whatever a service sends for the DID is the proof of this registration. -/
theorem fetch_eq (hk : k < nNodes) (hrows : reg.OnlyRows prim password d.running)
    (hkeys : ∀ id aesKey, d.services id = some aesKey →
      d.running.dir.storeKey id = some aesKey)
    (proof : PartialProof)
    (hfetch : d.fetch prim ((k+1 : ℕ) : ℤ) (reg.did prim) (hex nonce) = some proof) :
    proof = reg.proofOf prim password nonce k := by
  rw [Deployment.fetch] at hfetch
  cases hservice : d.services ((k+1 : ℕ) : ℤ) with
  | none =>
    rw [hservice] at hfetch
    cases hfetch
  | some aesKey =>
    simp only [hservice] at hfetch
    split_ifs at hfetch
    rcases hrows.disk k hk with hnone | ⟨aesKey', hkey, hrow⟩
    · rw [partialProofEndpoint_none nonce _ _ _ _ hnone] at hfetch
      cases hfetch
    · rw [hkeys _ _ hservice, Option.some.injEq] at hkey
      subst hkey
      rw [partialProofEndpoint_row hdec k nonce aesKey _ hrow] at hfetch
      exact (Option.some.inj hfetch).symm

end Fetch

/-! ## Whole runs -/

/-- The coordinator asks node `i` where the service of node `i` listens. -/
def Network.Wired (net : Network) : Prop :=
  ∀ k < nNodes, net.route ((k+1 : ℕ) : ℤ) = some ((k+1 : ℕ) : ℤ)

/-- A handler that waits has peeked at a challenge that was issued, and was told nothing but
proofs of this registration, if it asks for its DID. -/
def Waiting.Told (prim : Primitives) (reg : RegisterInputs) (password : String)
    (past : List DeploymentEvent) (w : Waiting) : Prop :=
  ∃ e ∈ past, ∃ entry : Challenge, e.issued = some (w.request.challengeId, entry) ∧
    w.nonceHex = hex entry.nonce ∧ (w.request.did = reg.did prim → ∀ k < nNodes, ∀ proof,
      w.answers ((k+1 : ℕ) : ℤ) = some (some proof) →
        proof = reg.proofOf prim password entry.nonce k)

theorem Waiting.Told.mono {prim : Primitives} {reg : RegisterInputs} {password : String}
    {past : List DeploymentEvent} {w : Waiting} (h : w.Told prim reg password past)
    (e : DeploymentEvent) : w.Told prim reg password (past ++ [e]) := by
  obtain ⟨e', he', entry, hrest⟩ := h
  exact ⟨e', List.mem_append_left _ he', entry, hrest⟩

/-- What holds after the events of `past`, none of which has registered the DID otherwise. -/
structure Deployment.Follows (prim : Primitives) (reg : RegisterInputs) (password : String)
    (past : List DeploymentEvent) (d : Deployment) : Prop where
  sound : d.running.Sound
  rows : reg.OnlyRows prim password d.running
  keys : ∀ id aesKey, d.services id = some aesKey → d.running.dir.storeKey id = some aesKey
  pending : ∀ challengeId entry, d.running.system.pending challengeId = some entry →
    ∃ e ∈ past, e.issued = some (challengeId, entry)
  told : ∀ number w, d.waiting number = some w → w.Told prim reg password past

section Runs
variable {prim : Primitives} {net : Network} {reg : RegisterInputs} {password : String}

theorem follows_start (start : StartInputs) :
    (Deployment.start prim start).Follows prim reg password [] where
  sound := Running.sound_startOn prim start _ _
  rows := onlyRows_first start
  keys := fun _ _ hservice => by cases hservice
  pending := by
    intro challengeId entry hentry
    rw [Deployment.start, first_pending] at hentry
    cases hentry
  told := fun _ _ hw => by cases hw

/-- A running service has the key that is in the file, also after the next event. -/
theorem handle_keys (d : Deployment) (e : DeploymentEvent)
    (hkeys : ∀ id aesKey, d.services id = some aesKey →
      d.running.dir.storeKey id = some aesKey) (id : ℤ) (aesKey : Token 32)
    (hservice : (d.handle prim net e).services id = some aesKey) :
    (d.handle prim net e).running.dir.storeKey id = some aesKey := by
  -- no event takes a key file away
  have hkept (aesKey : Token 32) (hkey : d.running.dir.storeKey id = some aesKey) :
      (d.handle prim net e).running.dir.storeKey id = some aesKey := by
    rcases Deployment.handle_running prim net d e with ⟨op, -, heq⟩ | ⟨dir', hext, heq⟩
    · rw [heq]
      exact step_keys_kept prim d.running op id aesKey hkey
    · rw [heq]
      exact hext.kept id aesKey hkey
  have hsame (hsame : (d.handle prim net e).services id = d.services id) :
      (d.handle prim net e).running.dir.storeKey id = some aesKey :=
    hkept aesKey (hkeys id aesKey (hsame ▸ hservice))
  cases e with
  | startService nodeId draw =>
    by_cases hid : id = nodeId
    · subst hid
      have hadded := (startService_keys draw id d.running.dir).2
      simp only [Deployment.handle, Function.update_self] at hservice
      split_ifs at hservice
      rw [Option.some.injEq] at hservice
      rw [← hservice]
      exact hadded
    · exact hsame (Function.update_of_ne hid _ _)
  | stopService nodeId =>
    by_cases hid : id = nodeId
    · subst hid
      simp only [Deployment.handle, Function.update_self] at hservice
      cases hservice
    · exact hsame (Function.update_of_ne hid _ _)
  | authenticate number request peekedAt inp =>
    apply hsame
    rw [Deployment.handle]
    split <;> rfl
  | serve number nodeId =>
    apply hsame
    rw [Deployment.handle]
    split
    · split_ifs <;> rfl
    · rfl
  | resume number inp =>
    apply hsame
    rw [Deployment.handle]
    split <;> rfl
  | _ => exact hsame rfl

/-- A challenge that is open after an event was issued by it, or was open before. -/
theorem handle_issued (d : Deployment) (e : DeploymentEvent) (challengeId : String)
    (entry : Challenge)
    (h : (d.handle prim net e).running.system.pending challengeId = some entry) :
    e.issued = some (challengeId, entry) ∨
      d.running.system.pending challengeId = some entry := by
  rcases Deployment.handle_running prim net d e with ⟨op, hop, heq⟩ | ⟨dir', hext, heq⟩
  · rw [heq] at h
    rw [← operation_issued d e op hop]
    exact ((lifeChallenges prim).live_step d.running op challengeId entry h).imp_right And.left
  · rw [heq] at h
    exact Or.inr h

/-- A handler that waits after an event has just peeked, was told one more answer, or waited
before. -/
theorem handle_told (hdec : prim.DecryptsEncrypted) (hnet : net.Wired)
    (past : List DeploymentEvent) (d : Deployment) (e : DeploymentEvent)
    (h : d.Follows prim reg password past) (number : ℕ) (w : Waiting)
    (hw : (d.handle prim net e).waiting number = some w) :
    w.Told prim reg password (past ++ [e]) := by
  have hbefore (hw : d.waiting number = some w) : w.Told prim reg password (past ++ [e]) :=
    (h.told number w hw).mono e
  cases e with
  | authenticate n request peekedAt inp =>
    rw [Deployment.handle] at hw
    cases hpeek : ChallengeManager.peek request.challengeId peekedAt d.running.system.pending with
    | none =>
      simp only [hpeek] at hw
      exact hbefore hw
    | some nonce =>
      simp only [hpeek, Deployment.setWaiting] at hw
      by_cases hn : number = n
      · subst hn
        rw [Function.update_self, Option.some.injEq] at hw
        subst hw
        rw [ChallengeManager.peek_eq_consume] at hpeek
        -- the handler has no answers yet, and a nonce that was issued
        obtain ⟨entry, hentry, -, rfl⟩ := ChallengeManager.consume_some _ _ _ _ hpeek
        obtain ⟨e', he', hissued⟩ := h.pending _ entry hentry
        exact ⟨e', List.mem_append_left _ he', entry, hissued, rfl, fun _ k _ proof hproof => by
          cases hproof⟩
      · rw [Function.update_of_ne hn] at hw
        exact hbefore hw
  | serve n nodeId =>
    rw [Deployment.handle] at hw
    split at hw
    · next w' target hw' htarget =>
      split_ifs at hw with hasked
      · exact hbefore hw
      · simp only [Deployment.setWaiting] at hw
        by_cases hn : number = n
        · subst hn
          rw [Function.update_self, Option.some.injEq] at hw
          subst hw
          obtain ⟨e', he', entry, hissued, hhex, htold⟩ := h.told number w' hw'
          refine ⟨e', List.mem_append_left _ he', entry, hissued, hhex, ?_⟩
          intro hdid k hk proof hproof
          dsimp only at hdid hproof
          by_cases hid : ((k+1 : ℕ) : ℤ) = nodeId
          · -- the answer that has just come is that of the service of this node
            subst hid
            rw [hnet k hk, Option.some.injEq] at htarget
            rw [Function.update_self, Option.some.injEq, ← htarget, hdid, hhex] at hproof
            exact fetch_eq hdec k entry.nonce hk h.rows h.keys proof hproof
          · rw [Function.update_of_ne hid] at hproof
            exact htold hdid k hk proof hproof
        · rw [Function.update_of_ne hn] at hw
          exact hbefore hw
    · exact hbefore hw
  | resume n inp =>
    rw [Deployment.handle] at hw
    split at hw
    · exact hbefore hw
    · simp only [Deployment.setWaiting] at hw
      by_cases hn : number = n
      · subst hn
        rw [Function.update_self] at hw
        cases hw
      · rw [Function.update_of_ne hn] at hw
        exact hbefore hw
  | restart inp => cases hw
  | _ => exact hbefore hw

theorem follows_step (hdec : prim.DecryptsEncrypted) (hnet : net.Wired)
    (past : List DeploymentEvent) (d : Deployment) (e : DeploymentEvent)
    (he : e.SparesDid prim (reg.did prim) ∨ e = .register password reg)
    (h : d.Follows prim reg password past) :
    (d.handle prim net e).Follows prim reg password (past ++ [e]) where
  sound := by
    rcases Deployment.handle_running prim net d e with ⟨op, -, heq⟩ | ⟨dir', hext, heq⟩
    · rw [heq]
      exact Running.sound_step prim d.running op h.sound
    · rw [heq]
      exact hext.sound h.sound
  rows := by
    rcases Deployment.handle_running prim net d e with ⟨op, hop, heq⟩ | ⟨dir', hext, heq⟩
    · rw [heq]
      apply onlyRows_step d.running h.sound op _ h.rows
      rcases he with hspares | rfl
      · exact Or.inl (operation_spares prim _ d e hspares op hop)
      · cases hop
        exact Or.inr rfl
    · rw [heq]
      exact hext.onlyRows h.rows
  keys := handle_keys d e h.keys
  pending := by
    intro challengeId entry hentry
    rcases handle_issued d e challengeId entry hentry with hissued | hbefore
    · exact ⟨e, List.mem_append_right _ (List.mem_singleton_self e), hissued⟩
    · obtain ⟨e', he', hissued⟩ := h.pending challengeId entry hbefore
      exact ⟨e', List.mem_append_left _ he', hissued⟩
  told := handle_told hdec hnet past d e h

theorem follows_run (hdec : prim.DecryptsEncrypted) (hnet : net.Wired) (start : StartInputs)
    (events : List DeploymentEvent)
    (hevents : ∀ e ∈ events, e.SparesDid prim (reg.did prim) ∨ e = .register password reg) :
    (runDeployment prim net start events).Follows prim reg password events := by
  induction events using List.reverseRecOn with
  | nil => exact follows_start start
  | append_singleton events e ih =>
    rw [runDeployment, run_snoc]
    apply follows_step hdec hnet events _ e (hevents e (by simp))
    exact ih (fun e' he' => hevents e' (List.mem_append_left _ he'))

theorem durable_handle (d : Deployment) (e : DeploymentEvent) (hsound : d.running.Sound)
    (he : e.SparesDid prim (reg.did prim)) (h : reg.Durable prim password d.running) :
    reg.Durable prim password (d.handle prim net e).running := by
  rcases Deployment.handle_running prim net d e with ⟨op, hop, heq⟩ | ⟨dir', hext, heq⟩
  · rw [heq]
    exact durable_step prim reg password d.running hsound op
      (operation_spares prim _ d e he op hop) h
  · rw [heq]
    exact hext.durable h

theorem events_spare {before after : List DeploymentEvent} {did : String}
    (hspared : ∀ e ∈ before ++ after, e.SparesDid prim did) (call : DeploymentEvent) :
    ∀ e ∈ before ++ call :: after, e.SparesDid prim did ∨ e = call := by
  intro e he
  rcases List.mem_append.mp he with he | he
  · exact Or.inl (hspared e (List.mem_append_left _ he))
  · rcases List.mem_cons.mp he with rfl | he
    · exact Or.inr rfl
    · exact Or.inl (hspared e (List.mem_append_right _ he))

/-- A registration that returned is durable from then on. -/
theorem durable_runDeployment (hdec : prim.DecryptsEncrypted) (hnet : net.Wired)
    (start : StartInputs) (before after : List DeploymentEvent) (reply : RegisterReply)
    (hspared : ∀ e ∈ before ++ after, e.SparesDid prim (reg.did prim))
    (hreply : (register prim reg password
      (runDeployment prim net start before).running.system).1 = .ok reply) :
    reg.Durable prim password
      (runDeployment prim net start (before ++ .register password reg :: after)).running := by
  have hbefore : (runDeployment prim net start before).Follows prim reg password before :=
    follows_run hdec hnet start before
      (fun e he => Or.inl (hspared e (List.mem_append_left _ he)))
  obtain ⟨hstores, hwrite⟩ :=
    committed_of_returned prim reg password _ hbefore.sound.ordered reply hreply
  induction after using List.reverseRecOn with
  | nil =>
    rw [runDeployment, run_snoc]
    exact durable_register prim reg password _ hbefore.sound hstores hwrite
  | append_singleton after e ih =>
    have hearlier : ∀ e' ∈ before ++ after, e'.SparesDid prim (reg.did prim) := by
      intro e' he'
      apply hspared
      rw [← List.append_assoc]
      exact List.mem_append_left _ he'
    rw [← List.cons_append, ← List.append_assoc, runDeployment, run_snoc]
    apply durable_handle _ e
      (follows_run hdec hnet start _ (events_spare hearlier (.register password reg))).sound
      (hspared e (by simp))
    exact ih hearlier

end Runs

end DecentralizedIDP
