import DecentralizedIDP.RestartEffects

/-! A coordinator over calls, crashes and restarts: its ledger and its registrations come
through them. -/
namespace DecentralizedIDP
open Foundations

/-! ## Memory and disk agree on the keys -/

/-- Id and key of a node, which no call changes. -/
def Node.idAndKey (node : Node) : ℤ × Token 32 := (node.nodeId, node.shareStore.aesKey)

theorem putShares_idAndKey (prim : Primitives) (inp : RegisterInputs) (password : String)
    (i count : ℕ) (nodes : List Node) :
    (inp.putShares prim password i count nodes).map Node.idAndKey = nodes.map Node.idAndKey := by
  apply List.ext_getElem?
  intro k
  rw [List.getElem?_map, List.getElem?_map, RegisterInputs.putShares_getElem?, Option.map_map]
  congr 1
  funext node
  simp only [Function.comp_apply]
  split_ifs
  · rfl
  · rfl

theorem setNode_idAndKey (nodeId : ℤ) (f : Node → Node) (hf : ∀ node, (f node).idAndKey =
    node.idAndKey) (nodes : List Node) :
    (setNode nodeId f nodes).map Node.idAndKey = nodes.map Node.idAndKey := by
  rw [setNode, List.map_map]
  apply List.map_congr_left
  intro node _
  simp only [Function.comp_apply]
  split_ifs
  · exact hf node
  · rfl

theorem step_idAndKey (prim : Primitives) (s : System) (op : Op) (h : NodesOrdered s) :
    (step prim s op).nodes.map Node.idAndKey = s.nodes.map Node.idAndKey := by
  cases op with
  | register password inp =>
    rw [step]
    rcases inp.register_cases prim password s h.length.le with
      ⟨-, e, heq⟩ | ⟨-, -, e, heq⟩ | ⟨-, -, r, files, heq, -⟩ <;>
    · rw [heq]
      exact putShares_idAndKey _ _ _ _ _ _
  | authenticate did challengeId signatureHex preCollected inp =>
    rw [step, authenticate_nodes]
  | setOnline nodeId online =>
    exact setNode_idAndKey nodeId (fun node => { node with online := online }) (fun _ => rfl) _
  | setByzantine nodeId byzantine =>
    exact setNode_idAndKey nodeId (fun node => { node with byzantine := byzantine })
      (fun _ => rfl) _
  | _ => rfl

namespace Running

/-- The keys with which the coordinator runs are those of the key files. -/
structure Sound (r : Running) : Prop where
  ordered : NodesOrdered r.system
  storeKeys : ∀ node ∈ r.system.nodes, r.dir.storeKey node.nodeId = some node.shareStore.aesKey
  systemKeys : ∃ keys, r.system.systemKeys = some keys ∧ HoldsKeys keys r.dir.keyFiles

theorem sound_startOn (prim : Primitives) (inp : StartInputs) (files : Files) (dir : DataDir) :
    (startOn prim inp files dir).Sound := by
  obtain ⟨storeKey, heq, hkeys, -⟩ := lifespan_eq prim inp files dir
  rw [startOn, heq]
  constructor
  case ordered =>
    rw [NodesOrdered, List.map_map]
    rfl
  case storeKeys =>
    intro node hnode
    obtain ⟨i, hi, rfl⟩ := List.mem_map.mp hnode
    exact hkeys i hi
  case systemKeys => exact ⟨_, rfl, leftKeyFiles_hold prim inp dir⟩

theorem stepDisk_keys (prim : Primitives) (s : System) (dir : DataDir) (op : Op) :
    (stepDisk prim s dir op).storeKey = dir.storeKey ∧
      (stepDisk prim s dir op).keyFiles = dir.keyFiles := by
  cases op with
  | register password inp =>
    obtain ⟨hstore, hsystem, -⟩ := inp.registerDisk_frame prim password s dir
    exact ⟨hstore, hsystem⟩
  | _ => exact ⟨rfl, rfl⟩

theorem step_systemKeys (prim : Primitives) (s : System) (op : Op) :
    (DecentralizedIDP.step prim s op).systemKeys = s.systemKeys := by
  cases op with
  | register password inp =>
    obtain ⟨nodes, ledger, files, heq⟩ := inp.register_frame prim password s
    rw [DecentralizedIDP.step, heq]
  | authenticate did challengeId signatureHex preCollected inp =>
    obtain ⟨rows, heq, -⟩ :=
      authenticate_effect prim inp did challengeId signatureHex preCollected s
    rw [DecentralizedIDP.step, heq]
  | _ => rfl

theorem sound_step (prim : Primitives) (r : Running) (op : LifeOp) (h : r.Sound) :
    (r.step prim op).Sound := by
  cases op with
  | restart inp => exact sound_startOn prim inp r.system.files r.dir
  | call op =>
    obtain ⟨hstore, hsystem⟩ := stepDisk_keys prim r.system r.dir op
    constructor
    case ordered => exact nodesOrdered_step prim r.system op h.ordered
    case storeKeys =>
      intro node' hnode'
      -- the node stood in the list with the same id and key before the call
      have hpair : node'.idAndKey ∈ r.system.nodes.map Node.idAndKey := by
        rw [← step_idAndKey prim r.system op h.ordered]
        exact List.mem_map_of_mem hnode'
      obtain ⟨node, hnode, heq⟩ := List.mem_map.mp hpair
      obtain ⟨hid, hkey⟩ := Prod.mk.inj heq
      rw [step, hstore, ← hid, ← hkey]
      exact h.storeKeys node hnode
    case systemKeys =>
      rw [step, step_systemKeys, hsystem]
      exact h.systemKeys

theorem sound_life (prim : Primitives) (start : StartInputs) (ops : List LifeOp) :
    (runLife prim start ops).Sound :=
  run_invariant (step prim) Sound (sound_step prim) _ (sound_startOn prim start _ _) ops

/-! ## The ledger -/

/-- The call has returned after it wrote a row. -/
def Logged (prim : Primitives) (s : System) : Op → Prop
  | .register password inp => ∃ reply, (register prim inp password s).1 = .ok reply
  | .authenticate did challengeId signatureHex preCollected inp =>
    (∃ result, (authenticate prim inp did challengeId signatureHex preCollected s).1 =
      .ok result) ∧
    (authenticate prim inp did challengeId signatureHex preCollected s).2.ledger ≠ s.ledger
  | _ => False

theorem authenticate_ledger_prefix (prim : Primitives) (inp : AuthInputs)
    (did challengeId signatureHex : String) (preCollected : Option (List PartialProof))
    (s : System) : s.ledger <+:
      (authenticate prim inp did challengeId signatureHex preCollected s).2.ledger := by
  obtain ⟨rows, heq, -⟩ :=
    authenticate_effect prim inp did challengeId signatureHex preCollected s
  rw [heq]
  exact List.prefix_append _ _

/-- A call leaves the file as it was, or with all that is seen in it. -/
theorem stepDisk_ledger (prim : Primitives) (s : System) (dir : DataDir) (op : Op)
    (h : NodesOrdered s) :
    ((stepDisk prim s dir op).ledger = dir.ledger ∧ ¬Logged prim s op) ∨
      (stepDisk prim s dir op).ledger = (DecentralizedIDP.step prim s op).ledger := by
  cases op with
  | register password inp =>
    rcases inp.registerDisk_ledger prim password s dir h.length.le with
      ⟨hdisk, hno⟩ | ⟨hdisk, hstores, hwrite⟩
    · refine Or.inl ⟨hdisk, ?_⟩
      rintro ⟨reply, hok⟩
      rcases inp.register_cases prim password s h.length.le with
        ⟨-, e, heq⟩ | ⟨-, -, e, heq⟩ | ⟨hstores, -, r, files, heq, hret⟩
      · rw [heq] at hok
        cases hok
      · rw [heq] at hok
        cases hok
      · rw [heq] at hok
        exact hno ⟨hstores, (hret.mp ⟨reply, hok⟩).1⟩
    · right
      rw [stepDisk, hdisk, DecentralizedIDP.step]
      rcases inp.register_cases prim password s h.length.le with
        ⟨hno, -⟩ | ⟨-, ⟨message, hno⟩, -⟩ | ⟨-, -, r, files, heq, -⟩
      · exact absurd hstores hno
      · rw [hwrite] at hno
        cases hno
      · rw [heq]
  | authenticate did challengeId signatureHex preCollected inp =>
    simp only [stepDisk, Logged, DecentralizedIDP.step]
    cases hresult : authenticate prim inp did challengeId signatureHex preCollected s with
    | mk r after =>
      have hfront := authenticate_ledger_prefix prim inp did challengeId signatureHex preCollected s
      rw [hresult] at hfront
      cases r with
      | error e => exact Or.inl ⟨rfl, fun hlogged => by cases hlogged.1.choose_spec⟩
      | ok result =>
        rw [authenticateDisk]
        split_ifs with hlen
        · exact Or.inl ⟨rfl, fun hlogged => hlogged.2 (hfront.eq_of_length hlen.symm).symm⟩
        · exact Or.inr rfl
  | _ => exact Or.inl ⟨rfl, id⟩

/-- The ledger is a durable log of the runs. -/
def ledgerLog (prim : Primitives) : DurableLog (step prim) (Entry ℚ) where
  inv := Sound
  seen := fun r => r.system.ledger
  disk := fun r => r.dir.ledger
  inv_step := sound_step prim
  writes := by
    intro r op h
    cases op with
    | call op =>
      obtain ⟨rows, hrows, -⟩ := step_ledger prim r.system op h.ordered
      left
      refine ⟨hrows ▸ List.prefix_append _ _, ?_⟩
      exact (stepDisk_ledger prim r.system r.dir op h.ordered).imp_left And.left
    | restart inp =>
      obtain ⟨storeKey, heq, -⟩ := lifespan_eq prim inp r.system.files r.dir
      right
      rw [step, startOn, heq]
      exact ⟨rfl, rfl⟩

theorem behind_first (prim : Primitives) (start : StartInputs) :
    (ledgerLog prim).Behind (first prim start) := by
  obtain ⟨storeKey, heq, -⟩ := lifespan_eq prim start (fun _ => none) DataDir.blank
  refine ⟨sound_startOn prim start _ _, ?_⟩
  rw [ledgerLog, first, startOn, heq]

/-- A valid chain whose registration rows decode. -/
def Intact (prim : Primitives) (ledger : Ledger ℚ) : Prop :=
  (Ledger.chainFormat prim.repr).Linked Ledger.zeroHash ledger ∧ RowsRecorded prim ledger

theorem Intact.of_prefix {prim : Primitives} {ledger ledger' : Ledger ℚ}
    (h : Intact prim ledger) (hfront : ledger' <+: ledger) : Intact prim ledger' := by
  obtain ⟨rest, rfl⟩ := hfront
  have hlinked := ((Ledger.chainFormat prim.repr).linked_append Ledger.zeroHash ledger' rest).mp h.1
  exact ⟨hlinked.1, fun e he => h.2 e (List.mem_append_left rest he)⟩

theorem intact_life (prim : Primitives) (start : StartInputs) (ops : List LifeOp) :
    Intact prim (runLife prim start ops).system.ledger := by
  refine (run_invariant (step prim)
    (fun r => (ledgerLog prim).Behind r ∧ Intact prim r.system.ledger) ?_ (first prim start)
    ⟨behind_first prim start, ?_⟩ ops).2
  · intro r op h
    obtain ⟨hbehind, hintact⟩ := h
    refine ⟨(ledgerLog prim).behind_step r op hbehind, ?_⟩
    cases op with
    | call op =>
      have hordered : NodesOrdered r.system := hbehind.1.ordered
      rw [step]
      rcases step_appends prim r.system op hordered with heq | ⟨row, heq, hrow⟩
      · rw [heq]
        exact hintact
      · rw [heq]
        exact ⟨linked_appends prim _ row hrow hintact.1,
          rowsRecorded_snoc prim _ row hrow hintact.2⟩
    | restart inp =>
      -- the coordinator comes up with a first part of what it had seen
      obtain ⟨storeKey, heq, -⟩ := lifespan_eq prim inp r.system.files r.dir
      rw [step, startOn, heq]
      exact hintact.of_prefix hbehind.2
  · rw [first_system]
    exact ⟨trivial, fun e he => by cases he⟩

/-- The state in which a call of the run starts. -/
theorem runLife_append (prim : Primitives) (start : StartInputs) (before after : List LifeOp)
    (op : LifeOp) : runLife prim start (before ++ op :: after) =
      run (step prim) (step prim (runLife prim start before) op) after := by
  rw [runLife, run_append, run_cons, runLife]

end Running

/-- Through any calls, crashes and restarts the ledger file holds a first part of the ledger
that is seen, both chains are valid, the file only grows, and once a call has returned that
wrote a row, the ledger as it then was stays in the file. -/
theorem ledger_survives_restarts (prim : Primitives) (start : StartInputs) (ops : List LifeOp) :
    let r := runLife prim start ops
    r.dir.ledger <+: r.system.ledger ∧ Ledger.verifyChain prim.repr r.system.ledger = true ∧
    Ledger.verifyChain prim.repr r.dir.ledger = true ∧
    (∀ before after : List LifeOp, ops = before ++ after →
      (runLife prim start before).dir.ledger <+: r.dir.ledger) ∧
    ∀ (before : List LifeOp) (op : Op) (after : List LifeOp), ops = before ++ .call op :: after →
      Running.Logged prim (runLife prim start before).system op →
      (step prim (runLife prim start before).system op).ledger <+: r.dir.ledger := by
  intro r
  have hfirst := Running.behind_first prim start
  have hbehind (before : List LifeOp) :
      (Running.ledgerLog prim).Behind (runLife prim start before) :=
    (Running.ledgerLog prim).behind_run _ hfirst before
  have hintact : Running.Intact prim r.system.ledger := Running.intact_life prim start ops
  refine ⟨(hbehind ops).2, ?_, ?_, ?_, ?_⟩
  · exact (Ledger.verifyChain_iff prim.repr _).mpr hintact.1
  · exact (Ledger.verifyChain_iff prim.repr _).mpr (hintact.of_prefix (hbehind ops).2).1
  · intro before after hsplit
    have hlater := (Running.ledgerLog prim).disk_run _ (hbehind before) after
    have hrun : r = run (Running.step prim) (runLife prim start before) after := by
      unfold r runLife
      rw [hsplit, run_append]
    rw [hrun]
    exact hlater
  · intro before op after hsplit hlogged
    -- a call that has returned with its row has committed all that is seen
    have hcommit := (Running.stepDisk_ledger prim _ (runLife prim start before).dir op
      (hbehind before).1.ordered).resolve_left (fun h => h.2 hlogged)
    have hlater := (Running.ledgerLog prim).committed_run _ (hbehind before) (.call op) hcommit
      after
    unfold r
    rw [hsplit, Running.runLife_append]
    exact hlater

/-! ## Registrations -/

section Registrations
variable (prim : Primitives) (inp : RegisterInputs) (password : String)

/-- The files hold what the call has enrolled: its row is the newest of the DID, and every node's
table has the share under the key of the node's key file. -/
structure RegisterInputs.OnDisk (dir : DataDir) : Prop where
  entry : ∃ e, Ledger.latestRegister (inp.did prim) dir.ledger = some e ∧
    e.dataJson = dumpsSorted (inp.data prim password)
  stored : ∀ k < nNodes, ∃ aesKey, dir.storeKey ((k+1 : ℕ) : ℤ) = some aesKey ∧
    dir.shares ((k+1 : ℕ) : ℤ) (inp.did prim) = some (inp.row prim password (k+1) aesKey)

/-- The DID is enrolled, and would be after a crash at this place. -/
structure RegisterInputs.Durable (r : Running) : Prop where
  enrolled : inp.Enrolled prim password r.system
  onDisk : inp.OnDisk prim password r.dir

/-- A start on such files comes up with the DID enrolled, and leaves them as they are. -/
theorem RegisterInputs.OnDisk.startOn {prim : Primitives} {inp : RegisterInputs}
    {password : String} {dir : DataDir} (h : inp.OnDisk prim password dir) (start : StartInputs)
    (files : Files) : inp.Durable prim password (Running.startOn prim start files dir) := by
  obtain ⟨storeKey, heq, hkeys, -⟩ := lifespan_eq prim start files dir
  have hloaded (k : ℕ) (hk : k < nNodes) (aesKey : Token 32)
      (hkey : dir.storeKey ((k+1 : ℕ) : ℤ) = some aesKey) :
      loadedKey start.aesKeys dir (k+1) = aesKey := by
    rw [loadedKey, hkey, Option.getD_some]
  rw [Running.startOn, heq]
  constructor
  case enrolled =>
    refine ⟨h.entry, ?_⟩
    intro k node hnode
    have hk : k < nNodes := by
      have hlt := (List.getElem?_eq_some_iff.mp hnode).1
      rwa [List.length_map, List.length_range'] at hlt
    dsimp only at hnode
    rw [List.getElem?_map, List.getElem?_range' hk, Option.map_some, Option.some.injEq, one_mul,
      add_comm 1 k] at hnode
    obtain ⟨aesKey, hkey, hrow⟩ := h.stored k hk
    rw [← hnode, openedNode, hloaded k hk aesKey hkey]
    exact hrow
  case onDisk =>
    refine ⟨h.entry, ?_⟩
    intro k hk
    obtain ⟨aesKey, hkey, hrow⟩ := h.stored k hk
    refine ⟨aesKey, ?_, hrow⟩
    dsimp only
    rw [hkeys (k+1) (List.mem_range'_1.mpr (by omega)), hloaded k hk aesKey hkey]

theorem nodeId_nodup_of_ordered (s : System) (h : NodesOrdered s) :
    (s.nodes.map Node.nodeId).Nodup := by
  rw [h]
  decide

/-- After a registration each table on disk is the old one or what its connection sees. -/
theorem registerDisk_shares (s : System) (dir : DataDir) (h : NodesOrdered s) (k : ℕ) (node : Node)
    (hnode : s.nodes[k]? = some node) :
    (registerDisk prim inp password s dir).shares node.nodeId =
      if k < committedCount inp.stores 1 s.nodes.length then
        (inp.putShare prim password (k+1) node).shareStore.shares
      else dir.shares node.nodeId := by
  obtain ⟨-, hshares⟩ := inp.distributeDisk_eq prim password 0 s.nodes (by rw [h.length, zero_add])
    (nodeId_nodup_of_ordered s h) dir.shares
  have htable := hshares k node hnode
  rw [zero_add, add_comm 1 k] at htable
  rw [(inp.registerDisk_frame prim password s dir).2.2]
  exact htable

/-- A registration all of whose rows are committed is durable at once. -/
theorem durable_register (r : Running) (hsound : r.Sound)
    (hstores : inp.AllStored r.system.nodes.length) (hwrite : inp.ledgerWrite = .committed) :
    inp.Durable prim password (r.step prim (.call (.register password inp))) := by
  have henrolled : inp.Enrolled prim password (register prim inp password r.system).2 := by
    rcases inp.register_cases prim password r.system hsound.ordered.length.le with
      ⟨hno, -⟩ | ⟨-, ⟨message, hno⟩, -⟩ | ⟨-, -, result, files, heq, -⟩
    · exact absurd hstores hno
    · rw [hwrite] at hno
      cases hno
    · rw [heq]
      exact inp.enrolled_of_ledgerRow prim password r.system files
  refine ⟨henrolled, ?_, ?_⟩
  · rcases inp.registerDisk_ledger prim password r.system r.dir hsound.ordered.length.le with
      ⟨-, hno⟩ | ⟨hdisk, -⟩
    · exact absurd ⟨hstores, hwrite⟩ hno
    · rw [Running.step, stepDisk, hdisk, Ledger.latestRegister_snoc, if_pos]
      · exact ⟨_, rfl, rfl⟩
      · simp [Ledger.isRegister, RegisterInputs.ledgerRow, Ledger.newEntry]
  · intro k hk
    have hlt : k < r.system.nodes.length := hsound.ordered.length.symm ▸ hk
    have hnode := List.getElem?_eq_getElem hlt
    have hid := (hsound.ordered.nodeId k _ hnode).2
    have htable := registerDisk_shares prim inp password r.system r.dir hsound.ordered k _ hnode
    rw [RegisterInputs.committedCount_all _ _ _ hstores, if_pos hlt, hid] at htable
    refine ⟨r.system.nodes[k].shareStore.aesKey, ?_, ?_⟩
    · rw [Running.step, (Running.stepDisk_keys prim r.system r.dir _).1, ← hid]
      exact hsound.storeKeys _ (List.getElem_mem hlt)
    · rw [Running.step, stepDisk, htable]
      exact ShareStore.putRow_same _ _ _

/-- A registration that returns has committed all its rows. -/
theorem committed_of_returned (s : System) (h : NodesOrdered s) (reply : RegisterReply)
    (hok : (register prim inp password s).1 = .ok reply) :
    inp.AllStored s.nodes.length ∧ inp.ledgerWrite = .committed := by
  rcases inp.register_cases prim password s h.length.le with
    ⟨-, e, heq⟩ | ⟨-, -, e, heq⟩ | ⟨hstores, -, result, files, heq, hret⟩
  · rw [heq] at hok
    cases hok
  · rw [heq] at hok
    cases hok
  · rw [heq] at hok
    exact ⟨hstores, (hret.mp ⟨reply, hok⟩).1⟩

/-- A registration of another DID, however it ends, leaves the files of this one. -/
theorem onDisk_register_other (r : Running) (hsound : r.Sound) (other : RegisterInputs)
    (otherPassword : String) (hdid : inp.did prim ≠ other.did prim)
    (h : inp.Durable prim password r) :
    inp.OnDisk prim password (registerDisk prim other otherPassword r.system r.dir) := by
  constructor
  case entry =>
    rcases other.registerDisk_ledger prim otherPassword r.system r.dir
        hsound.ordered.length.le with ⟨hdisk, -⟩ | ⟨hdisk, -⟩
    · rw [hdisk]
      exact h.onDisk.entry
    · rw [hdisk, other.latestRegister_ledgerRow_other prim otherPassword _ hdid]
      exact h.enrolled.entry
  case stored =>
    intro k hk
    have hlt : k < r.system.nodes.length := hsound.ordered.length.symm ▸ hk
    have hnode := List.getElem?_eq_getElem hlt
    have hid := (hsound.ordered.nodeId k _ hnode).2
    have htable := registerDisk_shares prim other otherPassword r.system r.dir hsound.ordered k _
      hnode
    obtain ⟨aesKey, hkey, hrow⟩ := h.onDisk.stored k hk
    rw [hid] at htable
    refine ⟨aesKey, ?_, ?_⟩
    · rw [(other.registerDisk_frame prim otherPassword r.system r.dir).1, hkey]
    · rw [htable]
      split_ifs
      · -- what the connection sees for this DID is the row under the key of the file
        have hsame := hsound.storeKeys _ (List.getElem_mem hlt)
        rw [hid, hkey, Option.some.injEq] at hsame
        refine (ShareStore.putRow_other _ _ _ _ hdid).trans ?_
        rw [h.enrolled.stored k _ hnode, ← hsame]
      · exact hrow

/-- The operation is not a call that registers this DID. -/
def LifeOp.SparesDid (did : String) : LifeOp → Prop
  | .call op => op.SparesDid prim did
  | .restart _ => True

theorem durable_step (r : Running) (hsound : r.Sound) (op : LifeOp)
    (hop : op.SparesDid prim (inp.did prim)) (h : inp.Durable prim password r) :
    inp.Durable prim password (r.step prim op) := by
  cases op with
  | restart start => exact h.onDisk.startOn start r.system.files
  | call op =>
    refine ⟨enrolled_step prim inp password r.system op hsound.ordered hop h.enrolled, ?_⟩
    cases op with
    | register otherPassword other =>
      exact onDisk_register_other prim inp password r hsound other otherPassword
        (fun heq => hop heq.symm) h
    | authenticate did challengeId signatureHex preCollected auth =>
      refine ⟨?_, h.onDisk.stored⟩
      rcases Running.stepDisk_ledger prim r.system r.dir
          (.authenticate did challengeId signatureHex preCollected auth) hsound.ordered with
        ⟨hdisk, -⟩ | hdisk
      · rw [Running.step, hdisk]
        exact h.onDisk.entry
      · rw [Running.step, hdisk, step, latestRegister_auth]
        exact h.enrolled.entry
    | issue did challenge => exact h.onDisk
    | peek challengeId now => exact h.onDisk
    | consume challengeId now => exact h.onDisk
    | cleanup now => exact h.onDisk
    | setOnline nodeId online => exact h.onDisk
    | setByzantine nodeId byzantine => exact h.onDisk

theorem durable_run (r : Running) (hsound : r.Sound) (ops : List LifeOp)
    (hops : ∀ op ∈ ops, op.SparesDid prim (inp.did prim)) (h : inp.Durable prim password r) :
    inp.Durable prim password (run (Running.step prim) r ops) := by
  induction ops generalizing r with
  | nil => exact h
  | cons op ops ih =>
    rw [List.forall_mem_cons] at hops
    exact ih (r.step prim op) (Running.sound_step prim r op hsound) hops.2
      (durable_step prim inp password r hsound op hops.1 h)

/-! ## What is read back -/

/-- Ledger and nodes answer with the values of the call. -/
structure RegisterInputs.ReadsBack (s : System) : Prop where
  publicKey : s.ledger.getPublicKey (inp.did prim) = .ok (some (inp.publicKey prim))
  commitmentHash : s.ledger.getCommitmentHash (inp.did prim) =
    .ok (some (.str (inp.commitment prim password)))
  registrationNonce : s.ledger.getRegistrationNonce (inp.did prim) =
    .ok (some inp.registrationNonce.val)
  feldmanCommitments : s.ledger.getFeldmanCommitments (inp.did prim) =
    .ok (some (inp.commitments prim password))
  shares : ∀ k < nNodes, ∃ node, s.nodes[k]? = some node ∧
    node.shareStore.getShare prim (inp.did prim) =
      .ok (some (((k+1 : ℕ) : ℤ), inp.yValue prim password (k+1)))

variable {prim inp password}

theorem RegisterInputs.Enrolled.readsBack {s : System} (h : inp.Enrolled prim password s)
    (hordered : NodesOrdered s) (hdec : prim.DecryptsEncrypted) (hrepr : prim.PrintsFloats) :
    inp.ReadsBack prim password s where
  publicKey := inp.getPublicKey_recorded h.recorded hrepr
  commitmentHash := inp.getCommitmentHash_recorded h.recorded hrepr
  registrationNonce := inp.getRegistrationNonce_recorded h.recorded hrepr
  feldmanCommitments := inp.getFeldmanCommitments_recorded h.recorded hrepr
  shares := by
    intro k hk
    have hnode := List.getElem?_eq_getElem (hordered.length.symm ▸ hk : k < s.nodes.length)
    exact ⟨_, hnode, inp.getShare_enrolled h hdec k _ hnode⟩

end Registrations

/-- Once a registration has returned, and until its DID is registered again, ledger and nodes
answer with its values, in the coordinator that runs and in the one that a start on the files
as they are would bring up. -/
theorem registrations_survive_restarts (prim : Primitives) (hdec : prim.DecryptsEncrypted)
    (hrepr : prim.PrintsFloats) (start : StartInputs) (before after : List LifeOp)
    (reg : RegisterInputs) (password : String) (reply : RegisterReply)
    (hreply : (register prim reg password (runLife prim start before).system).1 = .ok reply)
    (hafter : ∀ op ∈ after, op.SparesDid prim (reg.did prim)) (again : StartInputs)
    (files : Files) :
    let r := runLife prim start (before ++ .call (.register password reg) :: after)
    reg.ReadsBack prim password r.system ∧
      reg.ReadsBack prim password (lifespan prim again files r.dir).1 := by
  intro r
  have hbefore := Running.sound_life prim start before
  obtain ⟨hstores, hwrite⟩ :=
    committed_of_returned prim reg password _ hbefore.ordered reply hreply
  have hdurable : reg.Durable prim password r := by
    unfold r
    rw [Running.runLife_append]
    apply durable_run prim reg password _ (Running.sound_step prim _ _ hbefore) after hafter
    exact durable_register prim reg password _ hbefore hstores hwrite
  have hsound : r.Sound := Running.sound_life prim start _
  constructor
  · exact hdurable.enrolled.readsBack hsound.ordered hdec hrepr
  · have hagain := hdurable.onDisk.startOn again files
    exact hagain.enrolled.readsBack (Running.sound_startOn prim again files r.dir).ordered hdec
      hrepr

/-! ## A registration before a restart -/

def sampleStart : StartInputs := ⟨fun _ => zeroToken 32, [1]⟩

def sampleLife : List LifeOp :=
  [.call (.register "pw" (cleanRegister [7])), .restart sampleStart]

theorem sampleLife_first :
    (runLife samplePrimitives sampleStart []).system = sampleInitial :=
  first_system samplePrimitives sampleStart

theorem sampleLife_returns : ∃ reply, (register samplePrimitives (cleanRegister [7]) "pw"
    (runLife samplePrimitives sampleStart []).system).1 = .ok reply := by
  rw [sampleLife_first]
  obtain ⟨reply, files, heq⟩ := (cleanRegister [7]).register_committed samplePrimitives "pw"
    sampleInitial sampleInitial_ordered.length.le (cleanRegister_stored [7] _) rfl rfl
  exact ⟨reply, by rw [heq]⟩

theorem ledger_survives_restarts_sample :
    [(cleanRegister [7]).ledgerRow samplePrimitives "pw" []] <+:
      (runLife samplePrimitives sampleStart sampleLife).dir.ledger := by
  have hrow := (ledger_survives_restarts samplePrimitives sampleStart sampleLife).2.2.2.2 []
    (.register "pw" (cleanRegister [7])) [.restart sampleStart] rfl sampleLife_returns
  rwa [sampleLife_first, cleanRegister_ledger [7] "pw" _ sampleInitial_ordered] at hrow

theorem registrations_survive_restarts_sample :
    (cleanRegister [7]).ReadsBack samplePrimitives "pw"
      (runLife samplePrimitives sampleStart sampleLife).system := by
  obtain ⟨reply, hreply⟩ := sampleLife_returns
  exact (registrations_survive_restarts samplePrimitives SamplePrimitives.decryptsEncrypted
    SamplePrimitives.printsFloats sampleStart [] [.restart sampleStart] (cleanRegister [7]) "pw"
    reply hreply (by simp [LifeOp.SparesDid]) sampleStart (fun _ => none)).1

end DecentralizedIDP
