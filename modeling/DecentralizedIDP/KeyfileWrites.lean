import DecentralizedIDP.CallOutcomes
import DecentralizedIDP.FoundationsJsonPrefix
import DecentralizedIDP.KeyfileIntegrity

/-! The keyfiles over whole lives of the coordinator: which call writes which file, what becomes
of a key that was written, and of one whose write was cut off. -/
namespace DecentralizedIDP
open Foundations

/-! ## The file of one call -/

theorem keyfilePath_injective : Function.Injective keyfilePath := by
  intro did did' h
  have hchars := congrArg String.toList h
  simp only [keyfilePath, String.toList_append] at hchars
  exact String.toList_inj.mp (List.append_cancel_left (List.append_cancel_right hchars))

theorem saveKeyfile_other (prim : Primitives) (inp : KeyfileInputs)
    (privateKeyBytes publicKeyBytes : Bytes) (password path alg : String) (files : Files)
    (other : String) (h : other ≠ path) :
    (saveKeyfile prim inp privateKeyBytes publicKeyBytes password path alg files).2 other =
      files other := by
  rw [saveKeyfile]
  cases inp.write with
  | written => exact if_neg h
  | unopened message => rfl
  | interrupted n message => exact if_neg h

namespace RegisterInputs
variable (prim : Primitives) (reg : RegisterInputs) (password : String)

/-- The call of `save_keyfile` with which a registration ends. -/
def save : KeyfileSave where
  inp := reg.keyfile
  privateKey := (prim.generateKeypair reg.keySeed).1
  publicKey := reg.publicKey prim
  password := password

/-- The file is written when everything else is. -/
theorem register_files (s : System) (hordered : NodesOrdered s) :
    (register prim reg password s).2.files =
      if reg.writesCommit then (saveKeyfile prim reg.keyfile (reg.save prim password).privateKey
        (reg.save prim password).publicKey password (keyfilePath (reg.did prim)) prim.algName
          s.files).2
      else s.files := by
  obtain ⟨result, hdistribute, hok⟩ :=
    reg.distribute_eq prim password 0 s.nodes (by rw [zero_add]; exact hordered.length.le)
  rw [zero_add, hordered.length] at hok
  rw [register_eq, hdistribute]
  cases result with
  | error e =>
    have hno : reg.writesCommit = false := by
      rw [Bool.eq_false_iff]
      intro hcommit
      cases hok.mpr ((writesCommit_iff reg).mp hcommit).1
    rw [hno]
    rfl
  | ok u =>
    simp only [publish_eq, Ledger.append]
    cases hwrite : reg.ledgerWrite with
    | committed =>
      rw [if_pos ((writesCommit_iff reg).mpr ⟨hok.mp rfl, hwrite⟩)]
      simp only [WriteStatus.perform, save, publicKey]
      split
      · next e files hsave => rw [hsave]
      · next files hsave => rw [hsave]
    | rejected message =>
      rw [if_neg (fun hcommit => by simpa [hwrite] using ((writesCommit_iff reg).mp hcommit).2)]
      rfl
    | uncommitted message =>
      rw [if_neg (fun hcommit => by simpa [hwrite] using ((writesCommit_iff reg).mp hcommit).2)]
      rfl

theorem returned_writes (s : System) (hordered : NodesOrdered s) (reply : RegisterReply)
    (h : (register prim reg password s).1 = .ok reply) :
    reg.writesCommit = true ∧ reg.keyfile.write = .written := by
  rcases reg.register_cases prim password s hordered.length.le with
    ⟨-, e, heq⟩ | ⟨-, -, e, heq⟩ | ⟨hstores, -, result, files, heq, hret⟩
  · rw [heq] at h
    cases h
  · rw [heq] at h
    cases h
  · rw [heq] at h
    obtain ⟨hledger, hwritten⟩ := hret.mp ⟨reply, h⟩
    rw [hordered.length] at hstores
    exact ⟨(writesCommit_iff reg).mpr ⟨hstores, hledger⟩, hwritten⟩

/-- The characters that an interrupted write leaves in the file. -/
def KeyfileHolds (characters : ℕ) (files : Files) : Prop :=
  files (keyfilePath (reg.did prim)) =
    some (String.ofList (((reg.save prim password).text prim prim.algName).toList.take characters))

/-- The file holds the whole text. -/
def KeyfileKept (files : Files) : Prop :=
  files (keyfilePath (reg.did prim)) = some ((reg.save prim password).text prim prim.algName)

/-- A call that returns has written its keyfile. -/
theorem keyfile_written (s : System) (hordered : NodesOrdered s) (reply : RegisterReply)
    (h : (register prim reg password s).1 = .ok reply) :
    reg.KeyfileKept prim password (register prim reg password s).2.files := by
  obtain ⟨hcommit, hwritten⟩ := reg.returned_writes prim password s hordered reply h
  have hsave := (reg.save prim password).saveKeyfile_written prim (keyfilePath (reg.did prim))
    prim.algName s.files hwritten
  rw [KeyfileKept, reg.register_files prim password s hordered, if_pos hcommit]
  exact (congrFun (congrArg Prod.snd hsave) _).trans (if_pos rfl)

/-- A write that is cut off leaves the first characters. -/
theorem keyfile_interrupted (s : System) (hordered : NodesOrdered s)
    (hcommit : reg.writesCommit = true) (characters : ℕ) (message : String)
    (hwrite : reg.keyfile.write = .interrupted characters message) :
    (∃ e, (register prim reg password s).1 = .error e) ∧
      reg.KeyfileHolds prim password characters (register prim reg password s).2.files := by
  constructor
  · cases hresult : (register prim reg password s).1 with
    | error e => exact ⟨e, rfl⟩
    | ok reply =>
      have hwritten := (reg.returned_writes prim password s hordered reply hresult).2
      rw [hwrite] at hwritten
      cases hwritten
  · rw [KeyfileHolds, reg.register_files prim password s hordered, if_pos hcommit, saveKeyfile,
      hwrite]
    exact if_pos rfl

theorem register_files_other (s : System) (hordered : NodesOrdered s) (path : String)
    (hpath : path ≠ keyfilePath (reg.did prim)) :
    (register prim reg password s).2.files path = s.files path := by
  rw [reg.register_files prim password s hordered]
  split_ifs
  · exact saveKeyfile_other prim _ _ _ _ _ _ _ path hpath
  · rfl

end RegisterInputs

/-! ## Whole lives -/

/-- A file that no registration writes stays as it is, also through a restart. -/
theorem step_files (prim : Primitives) (r : Running) (hsound : r.Sound) (op : LifeOp)
    (path : String) (hpath : ∀ password reg, op = .call (.register password reg) →
      path ≠ keyfilePath (reg.did prim)) :
    (r.step prim op).system.files path = r.system.files path := by
  cases op with
  | restart inp =>
    obtain ⟨storeKey, heq, -⟩ := lifespan_eq prim inp r.system.files r.dir
    rw [Running.step, Running.startOn, heq]
  | call op =>
    cases op with
    | register password reg =>
      exact reg.register_files_other prim password r.system hsound.ordered path
        (hpath password reg rfl)
    | authenticate did challengeId signatureHex preCollected inp =>
      obtain ⟨rows, heq, -⟩ :=
        authenticate_effect prim inp did challengeId signatureHex preCollected r.system
      rw [Running.step, step, heq]
    | _ => rfl

theorem keyfile_step (prim : Primitives) (r : Running) (hsound : r.Sound) (did : String)
    (op : LifeOp) (hop : op.SparesDid prim did) :
    (r.step prim op).system.files (keyfilePath did) = r.system.files (keyfilePath did) := by
  apply step_files prim r hsound op
  intro password reg hreg
  rw [hreg] at hop
  exact fun heq => hop (keyfilePath_injective heq).symm

theorem keyfile_run (prim : Primitives) (r : Running) (hsound : r.Sound) (did : String)
    (ops : List LifeOp) (hops : ∀ op ∈ ops, op.SparesDid prim did) :
    (run (Running.step prim) r ops).system.files (keyfilePath did) =
      r.system.files (keyfilePath did) := by
  induction ops generalizing r with
  | nil => rfl
  | cons op ops ih =>
    rw [List.forall_mem_cons] at hops
    rw [run_cons, ih (r.step prim op) (Running.sound_step prim r op hsound) hops.2,
      keyfile_step prim r hsound did op hops.1]

/-- From the whole text the key is loaded under its password. -/
theorem loadKeyfile_kept (prim : Primitives) (hdec : prim.DecryptsEncrypted) (reg : RegisterInputs)
    (password path : String) (files : Files)
    (h : files path = some ((reg.save prim password).text prim prim.algName)) :
    loadKeyfile prim path password files = .ok ((prim.generateKeypair reg.keySeed).1,
      reg.publicKey prim) := by
  rw [loadKeyfile_ok_iff prim path password files _ _ _ _ _ h]
  exact ⟨_, _, _, fromhex_hex _, fromhex_hex _, fromhex_hex _, fromhex_hex _,
    (reg.save prim password).decrypt_ciphertext prim hdec⟩

/-- Of a text that was cut off nothing is loaded, whatever the password. -/
theorem loadKeyfile_broken (prim : Primitives) (reg : RegisterInputs) (password path : String)
    (files : Files) (characters : ℕ)
    (hshort : characters < ((reg.save prim password).text prim prim.algName).toList.length)
    (h : files path = some (String.ofList
      (((reg.save prim password).text prim prim.algName).toList.take characters)))
    (tried : String) :
    loadKeyfile prim path tried files = .error (.valueError "JSONDecodeError") := by
  rw [KeyfileSave.text, keyfileJson, dumps, String.toList_ofList] at hshort h
  have hbroken := loads_broken_dumps _ (by simp [Json.Valid, ValidMembers]) characters hshort
  rw [loadKeyfile, h]
  dsimp only
  rw [hbroken]

/-- A registration whose keyfile write is cut off has registered its DID all the same: row and
shares are there for good, but no password opens what is left of the key. -/
theorem interrupted_keyfile_orphans_did (prim : Primitives) (hdec : prim.DecryptsEncrypted)
    (hrepr : prim.PrintsFloats) (start : StartInputs) (before after : List LifeOp)
    (reg : RegisterInputs) (password : String) (hcommit : reg.writesCommit = true)
    (characters : ℕ) (message : String)
    (hwrite : reg.keyfile.write = .interrupted characters message)
    (hshort : characters < ((reg.save prim password).text prim prim.algName).toList.length)
    (hafter : ∀ op ∈ after, op.SparesDid prim (reg.did prim)) :
    let r := runLife prim start (before ++ .call (.register password reg) :: after)
    (∃ e, (register prim reg password (runLife prim start before).system).1 = .error e) ∧
      reg.ReadsBack prim password r.system ∧
      ∀ tried, loadKeyfile prim (keyfilePath (reg.did prim)) tried r.system.files =
        .error (.valueError "JSONDecodeError") := by
  intro r
  have hbefore := Running.sound_life prim start before
  obtain ⟨hraised, hholds⟩ := reg.keyfile_interrupted prim password _ hbefore.ordered hcommit
    characters message hwrite
  obtain ⟨hstores, hledger⟩ := (RegisterInputs.writesCommit_iff reg).mp hcommit
  have hcalled := Running.sound_step prim _ (.call (.register password reg)) hbefore
  have hdurable : reg.Durable prim password r := by
    unfold r
    rw [Running.runLife_append]
    apply durable_run prim reg password _ hcalled after hafter
    rw [← hbefore.ordered.length] at hstores
    exact durable_register prim reg password _ hbefore hstores hledger
  refine ⟨hraised, hdurable.enrolled.readsBack (Running.sound_life prim start _).ordered hdec
    hrepr, ?_⟩
  intro tried
  apply loadKeyfile_broken prim reg password _ _ characters hshort
  have hkept := keyfile_run prim _ hcalled (reg.did prim) after hafter
  unfold r
  rw [Running.runLife_append]
  exact hkept.trans hholds

/-- A registration that runs out of disk space while it writes its keyfile. -/
def tornRegister : RegisterInputs :=
  sampleRegister [7] (fun _ => .committed) .committed
    (.interrupted 9 "[Errno 28] No space left on device")

theorem keyfileJson_length (alg salt nonce ciphertext publicKey : String) :
    9 < (dumps (keyfileJson alg salt nonce ciphertext publicKey)).toList.length := by
  rw [keyfileJson, dumps, String.toList_ofList]
  simp only [Json.render, escapeString, List.length_cons, List.length_append]
  have hversion : 7 ≤ (List.flatMap escapeChar "version".toList).length := by decide
  omega

theorem interrupted_keyfile_orphans_did_torn :
    loadKeyfile samplePrimitives (keyfilePath (tornRegister.did samplePrimitives)) "pw"
      (runLife samplePrimitives sampleStart
        [.call (.register "pw" tornRegister), .restart sampleStart]).system.files =
          .error (.valueError "JSONDecodeError") :=
  (interrupted_keyfile_orphans_did samplePrimitives SamplePrimitives.decryptsEncrypted
    SamplePrimitives.printsFloats sampleStart [] [.restart sampleStart] tornRegister "pw" rfl 9 _
    rfl (keyfileJson_length _ _ _ _ _) (by simp [LifeOp.SparesDid])).2.2 "pw"

end DecentralizedIDP
