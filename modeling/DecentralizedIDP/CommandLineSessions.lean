import DecentralizedIDP.CommandLineRuns

/-! Registrations and logins from their first to their last event, with anything else in between:
what the registry names, what becomes of it when two terminals save it, and when one save is cut
off. -/
namespace DecentralizedIDP
open Foundations

/-! ## One command among others -/

section Saves
variable (prim : Primitives) (home : Home)

/-- Events at other terminals leave this one where it is. -/
theorem terminals_run (n : ℕ) (events : List DeskEvent)
    (hevents : ∀ e ∈ events, e.terminal ≠ some n)
    (d : Desk) : (run (fun d e => (d.handle prim home e).1) d events).terminals n =
      d.terminals n := by
  induction events generalizing d with
  | nil => rfl
  | cons e events ih =>
    rw [List.forall_mem_cons] at hevents
    rw [run_cons, ih hevents.2, Desk.handle_terminals prim home d e n hevents.1]

theorem register_reads (d : Desk) (n : ℕ) (username password confirm : String) (users : Json)
    (hidle : d.terminals n = .idle) (husername : strip username ≠ "")
    (hpassword : strip password ≠ "") (hload : loadUsers d.running.system.files = .ok users)
    (hnew : users.get? (strip username) = none ∨ confirmed confirm = true) :
    (d.handle prim home (.register n username password confirm)).1.terminals n =
      .registering (strip username) (strip password) users := by
  have hstart : startRegister (strip username) (strip password) confirm d.running.system.files =
      (.registering (strip username) (strip password) users, none) := by
    rw [startRegister, if_neg husername, if_neg hpassword, hload]
    dsimp only
    rw [if_neg]
    rcases hnew with hnone | hconfirmed
    · rw [hnone]
      exact Bool.false_ne_true
    · rw [hconfirmed, Bool.not_true, Bool.and_false]
      exact Bool.false_ne_true
  rw [Desk.handle, hidle, hstart]
  exact Function.update_self _ _ _

theorem postRegister_saves (d : Desk) (n : ℕ) (username password : String) (users : Json)
    (hn : d.terminals n = .registering username password users) (reg : RegisterInputs)
    (reply : RegisterReply) (hreply : (register prim reg password d.running.system).1 = .ok reply) :
    (d.handle prim home (.postRegister n reg true)).1.terminals n = .saving username (reg.did prim)
      (expanduser home (keyfilePath (reg.did prim))) (setUser username
        (userEntry (reg.did prim) (expanduser home (keyfilePath (reg.did prim)))) users) := by
  have hfields := reg.register_reply prim password d.running.system reply hreply
  have hresponse : readRegistration home username users
      (registerEndpoint prim reg password d.running.system).1 =
        (.saving username (reg.did prim) (expanduser home (keyfilePath (reg.did prim)))
          (setUser username (userEntry (reg.did prim)
            (expanduser home (keyfilePath (reg.did prim)))) users), none) := by
    rw [registerEndpoint]
    cases hregister : register prim reg password d.running.system with
    | mk result later =>
      rw [hregister] at hreply
      dsimp only at hreply ⊢
      rw [hreply, hfields]
      rfl
  rw [Desk.handle, hn]
  dsimp only
  rw [if_pos rfl, hresponse]
  exact Function.update_self _ _ _

theorem saveUsers_files (d : Desk) (n : ℕ) (write : FileWrite) (username did path : String)
    (users : Json) (hn : d.terminals n = .saving username did path users) :
    (d.handle prim home (.saveUsers n write)).1.running.system.files =
      (saveUsers write users d.running.system.files).2 := by
  rw [Desk.handle, hn]
  dsimp only
  split
  · next files hsave => rw [hsave]; rfl
  · next e files hsave => rw [hsave]; rfl

end Saves

theorem postChallenge_signs (prim : Primitives) (home : Home) (d : Desk) (n : ℕ)
    (username password did : String) (privateKey : Bytes)
    (hn : d.terminals n = .asking username password did privateKey) (inp : ChallengeInputs)
    (coins : Bytes) :
    (d.handle prim home (.postChallenge n inp coins true)).1.terminals n =
      .answering username password did inp.challengeId
        (hex (prim.sign coins privateKey (inp.nonce.val ++ encode did))) := by
  have hreply : signChallenge prim coins username password did privateKey
      (ChallengeManager.issue inp did d.running.system.pending).1 =
        (.answering username password did inp.challengeId
          (hex (prim.sign coins privateKey (inp.nonce.val ++ encode did))), none) := by
    rw [signChallenge, ChallengeManager.issue]
    dsimp only
    rw [fromhex_hex]
  rw [Desk.handle, hn]
  dsimp only
  rw [if_pos rfl, hreply]
  exact Function.update_self _ _ _

theorem postChallenge_opens (prim : Primitives) (home : Home) (d : Desk) (n : ℕ)
    (username password did : String) (privateKey : Bytes)
    (hn : d.terminals n = .asking username password did privateKey) (nonce : Token 32)
    (challengeId : String) (now : ℚ) (coins : Bytes) (answered : Bool) :
    (d.handle prim home (.postChallenge n ⟨nonce, challengeId, now⟩ coins
      answered)).1.running.system.pending challengeId =
        some ⟨nonce, did, now+challengeTtlSeconds⟩ := by
  rw [Desk.handle, hn]
  exact if_pos rfl

section OneRegistration
variable {prim : Primitives} {home : Home} {start : StartInputs} {before : List DeskEvent}
  {n : ℕ} {username password confirm : String} {reg : RegisterInputs} {users : Json}
  (hidle : (runDesk prim home start before).terminals n = .idle)
  (hload : loadUsers (runDesk prim home start before).running.system.files = .ok users)
  (husername : strip username ≠ "") (hpassword : strip password ≠ "")
  (hnew : users.get? (strip username) = none ∨ confirmed confirm = true)
  (mid last : List DeskEvent) (hmid : ∀ e ∈ mid, e.terminal ≠ some n)
  (hlast : ∀ e ∈ last, e.terminal ≠ some n)
include hidle hload husername hpassword hnew hmid

theorem registration_posting : (runDesk prim home start
    (before ++ .register n username password confirm :: mid)).terminals n =
      .registering (strip username) (strip password) users := by
  rw [runDesk, run_append, ← runDesk, run_cons, terminals_run prim home n mid hmid]
  exact register_reads prim home _ n username password confirm users hidle husername hpassword
    hload hnew

variable (reply : RegisterReply) (hreply : (register prim reg (strip password) (runDesk prim home
  start (before ++ .register n username password confirm :: mid)).running.system).1 = .ok reply)
include hlast hreply

theorem registration_saving : (runDesk prim home start
    (before ++ .register n username password confirm :: mid ++
      .postRegister n reg true :: last)).terminals n = .saving (strip username) (reg.did prim)
        (expanduser home (keyfilePath (reg.did prim))) (setUser (strip username)
          (userEntry (reg.did prim) (expanduser home (keyfilePath (reg.did prim)))) users) := by
  have hposting := registration_posting hidle hload husername hpassword hnew mid hmid
  rw [runDesk, run_append, ← runDesk, run_cons, terminals_run prim home n last hlast]
  exact postRegister_saves prim home _ n _ _ _ hposting reg reply hreply

/-- What the registration leaves is what it read, with one user more. -/
theorem registration_saved (hdec : prim.DecryptsEncrypted) (hfresh : FreshDraws prim before) :
    loadUsers (runDesk prim home start
      (before ++ .register n username password confirm :: mid ++
        .postRegister n reg true :: last ++ [.saveUsers n .written])).running.system.files =
          .ok (setUser (strip username) (userEntry (reg.did prim)
            (expanduser home (keyfilePath (reg.did prim)))) users) := by
  have hsaving :=
    registration_saving hidle hload husername hpassword hnew mid last hmid hlast reply hreply
  have hfollows := Desk.follows_run prim hdec home start before hfresh
  obtain ⟨ms, rfl, -, hvalid, -⟩ := hfollows.registry users hload
  rw [runDesk, run_append, ← runDesk, run_cons, run_nil,
    saveUsers_files prim home _ n .written _ _ _ _ hsaving]
  apply loadUsers_saved
  · apply (validMembers_iff _).mpr
    intro m hm
    rcases mem_setMember _ _ ms m hm with rfl | hm
    · exact userEntry_valid _ _
    · exact hvalid m hm
  · rw [saveUsers, writeText]
    dsimp only
    rw [if_pos rfl]

end OneRegistration

/-! ## A desk -/

def deskHome : Home := ⟨['/', 'r'], rfl⟩

theorem strip_alice : strip "alice" = "alice" := rfl

theorem alice_typed : strip "alice" ≠ "" := by
  rw [strip_alice]
  decide

theorem strip_pw : strip "pw" = "pw" := rfl

theorem pw_typed : strip "pw" ≠ "" := by
  rw [strip_pw]
  decide

section Alice
variable (prim : Primitives)

theorem desk_first_users : loadUsers (runDesk prim deskHome sampleStart
    []).running.system.files = .ok (.obj []) := by
  apply loadUsers_absent
  rw [runDesk, run_nil, Desk.start, first_system]
  rfl

theorem desk_clean_returns (hdec : prim.DecryptsEncrypted) (events : List DeskEvent)
    (hfresh : FreshDraws prim events) (seed : Bytes) (password : String) :
    ∃ reply, (register prim (cleanRegister seed) password
      (runDesk prim deskHome sampleStart events).running.system).1 = .ok reply := by
  have hfollows := Desk.follows_run prim hdec deskHome sampleStart events hfresh
  obtain ⟨reply, files, heq⟩ := (cleanRegister seed).register_committed prim password
    _ hfollows.sound.ordered.length.le (cleanRegister_stored seed _) rfl rfl
  exact ⟨reply, by rw [heq]⟩

/-- Alice registers at terminal 0. -/
def aliceEvents : List DeskEvent :=
  [.register 0 "alice" "pw" "", .postRegister 0 (cleanRegister [7]) true, .saveUsers 0 .written]

theorem aliceEvents_fresh : FreshDraws prim aliceEvents :=
  ⟨List.nodup_singleton _, List.nodup_nil⟩

theorem alice_posting : (runDesk prim deskHome sampleStart
    [.register 0 "alice" "pw" ""]).terminals 0 = .registering "alice" "pw" (.obj []) := by
  have hidle : (runDesk prim deskHome sampleStart []).terminals 0 = .idle := rfl
  exact registration_posting hidle (desk_first_users prim) alice_typed pw_typed (Or.inl rfl) []
    (by simp)

theorem alice_saved (hdec : prim.DecryptsEncrypted) : loadUsers (runDesk prim deskHome sampleStart
    aliceEvents).running.system.files = .ok (setUser "alice" (userEntry ((cleanRegister [7]).did
      prim) (expanduser deskHome (keyfilePath ((cleanRegister [7]).did prim)))) (.obj [])) := by
  obtain ⟨reply, hreply⟩ := desk_clean_returns prim hdec [.register 0 "alice" "pw" ""]
    ⟨List.nodup_nil, List.nodup_nil⟩ [7] "pw"
  have hidle : (runDesk prim deskHome sampleStart []).terminals 0 = .idle := rfl
  exact registration_saved hidle (desk_first_users prim) alice_typed pw_typed (Or.inl rfl) [] []
    (by simp) (by simp) reply hreply hdec ⟨List.nodup_nil, List.nodup_nil⟩

theorem alice_idle (hdec : prim.DecryptsEncrypted) :
    (runDesk prim deskHome sampleStart aliceEvents).terminals 0 = .idle := by
  obtain ⟨reply, hreply⟩ := desk_clean_returns prim hdec [.register 0 "alice" "pw" ""]
    ⟨List.nodup_nil, List.nodup_nil⟩ [7] "pw"
  have hidle : (runDesk prim deskHome sampleStart []).terminals 0 = .idle := rfl
  have hsaving := registration_saving hidle (desk_first_users prim) alice_typed pw_typed
    (Or.inl rfl) [] [] (by simp) (by simp) reply hreply
  have hsplit : aliceEvents = [] ++ .register 0 "alice" "pw" "" :: [] ++
      .postRegister 0 (cleanRegister [7]) true :: [] ++ [.saveUsers 0 .written] := rfl
  rw [hsplit, runDesk, run_append, ← runDesk, run_cons, run_nil]
  exact Desk.handle_saved prim deskHome _ 0 .written _ _ _ _ hsaving

/-- There is one registration in it, also when the day goes on. -/
theorem alice_registered (rest : List DeskEvent) (hrest : ∀ n reg, .postRegister n reg true ∉ rest)
    (n : ℕ) (username password : String) (reg : RegisterInputs)
    (h : RegisteredAs prim deskHome sampleStart (aliceEvents ++ rest) n username
      password reg) : reg = cleanRegister [7] ∧ password = "pw" := by
  obtain ⟨before, after, users, heq, hstate⟩ := h
  have hsplit : aliceEvents ++ rest = [.register 0 "alice" "pw" ""] ++
      .postRegister 0 (cleanRegister [7]) true :: (.saveUsers 0 .written :: rest) := rfl
  rw [hsplit, List.append_cons_inj_of_notMem (by simp) (by simp [hrest])] at heq
  obtain ⟨rfl, hevent, -⟩ := heq
  cases hevent
  refine ⟨rfl, ?_⟩
  have hposting := alice_posting prim
  rw [hstate] at hposting
  cases hposting
  rfl

end Alice

/-! ## The users of the registry -/

/-- Whatever happens at the terminals and elsewhere, in any order: an entry of the registry names
a DID that a terminal has registered for this user. Ledger and nodes still know the DID, and
whoever types the password of its registration gets as far as the challenge, with its key. -/
theorem registry_names_users (prim : Primitives) (hdec : prim.DecryptsEncrypted)
    (hrepr : prim.PrintsFloats) (home : Home) (start : StartInputs) (events : List DeskEvent)
    (hfresh : FreshDraws prim events) (users : Json)
    (hload : loadUsers (runDesk prim home start events).running.system.files = .ok users)
    (username : String) (value : Json) (hvalue : users.get? username = some value) :
    let d := runDesk prim home start events
    ∃ n password reg, RegisteredAs prim home start events n username password reg ∧
      value = userEntry (reg.did prim) (expanduser home (keyfilePath (reg.did prim))) ∧
      reg.ReadsBack prim password d.running.system ∧
      ∀ terminal typedName typedPassword, d.terminals terminal = .idle →
        strip typedName = username → strip typedPassword = password →
        (d.handle prim home (.authenticate terminal typedName typedPassword)).1.terminals terminal =
          .asking username password (reg.did prim) (prim.generateKeypair reg.keySeed).1 := by
  intro d
  have hfollows := Desk.follows_run prim hdec home start events hfresh
  obtain ⟨ms, -, -, -, hentries⟩ := hfollows.registry users hload
  obtain ⟨n, password, reg, hnames⟩ := hentries username value hvalue
  refine ⟨n, password, reg, hnames.registered, hnames.entry,
    hnames.durable.enrolled.readsBack hfollows.sound.ordered hdec hrepr, ?_⟩
  intro terminal typedName typedPassword hidle hname hpassword
  have hstart := startAuthenticate_names hdec users hload username value hvalue n password reg
    hnames
  rw [Desk.handle, hidle, hname, hpassword, hstart]
  exact Function.update_self _ _ _

theorem registry_names_users_alice : (cleanRegister [7]).ReadsBack samplePrimitives "pw"
      (runDesk samplePrimitives deskHome sampleStart aliceEvents).running.system ∧
    ((runDesk samplePrimitives deskHome sampleStart aliceEvents).handle samplePrimitives deskHome
      (.authenticate 1 "alice" "pw")).1.terminals 1 = .asking "alice" "pw" (sampleDid [7])
        (samplePrimitives.generateKeypair [7]).1 := by
  obtain ⟨n, password, reg, hregistered, -, hreads, hasks⟩ := registry_names_users
    samplePrimitives SamplePrimitives.decryptsEncrypted SamplePrimitives.printsFloats deskHome
    sampleStart aliceEvents (aliceEvents_fresh samplePrimitives) _
    (alice_saved samplePrimitives SamplePrimitives.decryptsEncrypted) "alice" _ rfl
  obtain ⟨rfl, rfl⟩ :=
    alice_registered samplePrimitives [] (by simp) n "alice" password reg hregistered
  have hidle : (runDesk samplePrimitives deskHome sampleStart aliceEvents).terminals 1 = .idle := by
    rw [runDesk, terminals_run samplePrimitives deskHome 1 aliceEvents
      (by simp [aliceEvents, DeskEvent.terminal])]
    rfl
  exact ⟨hreads, hasks 1 "alice" "pw" hidle rfl rfl⟩

/-! ## Two saves -/

/-- A registration at a terminal reads the registry when it begins and writes it when it ends. So
it leaves what was there at the beginning with one user more, and users that other terminals have
saved in the meantime are lost. -/
theorem save_drops_concurrent_users (prim : Primitives) (hdec : prim.DecryptsEncrypted)
    (home : Home) (start : StartInputs) (before mid last : List DeskEvent)
    (hfresh : FreshDraws prim before) (n : ℕ) (username password confirm : String)
    (reg : RegisterInputs) (users : Json)
    (hidle : (runDesk prim home start before).terminals n = .idle)
    (hload : loadUsers (runDesk prim home start before).running.system.files = .ok users)
    (husername : strip username ≠ "") (hpassword : strip password ≠ "")
    (hnew : users.get? (strip username) = none ∨ confirmed confirm = true)
    (hmid : ∀ e ∈ mid, e.terminal ≠ some n) (hlast : ∀ e ∈ last, e.terminal ≠ some n)
    (reply : RegisterReply)
    (hreply : (register prim reg (strip password) (runDesk prim home start
      (before ++ .register n username password confirm :: mid)).running.system).1 = .ok reply) :
    ∃ users', loadUsers (runDesk prim home start
        (before ++ .register n username password confirm :: mid ++
          .postRegister n reg true :: last ++ [.saveUsers n .written])).running.system.files =
            .ok users' ∧
      ∀ other, users'.get? other = if other = strip username then
          some (userEntry (reg.did prim) (expanduser home (keyfilePath (reg.did prim))))
        else users.get? other := by
  have hfollows := Desk.follows_run prim hdec home start before hfresh
  refine ⟨_, registration_saved hidle hload husername hpassword hnew mid last hmid hlast reply
    hreply hdec hfresh, ?_⟩
  obtain ⟨ms, rfl, hkeys, -⟩ := hfollows.registry users hload
  exact get?_setMember _ _ ms hkeys

/-- Bob registers at terminal 1 while Alice registers at terminal 0. -/
def bobEvents : List DeskEvent :=
  [.register 1 "bob" "pw" "", .postRegister 1 (cleanRegister [8]) true, .saveUsers 1 .written]

theorem save_drops_concurrent_users_bob : ∃ users, loadUsers (runDesk samplePrimitives deskHome
    sampleStart (.register 0 "alice" "pw" "" :: bobEvents ++
      [.postRegister 0 (cleanRegister [7]) true, .saveUsers 0 .written])).running.system.files =
        .ok users ∧ (users.get? "alice").isSome ∧ users.get? "bob" = none := by
  obtain ⟨reply, hreply⟩ := desk_clean_returns samplePrimitives
    SamplePrimitives.decryptsEncrypted (.register 0 "alice" "pw" "" :: bobEvents)
    ⟨List.nodup_singleton _, List.nodup_nil⟩ [7] "pw"
  obtain ⟨users, hload, hget⟩ := save_drops_concurrent_users samplePrimitives
    SamplePrimitives.decryptsEncrypted deskHome sampleStart [] bobEvents []
    ⟨List.nodup_nil, List.nodup_nil⟩ 0 "alice" "pw" "" (cleanRegister [7]) (.obj []) rfl
    (desk_first_users samplePrimitives) alice_typed pw_typed (Or.inl rfl)
    (by simp [bobEvents, DeskEvent.terminal]) (by simp) reply hreply
  refine ⟨users, hload, ?_, ?_⟩
  · rw [hget, strip_alice, if_pos rfl]
    rfl
  · rw [hget, strip_alice, if_neg (by decide)]
    rfl

/-! ## A save that is cut off -/

/-- Every terminal is idle, and the registry cannot be read. -/
structure Desk.LockedOut (d : Desk) : Prop where
  sound : d.running.Sound
  idle : ∀ m, d.terminals m = .idle
  torn : loadUsers d.running.system.files = .error (.valueError "JSONDecodeError")

namespace Desk.LockedOut
variable (prim : Primitives) (home : Home)

/-- A command that ends leaves its terminal idle. -/
theorem settle {d : Desk} (h : d.LockedOut) (m : ℕ) (shown : Option Shown) :
    (d.settle m (.idle, shown)).1.LockedOut := by
  refine ⟨h.sound, ?_, h.torn⟩
  intro k
  rcases eq_or_ne k m with rfl | hne
  · exact Function.update_self _ _ _
  · exact (Function.update_of_ne hne _ _).trans (h.idle k)

theorem handle_register (d : Desk) (h : d.LockedOut) (m : ℕ) (username password confirm : String) :
    (d.handle prim home (.register m username password confirm)).1.LockedOut ∧
      (strip username ≠ "" → strip password ≠ "" →
        (d.handle prim home (.register m username password confirm)).2 =
          some (.traceback (.valueError "JSONDecodeError"))) := by
  obtain ⟨shown, hstart, hshown⟩ : ∃ shown, startRegister (strip username) (strip password) confirm
      d.running.system.files = (.idle, some shown) ∧
        (strip username ≠ "" → strip password ≠ "" →
          shown = .traceback (.valueError "JSONDecodeError")) := by
    rw [startRegister, h.torn]
    split_ifs with hu hp
    · exact ⟨_, rfl, fun hne => absurd hu hne⟩
    · exact ⟨_, rfl, fun _ hne => absurd hp hne⟩
    · exact ⟨_, rfl, fun _ _ => rfl⟩
  rw [Desk.handle, h.idle m, hstart]
  exact ⟨h.settle m _, fun hu hp => congrArg some (hshown hu hp)⟩

theorem handle_authenticate (d : Desk) (h : d.LockedOut) (m : ℕ) (username password : String) :
    (d.handle prim home (.authenticate m username password)).1.LockedOut ∧
      (strip username ≠ "" → strip password ≠ "" →
        (d.handle prim home (.authenticate m username password)).2 =
          some (.traceback (.valueError "JSONDecodeError"))) := by
  obtain ⟨shown, hstart, hshown⟩ : ∃ shown, startAuthenticate prim home (strip username)
      (strip password) d.running.system.files = (.idle, some shown) ∧
        (strip username ≠ "" → strip password ≠ "" →
          shown = .traceback (.valueError "JSONDecodeError")) := by
    rw [startAuthenticate, h.torn]
    split_ifs with hu hp
    · exact ⟨_, rfl, fun hne => absurd hu hne⟩
    · exact ⟨_, rfl, fun _ hne => absurd hp hne⟩
    · exact ⟨_, rfl, fun _ _ => rfl⟩
  rw [Desk.handle, h.idle m, hstart]
  exact ⟨h.settle m _, fun hu hp => congrArg some (hshown hu hp)⟩

/-- No event repairs the registry: the coordinator does not know it, and no command comes as far
as saving it. -/
theorem handle (d : Desk) (e : DeskEvent) (h : d.LockedOut) :
    (d.handle prim home e).1.LockedOut := by
  cases e with
  | register m username password confirm =>
    exact (handle_register prim home d h m username password confirm).1
  | authenticate m username password =>
    exact (handle_authenticate prim home d h m username password).1
  | coordinator op =>
    refine ⟨Running.sound_step prim d.running op h.sound, h.idle, ?_⟩
    rw [← h.torn]
    exact loadUsers_congr _ _ (step_files prim d.running h.sound op usersFile
      (fun _ reg _ => (keyfilePath_ne_usersFile _).symm))
  | interrupt m => exact h.settle m none
  | postRegister m reg answered =>
    rw [Desk.handle, h.idle m]
    exact h
  | saveUsers m write =>
    rw [Desk.handle, h.idle m]
    exact h
  | postChallenge m inp coins answered =>
    rw [Desk.handle, h.idle m]
    exact h
  | postAuthenticate m preCollected inp answered =>
    rw [Desk.handle, h.idle m]
    exact h

end Desk.LockedOut

/-- A save of the registry that is cut off while no other command is under way ends the use of the
client. Whatever comes after, every command at every terminal stops at the registry, and no
terminal sends a request again. -/
theorem torn_registry_locks_out (prim : Primitives) (hdec : prim.DecryptsEncrypted) (home : Home)
    (start : StartInputs) (before after : List DeskEvent) (hfresh : FreshDraws prim before) (n : ℕ)
    (username did path : String) (users : Json)
    (hn : (runDesk prim home start before).terminals n = .saving username did path users)
    (hothers : ∀ m ≠ n, (runDesk prim home start before).terminals m = .idle) (characters : ℕ)
    (message : String) (hshort : characters < (dumpsIndent 2 users).toList.length) :
    let d := runDesk prim home start
      (before ++ .saveUsers n (.interrupted characters message) :: after)
    (∀ m, d.terminals m = .idle) ∧
      ∀ m username password, strip username ≠ "" → strip password ≠ "" →
        (∀ confirm, (d.handle prim home (.register m username password confirm)).2 =
          some (.traceback (.valueError "JSONDecodeError"))) ∧
        (d.handle prim home (.authenticate m username password)).2 =
          some (.traceback (.valueError "JSONDecodeError")) := by
  have hfollows := Desk.follows_run prim hdec home start before hfresh
  have hsaved : ((runDesk prim home start before).handle prim home
      (.saveUsers n (.interrupted characters message))).1.LockedOut := by
    constructor
    case sound => exact sound_handle hfollows.sound _
    case idle =>
      intro m
      rcases eq_or_ne m n with rfl | hne
      · exact Desk.handle_saved prim home _ m _ _ _ _ _ hn
      · have helsewhere : DeskEvent.terminal (.saveUsers n (.interrupted characters message)) ≠
            some m := fun h => hne (Option.some.inj h).symm
        rw [Desk.handle_terminals prim home _ _ m helsewhere]
        exact hothers m hne
    case torn =>
      have hgood := hfollows.terminals n
      rw [hn] at hgood
      obtain ⟨ms, rfl, -, hvalid, -⟩ := hgood
      rw [saveUsers_files prim home _ n _ _ _ _ _ hn, loadUsers, saveUsers, writeText]
      dsimp only
      rw [if_pos rfl]
      dsimp only
      rw [dumpsIndent, String.toList_ofList] at hshort ⊢
      rw [loads_broken_renderIn _ _ ms ((validMembers_iff ms).mpr hvalid) characters hshort]
  intro d
  have hlocked : d.LockedOut := by
    have hlater := run_invariant (fun d e => (Desk.handle prim home d e).1) Desk.LockedOut
      (fun d e h => h.handle prim home d e) _ hsaved after
    unfold d
    rw [runDesk, run_append, ← runDesk, run_cons]
    exact hlater
  refine ⟨hlocked.idle, ?_⟩
  intro m username password hu hp
  constructor
  · intro confirm
    exact (hlocked.handle_register prim home d m username password confirm).2 hu hp
  · exact (hlocked.handle_authenticate prim home d m username password).2 hu hp

theorem torn_registry_locks_out_alice :
    ((runDesk samplePrimitives deskHome sampleStart
      ([.register 0 "alice" "pw" "", .postRegister 0 (cleanRegister [7]) true] ++
        .saveUsers 0 (.interrupted 0 "[Errno 28] No space left on device") ::
          [.authenticate 0 "alice" "pw"])).handle
            samplePrimitives deskHome (.register 1 "alice" "pw" "y")).2 =
              some (.traceback (.valueError "JSONDecodeError")) := by
  obtain ⟨reply, hreply⟩ := desk_clean_returns samplePrimitives
    SamplePrimitives.decryptsEncrypted [.register 0 "alice" "pw" ""]
    ⟨List.nodup_nil, List.nodup_nil⟩ [7] "pw"
  have hidle : (runDesk samplePrimitives deskHome sampleStart []).terminals 0 = .idle := rfl
  have hsaving := registration_saving hidle (desk_first_users samplePrimitives) alice_typed
    pw_typed (Or.inl rfl) [] [] (by simp) (by simp) reply hreply
  have hothers (m : ℕ) (hm : m ≠ 0) : (runDesk samplePrimitives deskHome sampleStart
      [.register 0 "alice" "pw" "", .postRegister 0 (cleanRegister [7]) true]).terminals m =
        .idle := by
    rw [runDesk, terminals_run samplePrimitives deskHome m _
      (by simp [DeskEvent.terminal, hm.symm])]
    rfl
  exact ((torn_registry_locks_out samplePrimitives SamplePrimitives.decryptsEncrypted deskHome
    sampleStart [.register 0 "alice" "pw" "", .postRegister 0 (cleanRegister [7]) true]
    [.authenticate 0 "alice" "pw"]
    ⟨List.nodup_singleton _, List.nodup_nil⟩ 0 _ _ _ _ hsaving hothers 0
    "[Errno 28] No space left on device"
    (by rw [dumpsIndent, String.toList_ofList]; exact Nat.succ_pos _)).2 1 "alice" "pw" alice_typed
      pw_typed).1 "y"

end DecentralizedIDP
