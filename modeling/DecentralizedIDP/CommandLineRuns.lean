import DecentralizedIDP.CommandLine
import DecentralizedIDP.KeyfileWrites
import DecentralizedIDP.SessionRestarts

/-! Days at the desk: what any number of terminals and other clients, in any order, make of the
registry of users, and what a user gets who types the right password. -/
namespace DecentralizedIDP
open Foundations

/-- A keyfile is never the registry. -/
theorem keyfilePath_ne_usersFile (did : String) : keyfilePath did ≠ usersFile := by
  intro h
  have hchars := congrArg (fun path : String => path.toList.reverse.head?) h
  rw [keyfilePath, String.toList_append, List.reverse_append] at hchars
  cases hchars

/-- The coordinator's path of a keyfile leads the client to the same file. -/
theorem hostFiles_keyfile (home : Home) (files : Files) (did : String) :
    ∃ rest, expanduser home (keyfilePath did) = String.ofList (home.path ++ rest) ∧
      hostFiles home files (String.ofList (home.path ++ rest)) = files (keyfilePath did) := by
  have hchars : ∃ rest, (keyfilePath did).toList = '~' :: '/' :: rest := by
    rw [keyfilePath, String.toList_append, String.toList_append]
    exact ⟨_, rfl⟩
  obtain ⟨rest, hrest⟩ := hchars
  refine ⟨'/' :: rest, ?_, ?_⟩
  · rw [expanduser, hrest]
    rfl
  · rw [hostFiles_expanded, ← hrest, String.ofList_toList]

/-! ## Events and the coordinator below them -/

/-- The terminal at which an event happens. -/
def DeskEvent.terminal : DeskEvent → Option ℕ
  | .coordinator _ => none
  | .register n _ _ _ => some n
  | .postRegister n _ _ => some n
  | .saveUsers n _ => some n
  | .authenticate n _ _ => some n
  | .postChallenge n _ _ _ => some n
  | .postAuthenticate n _ _ _ => some n
  | .interrupt n => some n

/-- The DID of the key pair that an event draws. -/
def DeskEvent.drawnDid (prim : Primitives) : DeskEvent → Option String
  | .coordinator (.call (.register _ inp)) => some (inp.did prim)
  | .postRegister _ inp _ => some (inp.did prim)
  | _ => none

def DeskEvent.drawnChallenge : DeskEvent → Option String
  | .coordinator (.call (.issue _ inp)) => some inp.challengeId
  | .postChallenge _ inp _ _ => some inp.challengeId
  | _ => none

/-- No two key pairs have the same DID, and `uuid4` never repeats. -/
structure FreshDraws (prim : Primitives) (events : List DeskEvent) : Prop where
  dids : (events.filterMap (DeskEvent.drawnDid prim)).Nodup
  challenges : (events.filterMap DeskEvent.drawnChallenge).Nodup

theorem FreshDraws.of_append {prim : Primitives} {events more : List DeskEvent}
    (h : FreshDraws prim (events ++ more)) : FreshDraws prim events := by
  obtain ⟨hdids, hchallenges⟩ := h
  rw [List.filterMap_append] at hdids hchallenges
  exact ⟨(List.nodup_append.mp hdids).1, (List.nodup_append.mp hchallenges).1⟩

theorem saveUsers_other (write : FileWrite) (users : Json) (files : Files) (path : String)
    (hpath : path ≠ usersFile) : (saveUsers write users files).2 path = files path := by
  rw [saveUsers]
  cases write with
  | written => exact if_neg hpath
  | unopened message => rfl
  | interrupted n message => exact if_neg hpath

namespace Desk
variable (prim : Primitives) (home : Home)

/-- What an event does at the coordinator, if it does anything there. -/
def operation (d : Desk) : DeskEvent → Option LifeOp
  | .coordinator op => some op
  | .postRegister n inp _ =>
    match d.terminals n with
    | .registering _ password _ => some (.call (.register password inp))
    | _ => none
  | .postChallenge n inp _ _ =>
    match d.terminals n with
    | .asking _ _ did _ => some (.call (.issue did inp))
    | _ => none
  | .postAuthenticate n preCollected inp _ =>
    match d.terminals n with
    | .answering _ _ did challengeId signature =>
      some (.call (.authenticate did challengeId signature preCollected inp))
    | _ => none
  | _ => none

/-- What an event sends to the coordinator. -/
inductive Sends (d : Desk) : DeskEvent → LifeOp → Prop
  | anything (op : LifeOp) : Sends d (.coordinator op) op
  | register (n : ℕ) (username password : String) (users : Json) (reg : RegisterInputs)
      (answered : Bool) (hn : d.terminals n = .registering username password users) :
      Sends d (.postRegister n reg answered) (.call (.register password reg))
  | issue (n : ℕ) (username password did : String) (privateKey : Bytes) (inp : ChallengeInputs)
      (coins : Bytes) (answered : Bool)
      (hn : d.terminals n = .asking username password did privateKey) :
      Sends d (.postChallenge n inp coins answered) (.call (.issue did inp))
  | authenticate (n : ℕ) (username password did challengeId signature : String)
      (preCollected : Option (List PartialProof)) (inp : AuthInputs) (answered : Bool)
      (hn : d.terminals n = .answering username password did challengeId signature) :
      Sends d (.postAuthenticate n preCollected inp answered)
        (.call (.authenticate did challengeId signature preCollected inp))

theorem sends_of_operation (d : Desk) (e : DeskEvent) (op : LifeOp)
    (hop : d.operation e = some op) : d.Sends e op := by
  cases e with
  | coordinator op' =>
    cases hop
    exact .anything op
  | postRegister n reg answered =>
    rw [operation] at hop
    split at hop
    · next username password users hn =>
      cases hop
      exact .register n username password users reg answered hn
    · cases hop
  | postChallenge n inp coins answered =>
    rw [operation] at hop
    split at hop
    · next username password did privateKey hn =>
      cases hop
      exact .issue n username password did privateKey inp coins answered hn
    · cases hop
  | postAuthenticate n preCollected inp answered =>
    rw [operation] at hop
    split at hop
    · next username password did challengeId signature hn =>
      cases hop
      exact .authenticate n username password did challengeId signature preCollected inp answered
        hn
    · cases hop
  | _ => cases hop

theorem operation_created (d : Desk) (e : DeskEvent) (op : LifeOp) (hop : d.operation e = some op)
    (challengeId : String) (entry : Challenge) (h : op.created = some (challengeId, entry)) :
    e.drawnChallenge = some challengeId := by
  obtain ⟨inp, rfl, rfl, -⟩ := created_issue op challengeId entry h
  cases sends_of_operation d e _ hop with
  | anything => rfl
  | issue => rfl

theorem operation_spares (did : String) (d : Desk) (e : DeskEvent) (he : e.drawnDid prim ≠ some did)
    (op : LifeOp) (hop : d.operation e = some op) : op.SparesDid prim did := by
  cases sends_of_operation d e op hop with
  | anything op =>
    cases op with
    | restart inp => trivial
    | call op =>
      cases op with
      | register password reg => exact fun heq => he (congrArg some heq)
      | _ => trivial
  | register => exact fun heq => he (congrArg some heq)
  | issue => trivial
  | authenticate => trivial

/-- An event is an operation of the coordinator, leaves it alone, or saves the registry that a
terminal has in hand. -/
theorem handle_running (d : Desk) (e : DeskEvent) :
    (∃ op, d.operation e = some op ∧
      (d.handle prim home e).1.running = d.running.step prim op) ∨
    (d.handle prim home e).1.running = d.running ∨
    ∃ n write username did path users, d.terminals n = .saving username did path users ∧
      (d.handle prim home e).1.running =
        d.running.withFiles (saveUsers write users d.running.system.files).2 := by
  cases e with
  | coordinator op => exact Or.inl ⟨op, rfl, rfl⟩
  | register n username password confirm =>
    right
    left
    rw [handle]
    split <;> rfl
  | authenticate n username password =>
    right
    left
    rw [handle]
    split <;> rfl
  | interrupt n => exact Or.inr (Or.inl rfl)
  | postRegister n inp answered =>
    rw [handle, operation]
    cases d.terminals n with
    | registering username password users => exact Or.inl ⟨_, rfl, rfl⟩
    | _ => exact Or.inr (Or.inl rfl)
  | postChallenge n inp coins answered =>
    rw [handle, operation]
    cases d.terminals n with
    | asking username password did privateKey => exact Or.inl ⟨_, rfl, rfl⟩
    | _ => exact Or.inr (Or.inl rfl)
  | postAuthenticate n preCollected inp answered =>
    rw [handle, operation]
    cases d.terminals n with
    | answering username password did challengeId signature => exact Or.inl ⟨_, rfl, rfl⟩
    | _ => exact Or.inr (Or.inl rfl)
  | saveUsers n write =>
    rw [handle]
    cases hn : d.terminals n with
    | saving username did path users =>
      refine Or.inr (Or.inr ⟨n, write, username, did, path, users, hn, ?_⟩)
      dsimp only
      split
      · next files hsave => rw [hsave]; rfl
      · next e files hsave => rw [hsave]; rfl
    | _ => exact Or.inr (Or.inl rfl)

/-- A command that has saved the registry is over, one way or the other. -/
theorem handle_saved (d : Desk) (n : ℕ) (write : FileWrite) (username did path : String)
    (users : Json) (hn : d.terminals n = .saving username did path users) :
    (d.handle prim home (.saveUsers n write)).1.terminals n = .idle := by
  rw [handle, hn]
  dsimp only
  split <;> exact Function.update_self _ _ _

/-- A challenge that is open after an event was open before, or the event has issued it. -/
theorem handle_pending (d : Desk) (e : DeskEvent) (challengeId : String) (entry : Challenge)
    (h : (d.handle prim home e).1.running.system.pending challengeId = some entry) :
    e.drawnChallenge = some challengeId ∨
      d.running.system.pending challengeId = some entry := by
  rcases handle_running prim home d e with
    ⟨op, hop, heq⟩ | heq | ⟨n, write, username, did, path, users, -, heq⟩
  · rw [heq] at h
    rcases (lifeChallenges prim).live_step d.running op challengeId entry h with hnew | hold
    · exact Or.inl (operation_created d e op hop challengeId entry hnew)
    · exact Or.inr hold.1
  · rw [heq] at h
    exact Or.inr h
  · rw [heq] at h
    exact Or.inr h

theorem settle_terminal (n : ℕ) (next : Terminal × Option Shown) (d : Desk) :
    (d.settle n next).1.terminals n = next.1 := Function.update_self _ _ _

/-- An event at one terminal leaves the others where they are. -/
theorem handle_terminals (d : Desk) (e : DeskEvent) (n : ℕ) (h : e.terminal ≠ some n) :
    (d.handle prim home e).1.terminals n = d.terminals n := by
  have hne (m : ℕ) (hm : some m ≠ some n) : n ≠ m := fun heq => hm (congrArg some heq.symm)
  cases e with
  | coordinator op => rfl
  | interrupt m => exact Function.update_of_ne (hne m h) _ _
  | saveUsers m write =>
    rw [handle]
    split
    · split <;> exact Function.update_of_ne (hne m h) _ _
    · rfl
  | register m username password confirm =>
    rw [handle]
    split
    · exact Function.update_of_ne (hne m h) _ _
    · rfl
  | postRegister m inp answered =>
    rw [handle]
    split
    · exact Function.update_of_ne (hne m h) _ _
    · rfl
  | authenticate m username password =>
    rw [handle]
    split
    · exact Function.update_of_ne (hne m h) _ _
    · rfl
  | postChallenge m inp coins answered =>
    rw [handle]
    split
    · exact Function.update_of_ne (hne m h) _ _
    · rfl
  | postAuthenticate m preCollected inp answered =>
    rw [handle]
    split
    · exact Function.update_of_ne (hne m h) _ _
    · rfl

/-- Where an event can leave a terminal. -/
inductive Moves (d : Desk) (n : ℕ) : DeskEvent → Terminal → Prop
  | stays (e : DeskEvent) : Moves d n e (d.terminals n)
  | ends (e : DeskEvent) : Moves d n e .idle
  | register (username password confirm : String) :
      Moves d n (.register n username password confirm) (startRegister (strip username)
        (strip password) confirm d.running.system.files).1
  | registered (username password : String) (users : Json) (reg : RegisterInputs)
      (hn : d.terminals n = .registering username password users) :
      Moves d n (.postRegister n reg true) (readRegistration home username users
        (registerEndpoint prim reg password d.running.system).1).1
  | authenticate (username password : String) :
      Moves d n (.authenticate n username password) (startAuthenticate prim home (strip username)
        (strip password) d.running.system.files).1
  | challenged (username password did : String) (privateKey : Bytes) (inp : ChallengeInputs)
      (coins : Bytes) (hn : d.terminals n = .asking username password did privateKey) :
      Moves d n (.postChallenge n inp coins true) (signChallenge prim coins username password did
        privateKey (ChallengeManager.issue inp did d.running.system.pending).1).1

/-- An event that finds its terminal elsewhere than it needs it leaves the terminal there. -/
theorem moves_of_same (d : Desk) (e : DeskEvent) (n : ℕ)
    (hsame : (d.handle prim home e).1.terminals n = d.terminals n) :
    d.Moves prim home n e ((d.handle prim home e).1.terminals n) := by
  rw [hsame]
  exact .stays e

theorem handle_moves (d : Desk) (e : DeskEvent) (n : ℕ) :
    d.Moves prim home n e ((d.handle prim home e).1.terminals n) := by
  by_cases hhere : e.terminal = some n
  · cases e with
    | coordinator op => cases hhere
    | interrupt m =>
      cases hhere
      rw [handle, settle_terminal]
      exact .ends _
    | register m username password confirm =>
      cases hhere
      cases hn : d.terminals n with
      | idle =>
        rw [handle, hn]
        dsimp only
        rw [settle_terminal]
        exact .register username password confirm
      | _ => exact moves_of_same prim home d _ n (by simp only [handle, hn])
    | postRegister m reg answered =>
      cases hhere
      cases hn : d.terminals n with
      | registering username password users =>
        rw [handle, hn]
        dsimp only
        rw [settle_terminal]
        cases answered with
        | true => exact .registered username password users reg hn
        | false => exact .ends _
      | _ => exact moves_of_same prim home d _ n (by simp only [handle, hn])
    | saveUsers m write =>
      cases hhere
      cases hn : d.terminals n with
      | saving username did path users =>
        rw [handle_saved prim home d n write username did path users hn]
        exact .ends _
      | _ => exact moves_of_same prim home d _ n (by simp only [handle, hn])
    | authenticate m username password =>
      cases hhere
      cases hn : d.terminals n with
      | idle =>
        rw [handle, hn]
        dsimp only
        rw [settle_terminal]
        exact .authenticate username password
      | _ => exact moves_of_same prim home d _ n (by simp only [handle, hn])
    | postChallenge m inp coins answered =>
      cases hhere
      cases hn : d.terminals n with
      | asking username password did privateKey =>
        rw [handle, hn]
        dsimp only
        rw [settle_terminal]
        cases answered with
        | true => exact .challenged username password did privateKey inp coins hn
        | false => exact .ends _
      | _ => exact moves_of_same prim home d _ n (by simp only [handle, hn])
    | postAuthenticate m preCollected inp answered =>
      cases hhere
      cases hn : d.terminals n with
      | answering username password did challengeId signature =>
        rw [handle, hn]
        dsimp only
        rw [settle_terminal]
        exact .ends _
      | _ => exact moves_of_same prim home d _ n (by simp only [handle, hn])
  · exact moves_of_same prim home d e n (handle_terminals prim home d e n hhere)

end Desk

/-! ## What the registry may say -/

section Registry
variable (prim : Primitives) (home : Home) (start : StartInputs) (past : List DeskEvent)

/-- The terminal has registered the username with this password, and the answer came back. -/
def RegisteredAs (n : ℕ) (username password : String) (reg : RegisterInputs) : Prop :=
  ∃ before after users, past = before ++ .postRegister n reg true :: after ∧
    (runDesk prim home start before).terminals n = .registering username password users

/-- The entry of a username names a DID that was registered for it, which ledger, nodes and
keyfile still know. -/
structure Names (r : Running) (username : String) (value : Json) (n : ℕ) (password : String)
    (reg : RegisterInputs) : Prop where
  registered : RegisteredAs prim home start past n username password reg
  entry : value = userEntry (reg.did prim) (expanduser home (keyfilePath (reg.did prim)))
  durable : reg.Durable prim password r
  keyfile : reg.KeyfileKept prim password r.system.files
  typed : username ≠ "" ∧ password ≠ ""

/-- Every entry names its user. -/
def GoodUsers (r : Running) (users : Json) : Prop :=
  ∃ ms, users = .obj ms ∧ (ms.map Prod.fst).Nodup ∧ (∀ m ∈ ms, m.2.Valid) ∧
    ∀ username value, users.get? username = some value →
      ∃ n password reg, Names prim home start past r username value n password reg

/-- A login that goes on is for the DID that the registry has for the user; and with the
password of its registration, the key is the user's, and so is the signature. -/
def Terminal.Good (r : Running) (n : ℕ) : Terminal → Prop
  | .idle => True
  | .registering username password users =>
    (username ≠ "" ∧ password ≠ "") ∧ GoodUsers prim home start past r users
  | .saving _ _ _ users => GoodUsers prim home start past r users
  | .asking username password did privateKey => ∃ value m registered reg,
      Names prim home start past r username value m registered reg ∧ did = reg.did prim ∧
      (password = registered → privateKey = (prim.generateKeypair reg.keySeed).1)
  | .answering username password did challengeId signature => ∃ value m registered reg,
      Names prim home start past r username value m registered reg ∧ did = reg.did prim ∧
      ∃ inp coins, .postChallenge n inp coins true ∈ past ∧ inp.challengeId = challengeId ∧
        (∀ entry, r.system.pending challengeId = some entry → entry.nonce = inp.nonce) ∧
        (password = registered → signature = hex (prim.sign coins
          (prim.generateKeypair reg.keySeed).1 (inp.nonce.val ++ encode did)))

/-- What holds after the events of `past`. -/
structure Desk.Follows (d : Desk) : Prop where
  here : d = runDesk prim home start past
  sound : d.running.Sound
  registry : ∀ users, loadUsers d.running.system.files = .ok users →
    GoodUsers prim home start past d.running users
  terminals : ∀ n, (d.terminals n).Good prim home start past d.running n

end Registry

section Persistence
variable {prim : Primitives} {home : Home} {start : StartInputs} {past : List DeskEvent}
  {d : Desk} {e : DeskEvent}

theorem RegisteredAs.mono {n : ℕ} {username password : String} {reg : RegisterInputs}
    (h : RegisteredAs prim home start past n username password reg) :
    RegisteredAs prim home start (past ++ [e]) n username password reg := by
  obtain ⟨before, after, users, rfl, hstate⟩ := h
  exact ⟨before, after ++ [e], users, by rw [List.append_assoc, List.cons_append], hstate⟩

variable (hsound : d.running.Sound) (hfresh : FreshDraws prim (past ++ [e]))
include hsound hfresh

omit hfresh in
/-- What is durable stays so in an event that draws another DID. -/
theorem durable_desk {password : String} {reg : RegisterInputs}
    (hdrawn : e.drawnDid prim ≠ some (reg.did prim)) (h : reg.Durable prim password d.running) :
    reg.Durable prim password (d.handle prim home e).1.running := by
  rcases Desk.handle_running prim home d e with
    ⟨op, hop, heq⟩ | heq | ⟨m, write, name, did, path, users, -, heq⟩
  · rw [heq]
    exact durable_step prim reg password d.running hsound op
      (Desk.operation_spares prim _ d e hdrawn op hop) h
  · rw [heq]
    exact h
  · rw [heq]
    exact ⟨⟨h.enrolled.entry, h.enrolled.stored⟩, h.onDisk⟩

theorem Names.step {username : String} {value : Json} {n : ℕ} {password : String}
    {reg : RegisterInputs}
    (h : Names prim home start past d.running username value n password reg) :
    Names prim home start (past ++ [e]) (d.handle prim home e).1.running username value n password
      reg := by
  -- the DID was drawn before, so the event draws another one
  have hdrawn : e.drawnDid prim ≠ some (reg.did prim) := by
    obtain ⟨before, after, users, heq, -⟩ := h.registered
    apply filterMap_snoc_fresh _ past e hfresh.dids (.postRegister n reg true) ?_ _ rfl
    rw [heq]
    exact List.mem_append_right _ List.mem_cons_self
  refine ⟨h.registered.mono, h.entry, durable_desk hsound hdrawn h.durable, ?_, h.typed⟩
  have hkeyfile := h.keyfile
  rw [RegisterInputs.KeyfileKept] at hkeyfile ⊢
  rw [← hkeyfile]
  rcases Desk.handle_running prim home d e with
    ⟨op, hop, heq⟩ | heq | ⟨m, write, name, did, path, users, -, heq⟩
  · rw [heq]
    exact keyfile_step prim d.running hsound _ op
      (Desk.operation_spares prim _ d e hdrawn op hop)
  · rw [heq]
  · rw [heq]
    exact saveUsers_other write users _ _ (keyfilePath_ne_usersFile _)

theorem GoodUsers.step {users : Json} (h : GoodUsers prim home start past d.running users) :
    GoodUsers prim home start (past ++ [e]) (d.handle prim home e).1.running users := by
  obtain ⟨ms, hms, hkeys, hvalid, hnames⟩ := h
  refine ⟨ms, hms, hkeys, hvalid, ?_⟩
  intro username value hvalue
  obtain ⟨n, password, reg, h⟩ := hnames username value hvalue
  exact ⟨n, password, reg, h.step hsound hfresh⟩

/-- What a terminal has in hand stays good. -/
theorem Terminal.Good.step (n : ℕ) (t : Terminal)
    (h : t.Good prim home start past d.running n) :
    t.Good prim home start (past ++ [e]) (d.handle prim home e).1.running n := by
  cases t with
  | idle => trivial
  | registering username password users => exact ⟨h.1, GoodUsers.step hsound hfresh h.2⟩
  | saving username did keyfilePath users => exact GoodUsers.step hsound hfresh h
  | asking username password did privateKey =>
    obtain ⟨value, m, registered, reg, hnames, hdid, hkey⟩ := h
    exact ⟨value, m, registered, reg, hnames.step hsound hfresh, hdid, hkey⟩
  | answering username password did challengeId signature =>
    obtain ⟨value, m, registered, reg, hnames, hdid, inp, coins, hposted, rfl, hopen, hkey⟩ := h
    refine ⟨value, m, registered, reg, hnames.step hsound hfresh, hdid, inp, coins,
      List.mem_append_left _ hposted, rfl, ?_, hkey⟩
    intro entry hentry
    rcases Desk.handle_pending prim home d e inp.challengeId entry hentry with hnew | hold
    · exact absurd hnew (filterMap_snoc_fresh _ past e hfresh.challenges
        (.postChallenge n inp coins true) hposted _ rfl)
    · exact hopen entry hold

end Persistence

/-! ## The registry is read and written -/

theorem loadUsers_saved (users : Json) (hvalid : users.Valid) (files : Files)
    (h : files usersFile = some (dumpsIndent 2 users)) : loadUsers files = .ok users := by
  rw [loadUsers, h]
  dsimp only
  rw [dumpsIndent, loads_renderIn _ _ users hvalid]

/-- What a save leaves is the registry that was to be saved, or the one from before, or nothing
that can be read. -/
theorem loadUsers_saveUsers (write : FileWrite) (ms : List (String × Json))
    (hvalid : ∀ m ∈ ms, m.2.Valid) (files : Files) :
    loadUsers (saveUsers write (.obj ms) files).2 = .ok (.obj ms) ∨
      loadUsers (saveUsers write (.obj ms) files).2 = loadUsers files ∨
      loadUsers (saveUsers write (.obj ms) files).2 = .error (.valueError "JSONDecodeError") := by
  have hobj : (Json.obj ms).Valid := (validMembers_iff ms).mpr hvalid
  cases write with
  | written =>
    refine Or.inl (loadUsers_saved _ hobj _ ?_)
    rw [saveUsers, writeText]
    dsimp only
    rw [if_pos rfl]
  | unopened message => exact Or.inr (Or.inl rfl)
  | interrupted characters message =>
    have hfile : (saveUsers (.interrupted characters message) (.obj ms) files).2 usersFile =
        some (String.ofList ((dumpsIndent 2 (.obj ms)).toList.take characters)) := by
      rw [saveUsers, writeText]
      dsimp only
      rw [if_pos rfl]
    rw [dumpsIndent, String.toList_ofList] at hfile
    by_cases hshort : characters < ((Json.obj ms).renderIn (indented 2) 0).length
    · right
      right
      rw [loadUsers, hfile]
      dsimp only
      rw [loads_broken_renderIn _ _ ms hobj characters hshort]
    · rw [List.take_of_length_le (not_lt.mp hshort)] at hfile
      exact Or.inl (loadUsers_saved _ hobj _ hfile)

theorem loadUsers_absent (files : Files) (h : files usersFile = none) :
    loadUsers files = .ok (.obj []) := by
  rw [loadUsers, h]

theorem loadUsers_congr (files files' : Files) (h : files' usersFile = files usersFile) :
    loadUsers files' = loadUsers files := by
  rw [loadUsers, loadUsers, h]

theorem userEntry_valid (did keyfilePath : String) : (userEntry did keyfilePath).Valid := by
  simp [userEntry, Json.Valid, ValidMembers]

/-! ## One event -/

theorem sound_handle {prim : Primitives} {home : Home} {d : Desk} (hsound : d.running.Sound)
    (e : DeskEvent) : (d.handle prim home e).1.running.Sound := by
  rcases Desk.handle_running prim home d e with
    ⟨op, -, heq⟩ | heq | ⟨n, write, username, did, path, users, -, heq⟩
  · rw [heq]
    exact Running.sound_step prim d.running op hsound
  · rw [heq]
    exact hsound
  · rw [heq]
    exact ⟨hsound.ordered, hsound.storeKeys, hsound.systemKeys⟩

section OneEvent
variable {prim : Primitives} {home : Home} {start : StartInputs} {past : List DeskEvent}
  {d : Desk} (h : d.Follows prim home start past)
include h

/-- The registry changes in a save only, and then to what the terminal has in hand. -/
theorem registry_handle (e : DeskEvent) (hfresh : FreshDraws prim (past ++ [e])) (users : Json)
    (hload : loadUsers (d.handle prim home e).1.running.system.files = .ok users) :
    GoodUsers prim home start (past ++ [e]) (d.handle prim home e).1.running users := by
  have hbefore (hload : loadUsers d.running.system.files = .ok users) :=
    (h.registry users hload).step h.sound hfresh
  rcases Desk.handle_running prim home d e with
    ⟨op, -, heq⟩ | heq | ⟨n, write, name, did, path, saved, hn, heq⟩
  · apply hbefore
    rw [← hload, heq]
    exact (loadUsers_congr _ _ (step_files prim d.running h.sound op usersFile
      (fun _ reg _ => (keyfilePath_ne_usersFile _).symm))).symm
  · rw [heq] at hload
    exact hbefore hload
  · have hgood := h.terminals n
    rw [hn] at hgood
    obtain ⟨ms, rfl, hkeys, hvalid, hnames⟩ := hgood
    rw [heq, Running.withFiles] at hload
    dsimp only at hload
    rcases loadUsers_saveUsers write ms hvalid d.running.system.files with hnew | hold | htorn
    · rw [hnew, Except.ok.injEq] at hload
      rw [← hload]
      exact GoodUsers.step h.sound hfresh ⟨ms, rfl, hkeys, hvalid, hnames⟩
    · exact hbefore (hold.symm.trans hload)
    · rw [htorn] at hload
      cases hload

theorem startRegister_good (n : ℕ) (username password confirm : String) :
    (startRegister username password confirm d.running.system.files).1.Good prim home start past
      d.running n := by
  rw [startRegister]
  split_ifs with hu hp
  · trivial
  · trivial
  · split
    · trivial
    · next users hload =>
      split_ifs
      · trivial
      · exact ⟨⟨hu, hp⟩, h.registry users hload⟩

/-- A user that is set names the DID that was just registered. -/
theorem setUser_good (n : ℕ) (reg : RegisterInputs) (username password : String) (users : Json)
    (hn : d.terminals n = .registering username password users)
    (hfresh : FreshDraws prim (past ++ [.postRegister n reg true])) (reply : RegisterReply)
    (hreply : (register prim reg password d.running.system).1 = .ok reply) :
    GoodUsers prim home start (past ++ [.postRegister n reg true])
      (d.handle prim home (.postRegister n reg true)).1.running
      (setUser username (userEntry (reg.did prim) (expanduser home (keyfilePath (reg.did prim))))
        users) := by
  have hgood := h.terminals n
  rw [hn] at hgood
  have hlater := GoodUsers.step h.sound hfresh hgood.2
  have hrunning : (d.handle prim home (.postRegister n reg true)).1.running =
      d.running.step prim (.call (.register password reg)) := by
    rw [Desk.handle, hn]
    rfl
  rw [hrunning] at hlater ⊢
  obtain ⟨ms, rfl, hkeys, hvalid, hnames⟩ := hlater
  refine ⟨_, rfl, setMember_keys_nodup _ _ ms hkeys, ?_, ?_⟩
  · intro m hm
    rcases mem_setMember _ _ ms m hm with rfl | hm
    · exact userEntry_valid _ _
    · exact hvalid m hm
  · intro name value hvalue
    rw [setUser, get?_setMember _ _ ms hkeys] at hvalue
    split_ifs at hvalue with hname
    · obtain ⟨hstores, hledger⟩ :=
        committed_of_returned prim reg password _ h.sound.ordered reply hreply
      rw [hname]
      refine ⟨n, password, reg, ⟨past, [], .obj ms, rfl, ?_⟩, (Option.some.inj hvalue).symm,
        durable_register prim reg password d.running h.sound hstores hledger,
        reg.keyfile_written prim password d.running.system h.sound.ordered reply hreply, hgood.1⟩
      rw [← h.here, hn]
    · exact hnames name value hvalue

omit h in
/-- With the password of the registration, the keyfile of an entry gives the user's key. -/
theorem loadKeyfile_names (hdec : prim.DecryptsEncrypted) (username : String) (value : Json)
    (m : ℕ) (registered : String) (reg : RegisterInputs)
    (hnames : Names prim home start past d.running username value m registered reg) :
    readEntry value = .ok (reg.did prim, expanduser home (keyfilePath (reg.did prim))) ∧
      loadKeyfile prim (expanduser home (expanduser home (keyfilePath (reg.did prim)))) registered
        (hostFiles home d.running.system.files) =
          .ok ((prim.generateKeypair reg.keySeed).1, reg.publicKey prim) := by
  constructor
  · rw [hnames.entry]
    rfl
  · obtain ⟨rest, hpath, hfile⟩ :=
      hostFiles_keyfile home d.running.system.files (reg.did prim)
    rw [hpath, expanduser_expanded]
    apply loadKeyfile_kept prim hdec reg registered
    rw [hfile]
    exact hnames.keyfile

omit h in
theorem startAuthenticate_names (hdec : prim.DecryptsEncrypted) (users : Json)
    (hload : loadUsers d.running.system.files = .ok users) (username : String) (value : Json)
    (hvalue : users.get? username = some value) (m : ℕ) (registered : String)
    (reg : RegisterInputs)
    (hnames : Names prim home start past d.running username value m registered reg) :
    startAuthenticate prim home username registered d.running.system.files =
      (.asking username registered (reg.did prim) (prim.generateKeypair reg.keySeed).1, none) := by
  obtain ⟨hread, hopens⟩ := loadKeyfile_names hdec username value m registered reg hnames
  rw [startAuthenticate, if_neg hnames.typed.1, if_neg hnames.typed.2, hload]
  dsimp only
  rw [hvalue]
  dsimp only
  rw [hread]
  dsimp only
  rw [hopens]

theorem startAuthenticate_good (hdec : prim.DecryptsEncrypted) (n : ℕ)
    (username password : String) :
    (startAuthenticate prim home username password d.running.system.files).1.Good prim home start
      past d.running n := by
  rw [startAuthenticate]
  split_ifs with hu hp
  · trivial
  · trivial
  · split
    · trivial
    · next users hload =>
      split
      · trivial
      · next value hvalue =>
        obtain ⟨ms, -, -, -, hentries⟩ := h.registry users hload
        obtain ⟨m, registered, reg, hnames⟩ := hentries username value hvalue
        obtain ⟨hread, hopens⟩ := loadKeyfile_names hdec username value m registered reg hnames
        rw [hread]
        dsimp only
        split
        · next privateKey publicKey hload =>
          refine ⟨value, m, registered, reg, hnames, rfl, ?_⟩
          intro hright
          rw [hright, hopens] at hload
          cases hload
          rfl
        · trivial
        · trivial
        · trivial

theorem readRegistration_good (n : ℕ) (username password : String) (users : Json)
    (reg : RegisterInputs) (hn : d.terminals n = .registering username password users)
    (hfresh : FreshDraws prim (past ++ [.postRegister n reg true])) :
    (readRegistration home username users
      (registerEndpoint prim reg password d.running.system).1).1.Good prim home start
        (past ++ [.postRegister n reg true])
          (d.handle prim home (.postRegister n reg true)).1.running n := by
  rw [registerEndpoint]
  have hreply (reply : RegisterReply) := setUser_good h n reg username password users hn hfresh
    reply
  have hfields := reg.register_reply prim password d.running.system
  cases hregister : register prim reg password d.running.system with
  | mk result later =>
    rw [hregister] at hreply hfields
    cases result with
    | error e => trivial
    | ok reply =>
      dsimp only
      rw [hfields reply rfl]
      exact hreply reply rfl

theorem signChallenge_good (n : ℕ) (username password did : String) (privateKey : Bytes)
    (inp : ChallengeInputs) (coins : Bytes)
    (hn : d.terminals n = .asking username password did privateKey)
    (hfresh : FreshDraws prim (past ++ [.postChallenge n inp coins true])) :
    (signChallenge prim coins username password did privateKey
      (ChallengeManager.issue inp did d.running.system.pending).1).1.Good prim home start
        (past ++ [.postChallenge n inp coins true])
          (d.handle prim home (.postChallenge n inp coins true)).1.running n := by
  have hgood := Terminal.Good.step h.sound hfresh n _ (h.terminals n)
  rw [hn] at hgood
  obtain ⟨value, m, registered, key, hnames, hdid, hkey⟩ := hgood
  rw [signChallenge, ChallengeManager.issue]
  dsimp only
  rw [fromhex_hex]
  refine ⟨value, m, registered, key, hnames, hdid, inp, coins,
    List.mem_append_right _ List.mem_cons_self, rfl, ?_, ?_⟩
  · intro entry hentry
    rw [Desk.handle, hn] at hentry
    dsimp only [Desk.settle, Running.step, step, ChallengeManager.issue] at hentry
    rw [if_pos rfl] at hentry
    rw [← Option.some.inj hentry]
  · intro hright
    rw [hkey hright]

theorem terminals_handle (hdec : prim.DecryptsEncrypted) (e : DeskEvent)
    (hfresh : FreshDraws prim (past ++ [e])) (n : ℕ) :
    ((d.handle prim home e).1.terminals n).Good prim home start (past ++ [e])
      (d.handle prim home e).1.running n := by
  -- what is good for the desk as it was stays so in the event
  have hlater (t : Terminal) (ht : t.Good prim home start past d.running n) :=
    Terminal.Good.step h.sound hfresh n t ht
  have hmoves := Desk.handle_moves prim home d e n
  generalize (d.handle prim home e).1.terminals n = next at hmoves
  cases hmoves with
  | stays => exact hlater _ (h.terminals n)
  | ends => trivial
  | register username password confirm =>
    exact hlater _ (startRegister_good h n (strip username) (strip password) confirm)
  | registered username password users reg hn =>
    exact readRegistration_good h n username password users reg hn hfresh
  | authenticate username password =>
    exact hlater _ (startAuthenticate_good h hdec n (strip username) (strip password))
  | challenged username password did privateKey inp coins hn =>
    exact signChallenge_good h n username password did privateKey inp coins hn hfresh

theorem Desk.follows_handle (hdec : prim.DecryptsEncrypted) (e : DeskEvent)
    (hfresh : FreshDraws prim (past ++ [e])) :
    (d.handle prim home e).1.Follows prim home start (past ++ [e]) where
  here := by
    rw [runDesk, run_append, ← runDesk, ← h.here]
    rfl
  sound := sound_handle h.sound e
  registry := fun users hload => registry_handle h e hfresh users hload
  terminals := fun n => terminals_handle h hdec e hfresh n

end OneEvent

/-! ## Whole days -/

section Days
variable (prim : Primitives) (hdec : prim.DecryptsEncrypted) (home : Home) (start : StartInputs)

theorem Desk.follows_start : (Desk.start prim start).Follows prim home start [] where
  here := rfl
  sound := (Running.behind_first prim start).1
  registry := by
    intro users hload
    have hempty : loadUsers (Desk.start prim start).running.system.files = .ok (.obj []) := by
      rw [Desk.start, first_system]
      rfl
    rw [hempty, Except.ok.injEq] at hload
    refine ⟨[], hload.symm, List.nodup_nil, by simp, ?_⟩
    rw [← hload]
    intro username value hvalue
    cases hvalue
  terminals := fun n => trivial

include hdec

theorem Desk.follows_run (events : List DeskEvent) (hfresh : FreshDraws prim events) :
    (runDesk prim home start events).Follows prim home start events := by
  induction events using List.reverseRecOn with
  | nil => exact Desk.follows_start prim home start
  | append_singleton events e ih =>
    have hlater := Desk.follows_handle (ih hfresh.of_append) hdec e hfresh
    rw [runDesk, run_snoc, ← runDesk]
    exact hlater

end Days

end DecentralizedIDP
