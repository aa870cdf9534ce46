import DecentralizedIDP.CommandLineLogins
import DecentralizedIDP.TokenAuthenticity

/-! Who is behind a login. Anybody may send any request to the coordinator, but a token is issued
only on a challenge that a terminal has signed with the key of the DID. -/
namespace DecentralizedIDP
open Foundations

/-! ## The challenges of a day -/

namespace DeskEvent

/-- The challenge that an event opens, if it opens one: its id, nonce and expiry. -/
def opened : DeskEvent → Option (String × Bytes × ℚ)
  | .coordinator (.call (.issue _ inp)) =>
    some (inp.challengeId, inp.nonce.val, inp.now+challengeTtlSeconds)
  | .postChallenge _ inp _ _ => some (inp.challengeId, inp.nonce.val, inp.now+challengeTtlSeconds)
  | _ => none

def drawnNonce (e : DeskEvent) : Option Bytes := e.opened.map (fun c => c.2.1)

theorem opened_id (e : DeskEvent) : e.opened.map Prod.fst = e.drawnChallenge := by
  cases e with
  | coordinator op =>
    cases op with
    | restart inp => rfl
    | call op => cases op <;> rfl
  | _ => rfl

end DeskEvent

namespace Desk
variable (prim : Primitives) (home : Home)

theorem handle_operation (d : Desk) (e : DeskEvent) (op : LifeOp) (hop : d.operation e = some op) :
    (d.handle prim home e).1.running = d.running.step prim op := by
  cases sends_of_operation d e op hop with
  | anything op => rfl
  | register n username password users reg answered hn =>
    rw [handle, hn]
    rfl
  | issue n username password did privateKey inp coins answered hn =>
    rw [handle, hn]
    rfl
  | authenticate n username password did challengeId signature preCollected inp answered hn =>
    rw [handle, hn]
    rfl

/-- An event that is no operation of the coordinator leaves its challenges alone. -/
theorem handle_pending_of_none (d : Desk) (e : DeskEvent) (hop : d.operation e = none) :
    (d.handle prim home e).1.running.system.pending = d.running.system.pending := by
  rcases handle_running prim home d e with
    ⟨op, hsome, -⟩ | heq | ⟨n, write, username, did, path, users, -, heq⟩
  · rw [hop] at hsome
    cases hsome
  · rw [heq]
  · rw [heq]
    rfl

theorem operation_opened (d : Desk) (e : DeskEvent) (op : LifeOp) (hop : d.operation e = some op)
    (challengeId : String) (entry : Challenge) (h : op.created = some (challengeId, entry)) :
    e.opened = some (challengeId, entry.nonce.val, entry.expiresAt) := by
  obtain ⟨inp, rfl, rfl, hnonce, hexpires⟩ := created_issue op challengeId entry h
  rw [hnonce, hexpires]
  cases sends_of_operation d e _ hop with
  | anything => rfl
  | issue => rfl

theorem operation_register (d : Desk) (e : DeskEvent) (password : String) (reg : RegisterInputs)
    (hop : d.operation e = some (.call (.register password reg))) :
    e.drawnDid prim = some (reg.did prim) := by
  cases sends_of_operation d e _ hop with
  | anything => rfl
  | register => rfl

end Desk

/-- The challenges that are open at the coordinator are tickets of the day. -/
def deskChallenges (prim : Primitives) (home : Home) :
    TicketSystem Desk DeskEvent String (Bytes × ℚ) where
  step := fun d e => (d.handle prim home e).1
  live := fun d i => (d.running.system.pending i).map (fun c => (c.nonce.val, c.expiresAt))
  issued := DeskEvent.opened
  redeems := fun d e i => ∃ op, d.operation e = some op ∧ op.uses d.running i
  live_step := by
    intro d e i v h
    obtain ⟨entry, hentry, rfl⟩ := Option.map_eq_some_iff.mp h
    cases hop : d.operation e with
    | none =>
      -- nothing reaches the coordinator, so nothing is used up
      rw [Desk.handle_pending_of_none prim home d e hop] at hentry
      refine Or.inr ⟨by rw [hentry]; rfl, ?_⟩
      intro hredeems
      obtain ⟨op, hsome, -⟩ := hredeems
      cases hsome
    | some op =>
      rw [Desk.handle_operation prim home d e op hop] at hentry
      rcases (lifeChallenges prim).live_step d.running op i entry hentry with hnew | ⟨hold, hnot⟩
      · exact Or.inl (Desk.operation_opened d e op hop i entry hnew)
      · have hlive : d.running.system.pending i = some entry := hold
        refine Or.inr ⟨by rw [hlive]; rfl, ?_⟩
        intro hredeems
        obtain ⟨op', hsome, huses⟩ := hredeems
        cases hsome
        exact hnot huses
  redeems_live := by
    intro d e i h
    obtain ⟨op, -, huses⟩ := h
    obtain ⟨entry, hentry⟩ := (lifeChallenges prim).redeems_live d.running op i huses
    have hlive : d.running.system.pending i = some entry := hentry
    exact ⟨_, by rw [hlive]; rfl⟩

/-! ## Registrations -/

section Registrations
variable {prim : Primitives} {home : Home} {start : StartInputs}

/-- A request that registers the DID, of a terminal or of another client, has returned. -/
def RegisteredIn (prim : Primitives) (home : Home) (start : StartInputs) (past : List DeskEvent)
    (password : String) (reg : RegisterInputs) : Prop :=
  ∃ k e reply, past[k]? = some e ∧
    (runDesk prim home start (past.take k)).operation e = some (.call (.register password reg)) ∧
    (register prim reg password (runDesk prim home start (past.take k)).running.system).1 =
      .ok reply

theorem sound_day (prim : Primitives) (home : Home) (start : StartInputs)
    (past : List DeskEvent) : (runDesk prim home start past).running.Sound :=
  run_invariant (fun d e => (Desk.handle prim home d e).1) (fun d => d.running.Sound)
    (fun _ e hd => sound_handle hd e) (Desk.start prim start) (Running.behind_first prim start).1
    past

theorem durable_of_registered (past : List DeskEvent) (hfresh : FreshDraws prim past)
    (password : String) (reg : RegisterInputs)
    (h : RegisteredIn prim home start past password reg) :
    reg.Durable prim password (runDesk prim home start past).running := by
  induction past using List.reverseRecOn with
  | nil =>
    obtain ⟨k, e, reply, hk, -⟩ := h
    cases hk
  | append_singleton past e ih =>
    have hsound := sound_day prim home start past
    obtain ⟨k, e', reply, hk, hop, hreply⟩ := h
    rw [runDesk, run_snoc, ← runDesk]
    rcases getElem?_snoc_cases e e' k hk with ⟨hlt, hk'⟩ | ⟨rfl, rfl⟩
    · rw [List.take_append_of_le_length hlt.le] at hop hreply
      have hdrawn := filterMap_snoc_fresh _ past e hfresh.dids e' (List.mem_of_getElem? hk') _
        (Desk.operation_register prim _ e' password reg hop)
      exact durable_desk hsound hdrawn
        (ih hfresh.of_append ⟨k, e', reply, hk', hop, hreply⟩)
    · -- the registration itself leaves it durable
      rw [List.take_left] at hop hreply
      obtain ⟨hstores, hwrite⟩ :=
        committed_of_returned prim reg password _ hsound.ordered reply hreply
      rw [Desk.handle_operation prim home _ e' _ hop]
      exact durable_register prim reg password _ hsound hstores hwrite

/-- A DID is registered by one request only, so the terminal that has registered it sent that
one. -/
theorem registered_same (past : List DeskEvent) (hfresh : FreshDraws prim past) (k m n : ℕ)
    (username password password' : String) (reg reg' : RegisterInputs) (hdid : reg'.did prim =
      reg.did prim) (hterminal : RegisteredAs prim home start (past.take k) n username password'
      reg') (hrequest : RegisteredIn prim home start (past.take m) password reg) :
    reg' = reg ∧ password' = password := by
  obtain ⟨before, after, users, hsplit, hstate⟩ := hterminal
  obtain ⟨q, e, reply, hq, hop, -⟩ := hrequest
  have hposted : (past.take k)[before.length]? = some (.postRegister n reg' true) := by
    rw [hsplit, List.getElem?_append_right le_rfl, Nat.sub_self, List.getElem?_cons_zero]
  have hbefore : (past.take k).take before.length = before := by rw [hsplit, List.take_left]
  rw [List.getElem?_take] at hposted hq
  split_ifs at hposted hq with hk hm
  rw [List.take_take, min_eq_left hk.le] at hbefore
  rw [List.take_take, min_eq_left hm.le] at hop
  -- both requests draw the DID
  have hsame : before.length = q := by
    apply drawn_once (DeskEvent.drawnDid prim) past hfresh.dids _ _ _ _ (reg.did prim) hposted hq
    · rw [← hdid]
      rfl
    · exact Desk.operation_register prim _ e password reg hop
  subst hsame
  rw [hposted, Option.some.injEq] at hq
  subst hq
  rw [hbefore, Desk.operation, hstate, Option.some.injEq, LifeOp.call.injEq,
    Op.register.injEq] at hop
  exact ⟨hop.2, hop.1⟩

end Registrations

/-! ## Passwords -/

/-- The keyfile that this registration wrote opens under the password that was typed, to this
private key. -/
def RegisterInputs.OpensWith (prim : Primitives) (reg : RegisterInputs) (registered typed : String)
    (privateKey : Bytes) : Prop :=
  prim.decrypt (deriveAesKey typed reg.keyfile.salt) reg.keyfile.nonce
    ((reg.save prim registered).ciphertext prim) none = some privateKey

theorem RegisterInputs.opensWith_of_load (prim : Primitives) (reg : RegisterInputs)
    (registered typed path : String) (files : Files) (privateKey publicKey : Bytes)
    (hfile : files path = some ((reg.save prim registered).text prim prim.algName))
    (h : loadKeyfile prim path typed files = .ok (privateKey, publicKey)) :
    reg.OpensWith prim registered typed privateKey := by
  rw [KeyfileSave.text] at hfile
  rw [loadKeyfile_ok_iff prim path typed files _ _ _ _ _ hfile] at h
  obtain ⟨salt, nonce, ciphertext, hsalt, hnonce, hciphertext, -, hdecrypt⟩ := h
  rw [fromhex_hex, Option.some.injEq] at hsalt hnonce hciphertext
  rw [← hsalt, ← hnonce, ← hciphertext] at hdecrypt
  exact hdecrypt

theorem startRegister_ne_asking (username password confirm : String) (files : Files)
    (name typed did : String) (privateKey : Bytes) :
    (startRegister username password confirm files).1 ≠ .asking name typed did privateKey := by
  intro h
  rw [startRegister] at h
  split_ifs at h
  split at h
  · cases h
  · split_ifs at h

theorem readRegistration_ne_asking (home : Home) (username : String) (users : Json)
    (response : RegisterResponse) (name typed did : String) (privateKey : Bytes) :
    (readRegistration home username users response).1 ≠ .asking name typed did privateKey := by
  intro h
  rw [readRegistration] at h
  split_ifs at h
  split at h
  · cases h
  · cases h

theorem signChallenge_ne_asking (prim : Primitives) (coins : Bytes)
    (username password did : String) (key : Bytes) (reply : ChallengeReply)
    (name typed did' : String) (privateKey : Bytes) :
    (signChallenge prim coins username password did key reply).1 ≠
      .asking name typed did' privateKey := by
  intro h
  rw [signChallenge] at h
  split at h
  · cases h
  · cases h

/-- A command that gets as far as the challenge has loaded the key with the typed password. -/
theorem startAuthenticate_asking (prim : Primitives) (home : Home) (username password : String)
    (files : Files) (name typed did : String) (privateKey : Bytes)
    (h : (startAuthenticate prim home username password files).1 =
      .asking name typed did privateKey) :
    name = username ∧ typed = password ∧ ∃ users entry path publicKey,
      loadUsers files = .ok users ∧ users.get? username = some entry ∧
      readEntry entry = .ok (did, path) ∧
      loadKeyfile prim (expanduser home path) password (hostFiles home files) =
        .ok (privateKey, publicKey) := by
  rw [startAuthenticate] at h
  split_ifs at h
  split at h
  · cases h
  · next users hload =>
    split at h
    · cases h
    · next entry hentry =>
      split at h
      · cases h
      · next did' path hread =>
        split at h
        · next key publicKey hkey =>
          cases h
          exact ⟨rfl, rfl, users, entry, path, publicKey, hload, hentry, hread, hkey⟩
        · cases h
        · cases h
        · cases h

/-- A terminal is about to ask for a challenge only where it was, or where its user has just typed
a password that opens the keyfile. -/
theorem handle_asking (prim : Primitives) (home : Home) (d : Desk) (e : DeskEvent) (n : ℕ)
    (name typed did : String) (privateKey : Bytes)
    (h : (d.handle prim home e).1.terminals n = .asking name typed did privateKey) :
    d.terminals n = .asking name typed did privateKey ∨
      ∃ username password, (startAuthenticate prim home username password
        d.running.system.files).1 = .asking name typed did privateKey := by
  have hmoves := Desk.handle_moves prim home d e n
  generalize (d.handle prim home e).1.terminals n = next at h hmoves
  cases hmoves with
  | stays => exact Or.inl h
  | ends => cases h
  | register username password confirm =>
    exact absurd h (startRegister_ne_asking _ _ _ _ _ _ _ _)
  | registered username password users reg hn =>
    exact absurd h (readRegistration_ne_asking _ _ _ _ _ _ _ _)
  | authenticate username password => exact Or.inr ⟨_, _, h⟩
  | challenged username password did' key inp coins hn =>
    exact absurd h (signChallenge_ne_asking _ _ _ _ _ _ _ _ _ _ _)

/-- Behind a terminal that is about to ask is a password that opened the keyfile of a registration
under this username. -/
def Terminal.Unlocked (prim : Primitives) (home : Home) (start : StartInputs)
    (past : List DeskEvent) : Terminal → Prop
  | .asking username typed did privateKey => ∃ m registered reg,
      RegisteredAs prim home start past m username registered reg ∧ did = reg.did prim ∧
      reg.OpensWith prim registered typed privateKey
  | _ => True

section Unlocked
variable {prim : Primitives} {home : Home} {start : StartInputs} {past : List DeskEvent}

theorem Terminal.Unlocked.mono {t : Terminal} (h : t.Unlocked prim home start past)
    (e : DeskEvent) : t.Unlocked prim home start (past ++ [e]) := by
  cases t with
  | asking username typed did privateKey =>
    obtain ⟨m, registered, reg, hregistered, hdid, hopens⟩ := h
    exact ⟨m, registered, reg, hregistered.mono, hdid, hopens⟩
  | _ => trivial

theorem startAuthenticate_unlocked {d : Desk} (h : d.Follows prim home start past)
    (username password name typed did : String) (privateKey : Bytes)
    (hasks : (startAuthenticate prim home username password d.running.system.files).1 =
      .asking name typed did privateKey) :
    (Terminal.asking name typed did privateKey).Unlocked prim home start past := by
  obtain ⟨rfl, rfl, users, entry, path, publicKey, hload, hentry, hread, hkey⟩ :=
    startAuthenticate_asking prim home username password _ name typed did privateKey hasks
  obtain ⟨ms, -, -, -, hentries⟩ := h.registry users hload
  obtain ⟨m, registered, reg, hnames⟩ := hentries name entry hentry
  have hfields : (did, path) = (reg.did prim, expanduser home (keyfilePath (reg.did prim))) := by
    rw [hnames.entry] at hread
    exact (Except.ok.inj hread).symm
  obtain ⟨rfl, rfl⟩ := Prod.mk.inj hfields
  -- the path in the registry is that of the keyfile which the coordinator wrote
  obtain ⟨rest, hpath, hfile⟩ := hostFiles_keyfile home d.running.system.files (reg.did prim)
  rw [hpath, expanduser_expanded] at hkey
  have hkept := hnames.keyfile
  rw [RegisterInputs.KeyfileKept, ← hfile] at hkept
  exact ⟨m, registered, reg, hnames.registered, rfl,
    reg.opensWith_of_load prim registered typed _ _ privateKey publicKey hkept hkey⟩

end Unlocked

theorem unlocked_run (prim : Primitives) (hdec : prim.DecryptsEncrypted) (home : Home)
    (start : StartInputs) (events : List DeskEvent) (hfresh : FreshDraws prim events) (n : ℕ) :
    ((runDesk prim home start events).terminals n).Unlocked prim home start events := by
  induction events using List.reverseRecOn with
  | nil => trivial
  | append_singleton events e ih =>
    have hfollows := Desk.follows_run prim hdec home start events hfresh.of_append
    rw [runDesk, run_snoc, ← runDesk]
    cases hn : ((runDesk prim home start events).handle prim home e).1.terminals n with
    | asking name typed did privateKey =>
      apply Terminal.Unlocked.mono
      rcases handle_asking prim home _ e n name typed did privateKey hn with
        hsame | ⟨username, password, hasks⟩
      · rw [← hsame]
        exact ih hfresh.of_append
      · exact startAuthenticate_unlocked hfollows username password name typed did privateKey hasks
    | _ => trivial

/-! ## Logins -/

/-- The terminal signs the challenge that its event opens. -/
structure SignsAt (prim : Primitives) (home : Home) (start : StartInputs) (events : List DeskEvent)
    (k n : ℕ) (issue : ChallengeInputs) (username typed did : String) (privateKey : Bytes) : Prop
    where
  posted : ∃ coins, events[k]? = some (.postChallenge n issue coins true)
  asking : (runDesk prim home start (events.take k)).terminals n =
    .asking username typed did privateKey

/-- A request to authenticate, of a terminal or of any other client, comes with this signature for
this message, the nonce of an open challenge and the DID of the request. -/
def Presented (prim : Primitives) (home : Home) (start : StartInputs) (events : List DeskEvent)
    (message signature : Bytes) : Prop :=
  ∃ m e did challengeId signatureHex preCollected inp entry, events[m]? = some e ∧
    (runDesk prim home start (events.take m)).operation e =
      some (.call (.authenticate did challengeId signatureHex preCollected inp)) ∧
    (runDesk prim home start (events.take m)).running.system.pending challengeId = some entry ∧
    fromhex signatureHex = some signature ∧ message = entry.nonce.val ++ encode did

/-- Nobody forges a signature of this user: of all the signatures that are presented, one verifies
under the public key of the registration only on what a terminal signs with the private key. -/
def OnlySignedHere (prim : Primitives) (home : Home) (start : StartInputs)
    (events : List DeskEvent) (reg : RegisterInputs) : Prop :=
  ∀ message signature, Presented prim home start events message signature →
    prim.verify (reg.publicKey prim) message signature = true →
    ∃ k n issue username typed did,
      SignsAt prim home start events k n issue username typed did
        (prim.generateKeypair reg.keySeed).1 ∧
      message = issue.nonce.val ++ encode did

/-- The event is a request, of a terminal or of any other client, on which a token is issued. -/
structure AcceptedAt (prim : Primitives) (home : Home) (start : StartInputs)
    (events : List DeskEvent) (m : ℕ) (inp : AuthInputs) (did challengeId signatureHex : String)
    (preCollected : Option (List PartialProof)) (token : String) : Prop where
  request : ∃ e, events[m]? = some e ∧
    (runDesk prim home start (events.take m)).operation e =
      some (.call (.authenticate did challengeId signatureHex preCollected inp))
  returned : (authenticate prim inp did challengeId signatureHex preCollected
    (runDesk prim home start (events.take m)).running.system).1 = .ok (success token)

theorem AcceptedAt.redeems {prim : Primitives} {home : Home} {start : StartInputs}
    {events : List DeskEvent} {m : ℕ} {inp : AuthInputs} {did challengeId signatureHex : String}
    {preCollected : Option (List PartialProof)} {token : String}
    (h : AcceptedAt prim home start events m inp did challengeId signatureHex preCollected token) :
    ∃ e, events[m]? = some e ∧ (deskChallenges prim home).redeems
      (runDesk prim home start (events.take m)) e challengeId := by
  obtain ⟨e, he, hop⟩ := h.request
  obtain ⟨entry, -, -, hentry, -⟩ :=
    authenticate_success prim inp did challengeId signatureHex preCollected _ token h.returned
  exact ⟨e, he, _, hop, rfl, entry, hentry⟩

/-- A token is issued for a registered DID only on a challenge that a terminal has asked for and
signed, no longer ago than the challenge lives, under a username for which the DID was registered
and after a password was typed that opens the keyfile of that registration; and no two tokens are
issued on one such challenge. So it is in every interleaving of the terminals with each other and
with any requests of anybody else, restarts and byzantine nodes included. -/
theorem accepted_logins_were_signed (prim : Primitives) (hdec : prim.DecryptsEncrypted)
    (hrepr : prim.PrintsFloats) (home : Home) (start : StartInputs) (events : List DeskEvent)
    (hfresh : FreshDraws prim events) (hnonces : (events.filterMap DeskEvent.drawnNonce).Nodup)
    (m : ℕ) (registered : String) (reg : RegisterInputs)
    (hreg : RegisteredIn prim home start (events.take m) registered reg)
    (hforge : OnlySignedHere prim home start events reg) (inp : AuthInputs)
    (challengeId signatureHex : String) (preCollected : Option (List PartialProof))
    (token : String) (h : AcceptedAt prim home start events m inp (reg.did prim) challengeId
      signatureHex preCollected token) :
    (∃ k n issue username typed, k < m ∧
      SignsAt prim home start events k n issue username typed (reg.did prim)
        (prim.generateKeypair reg.keySeed).1 ∧
      issue.challengeId = challengeId ∧ inp.consumedAt ≤ issue.now+challengeTtlSeconds ∧
      (∃ terminal, RegisteredAs prim home start (events.take k) terminal username registered reg) ∧
      reg.OpensWith prim registered typed (prim.generateKeypair reg.keySeed).1) ∧
    ∀ m' inp' did' signatureHex' preCollected' token',
      AcceptedAt prim home start events m' inp' did' challengeId signatureHex' preCollected'
        token' → m' = m := by
  have hinit (i : String) : (deskChallenges prim home).live (Desk.start prim start) i = none := by
    have hnone : (Desk.start prim start).running.system.pending i = none :=
      first_pending prim start i
    exact congrArg (Option.map fun c : Challenge => (c.nonce.val, c.expiresAt)) hnone
  have hids : (deskChallenges prim home).Fresh events := by
    have hsame : (fun e : DeskEvent => e.opened.map Prod.fst) = DeskEvent.drawnChallenge :=
      funext DeskEvent.opened_id
    change (events.filterMap (fun e : DeskEvent => e.opened.map Prod.fst)).Nodup
    rw [hsame]
    exact hfresh.challenges
  have hpast (k : ℕ) : FreshDraws prim (events.take k) := by
    rw [← List.take_append_drop k events] at hfresh
    exact hfresh.of_append
  constructor
  · obtain ⟨entry, pair, chosen, hentry, hlive, hpassed, -⟩ :=
      authenticate_success prim inp _ challengeId signatureHex preCollected _ token h.returned
    obtain ⟨publicKey, signature, hkey, hsignature, hverify⟩ := hpassed.signed
    -- the key in the ledger is the one of the registration
    have hdurable := durable_of_registered _ (hpast m) registered reg hreg
    have hrecorded := reg.getPublicKey_recorded hdurable.enrolled.recorded hrepr
    rw [hkey, Except.ok.injEq, Option.some.injEq] at hrecorded
    rw [hrecorded] at hverify
    obtain ⟨e', he', hop⟩ := h.request
    have hpresented : Presented prim home start events
        (entry.nonce.val ++ encode (reg.did prim)) signature :=
      ⟨m, e', _, challengeId, signatureHex, preCollected, inp, entry, he', hop, hentry, hsignature,
        rfl⟩
    obtain ⟨k, n, issue, username, typed, did, hsigns, hmessage⟩ :=
      hforge _ signature hpresented hverify
    obtain ⟨hnonce, hdid⟩ := List.append_inj hmessage
      (entry.nonce.property.trans issue.nonce.property.symm)
    have hdid := encode_injective hdid
    subst hdid
    -- the challenge that is answered is the one whose nonce was signed
    obtain ⟨j, e, hjm, he, hopened⟩ := (deskChallenges prim home).live_issued
      (Desk.start prim start) events hinit m challengeId (entry.nonce.val, entry.expiresAt)
      (congrArg (Option.map fun c : Challenge => (c.nonce.val, c.expiresAt)) hentry)
    have hopened : e.opened = some (challengeId, entry.nonce.val, entry.expiresAt) := hopened
    obtain ⟨coins, hposted⟩ := hsigns.posted
    have hsame : k = j := by
      apply drawn_once DeskEvent.drawnNonce events hnonces k j _ e entry.nonce.val hposted he
      · rw [hnonce]
        rfl
      · rw [DeskEvent.drawnNonce, hopened]
        rfl
    subst hsame
    rw [hposted, Option.some.injEq] at he
    rw [← he, DeskEvent.opened, Option.some.injEq, Prod.mk.injEq, Prod.mk.injEq] at hopened
    obtain ⟨hid, -, hexpires⟩ := hopened
    -- and whoever signed it had opened the keyfile of a registration of this DID, which is this one
    have hunlocked := unlocked_run prim hdec home start (events.take k) (hpast k) n
    rw [hsigns.asking] at hunlocked
    obtain ⟨terminal, registered', reg', hregistered, hdid', hopens⟩ := hunlocked
    obtain ⟨rfl, rfl⟩ := registered_same events hfresh k m terminal username registered registered'
      reg reg' hdid'.symm hregistered hreg
    exact ⟨k, n, issue, username, typed, hjm, hsigns, hid, hexpires ▸ hlive,
      ⟨terminal, hregistered⟩, hopens⟩
  · intro m' inp' did' signatureHex' preCollected' token' h'
    obtain ⟨e', he', hredeems'⟩ := h'.redeems
    obtain ⟨e, he, hredeems⟩ := h.redeems
    exact (deskChallenges prim home).redeemed_once (Desk.start prim start) events hinit hids m' m
      e' e challengeId he' he hredeems' hredeems

/-! ## A login that only Alice can make -/

def aliceMessage : Bytes := (zeroToken 32).val ++ encode (sampleDid [7])

/-- The sample primitives, but under the key of Alice no other message verifies. -/
def deskPrimitives : Primitives :=
  { samplePrimitives with
    verify := fun publicKey message signature =>
      samplePrimitives.verify publicKey message signature &&
        (publicKey != [7] || message == aliceMessage) }

theorem deskPrimitives_decrypts : deskPrimitives.DecryptsEncrypted :=
  SamplePrimitives.decryptsEncrypted

/-- Alice registers and logs in, and her answer comes with the proofs of the five nodes. -/
def aliceDay : List DeskEvent :=
  aliceEvents ++ aliceLogin ++ [.postAuthenticate 0
    (some (sampleAnswers [7] "pw" ownIds (zeroToken 32).val)) (sampleAuth []) true]

theorem aliceDay_fresh : FreshDraws deskPrimitives aliceDay :=
  ⟨List.nodup_singleton _, List.nodup_singleton _⟩

theorem aliceDay_registered : RegisteredIn deskPrimitives deskHome sampleStart (aliceDay.take 5)
    "pw" (cleanRegister [7]) := by
  obtain ⟨reply, hreply⟩ := desk_clean_returns deskPrimitives deskPrimitives_decrypts
    [.register 0 "alice" "pw" ""] ⟨List.nodup_nil, List.nodup_nil⟩ [7] "pw"
  refine ⟨1, .postRegister 0 (cleanRegister [7]) true, reply, rfl, ?_, hreply⟩
  have hfirst : (aliceDay.take 5).take 1 = [.register 0 "alice" "pw" ""] := rfl
  rw [hfirst, Desk.operation, alice_posting deskPrimitives]

theorem aliceDay_signs : SignsAt deskPrimitives deskHome sampleStart aliceDay 4 0
    ⟨zeroToken 32, "c", 0⟩ "alice" "pw" ((cleanRegister [7]).did deskPrimitives)
      (deskPrimitives.generateKeypair [7]).1 := by
  refine ⟨⟨[], rfl⟩, ?_⟩
  have hbefore : aliceDay.take 4 = aliceEvents ++ [.authenticate 0 "alice" "pw"] := rfl
  rw [hbefore, runDesk, run_snoc, ← runDesk]
  exact alice_asking deskPrimitives deskPrimitives_decrypts

theorem aliceDay_only : OnlySignedHere deskPrimitives deskHome sampleStart aliceDay
    (cleanRegister [7]) := by
  intro message signature _ hverify
  have hmessage : message = aliceMessage := by
    have hkey : (cleanRegister [7]).publicKey deskPrimitives = [7] := rfl
    have h := (Bool.and_eq_true_iff.mp hverify).2
    simpa [hkey] using h
  exact ⟨4, 0, _, "alice", "pw", _, aliceDay_signs, hmessage⟩

/-- The answer of Alice to her challenge, with the proofs of the five nodes, is accepted. -/
theorem alice_token (s : System) (keys : SystemKeys) (hkeys : s.systemKeys = some keys)
    (hpending : s.pending "c" = some (sampleChallenge (zeroToken 32) (sampleDid [7])))
    (hrecorded : (cleanRegister [7]).Recorded samplePrimitives "pw" s.ledger) :
    ∃ token, (authenticate deskPrimitives (sampleAuth []) (sampleDid [7]) "c"
      (sampleSignature [7] (zeroToken 32))
      (some (sampleAnswers [7] "pw" ownIds (zeroToken 32).val)) s).1 = .ok (success token) := by
  have hkey : s.ledger.getPublicKey (sampleDid [7]) =
      .ok (some ((cleanRegister [7]).publicKey samplePrimitives)) :=
    (cleanRegister [7]).getPublicKey_recorded hrecorded SamplePrimitives.printsFloats
  have hsig : fromhex (sampleSignature [7] (zeroToken 32)) = some _ := fromhex_hex _
  have hverify : deskPrimitives.verify ((cleanRegister [7]).publicKey samplePrimitives)
      ((sampleChallenge (zeroToken 32) (sampleDid [7])).nonce.val ++ encode (sampleDid [7]))
      (samplePrimitives.sign [] (samplePrimitives.generateKeypair [7]).1
        ((zeroToken 32).val ++ encode (sampleDid [7]))) = true := by
    have hsample := SamplePrimitives.verifiesSigned [7] []
      ((zeroToken 32).val ++ encode (sampleDid [7]))
    have hmessage : (aliceMessage == aliceMessage) = true := beq_self_eq_true _
    exact Bool.and_eq_true_iff.mpr ⟨hsample, Bool.or_eq_true_iff.mpr (Or.inr hmessage)⟩
  have hused : usedProofs (sampleDid [7])
      (sampleChallenge (zeroToken 32) (sampleDid [7])).nonce.val
      (sampleAnswers [7] "pw" ownIds (zeroToken 32).val) s = some _ :=
    usedProofs_honest hrecorded SamplePrimitives.printsFloats _ (zeroToken 32).val
      (sessionH_ne_zero _ zeroToken_hash) _ _ _ _
      (sampleAnswers_nodeId_nodup [7] "pw" ownIds ownIds_nodup (zeroToken 32).val)
      (sampleAnswers_x_nodup [7] "pw" ownIds (zeroToken 32).val)
      (sampleAnswers_honest [7] "pw" ownIds (zeroToken 32).val)
  have hcall := issueCall_of_checks deskPrimitives (sampleAuth []) (sampleDid [7]) "c"
    (sampleSignature [7] (zeroToken 32)) (some (sampleAnswers [7] "pw" ownIds (zeroToken 32).val))
    s _ _ _ _ hpending sampleAuth_live hkey hsig hverify hused
  rw [authenticate_of_issueCall deskPrimitives (sampleAuth []) (sampleDid [7]) "c" _ _ s _ hcall,
    hkeys]
  obtain ⟨token, htoken⟩ := Iat.issue_ok deskPrimitives keys (sampleAuth []).token (sampleDid [7]) _
  rw [htoken]
  exact ⟨token, congrArg Prod.fst (logged_committed deskPrimitives (sampleAuth []) rfl _ _ _ _ _)⟩

theorem aliceDay_accepted : ∃ token, AcceptedAt deskPrimitives deskHome sampleStart aliceDay 5
    (sampleAuth []) ((cleanRegister [7]).did deskPrimitives) "c"
    (sampleSignature [7] (zeroToken 32))
    (some (sampleAnswers [7] "pw" ownIds (zeroToken 32).val)) token := by
  have hbefore : aliceDay.take 5 = aliceEvents ++ aliceLogin := rfl
  have hfresh : FreshDraws deskPrimitives (aliceDay.take 5) := by
    rw [hbefore]
    exact ⟨List.nodup_singleton _, List.nodup_singleton _⟩
  have hanswering := aliceLogin_answering deskPrimitives deskPrimitives_decrypts
  have hpending := aliceLogin_open deskPrimitives deskPrimitives_decrypts
  have hdurable := durable_of_registered _ hfresh "pw" (cleanRegister [7]) aliceDay_registered
  obtain ⟨keys, hkeys, -⟩ := (sound_day deskPrimitives deskHome sampleStart
    (aliceDay.take 5)).systemKeys
  have hrecorded : (cleanRegister [7]).Recorded samplePrimitives "pw"
      (runDesk deskPrimitives deskHome sampleStart (aliceDay.take 5)).running.system.ledger :=
    hdurable.enrolled.recorded
  have hoperation : (runDesk deskPrimitives deskHome sampleStart (aliceDay.take 5)).operation
      (.postAuthenticate 0 (some (sampleAnswers [7] "pw" ownIds (zeroToken 32).val))
        (sampleAuth []) true) = some (.call (.authenticate ((cleanRegister [7]).did deskPrimitives)
          "c" (sampleSignature [7] (zeroToken 32))
          (some (sampleAnswers [7] "pw" ownIds (zeroToken 32).val)) (sampleAuth []))) := by
    rw [Desk.operation, hbefore, hanswering]
    rfl
  rw [← hbefore] at hpending
  obtain ⟨token, htoken⟩ := alice_token _ keys hkeys hpending hrecorded
  exact ⟨token, ⟨_, rfl, hoperation⟩, htoken⟩

theorem accepted_logins_were_signed_alice : ∃ k n issue username typed, k < 5 ∧
    SignsAt deskPrimitives deskHome sampleStart aliceDay k n issue username typed
      ((cleanRegister [7]).did deskPrimitives) (deskPrimitives.generateKeypair [7]).1 ∧
    issue.challengeId = "c" := by
  obtain ⟨token, haccepted⟩ := aliceDay_accepted
  obtain ⟨⟨k, n, issue, username, typed, hk, hsigns, hid, -⟩, -⟩ := accepted_logins_were_signed
    deskPrimitives deskPrimitives_decrypts SamplePrimitives.printsFloats deskHome sampleStart
    aliceDay aliceDay_fresh (List.nodup_singleton _) 5 "pw" (cleanRegister [7])
    aliceDay_registered aliceDay_only (sampleAuth []) "c" _ _ token haccepted
  exact ⟨k, n, issue, username, typed, hk, hsigns, hid⟩

end DecentralizedIDP
