import DecentralizedIDP.SampleRuns

/-! The `/challenge` and `/authenticate` handlers of the HTTP mode, interleaved in every
order. A handler of `/authenticate` peeks at its challenge, is suspended while it
gathers the proofs, and then authenticates without a further suspension. -/
namespace DecentralizedIDP
open Foundations

structure AuthRequest where
  did : String
  challengeId : String
  signature : String

/-- One request for a partial proof: the node, the DID and the nonce in hex. -/
abbrev ProofRequest := ℤ × String × String

/-- A suspended handler of `/authenticate`, with the requests it waits for. -/
structure Gathering where
  request : AuthRequest
  requests : List ProofRequest

/-- A call of `AuthenticationService.authenticate` by a handler: when it consumed its
challenge and what nonce it got, and the proofs it was handed with the requests
that fetched them. -/
structure AuthCall where
  handler : ℕ
  request : AuthRequest
  consumedAt : ℚ
  nonce : Option Bytes
  requests : Option (List ProofRequest)
  preProofs : Option (List PartialProof)

structure Api where
  system : System
  gathering : ℕ → Option Gathering
  calls : List AuthCall

/-- What happens between two suspensions: `/challenge` runs, a handler of
`/authenticate` starts at `peekedAt`, or one that gathers proofs gets its answers
and resumes. A start that finds no challenge authenticates at once, with `inp`. -/
inductive Event where
  | challenge (did : String) (inp : ChallengeInputs)
  | authenticate (handler : ℕ) (request : AuthRequest) (peekedAt : ℚ) (inp : AuthInputs)
  | resume (handler : ℕ) (answers : ProofRequest → Option PartialProof) (inp : AuthInputs)

namespace Api
variable (prim : Primitives)

def requestsFor (nodes : List Node) (did : String) (nonce : Bytes) : List ProofRequest :=
  nodes.map (fun n => (n.nodeId, did, hex nonce))

/-- The handler's call of `authenticate`. -/
def call (handler : ℕ) (request : AuthRequest) (requests : Option (List ProofRequest))
    (preProofs : Option (List PartialProof)) (inp : AuthInputs) (api : Api) : Api :=
  { api with
    system := (authenticate prim inp request.did request.challengeId request.signature preProofs
      api.system).2,
    calls := api.calls ++ [{
      handler := handler, request := request, consumedAt := inp.consumedAt,
      nonce := (ChallengeManager.consume request.challengeId inp.consumedAt api.system.pending).1,
      requests := requests, preProofs := preProofs }] }

def setGathering (handler : ℕ) (g : Option Gathering) (api : Api) : Api :=
  { api with gathering := fun h => if h = handler then g else api.gathering h }

def handle (api : Api) : Event → Api
  | .challenge did inp =>
    { api with system :=
        { api.system with pending := (ChallengeManager.issue inp did api.system.pending).2 } }
  | .authenticate handler request peekedAt inp =>
    match ChallengeManager.peek request.challengeId peekedAt api.system.pending with
    | none => api.call prim handler request none none inp
    | some nonce => api.setGathering handler
        (some ⟨request, requestsFor api.system.nodes request.did nonce⟩)
  | .resume handler answers inp =>
    match api.gathering handler with
    | none => api
    | some g => (api.setGathering handler none).call prim handler g.request (some g.requests)
        (some (g.requests.filterMap answers)) inp

/-- The handlers share a coordinator that starts without challenges. -/
def start (system : System) : Api where
  system := { system with pending := fun _ => none }
  gathering := fun _ => none
  calls := []

/-! ## The coordinator below the handlers -/

/-- The operations of the coordinator that an event amounts to. -/
def operations (api : Api) : Event → List Op
  | .challenge did inp => [.issue did inp]
  | .authenticate _ request peekedAt inp =>
    match ChallengeManager.peek request.challengeId peekedAt api.system.pending with
    | none => [.peek request.challengeId peekedAt,
        .authenticate request.did request.challengeId request.signature none inp]
    | some _ => [.peek request.challengeId peekedAt]
  | .resume handler answers inp =>
    match api.gathering handler with
    | none => []
    | some g => [.authenticate g.request.did g.request.challengeId g.request.signature
        (some (g.requests.filterMap answers)) inp]

/-- Each event acts on the coordinator as its operations do. -/
theorem handle_system (api : Api) (e : Event) :
    (api.handle prim e).system = run (step prim) api.system (api.operations e) := by
  cases e with
  | challenge did inp => rfl
  | authenticate handler request peekedAt inp =>
    rw [handle, operations]
    split <;> rfl
  | resume handler answers inp =>
    rw [handle, operations]
    split <;> rfl

/-- Interleaved handlers take the coordinator through one of its own runs. -/
theorem run_handle_system (api : Api) (events : List Event) : ∃ ops,
    (run (handle prim) api events).system = run (step prim) api.system ops := by
  -- the operations of the events, one after the other, make the run of the coordinator
  induction events generalizing api with
  | nil => exact ⟨[], rfl⟩
  | cons e events ih =>
    obtain ⟨ops, hops⟩ := ih (api.handle prim e)
    refine ⟨api.operations e ++ ops, ?_⟩
    rw [run_cons, hops, handle_system, run_append]

/-! ## One event -/

/-- The challenge of the call that an event makes, if it makes one. -/
def calledFor (api : Api) : Event → Option String
  | .challenge _ _ => none
  | .authenticate _ request peekedAt _ =>
    match ChallengeManager.peek request.challengeId peekedAt api.system.pending with
    | none => some request.challengeId
    | some _ => none
  | .resume handler _ _ => (api.gathering handler).map (fun g => g.request.challengeId)

def issuedBy : Event → Option (String × Challenge)
  | .challenge did inp => some (inp.challengeId,
      { nonce := inp.nonce, did := did, expiresAt := inp.now+challengeTtlSeconds })
  | _ => none

theorem call_pending (handler : ℕ) (request : AuthRequest) (requests : Option (List ProofRequest))
    (preProofs : Option (List PartialProof)) (inp : AuthInputs) (api : Api) :
    (api.call prim handler request requests preProofs inp).system.pending =
      ChallengeManager.remove request.challengeId api.system.pending :=
  authenticate_pending _ _ _ _ _ _ _

theorem handle_pending (api : Api) (e : Event) (i : String) (entry : Challenge)
    (h : (api.handle prim e).system.pending i = some entry) :
    issuedBy e = some (i, entry) ∨
      (api.system.pending i = some entry ∧ api.calledFor e ≠ some i) := by
  cases e with
  | challenge did inp =>
    simp only [handle, ChallengeManager.issue] at h
    split_ifs at h with hi
    · left
      rw [issuedBy, hi, Option.some.inj h]
    · exact Or.inr ⟨h, by simp [calledFor]⟩
  | authenticate handler request peekedAt inp =>
    right
    rw [handle] at h
    rw [calledFor]
    cases hpeek : ChallengeManager.peek request.challengeId peekedAt api.system.pending with
    | none =>
      -- without a nonce the handler authenticates at once, which uses the challenge up
      simp only [hpeek, call_pending] at h
      obtain ⟨hi, h⟩ := remove_some _ _ _ _ h
      exact ⟨h, fun heq => hi (Option.some.inj heq).symm⟩
    | some nonce =>
      simp only [hpeek] at h
      exact ⟨h, by simp⟩
  | resume handler answers inp =>
    right
    rw [handle] at h
    rw [calledFor]
    cases hg : api.gathering handler with
    | none =>
      simp only [hg] at h
      exact ⟨h, by simp⟩
    | some g =>
      simp only [hg, call_pending] at h
      obtain ⟨hi, h⟩ := remove_some _ _ _ _ h
      exact ⟨h, fun heq => hi (Option.some.inj heq).symm⟩

/-- Challenges as tickets that calls redeem. -/
def challengeTickets : TicketSystem Api Event String Challenge where
  step := handle prim
  live := fun api => api.system.pending
  issued := issuedBy
  redeems := fun api e i => api.calledFor e = some i ∧ ∃ entry, api.system.pending i = some entry
  live_step := fun api e i entry h =>
    (handle_pending prim api e i entry h).imp_right (fun h => ⟨h.1, fun hr => h.2 hr.1⟩)
  redeems_live := fun _ _ _ h => h.2

/-- An event makes at most one call. -/
theorem handle_calls (api : Api) (e : Event) :
    ∃ calls, (api.handle prim e).calls = api.calls ++ calls ∧ calls.length ≤ 1 := by
  cases e with
  | challenge did inp => exact ⟨[], (List.append_nil _).symm, by simp⟩
  | authenticate handler request peekedAt inp =>
    rw [handle]
    split
    · exact ⟨_, rfl, by simp⟩
    · exact ⟨[], (List.append_nil _).symm, by simp⟩
  | resume handler answers inp =>
    rw [handle]
    split
    · exact ⟨[], (List.append_nil _).symm, by simp⟩
    · exact ⟨_, rfl, by simp⟩

/-- Where a call comes from: a start that found no challenge, or a handler that resumes
with the answers to its own requests. -/
theorem handle_call (api : Api) (e : Event) (c : AuthCall)
    (h : (api.handle prim e).calls = api.calls ++ [c]) :
    api.calledFor e = some c.request.challengeId ∧
    c.nonce = (ChallengeManager.consume c.request.challengeId c.consumedAt
      api.system.pending).1 ∧
    ((∃ peekedAt inp, e = .authenticate c.handler c.request peekedAt inp ∧
        c.consumedAt = inp.consumedAt ∧
        ChallengeManager.peek c.request.challengeId peekedAt api.system.pending = none) ∨
      (∃ answers inp g, e = .resume c.handler answers inp ∧ api.gathering c.handler = some g ∧
        c.request = g.request ∧ c.requests = some g.requests ∧
        c.preProofs = some (g.requests.filterMap answers))) := by
  -- an event that makes no call leaves the log as it is
  have hsame (hcalls : (api.handle prim e).calls = api.calls) : False := by
    rw [hcalls] at h
    simpa using congrArg List.length h
  cases e with
  | challenge did inp => exact (hsame rfl).elim
  | authenticate handler request peekedAt inp =>
    cases hpeek : ChallengeManager.peek request.challengeId peekedAt api.system.pending with
    | none =>
      simp only [handle, hpeek, call, List.append_cancel_left_eq, List.singleton_inj] at h
      subst h
      exact ⟨by simp only [calledFor, hpeek], rfl, Or.inl ⟨peekedAt, inp, rfl, rfl, hpeek⟩⟩
    | some nonce => exact (hsame (by simp only [handle, hpeek, setGathering])).elim
  | resume handler answers inp =>
    cases hg : api.gathering handler with
    | none => exact (hsame (by simp only [handle, hg])).elim
    | some g =>
      simp only [handle, hg, call, setGathering, List.append_cancel_left_eq,
        List.singleton_inj] at h
      subst h
      exact ⟨by simp only [calledFor, hg, Option.map_some], rfl,
        Or.inr ⟨answers, inp, g, rfl, hg, rfl, rfl, rfl⟩⟩

/-! ## Whole runs -/

/-- What holds of the state after the events of `past`: the nodes are the same, pending
challenges were issued, and suspended handlers wait for proofs of such a challenge
for their own DID. -/
structure Traced (nodes : List Node) (past : List Event) (api : Api) : Prop where
  nodes_eq : api.system.nodes = nodes
  pending : ∀ i entry, api.system.pending i = some entry →
    ∃ e ∈ past, issuedBy e = some (i, entry)
  gathered : ∀ h g, api.gathering h = some g → ∃ e ∈ past, ∃ entry,
    issuedBy e = some (g.request.challengeId, entry) ∧
    g.requests = requestsFor nodes g.request.did entry.nonce

theorem handle_nodes (api : Api) (e : Event) :
    (api.handle prim e).system.nodes = api.system.nodes := by
  cases e with
  | challenge did inp => rfl
  | authenticate handler request peekedAt inp =>
    rw [handle]
    split
    · exact authenticate_nodes _ _ _ _ _ _ _
    · rfl
  | resume handler answers inp =>
    rw [handle]
    split
    · rfl
    · exact authenticate_nodes _ _ _ _ _ _ _

/-- A handler that is suspended after an event was so before, or has just peeked. -/
theorem handle_gathering (api : Api) (e : Event) (h : ℕ) (g : Gathering)
    (hg : (api.handle prim e).gathering h = some g) :
    api.gathering h = some g ∨ ∃ peekedAt nonce,
      ChallengeManager.peek g.request.challengeId peekedAt api.system.pending = some nonce ∧
      g.requests = requestsFor api.system.nodes g.request.did nonce := by
  cases e with
  | challenge did inp => exact Or.inl hg
  | authenticate handler request peekedAt inp =>
    cases hpeek : ChallengeManager.peek request.challengeId peekedAt api.system.pending with
    | none =>
      simp only [handle, hpeek, call] at hg
      exact Or.inl hg
    | some nonce =>
      simp only [handle, hpeek, setGathering] at hg
      split_ifs at hg
      · rw [Option.some.injEq] at hg
        subst hg
        exact Or.inr ⟨peekedAt, nonce, hpeek, rfl⟩
      · exact Or.inl hg
  | resume handler answers inp =>
    cases hgathering : api.gathering handler with
    | none =>
      simp only [handle, hgathering] at hg
      exact Or.inl hg
    | some g' =>
      simp only [handle, hgathering, call, setGathering] at hg
      split_ifs at hg
      exact Or.inl hg

theorem traced_step (nodes : List Node) (past : List Event) (api : Api) (e : Event)
    (h : Traced nodes past api) : Traced nodes (past ++ [e]) (api.handle prim e) where
  nodes_eq := (handle_nodes prim api e).trans h.nodes_eq
  pending := by
    intro i entry hentry
    rcases handle_pending prim api e i entry hentry with hissued | ⟨hold, -⟩
    · exact ⟨e, by simp, hissued⟩
    · obtain ⟨e', he', hissued⟩ := h.pending i entry hold
      exact ⟨e', List.mem_append_left _ he', hissued⟩
  gathered := by
    intro handler g hg
    rcases handle_gathering prim api e handler g hg with hold | ⟨peekedAt, nonce, hpeek, hreq⟩
    · obtain ⟨e', he', entry, hissued, hrequests⟩ := h.gathered handler g hold
      exact ⟨e', List.mem_append_left _ he', entry, hissued, hrequests⟩
    -- a handler that has just peeked waits for the nonce of a pending challenge
    · rw [ChallengeManager.peek_eq_consume] at hpeek
      obtain ⟨entry, hentry, -, rfl⟩ := ChallengeManager.consume_some _ _ _ _ hpeek
      obtain ⟨e', he', hissued⟩ := h.pending _ entry hentry
      exact ⟨e', List.mem_append_left _ he', entry, hissued, h.nodes_eq ▸ hreq⟩

theorem traced_run (system : System) (events : List Event) :
    Traced system.nodes events (run (handle prim) (start system) events) :=
  run_history (handle prim) (Traced system.nodes)
    (fun past api e h => traced_step prim _ past api e h) _
    ⟨rfl, by simp [start], by simp [start]⟩ events

/-- `uuid4` never repeats. -/
def FreshChallenges (events : List Event) : Prop :=
  (events.filterMap (fun e => (issuedBy e).map Prod.fst)).Nodup

/-- The readings of the clock that handlers compare with an expiry, in order. -/
def readings : Event → List ℚ
  | .challenge _ inp => [inp.now]
  | .authenticate _ _ peekedAt inp => [peekedAt, inp.consumedAt]
  | .resume _ _ inp => [inp.consumedAt]

def ClockMonotone (events : List Event) : Prop := (events.flatMap readings).Pairwise (· ≤ ·)

section Run
variable (system : System) (events : List Event)

/-- The event that made the `k`-th call of a run. -/
theorem call_origin (k : ℕ) (c : AuthCall)
    (hc : (run (handle prim) (start system) events).calls[k]? = some c) : ∃ m e,
    events[m]? = some e ∧
    (run (handle prim) (start system) (events.take m)).calls =
      (run (handle prim) (start system) events).calls.take k ∧
    ((run (handle prim) (start system) (events.take m)).handle prim e).calls =
      (run (handle prim) (start system) (events.take m)).calls ++ [c] := by
  obtain ⟨m, e, he, hbefore, hafter⟩ := log_origin (handle prim) (fun _ => True)
    (fun _ _ _ => trivial) Api.calls (fun api e _ => handle_calls prim api e) (start system) trivial
    rfl events k c hc
  exact ⟨m, e, he, hbefore, hbefore.symm ▸ hafter⟩

/-- Only one call gets the nonce of a challenge. -/
theorem nonce_once (hfresh : FreshChallenges events) (k k' : ℕ) (c c' : AuthCall)
    (hc : (run (handle prim) (start system) events).calls[k]? = some c)
    (hc' : (run (handle prim) (start system) events).calls[k']? = some c')
    (hid : c.request.challengeId = c'.request.challengeId) (nonce nonce' : Bytes)
    (hnonce : c.nonce = some nonce) (hnonce' : c'.nonce = some nonce') : k = k' := by
  -- a call that gets a nonce redeems the ticket of its challenge
  have hredeems (api : Api) (e : Event) (c : AuthCall) (nonce : Bytes)
      (h : (api.handle prim e).calls = api.calls ++ [c]) (hnonce : c.nonce = some nonce) :
      (challengeTickets prim).redeems api e c.request.challengeId := by
    obtain ⟨hcalled, hconsume, -⟩ := handle_call prim api e c h
    obtain ⟨entry, hentry, -, -⟩ := ChallengeManager.consume_some _ _ _ nonce
      (hconsume.symm.trans hnonce)
    exact ⟨hcalled, entry, hentry⟩
  obtain ⟨m, e, he, hbefore, hafter⟩ := call_origin prim system events k c hc
  obtain ⟨m', e', he', hbefore', hafter'⟩ := call_origin prim system events k' c' hc'
  have hm : m = m' := (challengeTickets prim).redeemed_once (start system) events (fun _ => rfl)
    hfresh m m' e e' c.request.challengeId he he' (hredeems _ _ _ _ hafter hnonce)
    (hid ▸ hredeems _ _ _ _ hafter' hnonce')
  subst hm
  have hlen := congrArg List.length (hbefore.symm.trans hbefore')
  rw [List.length_take, List.length_take] at hlen
  have hk := (List.getElem?_eq_some_iff.mp hc).1
  have hk' := (List.getElem?_eq_some_iff.mp hc').1
  omega

/-- The call that got a nonce is bound to its challenge and to its own requests. -/
structure Bound (c : AuthCall) (nonce : Bytes) : Prop where
  issued : ∃ did inp, Event.challenge did inp ∈ events ∧
    inp.challengeId = c.request.challengeId ∧ nonce = inp.nonce.val ∧
    c.consumedAt ≤ inp.now+challengeTtlSeconds
  requested : c.requests = some (requestsFor system.nodes c.request.did nonce)
  collected : ∃ answers, c.preProofs =
    some ((requestsFor system.nodes c.request.did nonce).filterMap answers)

theorem nonce_bound (hfresh : FreshChallenges events) (hclock : ClockMonotone events)
    (c : AuthCall) (hc : c ∈ (run (handle prim) (start system) events).calls) (nonce : Bytes)
    (hnonce : c.nonce = some nonce) : Bound system events c nonce := by
  obtain ⟨k, hk⟩ := List.mem_iff_getElem?.mp hc
  obtain ⟨m, e, he, -, hafter⟩ := call_origin prim system events k c hk
  obtain ⟨-, hconsume, horigin⟩ := handle_call prim _ e c hafter
  have htraced := traced_run prim system (events.take m)
  obtain ⟨entry, hentry, hlive, rfl⟩ := ChallengeManager.consume_some _ _ _ nonce
    (hconsume.symm.trans hnonce)
  obtain ⟨e₁, he₁, hissued⟩ := htraced.pending _ entry hentry
  rcases horigin with ⟨peekedAt, inp, rfl, htime, hpeek⟩ |
    ⟨answers, inp, g, rfl, hg, hrequest, hrequests, hproofs⟩
  · -- a start that finds no challenge does not get a nonce either
    have hreadings := (List.pairwise_flatMap.mp hclock).1 _ (List.mem_of_getElem? he)
    have hle : peekedAt ≤ c.consumedAt := by
      rw [htime]
      exact List.rel_of_pairwise_cons hreadings (List.mem_singleton_self _)
    rw [ChallengeManager.consume_of_peek_none _ _ _ _ hpeek hle] at hconsume
    rw [hconsume] at hnonce
    cases hnonce
  · -- what the handler peeked at and what it consumes was issued by one event
    obtain ⟨e₂, he₂, entry', hissued', hrequested⟩ := htraced.gathered _ g hg
    rw [← hrequest] at hissued'
    obtain rfl := (challengeTickets prim).issued_value events hfresh e₁ e₂ _ entry entry'
      (List.mem_of_mem_take he₁) (List.mem_of_mem_take he₂) hissued hissued'
    rw [← hrequest] at hrequested
    refine ⟨?_, hrequested ▸ hrequests, answers, hrequested ▸ hproofs⟩
    cases e₁ with
    | challenge did inp' =>
      simp only [issuedBy, Option.some.injEq, Prod.mk.injEq] at hissued
      obtain ⟨hid, rfl⟩ := hissued
      exact ⟨did, inp', List.mem_of_mem_take he₁, hid, rfl, hlive⟩
    | _ => cases hissued

/-- Single use under every interleaving of the handlers. -/
theorem challenge_single_use (hfresh : FreshChallenges events) (hclock : ClockMonotone events) :
    (∀ (k k' : ℕ) (c c' : AuthCall) (nonce nonce' : Bytes),
      (run (handle prim) (start system) events).calls[k]? = some c →
      (run (handle prim) (start system) events).calls[k']? = some c' →
      c.request.challengeId = c'.request.challengeId → c.nonce = some nonce →
      c'.nonce = some nonce' → k = k') ∧
    ∀ c ∈ (run (handle prim) (start system) events).calls, ∀ nonce, c.nonce = some nonce →
      Bound system events c nonce :=
  ⟨fun k k' c c' nonce nonce' hc hc' hid =>
      nonce_once prim system events hfresh k k' c c' hc hc' hid nonce nonce',
    nonce_bound prim system events hfresh hclock⟩

end Run

/-- Two handlers race for one challenge; the one that started last resumes first. -/
def race : List Event :=
  [.challenge (sampleDid [7]) ⟨zeroToken 32, "c", 0⟩,
    .authenticate 1 ⟨sampleDid [7], "c", ""⟩ 1 (sampleAuth []),
    .authenticate 2 ⟨sampleDid [7], "c", ""⟩ 1 (sampleAuth []),
    .resume 2 (fun _ => none) (sampleAuth []), .resume 1 (fun _ => none) (sampleAuth [])]

theorem challenge_single_use_race :
    (∀ (k k' : ℕ) (c c' : AuthCall) (nonce nonce' : Bytes),
      (run (handle samplePrimitives) (start sampleInitial) race).calls[k]? = some c →
      (run (handle samplePrimitives) (start sampleInitial) race).calls[k']? = some c' →
      c.request.challengeId = c'.request.challengeId → c.nonce = some nonce →
      c'.nonce = some nonce' → k = k') ∧
    ∀ c ∈ (run (handle samplePrimitives) (start sampleInitial) race).calls, ∀ nonce,
      c.nonce = some nonce → Bound sampleInitial race c nonce :=
  challenge_single_use samplePrimitives sampleInitial race (List.nodup_singleton _)
    (by simp [ClockMonotone, race, readings, sampleAuth])

end Api

end DecentralizedIDP
