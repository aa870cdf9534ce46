import DecentralizedIDP.FoundationsTickets
import Mathlib.Logic.Function.Basic

/-! Machines that reply to each call, the order of the entries in their traces, what has
started in a run and not ended, the simulation of one machine by another, calls that go
unnoticed, and maps that hold under each key what was written there last. -/
namespace Foundations

variable {σ τ ι ο ω κ ν β θ : Type*}

/-! ## Machines -/

/-- A call takes the state to the next one and gets a reply. -/
abbrev Machine (σ ι ο : Type*) := σ → ι → σ × ο

namespace Machine

def final (M : Machine σ ι ο) (s : σ) (calls : List ι) : σ :=
  run (fun s call => (M s call).1) s calls

def replies (M : Machine σ ι ο) (s : σ) : List ι → List ο
  | [] => []
  | call :: calls => (M s call).2 :: replies M (M s call).1 calls

theorem final_invariant (M : Machine σ ι ο) (I : σ → Prop)
    (hstep : ∀ s call, I s → I (M s call).1) (s : σ) (hs : I s) (calls : List ι) :
    I (M.final s calls) := run_invariant _ I hstep s hs calls

theorem final_snoc (M : Machine σ ι ο) (s : σ) (calls : List ι) (call : ι) :
    M.final s (calls ++ [call]) = (M (M.final s calls) call).1 := run_snoc _ _ _ _

end Machine

/-! ## Traces -/

/-- Every entry of a trace has its licence in the entries before it. -/
def Preceded (licence : List β → β → Prop) (trace : List β) : Prop :=
  ∀ past entry after, trace = past ++ entry :: after → licence past entry

theorem preceded_nil (licence : List β → β → Prop) : Preceded licence [] := by
  intro past entry after h
  exact absurd h.symm (by simp)

theorem preceded_append (licence : List β → β → Prop) (trace more : List β) :
    Preceded licence (trace ++ more) ↔
      Preceded licence trace ∧ Preceded (fun past => licence (trace ++ past)) more := by
  constructor
  · intro h
    constructor
    · intro past entry after heq
      apply h past entry (after ++ more)
      rw [heq, List.append_assoc, List.cons_append]
    · intro past entry after heq
      apply h (trace ++ past) entry after
      rw [heq, List.append_assoc]
  · rintro ⟨htrace, hmore⟩ past entry after heq
    -- the entry lies in one part or in the other
    rcases List.append_eq_append_iff.mp heq with ⟨rest, rfl, hrest⟩ | ⟨rest, rfl, hrest⟩
    · exact hmore rest entry after hrest
    · cases rest with
      | nil =>
        have hlocal := hmore [] entry after hrest.symm
        rwa [List.append_nil, List.append_nil] at hlocal
      | cons first rest =>
        rw [List.cons_append, List.cons.injEq] at hrest
        obtain ⟨rfl, -⟩ := hrest
        exact htrace past entry rest rfl

theorem preceded_snoc (licence : List β → β → Prop) (trace : List β) (entry : β) :
    Preceded licence (trace ++ [entry]) ↔ Preceded licence trace ∧ licence trace entry := by
  have hsingle : Preceded (fun past => licence (trace ++ past)) [entry] ↔ licence trace entry := by
    constructor
    · intro h
      have hentry : licence (trace ++ []) entry := h [] entry [] rfl
      rwa [List.append_nil] at hentry
    · intro h past other after heq
      obtain ⟨rfl, hrest⟩ | ⟨rest, -, hrest⟩ := List.cons_eq_append_iff.mp heq
      · obtain ⟨rfl, -⟩ := List.cons.inj hrest
        rwa [List.append_nil]
      · exact absurd hrest (by simp)
  rw [preceded_append, hsingle]

/-- Something started, after calls that allowed it, and no later call has ended it. -/
def Since (starts : List ι → ι → Prop) (ends : ι → Prop) (calls : List ι) : Prop :=
  ∃ before call after, calls = before ++ call :: after ∧ starts before call ∧
    ∀ later ∈ after, ¬ends later

theorem since_nil (starts : List ι → ι → Prop) (ends : ι → Prop) : ¬Since starts ends [] := by
  simp [Since]

theorem since_snoc (starts : List ι → ι → Prop) (ends : ι → Prop) (calls : List ι) (call : ι) :
    Since starts ends (calls ++ [call]) ↔
      starts calls call ∨ (¬ends call ∧ Since starts ends calls) := by
  constructor
  · rintro ⟨before, start, after, hsplit, hstart, hlater⟩
    -- the start is the new call, or stands before it
    rcases List.eq_nil_or_concat after with rfl | ⟨after, last, rfl⟩
    · obtain ⟨rfl, hcall⟩ := List.append_inj' hsplit rfl
      rw [List.singleton_inj] at hcall
      exact Or.inl (hcall ▸ hstart)
    · rw [List.concat_eq_append, ← List.cons_append, ← List.append_assoc] at hsplit
      obtain ⟨hcalls, hcall⟩ := List.append_inj' hsplit rfl
      rw [List.singleton_inj] at hcall
      rw [List.concat_eq_append] at hlater
      exact Or.inr ⟨hcall ▸ hlater last (by simp), before, start, after, hcalls, hstart,
        fun later hmem => hlater later (List.mem_append_left _ hmem)⟩
  · rintro (hstart | ⟨hno, before, start, after, rfl, hstart, hlater⟩)
    · exact ⟨calls, call, [], rfl, hstart, by simp⟩
    · refine ⟨before, start, after ++ [call], by simp, hstart, ?_⟩
      intro later hmem
      rcases List.mem_append.mp hmem with hmem | hmem
      · exact hlater later hmem
      · rwa [List.mem_singleton.mp hmem]

/-- What started did so in one of the calls. -/
theorem Since.exists_mem {starts : List ι → ι → Prop} {ends : ι → Prop} {calls : List ι}
    (h : Since starts ends calls) : ∃ before, ∃ call ∈ calls, starts before call := by
  obtain ⟨before, call, after, rfl, hstart, -⟩ := h
  exact ⟨before, call, by simp, hstart⟩

namespace Machine
variable (M : Machine σ ι (List β))

/-- What a run leaves behind when each call replies with some entries. -/
def trace (s : σ) (calls : List ι) : List β := (M.replies s calls).flatten

section Trace
variable (I : List β → σ → Prop)
  (hstep : ∀ past s call, I past s → I (past ++ (M s call).2) (M s call).1)
include hstep

end Trace

end Machine

/-! ## Simulation -/

/-- Every call of the run is good in the state in which it comes. -/
def Machine.GoodRun (M : Machine σ ι ο) (good : σ → ι → Prop) : σ → List ι → Prop
  | _, [] => True
  | s, call :: calls => good s call ∧ GoodRun M good (M s call).1 calls

theorem Machine.goodRun_snoc (M : Machine σ ι ο) (good : σ → ι → Prop) (s : σ) (calls : List ι)
    (call : ι) : M.GoodRun good s (calls ++ [call]) ↔
      M.GoodRun good s calls ∧ good (M.final s calls) call := by
  induction calls generalizing s with
  | nil => exact and_comm
  | cons first calls ih =>
    rw [List.cons_append, GoodRun, GoodRun, ih, and_assoc, final, final, run_cons]

/-- On a good call in a related state, `A` does on its own terms what `C` does, replies what is
to be seen of the reply of `C`, and the states stay related. -/
structure GoodSimulation (C : Machine σ ι ο) (A : Machine τ κ ω) where
  rel : σ → τ → Prop
  good : σ → ι → Prop
  meaning : ι → κ
  view : ο → ω
  commutes : ∀ s t call, rel s t → good s call →
    rel (C s call).1 (A t (meaning call)).1 ∧ (A t (meaning call)).2 = view (C s call).2

/-- A run of good calls is explained by `A`, call by call. -/
theorem GoodSimulation.run {C : Machine σ ι ο} {A : Machine τ κ ω} (S : GoodSimulation C A)
    (s : σ) (t : τ) (h : S.rel s t) (calls : List ι) (hgood : C.GoodRun S.good s calls) :
    S.rel (C.final s calls) (A.final t (calls.map S.meaning)) ∧
      A.replies t (calls.map S.meaning) = (C.replies s calls).map S.view := by
  induction calls generalizing s t with
  | nil => exact ⟨h, rfl⟩
  | cons call calls ih =>
    obtain ⟨hrel, hreply⟩ := S.commutes s t call h hgood.1
    obtain ⟨hfinal, hreplies⟩ := ih _ _ hrel hgood.2
    refine ⟨hfinal, ?_⟩
    rw [List.map_cons, Machine.replies, Machine.replies, List.map_cons, hreply, hreplies]

/-- Where every call that is not good gets another reply, the replies of `A` are those of
the good runs only. -/
theorem GoodSimulation.replies_iff {C : Machine σ ι ο} {A : Machine τ κ ω}
    (S : GoodSimulation C A)
    (hbad : ∀ s t call, S.rel s t → ¬S.good s call → (A t (S.meaning call)).2 ≠ S.view (C s call).2)
    (s : σ) (t : τ) (h : S.rel s t) (calls : List ι) :
    A.replies t (calls.map S.meaning) = (C.replies s calls).map S.view ↔
      C.GoodRun S.good s calls := by
  constructor
  · induction calls generalizing s t with
    | nil => exact fun _ => trivial
    | cons call calls ih =>
      intro hreplies
      rw [List.map_cons, Machine.replies, Machine.replies, List.map_cons,
        List.cons.injEq] at hreplies
      have hgood : S.good s call := by
        by_contra hnot
        exact hbad s t call h hnot hreplies.1
      exact ⟨hgood, ih _ _ (S.commutes s t call h hgood).1 hreplies.2⟩
  · intro hgood
    exact (S.run s t h calls hgood).2

/-! ## Calls that go unnoticed -/

/-- The replies to the visible calls of a run. -/
def Machine.observed (M : Machine σ ι ο) (visible : ι → Bool) (s : σ) : List ι → List ο
  | [] => []
  | call :: calls =>
    if visible call then (M s call).2 :: observed M visible (M s call).1 calls
    else observed M visible (M s call).1 calls

/-- A relation, weaker the later it is, in which visible calls reply alike and go on to
related states, and a call that is not visible goes on to a related state by itself. -/
structure Unnoticed [Preorder θ] (M : Machine σ ι ο) (time : ι → θ) (visible : ι → Bool) where
  rel : θ → σ → σ → Prop
  mono : ∀ s s' t t', t ≤ t' → rel t s s' → rel t' s s'
  reply : ∀ s s' call, visible call = true → rel (time call) s s' → (M s call).2 = (M s' call).2
  both : ∀ s s' call, visible call = true → rel (time call) s s' →
    rel (time call) (M s call).1 (M s' call).1
  alone : ∀ s s' call, visible call = false → rel (time call) s s' →
    rel (time call) (M s call).1 s'

/-- While the clock does not go back, leaving out the calls that are not visible changes
no reply. -/
theorem Unnoticed.observed_eq [Preorder θ] {M : Machine σ ι ο} {time : ι → θ}
    {visible : ι → Bool} (U : Unnoticed M time visible) (calls : List ι)
    (hclock : (calls.map time).Pairwise (· ≤ ·)) (s s' : σ)
    (h : ∀ call ∈ calls, U.rel (time call) s s') :
    M.observed visible s calls = M.replies s' (calls.filter visible) := by
  induction calls generalizing s s' with
  | nil => rfl
  | cons call calls ih =>
    rw [List.map_cons, List.pairwise_cons] at hclock
    rw [List.forall_mem_cons] at h
    -- what holds after this call holds at every later one
    have hlater (t t' : σ) (hrel : U.rel (time call) t t') :
        ∀ later ∈ calls, U.rel (time later) t t' := by
      intro later hmem
      exact U.mono t t' _ _ (hclock.1 _ (List.mem_map_of_mem hmem)) hrel
    rw [Machine.observed]
    cases hvisible : visible call with
    | true =>
      rw [if_pos rfl, List.filter_cons_of_pos hvisible, Machine.replies,
        U.reply s s' call hvisible h.1,
        ih hclock.2 _ _ (hlater _ _ (U.both s s' call hvisible h.1))]
    | false =>
      rw [if_neg (by simp), List.filter_cons_of_neg (by simp [hvisible]),
        ih hclock.2 _ _ (hlater _ _ (U.alone s s' call hvisible h.1))]

/-! ## Maps -/

section Maps
variable [DecidableEq κ] (effect : ι → Option (κ × Option ν))

/-- A write puts a value under its key or takes it away. -/
def applyWrite (m : κ → Option ν) : Option (κ × Option ν) → κ → Option ν
  | none => m
  | some write => Function.update m write.1 write.2

/-- The call writes under the key. -/
def Writes (key : κ) (call : ι) : Prop := ∃ v, effect call = some (key, v)

theorem applyWrite_other (m : κ → Option ν) (key : κ) (call : ι) (h : ¬Writes effect key call) :
    applyWrite m (effect call) key = m key := by
  cases heffect : effect call with
  | none => rfl
  | some write =>
    apply Function.update_of_ne
    rintro rfl
    exact h ⟨write.2, heffect⟩

theorem applyWrite_same (m : κ → Option ν) (key : κ) (v : Option ν) (call : ι)
    (h : effect call = some (key, v)) : applyWrite m (effect call) key = v := by
  rw [h]
  exact Function.update_self _ _ _

/-- The last write under the key in a run is of this value. -/
def LastWrite (key : κ) (v : Option ν) (calls : List ι) : Prop :=
  ∃ before call after, calls = before ++ call :: after ∧ effect call = some (key, v) ∧
    ∀ later ∈ after, ¬Writes effect key later

omit [DecidableEq κ] in
theorem lastWrite_snoc (key : κ) (v : Option ν) (calls : List ι) (call : ι) :
    LastWrite effect key v (calls ++ [call]) ↔
      effect call = some (key, v) ∨ (¬Writes effect key call ∧ LastWrite effect key v calls) :=
  since_snoc (fun _ call => effect call = some (key, v)) (Writes effect key) calls call

/-- After a run from the empty map a key has the value that was written there last. -/
theorem run_applyWrite (key : κ) (v : ν) (calls : List ι) :
    run (fun m call => applyWrite m (effect call)) (fun _ => none) calls key = some v ↔
      LastWrite effect key (some v) calls := by
  induction calls using List.reverseRecOn with
  | nil => simp [LastWrite]
  | append_singleton calls call ih =>
    rw [run_snoc, lastWrite_snoc, ← ih]
    by_cases hwrites : Writes effect key call
    · obtain ⟨w, hw⟩ := hwrites
      rw [applyWrite_same effect _ key w call hw, hw]
      simp [Writes, hw]
    · rw [applyWrite_other effect _ key call hwrites]
      have hno : effect call ≠ some (key, some v) := fun h => hwrites ⟨some v, h⟩
      simp [hwrites, hno]

end Maps

end Foundations
