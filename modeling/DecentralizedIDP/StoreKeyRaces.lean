import DecentralizedIDP.DataDirectory
import DecentralizedIDP.FoundationsPool

/-! The key of a share store, which the coordinator and the service of the node both load from
the data directory, or make if it is not there. -/
namespace DecentralizedIDP
open Foundations

/-! ## One process after the other -/

/-- Where a process stands in the constructor of `ShareStore`: before `os.path.exists`, before it
reads `store.key`, before it opens the file for writing, before it writes; or with its key. -/
inductive KeyPhase where
  | checking
  | reading
  | opening
  | writing
  | holding (key : Bytes)
  deriving DecidableEq

/-- One file operation of process `p`, which draws `draw p` if it finds no file. -/
def keyAct (draw : ℕ → Token 32) (p : ℕ) : KeyPhase → Option Bytes → KeyPhase × Option Bytes
  | .checking, file => (if file.isSome then .reading else .opening, file)
  | .reading, file => (.holding (file.getD []), file)
  -- opening for writing empties the file, or makes an empty one
  | .opening, _ => (.writing, some [])
  | .writing, _ => (.holding (draw p), some (draw p))
  | .holding key, file => (.holding key, file)

abbrev KeyPool := Pool (Option Bytes) KeyPhase

/-- `store.key` as it is before any of the processes begins. -/
def KeyPool.start (file : Option (Token 32)) : KeyPool where
  shared := file.map Subtype.val
  phase := fun _ => .checking

/-- The processes take their steps in the order of the schedule. -/
def runKeys (draw : ℕ → Token 32) (file : Option (Token 32)) (schedule : List ℕ) : KeyPool :=
  run (Pool.turn (keyAct draw)) (KeyPool.start file) schedule

/-- A process that nobody interrupts does what the constructor does. -/
theorem keyAct_alone (draw : ℕ → Token 32) (p : ℕ) (nodeId : ℤ) (dir : DataDir) :
    let pool := runKeys draw (dir.storeKey nodeId) [p, p, p]
    pool.phase p = .holding (ShareStore.init (draw p) nodeId dir).1.aesKey.val ∧
      pool.shared = ((ShareStore.init (draw p) nodeId dir).2.storeKey nodeId).map Subtype.val := by
  intro pool
  unfold pool runKeys ShareStore.init
  cases hkey : dir.storeKey nodeId with
  | none =>
    simp only [run_cons, run_nil, Pool.turn, KeyPool.start, keyAct, Function.update_self,
      Option.map_none, Option.isSome_none, Bool.false_eq_true, ↓reduceIte, Option.map_some,
      and_self]
  | some key =>
    simp only [run_cons, run_nil, Pool.turn, KeyPool.start, keyAct, Function.update_self,
      Option.map_some, Option.isSome_some, ↓reduceIte, Option.getD_some, hkey, and_self]

/-! ## Races -/

/-- The turn of `p` opens a file for writing that is there already, or reads one that is empty. -/
def Clash (pool : KeyPool) (p : ℕ) : Prop :=
  (pool.phase p = .opening ∧ pool.shared.isSome) ∨
    (pool.phase p = .reading ∧ pool.shared = some [])

/-- The process has no key, and has not touched the file. -/
def KeyPhase.Before : KeyPhase → Prop
  | .checking | .reading | .opening => True
  | .writing | .holding _ => False

/-- The process has opened the file for a key of its own. -/
def KeyPhase.Opened (key : Bytes) (r : KeyPhase) : Prop := r = .writing ∨ r = .holding key

/-- The file is missing, or empty and about to be written by the process that made it, or it holds
a whole key, and nobody holds another one. -/
inductive Calm (pool : KeyPool) : Prop
  | missing (hfile : pool.shared = none)
      (hbefore : ∀ p, pool.phase p = .checking ∨ pool.phase p = .opening)
  | empty (w : ℕ) (hfile : pool.shared = some []) (hwriting : pool.phase w = .writing)
      (hbefore : ∀ p ≠ w, (pool.phase p).Before)
  | written (key : Bytes) (hfile : pool.shared = some key) (hlen : key.length = 32)
      (hheld : ∀ p, (pool.phase p).Before ∨ pool.phase p = .holding key)

section Turns
variable (draw : ℕ → Token 32)

theorem calm_start (file : Option (Token 32)) : Calm (KeyPool.start file) := by
  cases file with
  | none => exact Calm.missing rfl (fun p => Or.inl rfl)
  | some key => exact Calm.written key rfl key.property (fun p => Or.inl trivial)

/-- All phases but that of `p` are as before. -/
theorem forall_turn (pool : KeyPool) (p : ℕ) (I : ℕ → KeyPhase → Prop)
    (hself : I p (keyAct draw p (pool.phase p) pool.shared).1)
    (hothers : ∀ q ≠ p, I q (pool.phase q)) (q : ℕ) :
    I q ((pool.turn (keyAct draw) p).phase q) := by
  by_cases hq : q = p
  · rw [hq, Pool.turn_phase_self]
    exact hself
  · rw [Pool.turn_phase_of_ne _ _ _ _ hq]
    exact hothers q hq

theorem calm_turn (pool : KeyPool) (p : ℕ) (h : Calm pool) (hclash : ¬Clash pool p) :
    Calm (pool.turn (keyAct draw) p) := by
  cases h with
  | missing hfile hbefore =>
    rcases hbefore p with hp | hp
    · apply Calm.missing
      · rw [Pool.turn, hp, hfile]
        rfl
      · apply forall_turn draw pool p (fun _ r => r = .checking ∨ r = .opening)
        · rw [hp, hfile]
          exact Or.inr rfl
        · exact fun q _ => hbefore q
    · -- the first process to open the file will write it
      apply Calm.empty p
      · rw [Pool.turn, hp]
        rfl
      · rw [Pool.turn_phase_self, hp]
        rfl
      · intro q hq
        rw [Pool.turn_phase_of_ne _ _ _ _ hq]
        rcases hbefore q with hphase | hphase
        · rw [hphase]
          trivial
        · rw [hphase]
          trivial
  | empty w hfile hwriting hbefore =>
    by_cases hpw : p = w
    · subst hpw
      apply Calm.written (draw p)
      · rw [Pool.turn, hwriting]
        rfl
      · exact (draw p).property
      · apply forall_turn draw pool p (fun _ r => r.Before ∨ r = .holding (draw p))
        · rw [hwriting]
          exact Or.inr rfl
        · exact fun q hq => Or.inl (hbefore q hq)
    · have hp := hbefore p hpw
      cases hphase : pool.phase p with
      | checking =>
        apply Calm.empty w
        · rw [Pool.turn, hphase]
          exact hfile
        · rw [Pool.turn_phase_of_ne _ _ _ _ (Ne.symm hpw), hwriting]
        · intro q hq
          apply forall_turn draw pool p (fun q r => q ≠ w → r.Before) _ _ q hq
          · rw [hphase, hfile]
            exact fun _ => trivial
          · exact fun q _ hq => hbefore q hq
      | reading => exact absurd (Or.inr ⟨hphase, hfile⟩) hclash
      | opening => exact absurd (Or.inl ⟨hphase, by rw [hfile]; rfl⟩) hclash
      | writing =>
        rw [hphase] at hp
        exact hp.elim
      | holding key =>
        rw [hphase] at hp
        exact hp.elim
  | written key hfile hlen hheld =>
    -- no turn but an opening touches the file any more
    have hsame (hshared : (keyAct draw p (pool.phase p) pool.shared).2 = some key)
        (hself : (keyAct draw p (pool.phase p) pool.shared).1.Before ∨
          (keyAct draw p (pool.phase p) pool.shared).1 = .holding key) :
        Calm (pool.turn (keyAct draw) p) :=
      Calm.written key hshared hlen
        (forall_turn draw pool p (fun _ r => r.Before ∨ r = .holding key) hself
          (fun q _ => hheld q))
    rcases hheld p with hp | hp
    · cases hphase : pool.phase p with
      | checking =>
        rw [hphase, hfile] at hsame
        exact hsame rfl (Or.inl trivial)
      | reading =>
        rw [hphase, hfile] at hsame
        exact hsame rfl (Or.inr rfl)
      | opening => exact absurd (Or.inl ⟨hphase, by rw [hfile]; rfl⟩) hclash
      | writing =>
        rw [hphase] at hp
        exact hp.elim
      | holding key =>
        rw [hphase] at hp
        exact hp.elim
    · rw [hp, hfile] at hsame
      exact hsame rfl (Or.inr rfl)

/-- A file that is there was opened by a process which is still about to write it or holds its
own key, or it was there from the beginning and nobody will open it. -/
def Traced (pool : KeyPool) : Prop :=
  pool.shared.isSome → (∃ w, (pool.phase w).Opened (draw w)) ∨ ∀ p, pool.phase p ≠ .opening

theorem traced_turn (pool : KeyPool) (p : ℕ) (h : Traced draw pool) :
    Traced draw (pool.turn (keyAct draw) p) := by
  intro hsome
  -- who has opened the file stays so, whoever takes the turn
  have hkept (w : ℕ) (hw : (pool.phase w).Opened (draw w))
      (hself : ∀ r, r.Opened (draw p) → (keyAct draw p r pool.shared).1.Opened (draw p)) :
      ((pool.turn (keyAct draw) p).phase w).Opened (draw w) := by
    by_cases hwp : w = p
    · subst hwp
      rw [Pool.turn_phase_self]
      exact hself _ hw
    · rw [Pool.turn_phase_of_ne _ _ _ _ hwp]
      exact hw
  have hown (r : KeyPhase) (hr : r.Opened (draw p)) :
      (keyAct draw p r pool.shared).1.Opened (draw p) := by
    rcases hr with rfl | rfl
    · exact Or.inr rfl
    · exact Or.inr rfl
  cases hphase : pool.phase p with
  | opening =>
    refine Or.inl ⟨p, Or.inl ?_⟩
    rw [Pool.turn_phase_self, hphase]
    rfl
  | writing => exact Or.inl ⟨p, hkept p (Or.inl hphase) hown⟩
  | checking =>
    rw [Pool.turn, hphase] at hsome
    rcases h hsome with ⟨w, hw⟩ | hnone
    · exact Or.inl ⟨w, hkept w hw hown⟩
    · right
      apply forall_turn draw pool p (fun _ r => r ≠ .opening)
      · have hreading : (keyAct draw p .checking pool.shared).1 = .reading := if_pos hsome
        rw [hphase, hreading]
        exact fun heq => by cases heq
      · exact fun q _ => hnone q
  | reading =>
    rw [Pool.turn, hphase] at hsome
    rcases h hsome with ⟨w, hw⟩ | hnone
    · exact Or.inl ⟨w, hkept w hw hown⟩
    · right
      apply forall_turn draw pool p (fun _ r => r ≠ .opening)
      · rw [hphase]
        exact fun heq => by cases heq
      · exact fun q _ => hnone q
  | holding key =>
    rw [Pool.turn, hphase] at hsome
    rcases h hsome with ⟨w, hw⟩ | hnone
    · exact Or.inl ⟨w, hkept w hw hown⟩
    · right
      apply forall_turn draw pool p (fun _ r => r ≠ .opening)
      · rw [hphase]
        exact fun heq => by cases heq
      · exact fun q _ => hnone q

theorem traced_run (file : Option (Token 32)) (schedule : List ℕ) :
    Traced draw (runKeys draw file schedule) := by
  apply run_invariant _ (Traced draw) (traced_turn draw)
  intro _
  exact Or.inr (fun p heq => by cases heq)

/-- Who has opened the file ends with his own key, if he ends at all. -/
theorem opened_run (pool : KeyPool) (p : ℕ) (h : (pool.phase p).Opened (draw p))
    (schedule : List ℕ)
    (hfinished : (run (Pool.turn (keyAct draw)) pool schedule).phase p ≠ .writing) :
    (run (Pool.turn (keyAct draw)) pool schedule).phase p = .holding (draw p) := by
  have hlater := Pool.phase_run (keyAct draw) (KeyPhase.Opened (draw p)) p (by
    intro r file hr
    rcases hr with rfl | rfl
    · exact Or.inr rfl
    · exact Or.inr rfl) pool h schedule
  exact hlater.resolve_left hfinished

end Turns

theorem opened_mem (draw : ℕ → Token 32) (file : Option (Token 32)) (schedule : List ℕ) (w : ℕ)
    (h : ((runKeys draw file schedule).phase w).Opened (draw w)) : w ∈ schedule := by
  by_contra hw
  rw [runKeys, Pool.phase_of_notMem (keyAct draw) w _ schedule hw] at h
  rcases h with h | h <;> cases h

theorem runKeys_split (draw : ℕ → Token 32) (file : Option (Token 32)) (schedule : List ℕ)
    (m p : ℕ) (hp : schedule[m]? = some p) :
    runKeys draw file schedule = run (Pool.turn (keyAct draw))
      ((runKeys draw file (schedule.take m)).turn (keyAct draw) p) (schedule.drop (m+1)) := by
  have hm := (List.getElem?_eq_some_iff.mp hp).1
  calc runKeys draw file schedule
      = runKeys draw file (schedule.take m ++ schedule.drop m) := by rw [List.take_append_drop]
    _ = runKeys draw file (schedule.take m ++ p :: schedule.drop (m+1)) := by
      rw [List.drop_eq_getElem_cons hm, (List.getElem?_eq_some_iff.mp hp).2]
    _ = _ := by rw [runKeys, run_append, ← runKeys, run_cons]

/-- Any number of processes load the key of one store, their file operations in any order, and
some of them die on the way, but none between its opening of the file and its write. All that end
with a key hold the same 32 bytes, which are those in the file, exactly if no process ever opens a
file for writing that is there already, nor reads one that is still empty. -/
theorem store_keys_agree_iff (draw : ℕ → Token 32) (file : Option (Token 32)) (schedule : List ℕ)
    (hdraw : ∀ p ∈ schedule, ∀ q ∈ schedule, draw p = draw q → p = q)
    (hfinished : ∀ p, (runKeys draw file schedule).phase p ≠ .writing) :
    (∃ key : Bytes, key.length = 32 ∧ ∀ p held,
      (runKeys draw file schedule).phase p = .holding held →
        held = key ∧ (runKeys draw file schedule).shared = some key) ↔
    ∀ m p, schedule[m]? = some p → ¬Clash (runKeys draw file (schedule.take m)) p := by
  constructor
  · rintro ⟨key, hlen, hall⟩ m p hp hclash
    have hsplit := runKeys_split draw file schedule m p hp
    rw [hsplit] at hall hfinished
    rcases hclash with ⟨hphase, hsome⟩ | ⟨hphase, hempty⟩
    · -- two processes open the file, and each of them ends with a key of its own
      have hmine := opened_run draw ((runKeys draw file (schedule.take m)).turn (keyAct draw) p) p
        (by rw [Pool.turn_phase_self, hphase]; exact Or.inl rfl) _ (hfinished p)
      rcases traced_run draw file (schedule.take m) hsome with ⟨w, hw⟩ | hnone
      · have hne : w ≠ p := by
          rintro rfl
          rw [hphase] at hw
          rcases hw with hw | hw <;> cases hw
        have htheirs := opened_run draw ((runKeys draw file (schedule.take m)).turn
          (keyAct draw) p) w (by rw [Pool.turn_phase_of_ne _ _ _ _ hne]; exact hw) _ (hfinished w)
        have heq := (hall w _ htheirs).1.trans (hall p _ hmine).1.symm
        have hearlier := opened_mem draw file _ w hw
        exact hne (hdraw w (List.mem_of_mem_take hearlier) p (List.mem_of_getElem? hp)
          (Subtype.val_injective heq))
      · exact hnone p hphase
    · -- the process goes on without a key
      have hheld := Pool.phase_run (keyAct draw) (fun r => r = .holding []) p
        (by rintro r file rfl; rfl) ((runKeys draw file (schedule.take m)).turn (keyAct draw) p)
        (by rw [Pool.turn_phase_self, hphase, hempty]; rfl) (schedule.drop (m+1))
      rw [← (hall p [] hheld).1] at hlen
      cases hlen
  · intro hgood
    have hcalm := Pool.good_run (keyAct draw) Calm (fun pool p => ¬Clash pool p)
      (calm_turn draw) (KeyPool.start file) (calm_start file) schedule hgood
    rw [← runKeys] at hcalm
    cases hcalm with
    | missing hfile hbefore =>
      refine ⟨draw 0, (draw 0).property, ?_⟩
      intro p held hheld
      rcases hbefore p with hp | hp
      · rw [hp] at hheld
        cases hheld
      · rw [hp] at hheld
        cases hheld
    | empty w hfile hwriting hbefore => exact absurd hwriting (hfinished w)
    | written key hfile hlen hheld =>
      refine ⟨key, hlen, ?_⟩
      intro p held hp
      rcases hheld p with hbefore | hkey
      · rw [hp] at hbefore
        exact hbefore.elim
      · rw [hp] at hkey
        exact ⟨KeyPhase.holding.inj hkey, hfile⟩

/-- Process 2 finds the file that process 1 has opened, and reads it before there is a key. -/
def racingSchedule : List ℕ := [1, 1, 2, 2, 1]

def numberedKey (p : ℕ) : Token 32 := ⟨List.replicate 31 0 ++ [UInt8.ofNat p], rfl⟩

theorem store_keys_agree_iff_racing : ¬∃ key : Bytes, key.length = 32 ∧ ∀ p held,
    (runKeys numberedKey none racingSchedule).phase p = .holding held →
      held = key ∧ (runKeys numberedKey none racingSchedule).shared = some key := by
  intro hagree
  have hfinished (p : ℕ) : (runKeys numberedKey none racingSchedule).phase p ≠ .writing := by
    by_cases hp : p ∈ racingSchedule
    · simp only [racingSchedule, List.mem_cons, List.not_mem_nil, or_false] at hp
      rcases hp with rfl | rfl | rfl | rfl | rfl <;> decide
    · rw [runKeys, Pool.phase_of_notMem _ p _ _ hp]
      exact fun heq => by cases heq
  exact (store_keys_agree_iff numberedKey none racingSchedule (by decide) hfinished).mp hagree 3 2
    rfl (Or.inr ⟨rfl, rfl⟩)

/-! ## The order of `docker-compose.yml` -/

/-- Only `c` has begun, and it has come as far as its phase says. -/
def Alone (c : ℕ) (pool : KeyPool) : Prop :=
  (∀ p ≠ c, pool.phase p = .checking) ∧
    match pool.phase c with
    | .checking => ∀ key, pool.shared = some key → key.length = 32
    | .reading => ∃ key, pool.shared = some key ∧ key.length = 32
    | .opening => pool.shared = none
    | .writing => True
    | .holding key => pool.shared = some key ∧ key.length = 32

/-- The file holds this key, and nobody will write it again. -/
def KeptKey (key : Bytes) (pool : KeyPool) : Prop :=
  pool.shared = some key ∧ ∀ p, pool.phase p = .checking ∨ pool.phase p = .reading ∨
    pool.phase p = .holding key

theorem alone_turn (draw : ℕ → Token 32) (c : ℕ) (pool : KeyPool) (h : Alone c pool) :
    Alone c (pool.turn (keyAct draw) c) := by
  obtain ⟨hothers, hown⟩ := h
  refine ⟨fun p hp => (Pool.turn_phase_of_ne _ _ _ _ hp).trans (hothers p hp), ?_⟩
  rw [Pool.turn_phase_self, Pool.turn]
  cases hphase : pool.phase c with
  | checking =>
    rw [hphase] at hown
    cases hfile : pool.shared with
    | none => rfl
    | some key => exact ⟨key, rfl, hown key hfile⟩
  | reading =>
    rw [hphase] at hown
    obtain ⟨key, hfile, hlen⟩ := hown
    rw [hfile]
    exact ⟨rfl, hlen⟩
  | opening => trivial
  | writing => exact ⟨rfl, (draw c).property⟩
  | holding key =>
    rw [hphase] at hown
    exact hown

theorem kept_turn (draw : ℕ → Token 32) (key : Bytes) (pool : KeyPool) (p : ℕ)
    (h : KeptKey key pool) : KeptKey key (pool.turn (keyAct draw) p) := by
  obtain ⟨hfile, hphases⟩ := h
  have hself : (keyAct draw p (pool.phase p) pool.shared).2 = some key ∧
      ((keyAct draw p (pool.phase p) pool.shared).1 = .checking ∨
        (keyAct draw p (pool.phase p) pool.shared).1 = .reading ∨
        (keyAct draw p (pool.phase p) pool.shared).1 = .holding key) := by
    rcases hphases p with hp | hp | hp
    · rw [hp, hfile]
      exact ⟨rfl, Or.inr (Or.inl rfl)⟩
    · rw [hp, hfile]
      exact ⟨rfl, Or.inr (Or.inr rfl)⟩
    · rw [hp, hfile]
      exact ⟨rfl, Or.inr (Or.inr rfl)⟩
  exact ⟨hself.1, forall_turn draw pool p
    (fun _ r => r = .checking ∨ r = .reading ∨ r = .holding key) hself.2 (fun q _ => hphases q)⟩

theorem alone_calm (c : ℕ) (pool : KeyPool) (h : Alone c pool) : ¬Clash pool c := by
  intro hclash
  have hown := h.2
  rcases hclash with ⟨hphase, hsome⟩ | ⟨hphase, hempty⟩
  · rw [hphase] at hown
    rw [hown] at hsome
    cases hsome
  · rw [hphase] at hown
    obtain ⟨key, hfile, hlen⟩ := hown
    rw [hempty, Option.some.injEq] at hfile
    rw [← hfile] at hlen
    cases hlen

theorem kept_calm (key : Bytes) (hlen : key.length = 32) (pool : KeyPool) (p : ℕ)
    (h : KeptKey key pool) : ¬Clash pool p := by
  obtain ⟨hfile, hphases⟩ := h
  intro hclash
  rcases hclash with ⟨hphase, -⟩ | ⟨-, hempty⟩
  · rcases hphases p with hp | hp | hp
    · rw [hphase] at hp
      cases hp
    · rw [hphase] at hp
      cases hp
    · rw [hphase] at hp
      cases hp
  · rw [hempty, Option.some.injEq] at hfile
    rw [← hfile] at hlen
    cases hlen

theorem alone_run (draw : ℕ → Token 32) (file : Option (Token 32)) (c : ℕ) (first : List ℕ)
    (hfirst : ∀ p ∈ first, p = c) : Alone c (runKeys draw file first) := by
  apply Pool.good_run (keyAct draw) (Alone c) (fun _ p => p = c)
  · rintro pool p h rfl
    exact alone_turn draw p pool h
  · refine ⟨fun p _ => rfl, ?_⟩
    intro key hkey
    obtain ⟨token, -, rfl⟩ := Option.map_eq_some_iff.mp hkey
    exact token.property
  · intro m p hp
    exact hfirst p (List.mem_of_getElem? hp)

/-- Once the coordinator has its key before anyone else begins, no turn clashes with another, and
every process that ever gets a key gets this one, which stays in the file, in whatever order they
come and wherever they die. -/
theorem compose_order_agrees (draw : ℕ → Token 32) (file : Option (Token 32)) (c : ℕ)
    (first rest : List ℕ) (hfirst : ∀ p ∈ first, p = c) (key : Bytes)
    (hready : (runKeys draw file first).phase c = .holding key) :
    key.length = 32 ∧
      (∀ m p, (first ++ rest)[m]? = some p →
        ¬Clash (runKeys draw file ((first ++ rest).take m)) p) ∧
      (runKeys draw file (first ++ rest)).shared = some key ∧
      ∀ p held, (runKeys draw file (first ++ rest)).phase p = .holding held → held = key := by
  obtain ⟨hothers, hown⟩ := alone_run draw file c first hfirst
  rw [hready] at hown
  have hkept : KeptKey key (runKeys draw file first) := by
    refine ⟨hown.1, ?_⟩
    intro p
    by_cases hp : p = c
    · rw [hp, hready]
      exact Or.inr (Or.inr rfl)
    · exact Or.inl (hothers p hp)
  have hlater (more : List ℕ) : KeptKey key (runKeys draw file (first ++ more)) := by
    rw [runKeys, run_append, ← runKeys]
    exact run_invariant (Pool.turn (keyAct draw)) (KeptKey key) (kept_turn draw key) _ hkept more
  refine ⟨hown.2, ?_, (hlater rest).1, ?_⟩
  · intro m p hp
    rcases lt_or_ge m first.length with hm | hm
    · -- before the coordinator has its key it is alone
      rw [List.getElem?_append_left hm] at hp
      rw [List.take_append_of_le_length hm.le, hfirst p (List.mem_of_getElem? hp)]
      exact alone_calm c _ (alone_run draw file c _
        (fun q hq => hfirst q (List.mem_of_mem_take hq)))
    · rw [List.take_append, List.take_of_length_le hm]
      exact kept_calm key hown.2 _ p (hlater _)
  · intro p held hheld
    rcases (hlater rest).2 p with hp | hp | hp
    · rw [hheld] at hp
      cases hp
    · rw [hheld] at hp
      cases hp
    · rw [hheld] at hp
      exact KeyPhase.holding.inj hp

theorem compose_order_agrees_services :
    (runKeys numberedKey none ([0, 0, 0] ++ [2, 1, 1, 2, 0, 3])).shared =
      some (numberedKey 0).val ∧
    ∀ p held, (runKeys numberedKey none ([0, 0, 0] ++ [2, 1, 1, 2, 0, 3])).phase p =
      .holding held → held = (numberedKey 0).val := by
  obtain ⟨-, -, hfile, hheld⟩ := compose_order_agrees numberedKey none 0 [0, 0, 0]
    [2, 1, 1, 2, 0, 3] (by simp) (numberedKey 0).val rfl
  exact ⟨hfile, hheld⟩

end DecentralizedIDP
