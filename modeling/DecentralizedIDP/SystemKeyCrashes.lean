import DecentralizedIDP.AuthIAT
import DecentralizedIDP.FoundationsCrash
import DecentralizedIDP.SamplePrimitives

/-! `init_system_keys` over process starts that may crash between any two of its file
operations. -/
namespace DecentralizedIDP
open Foundations

/-! ## The files -/

inductive SystemFile where
  | key
  | pub
  deriving DecidableEq, Repr

/-- `system.key` and `system.pub` in the data directory. -/
abbrev KeyDir := SystemFile → Option Bytes

/-- No deletion and no other process comes between the steps of a start. -/
abbrev KeyProg := Prog KeyDir SystemKeys

/-- `os.path.exists`. -/
def fileExists (f : SystemFile) (next : Bool → KeyProg) : KeyProg :=
  .step id (fun dir => next (dir f).isSome)

/-- Only called on a file that was found. -/
def readFile (f : SystemFile) (next : Bytes → KeyProg) : KeyProg :=
  .step id (fun dir => next ((dir f).getD []))

/-- Opening a file for writing empties it, or makes an empty one. -/
def openFile (f : SystemFile) (next : KeyProg) : KeyProg :=
  .step (fun dir => Function.update dir f (some [])) (fun _ => next)

def writeFile (f : SystemFile) (content : Bytes) (next : KeyProg) : KeyProg :=
  .step (fun dir => Function.update dir f (some content)) (fun _ => next)

def writeSystemKeys (keys : SystemKeys) : KeyProg :=
  openFile .key (writeFile .key keys.privateKey
    (openFile .pub (writeFile .pub keys.publicKey (.done keys))))

/-- `generate_keypair()`. -/
def generateSystemKeys (prim : Primitives) (seed : Bytes) : SystemKeys :=
  ⟨(prim.generateKeypair seed).1, (prim.generateKeypair seed).2⟩

/-- The loaded pair; `seed` is what a generation draws. -/
def initSystemKeys (prim : Primitives) (seed : Bytes) : KeyProg :=
  fileExists .key fun keyFound =>
    -- `and` asks for the second file only when the first one is there
    if keyFound then
      fileExists .pub fun pubFound =>
        if pubFound then readFile .key fun priv => readFile .pub fun pub => .done ⟨priv, pub⟩
        else writeSystemKeys (generateSystemKeys prim seed)
    else writeSystemKeys (generateSystemKeys prim seed)

/-- A process start: it crashes after a number of file operations, or `init_system_keys`
returns. -/
structure KeyStart where
  seed : Bytes
  crashAfter : Option ℕ

def systemKeyMachine (prim : Primitives) : Machine KeyDir KeyStart (Option SystemKeys) :=
  fun dir start => (initSystemKeys prim start.seed).start start.crashAfter dir

/-! ## What a start leaves -/

/-- Both files exist, which is all that the next start asks. -/
def Whole (dir : KeyDir) : Prop := (dir .key).isSome ∧ (dir .pub).isSome

/-- The files hold this pair. -/
def HoldsKeys (keys : SystemKeys) (dir : KeyDir) : Prop :=
  dir .key = some keys.privateKey ∧ dir .pub = some keys.publicKey

/-- The existence checks that a start makes before it writes. -/
def checks (dir : KeyDir) : ℕ := if (dir .key).isSome then 2 else 1

/-- The start writes keys and crashes when both files exist and the public key is not written:
after `system.pub` was opened, or, where that file was there before, from the opening of
`system.key` on. -/
def Tears (dir : KeyDir) (start : KeyStart) : Prop :=
  ¬Whole dir ∧ ∃ k, start.crashAfter = some k ∧
    checks dir+(if (dir .pub).isSome then 1 else 3) ≤ k ∧ k ≤ checks dir+3

/-- A start on a pair of files goes through that directory only. -/
theorem initSystemKeys_along (prim : Primitives) (seed : Bytes) (keys : SystemKeys)
    (dir : KeyDir) (h : HoldsKeys keys dir) :
    (initSystemKeys prim seed).Along (HoldsKeys keys) dir := by
  have hkey := h.1
  have hpub := h.2
  unfold HoldsKeys at h
  simp only [initSystemKeys, fileExists, readFile, Prog.Along, id, hkey, hpub, Option.isSome_some,
    ↓reduceIte, HoldsKeys, and_self]

theorem initSystemKeys_loads (prim : Primitives) (seed : Bytes) (keys : SystemKeys)
    (dir : KeyDir) (h : HoldsKeys keys dir) :
    ((initSystemKeys prim seed).complete dir).2 = keys := by
  simp only [initSystemKeys, fileExists, readFile, Prog.complete, id, h.1, h.2, Option.isSome_some,
    ↓reduceIte, Option.getD_some]

/-- Whatever the pair of files holds is what every later start loads. -/
def keySettling (prim : Primitives) : Settling (systemKeyMachine prim) where
  settled := HoldsKeys
  stays := fun keys dir start h =>
    (initSystemKeys_along prim start.seed keys dir h).start start.crashAfter
  only := by
    intro keys loaded dir start h hloaded
    unfold systemKeyMachine Prog.start at hloaded
    cases hcrash : start.crashAfter with
    | none =>
      rw [hcrash, initSystemKeys_loads prim start.seed keys dir h] at hloaded
      exact (Option.some.inj hloaded).symm
    | some k =>
      rw [hcrash] at hloaded
      cases hloaded

theorem pub_missing (dir : KeyDir) (hmissing : ¬Whole dir) (priv : Bytes)
    (hkey : dir .key = some priv) : (dir .pub).isSome = false := by
  rw [Bool.eq_false_iff]
  intro hpub
  exact hmissing ⟨by rw [hkey, Option.isSome_some], hpub⟩

section Missing
variable (prim : Primitives) (seed : Bytes) (dir : KeyDir) (hmissing : ¬Whole dir)
include hmissing

/-- With a file missing the checks leave the directory as it is, and the writing follows. -/
theorem breakOff_initSystemKeys (k : ℕ) :
    (initSystemKeys prim seed).breakOff k dir =
      (writeSystemKeys (generateSystemKeys prim seed)).breakOff (k-checks dir) dir := by
  unfold checks
  cases hkey : dir .key with
  | none =>
    match k with
    | 0 => rfl
    | k+1 =>
      simp only [initSystemKeys, fileExists, Prog.breakOff, id, hkey, Option.isSome_none,
        Bool.false_eq_true, ↓reduceIte, Nat.add_sub_cancel]
  | some priv =>
    have hpub := pub_missing dir hmissing priv hkey
    match k with
    | 0 => rfl
    | 1 => simp [initSystemKeys, fileExists, Prog.breakOff]
    | k+2 =>
      simp only [initSystemKeys, fileExists, Prog.breakOff, id, hkey, hpub, Option.isSome_some,
        Bool.false_eq_true, ↓reduceIte, Nat.add_sub_cancel]

theorem complete_initSystemKeys :
    (initSystemKeys prim seed).complete dir =
      (writeSystemKeys (generateSystemKeys prim seed)).complete dir := by
  cases hkey : dir .key with
  | none =>
    simp only [initSystemKeys, fileExists, Prog.complete, id, hkey, Option.isSome_none,
      Bool.false_eq_true, ↓reduceIte]
  | some priv =>
    have hpub := pub_missing dir hmissing priv hkey
    simp only [initSystemKeys, fileExists, Prog.complete, id, hkey, hpub, Option.isSome_some,
      Bool.false_eq_true, ↓reduceIte]

end Missing

theorem complete_writeSystemKeys (keys : SystemKeys) (dir : KeyDir) :
    ((writeSystemKeys keys).complete dir).2 = keys ∧
      HoldsKeys keys ((writeSystemKeys keys).complete dir).1 := by
  simp [writeSystemKeys, openFile, writeFile, Prog.complete, HoldsKeys, Function.update]

/-- A start that runs to its end leaves the pair that it returns. -/
theorem complete_holds (prim : Primitives) (seed : Bytes) (dir : KeyDir) :
    HoldsKeys ((initSystemKeys prim seed).complete dir).2
      ((initSystemKeys prim seed).complete dir).1 := by
  by_cases hwhole : Whole dir
  · obtain ⟨priv, hkey⟩ := Option.isSome_iff_exists.mp hwhole.1
    obtain ⟨pub, hpub⟩ := Option.isSome_iff_exists.mp hwhole.2
    have hholds : HoldsKeys ⟨priv, pub⟩ dir := ⟨hkey, hpub⟩
    rw [initSystemKeys_loads prim seed _ dir hholds]
    exact (initSystemKeys_along prim seed _ dir hholds).complete
  · rw [complete_initSystemKeys prim seed dir hwhole,
      (complete_writeSystemKeys (generateSystemKeys prim seed) dir).1]
    exact (complete_writeSystemKeys (generateSystemKeys prim seed) dir).2

/-- After four operations both files are written. -/
theorem breakOff_writeSystemKeys (keys : SystemKeys) (dir : KeyDir) (j : ℕ) :
    HoldsKeys keys ((writeSystemKeys keys).breakOff (j+4) dir) := by
  cases j with
  | zero => simp [writeSystemKeys, openFile, writeFile, Prog.breakOff, HoldsKeys, Function.update]
  | succ j =>
    simp [writeSystemKeys, openFile, writeFile, Prog.breakOff, HoldsKeys, Function.update]

/-- Before `system.pub` is opened a directory without that file goes on without it. -/
theorem breakOff_pub (keys : SystemKeys) (dir : KeyDir) (hpub : dir .pub = none) (j : ℕ)
    (hj : j < 3) : (writeSystemKeys keys).breakOff j dir .pub = none := by
  match j, hj with
  | 0, _ => exact hpub
  | 1, _ => simpa [writeSystemKeys, openFile, Prog.breakOff] using hpub
  | 2, _ => simpa [writeSystemKeys, openFile, writeFile, Prog.breakOff] using hpub

/-- A crash before the last write that does not tear leaves one of the files missing. -/
theorem breakOff_missing (dir : KeyDir) (start : KeyStart) (hmissing : ¬Whole dir)
    (hcalm : ¬Tears dir start) (k : ℕ) (hcrash : start.crashAfter = some k)
    (hearly : k-checks dir < 4) (keys : SystemKeys) :
    ¬Whole ((writeSystemKeys keys).breakOff (k-checks dir) dir) := by
  cases hpub : dir .pub with
  | none =>
    -- the one bad place is behind the opening of `system.pub`
    have hunopened : k-checks dir < 3 := by
      by_contra hopened
      refine hcalm ⟨hmissing, k, hcrash, ?_, by omega⟩
      rw [hpub, Option.isSome_none, if_neg (by simp)]
      omega
    intro hwhole
    have hnone := breakOff_pub keys dir hpub _ hunopened
    rw [Whole, hnone] at hwhole
    exact absurd hwhole.2 (by simp)
  | some pub =>
    -- with `system.pub` already there nothing may have been opened
    have hnothing : k-checks dir = 0 := by
      by_contra hopened
      refine hcalm ⟨hmissing, k, hcrash, ?_, by omega⟩
      rw [hpub, Option.isSome_some, if_pos rfl]
      omega
    rw [hnothing]
    exact hmissing

/-- A start that does not tear leaves a file missing, or both files with its own pair. -/
theorem systemKeyMachine_step (prim : Primitives) (dir : KeyDir) (start : KeyStart)
    (hmissing : ¬Whole dir) (hcalm : ¬Tears dir start) :
    (¬Whole (systemKeyMachine prim dir start).1 ∧ (systemKeyMachine prim dir start).2 = none) ∨
      ∃ keys, generateSystemKeys prim start.seed = keys ∧
        HoldsKeys keys (systemKeyMachine prim dir start).1 ∧
        ∀ loaded, (systemKeyMachine prim dir start).2 = some loaded → loaded = keys := by
  unfold systemKeyMachine Prog.start
  cases hcrash : start.crashAfter with
  | none =>
    -- a start that returns has written both files
    right
    have hwritten := complete_writeSystemKeys (generateSystemKeys prim start.seed) dir
    rw [complete_initSystemKeys prim start.seed dir hmissing]
    exact ⟨_, rfl, hwritten.2, fun loaded h => (Option.some.inj h).symm.trans hwritten.1⟩
  | some k =>
    dsimp only
    rw [breakOff_initSystemKeys prim start.seed dir hmissing k]
    by_cases hlate : 4 ≤ k-checks dir
    · right
      obtain ⟨j, hj⟩ := Nat.exists_eq_add_of_le' hlate
      rw [hj]
      exact ⟨_, rfl, breakOff_writeSystemKeys _ dir j, fun loaded h => by cases h⟩
    · left
      exact ⟨breakOff_missing dir start hmissing hcalm k hcrash (by omega) _, rfl⟩

/-- From a directory with a file missing, and through any starts that may crash but do not
tear, all the pairs that are loaded are one pair, which one of the starts has generated. -/
theorem system_keys_survive (prim : Primitives) (dir : KeyDir) (hmissing : ¬Whole dir)
    (starts : List KeyStart)
    (hcalm : ∀ (m : ℕ) start, starts[m]? = some start →
      ¬Tears ((systemKeyMachine prim).final dir (starts.take m)) start) :
    (∀ keys, some keys ∈ (systemKeyMachine prim).replies dir starts →
      ∃ start ∈ starts,
        prim.generateKeypair start.seed = (keys.privateKey, keys.publicKey)) ∧
    ∀ keys later, some keys ∈ (systemKeyMachine prim).replies dir starts →
      some later ∈ (systemKeyMachine prim).replies dir starts → later = keys := by
  have hagree := (keySettling prim).replies_agree (fun dir => ¬Whole dir)
    (fun dir start => ¬Tears dir start)
    (fun start keys => generateSystemKeys prim start.seed = keys)
    (systemKeyMachine_step prim) dir hmissing starts hcalm
  rcases hagree with hnone | ⟨start, hstart, made, hmade, honly⟩
  · exact ⟨fun keys h => absurd h (hnone keys), fun keys _ h => absurd h (hnone keys)⟩
  · constructor
    · intro keys h
      refine ⟨start, hstart, ?_⟩
      rw [honly keys h, ← hmade]
      rfl
    · intro keys later h hlater
      rw [honly keys h, honly later hlater]

/-! ## A start that tears -/

/-- Where there was no `system.pub`, a start that tears leaves an empty one beside the new
private key, and no later start replaces it. -/
theorem torn_start_loads (prim : Primitives) (dir : KeyDir) (start : KeyStart)
    (hpub : dir .pub = none) (htears : Tears dir start) (starts : List KeyStart)
    (keys : SystemKeys) (h : some keys ∈
      (systemKeyMachine prim).replies (systemKeyMachine prim dir start).1 starts) :
    keys = ⟨(prim.generateKeypair start.seed).1, []⟩ := by
  obtain ⟨hmissing, k, hcrash, hlow, hhigh⟩ := htears
  rw [hpub, Option.isSome_none, if_neg (by simp)] at hlow
  have hopened : k-checks dir = 3 := by omega
  have hleft : HoldsKeys ⟨(prim.generateKeypair start.seed).1, []⟩
      (systemKeyMachine prim dir start).1 := by
    unfold systemKeyMachine Prog.start
    rw [hcrash]
    dsimp only
    rw [breakOff_initSystemKeys prim start.seed dir hmissing k, hopened]
    simp [writeSystemKeys, openFile, writeFile, Prog.breakOff, HoldsKeys, Function.update,
      generateSystemKeys]
  exact (keySettling prim).replies_settled _ _ hleft starts keys h

/-- Neither file is there. -/
def noKeys : KeyDir := fun _ => none

/-- The first start crashes after it has opened `system.pub`. -/
def tornStarts : List KeyStart := [⟨[7], some 4⟩, ⟨[8], none⟩]

/-- The second start returns the private key of the first one with an empty public key. -/
theorem torn_start_trusted :
    (systemKeyMachine samplePrimitives).replies noKeys tornStarts =
      [none, some ⟨[7], []⟩] ∧
    ¬∃ seed, samplePrimitives.generateKeypair seed = ([7], []) := by
  refine ⟨rfl, ?_⟩
  intro h
  obtain ⟨seed, hseed⟩ := h
  have hpair : seed = [7] ∧ seed = [] := Prod.mk.inj hseed
  rw [hpair.2] at hpair
  exact absurd hpair.1 (by simp)

/-- The first start crashes after `system.key` is written, which the second one repeats. -/
def calmStarts : List KeyStart := [⟨[7], some 3⟩, ⟨[8], none⟩, ⟨[9], none⟩]

theorem system_keys_survive_restart :
    (systemKeyMachine samplePrimitives).replies noKeys calmStarts =
      [none, some ⟨[8], [8]⟩, some ⟨[8], [8]⟩] ∧
    ∃ start ∈ calmStarts, samplePrimitives.generateKeypair start.seed = ([8], [8]) := by
  have hreplies : (systemKeyMachine samplePrimitives).replies noKeys calmStarts =
      [none, some ⟨[8], [8]⟩, some ⟨[8], [8]⟩] := rfl
  have hcalm : ∀ (m : ℕ) start, calmStarts[m]? = some start →
      ¬Tears ((systemKeyMachine samplePrimitives).final noKeys (calmStarts.take m)) start := by
    intro m start hstart htears
    obtain ⟨-, k, hcrash, hlow, -⟩ := htears
    match m, hstart with
    | 0, hstart =>
      cases hstart
      cases hcrash
      exact absurd hlow (by decide)
    | 1, hstart =>
      cases hstart
      cases hcrash
    | 2, hstart =>
      cases hstart
      cases hcrash
  have hmissing : ¬Whole noKeys := fun h => absurd h.1 (by decide)
  refine ⟨hreplies, ?_⟩
  exact (system_keys_survive samplePrimitives noKeys hmissing calmStarts hcalm).1 ⟨[8], [8]⟩
    (by rw [hreplies]; simp)

end DecentralizedIDP
