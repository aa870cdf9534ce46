import DecentralizedIDP.FoundationsBytes

/-! SHA3-256 (Keccak-f[1600] with rate 136 bytes), HMAC and PBKDF2 over it.
Everything recurses structurally, so the kernel can evaluate a digest. -/
namespace Foundations

abbrev Lane := BitVec 64

def rotationOffsets : List ℕ :=
  [0, 1, 62, 28, 27, 36, 44, 6, 55, 20, 3, 10, 43, 25, 39, 41, 45, 15, 21, 8, 18, 2, 61, 56, 14]

def roundConstants : List Lane :=
  [0x0000000000000001, 0x0000000000008082, 0x800000000000808A, 0x8000000080008000,
   0x000000000000808B, 0x0000000080000001, 0x8000000080008081, 0x8000000000008009,
   0x000000000000008A, 0x0000000000000088, 0x0000000080008009, 0x000000008000000A,
   0x000000008000808B, 0x800000000000008B, 0x8000000000008089, 0x8000000000008003,
   0x8000000000008002, 0x8000000000000080, 0x000000000000800A, 0x800000008000000A,
   0x8000000080008081, 0x8000000000008080, 0x0000000080000001, 0x8000000080008008]

/-- The lane at column `x` and row `y`, both taken modulo five. -/
def lane (a : List Lane) (x y : ℕ) : Lane := a.getD (x % 5+5*(y % 5)) 0

def tabulate (f : ℕ → ℕ → Lane) : List Lane := (List.range 25).map (fun i => f (i % 5) (i/5))

def theta (a : List Lane) : List Lane :=
  let c := (List.range 5).map (fun x =>
    lane a x 0 ^^^ lane a x 1 ^^^ lane a x 2 ^^^ lane a x 3 ^^^ lane a x 4)
  let d := (List.range 5).map (fun x =>
    c.getD ((x+4) % 5) 0 ^^^ (c.getD ((x+1) % 5) 0).rotateLeft 1)
  tabulate (fun x y => lane a x y ^^^ d.getD x 0)

def rhoPi (a : List Lane) : List Lane :=
  tabulate (fun x y =>
    (lane a (x+3*y) x).rotateLeft (rotationOffsets.getD ((x+3*y) % 5+5*x) 0))

def chi (a : List Lane) : List Lane :=
  tabulate (fun x y => lane a x y ^^^ (~~~ lane a (x+1) y &&& lane a (x+2) y))

def iota (rc : Lane) : List Lane → List Lane
  | [] => []
  | a :: as => (a ^^^ rc) :: as

def keccakF (a : List Lane) : List Lane :=
  roundConstants.foldl (fun s rc => iota rc (chi (rhoPi (theta s)))) a

/-- Lanes are little-endian in the message. -/
def laneOfBytes (bs : Bytes) : Lane :=
  BitVec.ofNat 64 (bs.foldr (fun b acc => b.toNat+256*acc) 0)

def bytesOfLane (l : Lane) : Bytes :=
  (List.range 8).map (fun i => UInt8.ofNat (l.toNat >>> (8*i)))

def absorbBlock (s : List Lane) (block : Bytes) : List Lane :=
  let lanes := (List.range 17).map (fun i => laneOfBytes ((block.drop (8*i)).take 8))
  keccakF (List.zipWith (· ^^^ ·) s (lanes ++ List.replicate 8 0))

/-- The SHA-3 domain bits followed by the `10*1` padding to whole blocks. -/
def padMessage (m : Bytes) : Bytes :=
  let k := 136 - m.length % 136
  if k = 1 then m ++ [0x86] else m ++ 0x06 :: (List.replicate (k-2) 0 ++ [0x80])

def absorb : ℕ → List Lane → Bytes → List Lane
  | 0, s, _ => s
  | n+1, s, m => absorb n (absorbBlock s (m.take 136)) (m.drop 136)

def sha3_256 (m : Bytes) : Bytes :=
  let padded := padMessage m
  ((absorb (padded.length/136) (List.replicate 25 0) padded).take 4).flatMap bytesOfLane

theorem keccakF_length (a : List Lane) (ha : a.length = 25) : (keccakF a).length = 25 := by
  -- `chi` rebuilds all lanes, so the length survives whatever the round starts from
  have hround (s : List Lane) (rc : Lane) : (iota rc (chi s)).length = 25 := by
    simp only [chi, tabulate]
    rw [show List.range 25 = 0 :: (List.range 24).map (·+1) from rfl]
    simp only [List.map_cons, iota, List.length_cons, List.length_map, List.length_range]
  have hfold (rcs : List Lane) (s : List Lane) (hs : s.length = 25) :
      (rcs.foldl (fun s rc => iota rc (chi (rhoPi (theta s)))) s).length = 25 := by
    induction rcs generalizing s with
    | nil => exact hs
    | cons rc rcs ih => exact ih _ (hround _ rc)
  exact hfold roundConstants a ha

theorem absorb_length (n : ℕ) (s : List Lane) (m : Bytes) (hs : s.length = 25) :
    (absorb n s m).length = 25 := by
  induction n generalizing s m with
  | zero => exact hs
  | succ n ih =>
    apply ih
    apply keccakF_length
    simp only [List.length_zipWith, hs, List.length_append, List.length_map, List.length_range,
      List.length_replicate, Nat.reduceAdd, min_self]

@[simp] theorem sha3_256_length (m : Bytes) : (sha3_256 m).length = 32 := by
  have h := absorb_length ((padMessage m).length/136) (List.replicate 25 0) (padMessage m)
    (List.length_replicate ..)
  have hflat (ls : List Lane) : (ls.flatMap bytesOfLane).length = 8*ls.length := by
    induction ls with
    | nil => rfl
    | cons l ls ih =>
      rw [List.flatMap_cons, List.length_append, ih, List.length_cons]
      simp only [bytesOfLane, List.length_map, List.length_range]
      omega
  simp only [sha3_256]
  rw [hflat, List.length_take, h]
  rfl

attribute [irreducible] sha3_256

example : hex (sha3_256 (encode "abc")) =
    "3a985da74fe225b2045c172d6bd390bd855f086e3e9d525b46bfe24511431532" := by decide +kernel

/-! ## Keyed hashing -/

def hmacSha3 (key msg : Bytes) : Bytes :=
  let short := if 136 < key.length then sha3_256 key else key
  let block := short ++ List.replicate (136-short.length) 0
  sha3_256 (block.map (· ^^^ 0x5c) ++ sha3_256 (block.map (· ^^^ 0x36) ++ msg))

/-- PBKDF2 for one 32-byte output block. -/
def pbkdf2Rounds (password : Bytes) : ℕ → Bytes → Bytes → Bytes
  | 0, _, acc => acc
  | n+1, u, acc =>
    let u' := hmacSha3 password u
    pbkdf2Rounds password n u' (List.zipWith (· ^^^ ·) acc u')

def pbkdf2Sha3 (password salt : Bytes) (iterations : ℕ) : Bytes :=
  let u := hmacSha3 password (salt ++ [0, 0, 0, 1])
  pbkdf2Rounds password (iterations-1) u u

@[simp] theorem hmacSha3_length (key msg : Bytes) : (hmacSha3 key msg).length = 32 := by
  simp only [hmacSha3, sha3_256_length]

theorem pbkdf2Rounds_length (password : Bytes) (n : ℕ) (u acc : Bytes) (h : acc.length = 32) :
    (pbkdf2Rounds password n u acc).length = 32 := by
  induction n generalizing u acc with
  | zero => exact h
  | succ n ih =>
    apply ih
    rw [List.length_zipWith, hmacSha3_length, h, min_self]

theorem pbkdf2Sha3_length (password salt : Bytes) (iterations : ℕ) :
    (pbkdf2Sha3 password salt iterations).length = 32 :=
  pbkdf2Rounds_length password _ _ _ (hmacSha3_length _ _)

attribute [irreducible] pbkdf2Sha3

end Foundations
