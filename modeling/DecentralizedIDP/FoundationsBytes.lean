import Mathlib.Data.List.Induction
import Mathlib.Algebra.Order.Ring.Nat
import Mathlib.Tactic.Ring
import Mathlib.Tactic.IntervalCases

/-! Byte strings and numerals: UTF-8 text and its pieces, fixed-width big-endian numbers,
hexadecimal and decimal. -/
namespace Foundations

abbrev Bytes := List UInt8

/-- The UTF-8 bytes of a text. -/
def encode (s : String) : Bytes := s.toByteArray.data.toList

theorem encode_injective : Function.Injective encode := by
  intro s t h
  apply String.toByteArray_inj.mp
  apply ByteArray.ext
  exact Array.toList_inj.mp h

theorem encode_ofList (cs : List Char) :
    encode (String.ofList cs) = cs.flatMap String.utf8EncodeChar := by
  rw [encode, String.toByteArray_ofList, List.utf8Encode, List.toList_data_toByteArray]

/-- The text with these UTF-8 bytes, if they are well formed. -/
def decode (bs : Bytes) : Option String := String.fromUTF8? ⟨bs.toArray⟩

theorem decode_encode (s : String) : decode (encode s) = some s := by
  have hbytes : (⟨(encode s).toArray⟩ : ByteArray) = s.toByteArray := by
    apply ByteArray.ext
    rw [encode, Array.toArray_toList]
  rw [decode, hbytes, String.fromUTF8?, dif_pos s.isValidUTF8]
  rfl

/-- The pieces between separators. -/
def splitChars (sep : Char) : List Char → List (List Char)
  | [] => [[]]
  | c :: cs =>
    if c = sep then [] :: splitChars sep cs
    else
      match splitChars sep cs with
      | [] => [[c]]
      | piece :: pieces => (c :: piece) :: pieces

theorem splitChars_no_sep (sep : Char) (cs : List Char) :
    ∀ piece ∈ splitChars sep cs, sep ∉ piece := by
  induction cs with
  | nil => simp [splitChars]
  | cons c cs ih =>
    rw [splitChars]
    split_ifs with hc
    · simpa using ih
    · cases hsplit : splitChars sep cs with
      | nil => simpa using fun h => hc h.symm
      | cons piece pieces =>
        simp only [hsplit, List.forall_mem_cons] at ih ⊢
        refine ⟨?_, ih.2⟩
        rw [List.mem_cons, not_or]
        exact ⟨fun h => hc h.symm, ih.1⟩

theorem splitChars_single (sep : Char) (piece : List Char) (h : sep ∉ piece) :
    splitChars sep piece = [piece] := by
  induction piece with
  | nil => rfl
  | cons c piece ih =>
    rw [List.mem_cons, not_or] at h
    rw [splitChars, if_neg (fun hc => h.1 hc.symm), ih h.2]

theorem splitChars_append (sep : Char) (piece cs : List Char) (h : sep ∉ piece) :
    splitChars sep (piece ++ sep :: cs) = piece :: splitChars sep cs := by
  induction piece with
  | nil => rw [List.nil_append, splitChars, if_pos rfl]
  | cons c piece ih =>
    rw [List.mem_cons, not_or] at h
    rw [List.cons_append, splitChars, if_neg (fun hc => h.1 hc.symm), ih h.2]

theorem splitChars_ne_nil (sep : Char) (cs : List Char) : splitChars sep cs ≠ [] := by
  cases cs with
  | nil => simp [splitChars]
  | cons c cs =>
    rw [splitChars]
    split_ifs
    · simp
    · split <;> simp

/-- Joining the pieces gives the text back. -/
theorem intercalate_splitChars (sep : Char) (cs : List Char) :
    [sep].intercalate (splitChars sep cs) = cs := by
  induction cs with
  | nil => rfl
  | cons c cs ih =>
    rw [splitChars]
    cases hsplit : splitChars sep cs with
    | nil => exact absurd hsplit (splitChars_ne_nil sep cs)
    | cons piece pieces =>
      rw [hsplit] at ih
      split_ifs with hc
      · rw [List.intercalate_cons_cons, ih, hc]
        rfl
      · cases pieces with
        | nil =>
          rw [List.intercalate_singleton] at ih ⊢
          rw [ih]
        | cons next pieces =>
          rw [List.intercalate_cons_cons] at ih ⊢
          rw [← ih]
          rfl

theorem splitChars_injective (sep : Char) : Function.Injective (splitChars sep) := by
  intro cs ds h
  calc cs = [sep].intercalate (splitChars sep cs) := (intercalate_splitChars sep cs).symm
    _ = [sep].intercalate (splitChars sep ds) := by rw [h]
    _ = ds := intercalate_splitChars sep ds

/-- What stands before and after the first separator can be told apart. -/
theorem append_sep_inj (sep : Char) (as bs cs ds : List Char) (ha : sep ∉ as) (hb : sep ∉ bs)
    (h : as ++ sep :: cs = bs ++ sep :: ds) : as = bs ∧ cs = ds := by
  have hsplit := congrArg (splitChars sep) h
  rw [splitChars_append sep as cs ha, splitChars_append sep bs ds hb, List.cons.injEq] at hsplit
  obtain ⟨rfl, -⟩ := hsplit
  exact ⟨rfl, (List.cons.inj (List.append_cancel_left h)).2⟩

/-! ## Blanks -/

/-- The characters that `str.strip` takes off. -/
def isBlank (c : Char) : Bool :=
  let n := c.toNat
  (9 ≤ n && n ≤ 13) || (28 ≤ n && n ≤ 32) || n == 0x85 || n == 0xa0 || n == 0x1680 ||
    (0x2000 ≤ n && n ≤ 0x200a) || n == 0x2028 || n == 0x2029 || n == 0x202f || n == 0x205f ||
    n == 0x3000

def stripChars (cs : List Char) : List Char :=
  ((cs.dropWhile isBlank).reverse.dropWhile isBlank).reverse

def strip (s : String) : String := String.ofList (stripChars s.toList)

/-! ## Fixed-width big-endian numbers -/

def fromBytes (bs : Bytes) : ℕ := bs.foldl (fun acc b => 256*acc+b.toNat) 0

def toBytes : ℕ → ℕ → Bytes
  | 0, _ => []
  | len+1, n => toBytes len (n/256) ++ [UInt8.ofNat n]

@[simp] theorem toBytes_length (len n : ℕ) : (toBytes len n).length = len := by
  induction len generalizing n with
  | zero => rfl
  | succ len ih => simp only [toBytes, List.length_append, ih, List.length_singleton]

theorem fromBytes_snoc (bs : Bytes) (b : UInt8) :
    fromBytes (bs ++ [b]) = 256*fromBytes bs+b.toNat := by
  simp only [fromBytes, List.foldl_append, List.foldl_cons, List.foldl_nil]

theorem fromBytes_toBytes (len n : ℕ) (hn : n < 256^len) : fromBytes (toBytes len n) = n := by
  induction len generalizing n with
  | zero =>
    have h0 : n = 0 := by simpa using hn
    simp only [toBytes, fromBytes, List.foldl_nil, h0]
  | succ len ih =>
    have hq : n/256 < 256^len := by rw [pow_succ] at hn; omega
    have hb : (UInt8.ofNat n).toNat = n % 256 := by simp
    rw [toBytes, fromBytes_snoc, ih _ hq, hb]
    omega

/-! ## Hexadecimal -/

def hexDigit (n : ℕ) : Char :=
  ['0','1','2','3','4','5','6','7','8','9','a','b','c','d','e','f'].getD n '0'

/-- The value of a hexadecimal digit in either case. -/
def hexValue (c : Char) : Option ℕ :=
  if '0' ≤ c ∧ c ≤ '9' then some (c.toNat-48)
  else if 'a' ≤ c ∧ c ≤ 'f' then some (c.toNat-87)
  else if 'A' ≤ c ∧ c ≤ 'F' then some (c.toNat-55)
  else none

def isSpace (c : Char) : Bool :=
  c == ' ' || (9 ≤ c.toNat && c.toNat ≤ 13)

def hexChars (bs : Bytes) : List Char :=
  bs.flatMap (fun b => [hexDigit (b.toNat/16), hexDigit (b.toNat%16)])

/-- Lower-case hexadecimal, two digits a byte. -/
def hex (bs : Bytes) : String := String.ofList (hexChars bs)

/-- Pairs of digits, with blanks allowed between two pairs. -/
def fromhexChars : List Char → Option Bytes
  | [] => some []
  | [c] => if isSpace c then some [] else none
  | c :: d :: cs =>
    if isSpace c then fromhexChars (d :: cs)
    else match hexValue c, hexValue d, fromhexChars cs with
      | some h, some l, some bs => some (UInt8.ofNat (16*h+l) :: bs)
      | _, _, _ => none

def fromhex (s : String) : Option Bytes := fromhexChars s.toList

/-- The number written by hexadecimal digits. -/
def intOfHex (s : String) : ℕ :=
  s.toList.foldl (fun acc c => 16*acc+(hexValue c).getD 0) 0

theorem hexDigit_facts (n : ℕ) (hn : n < 16) :
    hexValue (hexDigit n) = some n ∧ isSpace (hexDigit n) = false ∧
      (String.utf8EncodeChar (hexDigit n)).length = 1 := by
  interval_cases n <;> decide

theorem toNat_hex_split (b : UInt8) : b.toNat/16 < 16 ∧ b.toNat%16 < 16 := by
  have hb := b.toNat_lt
  omega

theorem hexChars_cons (b : UInt8) (bs : Bytes) :
    hexChars (b :: bs) = hexDigit (b.toNat/16) :: hexDigit (b.toNat%16) :: hexChars bs := by
  simp only [hexChars, List.flatMap_cons, List.cons_append, List.nil_append]

theorem hexChars_take (len : ℕ) (bs : Bytes) :
    (hexChars bs).take (2*len) = hexChars (bs.take len) := by
  induction len generalizing bs with
  | zero => simp [hexChars]
  | succ len ih =>
    cases bs with
    | nil => simp [hexChars]
    | cons b bs =>
      rw [Nat.mul_succ, hexChars_cons, List.take_succ_cons, List.take_succ_cons, ih,
        List.take_succ_cons, hexChars_cons]

theorem fromhex_hex (bs : Bytes) : fromhex (hex bs) = some bs := by
  rw [fromhex, hex, String.toList_ofList]
  induction bs with
  | nil => rfl
  | cons b bs ih =>
    obtain ⟨hh, hl⟩ := toNat_hex_split b
    have hb : UInt8.ofNat (16*(b.toNat/16)+b.toNat%16) = b := by
      rw [Nat.div_add_mod, UInt8.ofNat_toNat]
    rw [hexChars_cons, fromhexChars, (hexDigit_facts _ hh).1, (hexDigit_facts _ hh).2.1,
      (hexDigit_facts _ hl).1, ih]
    simp only [Bool.false_eq_true, ↓reduceIte, hb]

theorem hex_injective : Function.Injective hex := by
  intro a b h
  have hh := congrArg fromhex h
  rw [fromhex_hex, fromhex_hex] at hh
  exact Option.some.inj hh

theorem encode_hex_length (bs : Bytes) : (encode (hex bs)).length = 2*bs.length := by
  rw [hex, encode_ofList]
  induction bs with
  | nil => rfl
  | cons b bs ih =>
    obtain ⟨hh, hl⟩ := toNat_hex_split b
    rw [hexChars_cons, List.flatMap_cons, List.flatMap_cons, List.length_append, List.length_append,
      ih, (hexDigit_facts _ hh).2.2, (hexDigit_facts _ hl).2.2, List.length_cons]
    omega

theorem hex_fold (bs : Bytes) (acc : ℕ) :
    (hexChars bs).foldl (fun acc c => 16*acc+(hexValue c).getD 0) acc =
      bs.foldl (fun acc b => 256*acc+b.toNat) acc := by
  induction bs generalizing acc with
  | nil => rfl
  | cons b bs ih =>
    obtain ⟨hh, hl⟩ := toNat_hex_split b
    rw [hexChars_cons, List.foldl_cons, List.foldl_cons, List.foldl_cons,
      (hexDigit_facts _ hh).1, (hexDigit_facts _ hl).1, ih]
    simp only [Option.getD_some]
    congr 1
    omega

/-- A digest read as a hexadecimal literal is its big-endian value. -/
theorem intOfHex_hex (bs : Bytes) : intOfHex (hex bs) = fromBytes bs := by
  rw [intOfHex, hex, String.toList_ofList, hex_fold, fromBytes]

/-! ## Decimal -/

def intChars (n : ℤ) : List Char :=
  if n < 0 then '-' :: Nat.toDigits 10 n.natAbs else Nat.toDigits 10 n.natAbs

def decimal (n : ℤ) : String := String.ofList (intChars n)

def digitsValue (ds : List Char) : ℕ := ds.foldl (fun acc c => 10*acc+(c.toNat-48)) 0

theorem digitsValue_snoc (ds : List Char) (c : Char) :
    digitsValue (ds ++ [c]) = 10*digitsValue ds+(c.toNat-48) := by
  simp only [digitsValue, List.foldl_append, List.foldl_cons, List.foldl_nil]

theorem digitChar_facts (n : ℕ) (hn : n < 10) :
    n.digitChar.toNat-48 = n ∧ n.digitChar.isDigit = true ∧ (n.digitChar = '0' → n = 0) := by
  interval_cases n <;> decide

theorem digitsValue_toDigits (n : ℕ) : digitsValue (Nat.toDigits 10 n) = n := by
  induction n using Nat.strong_induction_on with
  | _ n ih =>
    by_cases hn : n < 10
    · rw [Nat.toDigits_of_lt_base hn]
      have h := digitsValue_snoc [] n.digitChar
      rw [(digitChar_facts n hn).1] at h
      exact h.trans (by simp [digitsValue])
    · rw [Nat.toDigits_of_base_le (by decide) (by omega), digitsValue_snoc, ih (n/10) (by omega),
        (digitChar_facts (n % 10) (by omega)).1]
      omega

/-- No numeral but `0` starts with a zero. -/
theorem toDigits_head_zero (n : ℕ) (cs : List Char) (h : Nat.toDigits 10 n = '0' :: cs) :
    cs = [] := by
  induction n using Nat.strong_induction_on generalizing cs with
  | _ n ih =>
    by_cases hn : n < 10
    · rw [Nat.toDigits_of_lt_base hn] at h
      exact (List.cons.inj h).2.symm
    · -- the digits of `n/10` come first, so a leading zero would make them all zero
      rw [Nat.toDigits_of_base_le (by decide) (by omega)] at h
      obtain ⟨d, ds, hd⟩ := List.exists_cons_of_ne_nil (Nat.toDigits_ne_nil (n := n/10) (b := 10))
      rw [hd, List.cons_append, List.cons.injEq] at h
      have hds := ih (n/10) (by omega) ds (by rw [hd, h.1])
      have hv := digitsValue_toDigits (n/10)
      rw [hd, h.1, hds] at hv
      simp [digitsValue] at hv
      omega

end Foundations
