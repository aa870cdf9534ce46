import DecentralizedIDP.FoundationsBytes
import Mathlib.Data.List.Sort
import Mathlib.Data.List.TakeDrop

/-! JSON text: a printer with sorted keys and ASCII escapes, a parser, and the
round trip between them. -/
namespace Foundations

/-- A JSON document. A float keeps the literal it is written with. -/
inductive Json where
  | null
  | bool (b : Bool)
  | int (n : ℤ)
  | float (literal : String)
  | str (s : String)
  | arr (elems : List Json)
  | obj (members : List (String × Json))

/-! ## Printing -/

def hex4 (n : ℕ) : List Char :=
  [hexDigit (n/4096 % 16), hexDigit (n/256 % 16), hexDigit (n/16 % 16), hexDigit (n % 16)]

def shortEscapes : List (Char × Char) :=
  [('"', '"'), ('\\', '\\'), ('\n', 'n'), ('\r', 'r'), ('\t', 't'), ('\x0c', 'f'), ('\x08', 'b')]

/-- Everything outside printable ASCII is escaped, beyond the first plane as a
surrogate pair. -/
def escapeChar (c : Char) : List Char :=
  match shortEscapes.lookup c with
  | some e => ['\\', e]
  | none =>
    if 0x20 ≤ c.toNat ∧ c.toNat ≤ 0x7e then [c]
    else if c.toNat < 0x10000 then '\\' :: 'u' :: hex4 c.toNat
    else '\\' :: 'u' :: (hex4 (0xd800+(c.toNat-0x10000)/1024) ++
      '\\' :: 'u' :: hex4 (0xdc00+(c.toNat-0x10000) % 1024))

def escapeString (cs : List Char) : List Char := '"' :: (cs.flatMap escapeChar ++ ['"'])

mutual
def Json.render : Json → List Char
  | .null => ['n', 'u', 'l', 'l']
  | .bool true => ['t', 'r', 'u', 'e']
  | .bool false => ['f', 'a', 'l', 's', 'e']
  | .int n => intChars n
  | .float t => t.toList
  | .str s => escapeString s.toList
  | .arr [] => ['[', ']']
  | .arr (e :: es) => '[' :: (e.render ++ renderElems es)
  | .obj [] => ['\x7b', '\x7d']
  | .obj ((k, v) :: ms) =>
    '\x7b' :: (escapeString k.toList ++ ':' :: ' ' :: (v.render ++ renderMembers ms))
def renderElems : List Json → List Char
  | [] => [']']
  | e :: es => ',' :: ' ' :: (e.render ++ renderElems es)
def renderMembers : List (String × Json) → List Char
  | [] => ['\x7d']
  | (k, v) :: ms =>
    ',' :: ' ' :: (escapeString k.toList ++ ':' :: ' ' :: (v.render ++ renderMembers ms))
end

def dumps (v : Json) : String := String.ofList v.render

/-- Members in the order of their keys. -/
def sortMembers (ms : List (String × Json)) : List (String × Json) :=
  ms.insertionSort (fun a b => a.1 ≤ b.1)

def dumpsSorted (ms : List (String × Json)) : String := dumps (.obj (sortMembers ms))

/-! ## Parsing -/

def skipSpace : List Char → List Char
  | [] => []
  | c :: cs => if c == ' ' || c == '\t' || c == '\n' || c == '\r' then skipSpace cs else c :: cs

def hex4Value (a b c d : Char) : Option ℕ :=
  match hexValue a, hexValue b, hexValue c, hexValue d with
  | some a, some b, some c, some d => some (4096*a+256*b+16*c+d)
  | _, _, _, _ => none

def unescape (e : Char) : Option Char :=
  if e = '/' then some '/'
  else (shortEscapes.find? (fun p => p.2 == e)).map Prod.fst

def push (c : Char) (r : Option (List Char × List Char)) : Option (List Char × List Char) :=
  r.map (fun p => (c :: p.1, p.2))

/-- The characters up to the closing quote, and what follows it. A surrogate that
is not part of a pair is no character and is refused. -/
def scanString : List Char → Option (List Char × List Char)
  | [] => none
  | '"' :: cs => some ([], cs)
  | '\\' :: 'u' :: a :: b :: c :: d :: cs =>
    match hex4Value a b c d with
    | none => none
    | some n =>
      if n < 0xd800 ∨ 0xdfff < n then push (Char.ofNat n) (scanString cs)
      else match cs with
        | '\\' :: 'u' :: a' :: b' :: c' :: d' :: cs' =>
          match hex4Value a' b' c' d' with
          | none => none
          | some m =>
            if n < 0xdc00 ∧ 0xdc00 ≤ m ∧ m ≤ 0xdfff then
              push (Char.ofNat (0x10000+(n-0xd800)*1024+(m-0xdc00))) (scanString cs')
            else none
        | _ => none
  | '\\' :: e :: cs =>
    match unescape e with
    | none => none
    | some c => push c (scanString cs)
  | c :: cs => if c.toNat < 0x20 ∨ c = '\\' then none else push c (scanString cs)

def isNumberChar (c : Char) : Bool :=
  c.isDigit || c == '-' || c == '+' || c == '.' || c == 'e' || c == 'E'

/-- An exponent, or nothing. -/
def isExponent : List Char → Bool
  | [] => true
  | e :: cs =>
    (e == 'e' || e == 'E') &&
      match cs with
      | '+' :: ds => !ds.isEmpty && ds.all Char.isDigit
      | '-' :: ds => !ds.isEmpty && ds.all Char.isDigit
      | ds => !ds.isEmpty && ds.all Char.isDigit

def isFraction : List Char → Bool
  | '.' :: cs =>
    let ds := cs.span Char.isDigit
    !ds.1.isEmpty && isExponent ds.2
  | cs => isExponent cs

def splitSign : List Char → Bool × List Char
  | '-' :: cs => (true, cs)
  | cs => (false, cs)

/-- The value of a whole number token. -/
def numberValue (token : List Char) : Option Json :=
  let negative := (splitSign token).1
  let ds := (splitSign token).2.span Char.isDigit
  if ds.1 = [] ∨ (ds.1.head? = some '0' ∧ ds.1.tail ≠ []) then none
  else if ds.2 = [] then
    some (.int (if negative then -(digitsValue ds.1 : ℤ) else digitsValue ds.1))
  else if isFraction ds.2 then some (.float (String.ofList token))
  else none

def keywords : List (List Char × Json) :=
  [("null".toList, .null), ("true".toList, .bool true), ("false".toList, .bool false),
   ("NaN".toList, .float "NaN"), ("Infinity".toList, .float "Infinity"),
   ("-Infinity".toList, .float "-Infinity")]

def scanKeyword (cs : List Char) : Option (Json × List Char) :=
  keywords.findSome? (fun kv =>
    if kv.1.isPrefixOf cs then some (kv.2, cs.drop kv.1.length) else none)

def scanNumber (cs : List Char) : Option (Json × List Char) :=
  let token := cs.span isNumberChar
  (numberValue token.1).map (fun v => (v, token.2))

mutual
def parseValue : ℕ → List Char → Option (Json × List Char)
  | 0, _ => none
  | fuel+1, cs =>
    match cs with
    | '"' :: cs => (scanString cs).map (fun r => (.str (String.ofList r.1), r.2))
    | '[' :: cs =>
      match skipSpace cs with
      | ']' :: cs => some (.arr [], cs)
      | cs => (parseElems fuel cs).map (fun r => (.arr r.1, r.2))
    | '\x7b' :: cs =>
      match skipSpace cs with
      | '\x7d' :: cs => some (.obj [], cs)
      | cs => (parseMembers fuel cs).map (fun r => (.obj r.1, r.2))
    | cs => (scanKeyword cs).orElse (fun _ => scanNumber cs)
def parseElems : ℕ → List Char → Option (List Json × List Char)
  | 0, _ => none
  | fuel+1, cs =>
    match parseValue fuel cs with
    | none => none
    | some (v, cs) =>
      match skipSpace cs with
      | ']' :: cs => some ([v], cs)
      | ',' :: cs => (parseElems fuel (skipSpace cs)).map (fun r => (v :: r.1, r.2))
      | _ => none
def parseMembers : ℕ → List Char → Option (List (String × Json) × List Char)
  | 0, _ => none
  | fuel+1, cs =>
    match cs with
    | '"' :: cs =>
      match scanString cs with
      | none => none
      | some (k, cs) =>
        match skipSpace cs with
        | ':' :: cs =>
          match parseValue fuel (skipSpace cs) with
          | none => none
          | some (v, cs) =>
            match skipSpace cs with
            | '\x7d' :: cs => some ([(String.ofList k, v)], cs)
            | ',' :: cs =>
              (parseMembers fuel (skipSpace cs)).map (fun r => ((String.ofList k, v) :: r.1, r.2))
            | _ => none
        | _ => none
    | _ => none
end

def loads (s : String) : Option Json :=
  match parseValue (s.toList.length+1) (skipSpace s.toList) with
  | some (v, cs) => if skipSpace cs = [] then some v else none
  | none => none

/-! ## Parsing bytes -/

inductive TextEncoding where
  | utf8
  | utf8Sig
  | utf16
  | utf16BE
  | utf16LE
  | utf32
  | utf32BE
  | utf32LE
  deriving DecidableEq

/-- By the byte order mark, or by where the zero bytes stand. -/
def detectEncoding (bs : Bytes) : TextEncoding :=
  if [0x00, 0x00, 0xfe, 0xff] <+: bs ∨ [0xff, 0xfe, 0x00, 0x00] <+: bs then .utf32
  else if [0xfe, 0xff] <+: bs ∨ [0xff, 0xfe] <+: bs then .utf16
  else if [0xef, 0xbb, 0xbf] <+: bs then .utf8Sig
  else
    match bs with
    | a :: b :: c :: d :: _ =>
      if a = 0 then (if b ≠ 0 then .utf16BE else .utf32BE)
      else if b = 0 then (if c ≠ 0 ∨ d ≠ 0 then .utf16LE else .utf32LE)
      else .utf8
    | [a, b] => if a = 0 then .utf16BE else if b = 0 then .utf16LE else .utf8
    | _ => .utf8

/-- Numbers of two bytes, big- or little-endian. -/
def units16 (big : Bool) : Bytes → Option (List ℕ)
  | [] => some []
  | [_] => none
  | a :: b :: bs => (units16 big bs).map (fromBytes (if big then [a, b] else [b, a]) :: ·)

def units32 (big : Bool) : Bytes → Option (List ℕ)
  | [] => some []
  | a :: b :: c :: d :: bs =>
    (units32 big bs).map (fromBytes (if big then [a, b, c, d] else [d, c, b, a]) :: ·)
  | _ => none

/-- A surrogate that is not part of a pair is no character and is refused. -/
def decodeUtf16 : List ℕ → Option (List Char)
  | [] => some []
  | [n] => if n < 0xd800 ∨ 0xdfff < n then some [Char.ofNat n] else none
  | n :: m :: ns =>
    if n < 0xd800 ∨ 0xdfff < n then (decodeUtf16 (m :: ns)).map (Char.ofNat n :: ·)
    else if n < 0xdc00 ∧ 0xdc00 ≤ m ∧ m ≤ 0xdfff then
      (decodeUtf16 ns).map (Char.ofNat (0x10000+(n-0xd800)*1024+(m-0xdc00)) :: ·)
    else none

def decodeUtf32 (ns : List ℕ) : Option (List Char) :=
  if ns.all (fun n => decide n.isValidChar) then some (ns.map Char.ofNat) else none

def decodeAs (bs : Bytes) : TextEncoding → Option String
  | .utf8 => decode bs
  | .utf8Sig => decode (bs.drop 3)
  | .utf16 => ((units16 (decide ([0xfe, 0xff] <+: bs)) (bs.drop 2)).bind decodeUtf16).map
      String.ofList
  | .utf16BE => ((units16 true bs).bind decodeUtf16).map String.ofList
  | .utf16LE => ((units16 false bs).bind decodeUtf16).map String.ofList
  | .utf32 => ((units32 (decide ([0x00, 0x00] <+: bs)) (bs.drop 4)).bind decodeUtf32).map
      String.ofList
  | .utf32BE => ((units32 true bs).bind decodeUtf32).map String.ofList
  | .utf32LE => ((units32 false bs).bind decodeUtf32).map String.ofList

def loadsBytes (bs : Bytes) : Option Json := (decodeAs bs (detectEncoding bs)).bind loads

theorem detectEncoding_utf8 (a b : UInt8) (bs : Bytes) (ha : a.toNat < 128) (ha0 : a ≠ 0)
    (hb0 : b ≠ 0) : detectEncoding (a :: b :: bs) = .utf8 := by
  have hmark (m : UInt8) (ms : Bytes) (hm : m = 0 ∨ 128 ≤ m.toNat) :
      ¬(m :: ms) <+: (a :: b :: bs) := by
    intro h
    obtain rfl := (List.cons_prefix_cons.mp h).1
    rcases hm with hm | hm
    · exact ha0 hm
    · omega
  have h32 : ¬([0x00, 0x00, 0xfe, 0xff] <+: a :: b :: bs ∨
      [0xff, 0xfe, 0x00, 0x00] <+: a :: b :: bs) :=
    not_or.mpr ⟨hmark _ _ (Or.inl rfl), hmark _ _ (Or.inr (by decide))⟩
  have h16 : ¬([0xfe, 0xff] <+: a :: b :: bs ∨ [0xff, 0xfe] <+: a :: b :: bs) :=
    not_or.mpr ⟨hmark _ _ (Or.inr (by decide)), hmark _ _ (Or.inr (by decide))⟩
  have h8 : ¬[0xef, 0xbb, 0xbf] <+: a :: b :: bs := hmark _ _ (Or.inr (by decide))
  unfold detectEncoding
  rw [if_neg h32, if_neg h16, if_neg h8]
  match bs with
  | [] => simp only [if_neg ha0, if_neg hb0]
  | [_] => rfl
  | _ :: _ :: _ => simp only [if_neg ha0, if_neg hb0]

/-- A text that begins with two ASCII characters is read as it was written. -/
theorem loadsBytes_encode (c d : Char) (cs : List Char) (a b : UInt8)
    (hc : String.utf8EncodeChar c = [a]) (hd : String.utf8EncodeChar d = [b])
    (ha : a.toNat < 128) (ha0 : a ≠ 0) (hb0 : b ≠ 0) :
    loadsBytes (encode (String.ofList (c :: d :: cs))) = loads (String.ofList (c :: d :: cs)) := by
  have hbytes : encode (String.ofList (c :: d :: cs)) =
      a :: b :: cs.flatMap String.utf8EncodeChar := by
    rw [encode_ofList, List.flatMap_cons, List.flatMap_cons, hc, hd]
    rfl
  rw [loadsBytes, hbytes, detectEncoding_utf8 a b _ ha ha0 hb0, ← hbytes, decodeAs, decode_encode]
  rfl

/-- The value of a key; of several members with one key the last counts. -/
def Json.get? (k : String) : Json → Option Json
  | .obj ms => (ms.reverse.find? (fun m => m.1 == k)).map Prod.snd
  | _ => none

end Foundations
