import DecentralizedIDP.FoundationsBytes

/-! Base64 with the URL-safe alphabet: padding, and the lenient decoder that skips
characters outside the alphabet. -/
namespace Foundations

def base64Alphabet : List Char :=
  "ABCDEFGHIJKLMNOPQRSTUVWXYZabcdefghijklmnopqrstuvwxyz0123456789-_".toList

def base64Char (n : ℕ) : Char := base64Alphabet.getD n 'A'

/-- The standard alphabet's `+` and `/` count as `-` and `_`. -/
def base64Value (c : Char) : Option ℕ :=
  if c = '+' then some 62 else if c = '/' then some 63
  else base64Alphabet.findIdx? (· == c)

def base64Chars : Bytes → List Char
  | a :: b :: c :: bs =>
    base64Char (a.toNat/4) :: base64Char (a.toNat % 4*16+b.toNat/16) ::
      base64Char (b.toNat % 16*4+c.toNat/64) :: base64Char (c.toNat % 64) :: base64Chars bs
  | [a, b] =>
    [base64Char (a.toNat/4), base64Char (a.toNat % 4*16+b.toNat/16),
      base64Char (b.toNat % 16*4), '=']
  | [a] => [base64Char (a.toNat/4), base64Char (a.toNat % 4*16), '=', '=']
  | [] => []

/-- What the decoder carries between characters: its place in a group of four, the
padding characters seen since the last digit, and the bits not yet written. -/
structure Base64State where
  quad : ℕ
  pads : ℕ
  left : ℕ

def base64Emit (b : ℕ) (r : Option Bytes) : Option Bytes := r.map (UInt8.ofNat b :: ·)

/-- A complete padding ends the text; a text that ends inside a group is refused. -/
def base64Decode : Base64State → List Char → Option Bytes
  | st, [] => if st.quad = 0 then some [] else none
  | st, c :: cs =>
    if c = '=' then
      if 2 ≤ st.quad ∧ 4 ≤ st.quad+(st.pads+1) then some []
      else base64Decode { st with pads := if 2 ≤ st.quad then st.pads+1 else st.pads } cs
    else
      match base64Value c with
      | none => base64Decode st cs
      | some v =>
        match st.quad with
        | 0 => base64Decode ⟨1, 0, v⟩ cs
        | 1 => base64Emit (st.left*4+v/16) (base64Decode ⟨2, 0, v % 16⟩ cs)
        | 2 => base64Emit (st.left*16+v/4) (base64Decode ⟨3, 0, v % 4⟩ cs)
        | _ => base64Emit (st.left*64+v) (base64Decode ⟨0, 0, 0⟩ cs)

def urlsafeB64Encode (bs : Bytes) : List Char := base64Chars bs

/-- Text outside ASCII is refused. -/
def urlsafeB64Decode (cs : List Char) : Option Bytes :=
  if cs.all (fun c => c.toNat < 128) then base64Decode ⟨0, 0, 0⟩ cs else none

/-! ## Canonical text -/

/-- An encoding without its padding: digits only, none of them alone in its group of four,
and zeros in those bits of the last digit that no byte takes up. -/
structure CanonicalBase64 (w : List Char) : Prop where
  digits : ∀ c ∈ w, c ∈ base64Alphabet
  group : w.length % 4 ≠ 1
  spare : (w.getLast?.bind base64Value).getD 0 % 2^(6*w.length % 8) = 0

def base64Padding (len : ℕ) : List Char := List.replicate ((4-len % 4) % 4) '='

theorem base64Char_facts (n : ℕ) (hn : n < 64) : base64Value (base64Char n) = some n ∧
    base64Char n ≠ '=' ∧ base64Char n ≠ '.' ∧ (base64Char n).toNat < 128 := by
  have h : ∀ n < 64, base64Value (base64Char n) = some n ∧ base64Char n ≠ '=' ∧
      base64Char n ≠ '.' ∧ (base64Char n).toNat < 128 := by decide +kernel
  exact h n hn

theorem mem_base64Alphabet (c : Char) : c ∈ base64Alphabet ↔ ∃ n < 64, c = base64Char n := by
  constructor
  · intro hc
    obtain ⟨n, hn, hget⟩ := List.mem_iff_getElem.mp hc
    refine ⟨n, hn, ?_⟩
    rw [base64Char, List.getD_eq_getElem?_getD, List.getElem?_eq_getElem hn, Option.getD_some,
      hget]
  · intro hc
    obtain ⟨n, hn, rfl⟩ := hc
    have hlen : n < base64Alphabet.length := hn
    rw [base64Char, List.getD_eq_getElem?_getD, List.getElem?_eq_getElem hlen,
      Option.getD_some]
    exact List.getElem_mem hlen

theorem CanonicalBase64.ne_sign {w : List Char} (h : CanonicalBase64 w) (c : Char) (hc : c ∈ w) :
    c ≠ '=' ∧ c ≠ '.' := by
  obtain ⟨n, hn, rfl⟩ := (mem_base64Alphabet c).mp (h.digits c hc)
  exact ⟨(base64Char_facts n hn).2.1, (base64Char_facts n hn).2.2.1⟩

/-- A whole group has no spare bits, so only the rest of the text counts. -/
theorem canonicalBase64_group (c d e f : Char) (w : List Char) :
    CanonicalBase64 (c :: d :: e :: f :: w) ↔
      (c ∈ base64Alphabet ∧ d ∈ base64Alphabet ∧ e ∈ base64Alphabet ∧ f ∈ base64Alphabet) ∧
        CanonicalBase64 w := by
  have hlen : (c :: d :: e :: f :: w).length % 4 = w.length % 4 := by
    simp only [List.length_cons]
    omega
  have hbits : 6*(c :: d :: e :: f :: w).length % 8 = 6*w.length % 8 := by
    simp only [List.length_cons]
    omega
  have hspare : (((c :: d :: e :: f :: w).getLast?.bind base64Value).getD 0 %
      2^(6*(c :: d :: e :: f :: w).length % 8) = 0) ↔
        (w.getLast?.bind base64Value).getD 0 % 2^(6*w.length % 8) = 0 := by
    rw [hbits]
    cases w with
    | nil => simp [Nat.mod_one]
    | cons g w => simp only [List.getLast?_cons_cons]
  constructor
  · intro h
    have hdigits := h.digits
    simp only [List.forall_mem_cons] at hdigits
    exact ⟨⟨hdigits.1, hdigits.2.1, hdigits.2.2.1, hdigits.2.2.2.1⟩, hdigits.2.2.2.2,
      by rw [← hlen]; exact h.group, hspare.mp h.spare⟩
  · intro h
    refine ⟨?_, by rw [hlen]; exact h.2.group, hspare.mpr h.2.spare⟩
    simp only [List.forall_mem_cons]
    exact ⟨h.1.1, h.1.2.1, h.1.2.2.1, h.1.2.2.2, h.2.digits⟩

/-- Two digits hold one byte and four spare bits. -/
theorem canonicalBase64_pair (n m : ℕ) (hn : n < 64) (hm : m < 64) :
    CanonicalBase64 [base64Char n, base64Char m] ↔ m % 16 = 0 := by
  have hvalue := (base64Char_facts m hm).1
  constructor
  · intro h
    have hspare := h.spare
    simpa [hvalue] using hspare
  · intro h
    refine ⟨?_, by simp, by simpa [hvalue] using h⟩
    simp only [List.forall_mem_cons, mem_base64Alphabet]
    exact ⟨⟨n, hn, rfl⟩, ⟨m, hm, rfl⟩, by simp⟩

/-- Three digits hold two bytes and two spare bits. -/
theorem canonicalBase64_triple (n m k : ℕ) (hn : n < 64) (hm : m < 64) (hk : k < 64) :
    CanonicalBase64 [base64Char n, base64Char m, base64Char k] ↔ k % 4 = 0 := by
  have hvalue := (base64Char_facts k hk).1
  constructor
  · intro h
    have hspare := h.spare
    simpa [hvalue] using hspare
  · intro h
    refine ⟨?_, by simp, by simpa [hvalue] using h⟩
    simp only [List.forall_mem_cons, mem_base64Alphabet]
    exact ⟨⟨n, hn, rfl⟩, ⟨m, hm, rfl⟩, ⟨k, hk, rfl⟩, by simp⟩

theorem canonicalBase64_nil : CanonicalBase64 [] := ⟨by simp, by simp, by simp⟩

/-- Every encoding is canonical text, filled up with padding to a multiple of four. -/
theorem base64Chars_canonical (bs : Bytes) :
    ∃ w, CanonicalBase64 w ∧ base64Chars bs = w ++ base64Padding w.length := by
  induction bs using base64Chars.induct with
  | case1 a b c bs ih =>
    obtain ⟨w, hw, heq⟩ := ih
    have ha := a.toNat_lt
    have hb := b.toNat_lt
    have hc := c.toNat_lt
    refine ⟨base64Char (a.toNat/4) :: base64Char (a.toNat % 4*16+b.toNat/16) ::
      base64Char (b.toNat % 16*4+c.toNat/64) :: base64Char (c.toNat % 64) :: w, ?_, ?_⟩
    · rw [canonicalBase64_group]
      simp only [mem_base64Alphabet]
      exact ⟨⟨⟨_, by omega, rfl⟩, ⟨_, by omega, rfl⟩, ⟨_, by omega, rfl⟩, ⟨_, by omega, rfl⟩⟩, hw⟩
    · have hlen : (w.length+1+1+1+1) % 4 = w.length % 4 := by omega
      simp only [base64Chars, heq, List.cons_append, List.length_cons, base64Padding, hlen]
  | case2 a b =>
    have ha := a.toNat_lt
    have hb := b.toNat_lt
    refine ⟨[base64Char (a.toNat/4), base64Char (a.toNat % 4*16+b.toNat/16),
      base64Char (b.toNat % 16*4)], ?_, rfl⟩
    rw [canonicalBase64_triple _ _ _ (by omega) (by omega) (by omega)]
    omega
  | case3 a =>
    have ha := a.toNat_lt
    refine ⟨[base64Char (a.toNat/4), base64Char (a.toNat % 4*16)], ?_, rfl⟩
    rw [canonicalBase64_pair _ _ (by omega) (by omega)]
    omega
  | case4 => exact ⟨[], canonicalBase64_nil, rfl⟩

/-- The byte with this value. -/
theorem exists_byte (n : ℕ) (hn : n < 256) : ∃ b : UInt8, b.toNat = n :=
  ⟨UInt8.ofNat n, by rw [UInt8.toNat_ofNat']; exact Nat.mod_eq_of_lt hn⟩

/-- The digits of a group are shared out again among the bytes. -/
theorem base64Chars_surjective : ∀ w, CanonicalBase64 w →
    ∃ bs, base64Chars bs = w ++ base64Padding w.length
  | [], _ => ⟨[], rfl⟩
  | [_], h => absurd rfl h.group
  | [c, d], h => by
    obtain ⟨n, hn, rfl⟩ := (mem_base64Alphabet c).mp (h.digits c (by simp))
    obtain ⟨m, hm, rfl⟩ := (mem_base64Alphabet d).mp (h.digits d (by simp))
    have hspare := (canonicalBase64_pair n m hn hm).mp h
    obtain ⟨a, ha⟩ := exists_byte (n*4+m/16) (by omega)
    have h1 : a.toNat/4 = n := by omega
    have h2 : a.toNat % 4*16 = m := by omega
    exact ⟨[a], by rw [base64Chars, h1, h2]; rfl⟩
  | [c, d, e], h => by
    obtain ⟨n, hn, rfl⟩ := (mem_base64Alphabet c).mp (h.digits c (by simp))
    obtain ⟨m, hm, rfl⟩ := (mem_base64Alphabet d).mp (h.digits d (by simp))
    obtain ⟨k, hk, rfl⟩ := (mem_base64Alphabet e).mp (h.digits e (by simp))
    have hspare := (canonicalBase64_triple n m k hn hm hk).mp h
    obtain ⟨a, ha⟩ := exists_byte (n*4+m/16) (by omega)
    obtain ⟨b, hb⟩ := exists_byte (m % 16*16+k/4) (by omega)
    have h1 : a.toNat/4 = n := by omega
    have h2 : a.toNat % 4*16+b.toNat/16 = m := by omega
    have h3 : b.toNat % 16*4 = k := by omega
    exact ⟨[a, b], by rw [base64Chars, h1, h2, h3]; rfl⟩
  | c :: d :: e :: f :: w, h => by
    have hgroup := (canonicalBase64_group c d e f w).mp h
    simp only [mem_base64Alphabet] at hgroup
    obtain ⟨⟨⟨n, hn, rfl⟩, ⟨m, hm, rfl⟩, ⟨k, hk, rfl⟩, ⟨l, hl, rfl⟩⟩, hw⟩ := hgroup
    obtain ⟨bs, hbs⟩ := base64Chars_surjective w hw
    obtain ⟨a, ha⟩ := exists_byte (n*4+m/16) (by omega)
    obtain ⟨b, hb⟩ := exists_byte (m % 16*16+k/4) (by omega)
    obtain ⟨g, hg⟩ := exists_byte (k % 4*64+l) (by omega)
    have h1 : a.toNat/4 = n := by omega
    have h2 : a.toNat % 4*16+b.toNat/16 = m := by omega
    have h3 : b.toNat % 16*4+g.toNat/64 = k := by omega
    have h4 : g.toNat % 64 = l := by omega
    have hlen : (w.length+1+1+1+1) % 4 = w.length % 4 := by omega
    exact ⟨a :: b :: g :: bs, by
      simp only [base64Chars, h1, h2, h3, h4, hbs, List.cons_append, List.length_cons,
        base64Padding, hlen]⟩

/-! ## The round trip -/

theorem base64Decode_digit (st : Base64State) (n : ℕ) (hn : n < 64) (cs : List Char) :
    base64Decode st (base64Char n :: cs) =
      match st.quad with
      | 0 => base64Decode ⟨1, 0, n⟩ cs
      | 1 => base64Emit (st.left*4+n/16) (base64Decode ⟨2, 0, n % 16⟩ cs)
      | 2 => base64Emit (st.left*16+n/4) (base64Decode ⟨3, 0, n % 4⟩ cs)
      | _ => base64Emit (st.left*64+n) (base64Decode ⟨0, 0, 0⟩ cs) := by
  obtain ⟨hvalue, hpad, -, -⟩ := base64Char_facts n hn
  rw [base64Decode, if_neg hpad, hvalue]

theorem base64Emit_byte (b : UInt8) (n : ℕ) (hn : n = b.toNat) (bs : Bytes) :
    base64Emit n (some bs) = some (b :: bs) := by
  rw [base64Emit, hn, UInt8.ofNat_toNat, Option.map_some]

theorem base64Decode_chars (bs : Bytes) :
    base64Decode ⟨0, 0, 0⟩ (base64Chars bs) = some bs := by
  induction bs using base64Chars.induct with
  | case1 a b c bs ih =>
    have ha := a.toNat_lt
    have hb := b.toNat_lt
    have hc := c.toNat_lt
    rw [base64Chars]
    simp only [base64Decode_digit _ _ (by omega : a.toNat/4 < 64),
      base64Decode_digit _ _ (by omega : a.toNat % 4*16+b.toNat/16 < 64),
      base64Decode_digit _ _ (by omega : b.toNat % 16*4+c.toNat/64 < 64),
      base64Decode_digit _ _ (by omega : c.toNat % 64 < 64), ih]
    rw [base64Emit_byte c _ (by omega), base64Emit_byte b _ (by omega),
      base64Emit_byte a _ (by omega)]
  | case2 a b =>
    have ha := a.toNat_lt
    have hb := b.toNat_lt
    rw [base64Chars]
    simp only [base64Decode_digit _ _ (by omega : a.toNat/4 < 64),
      base64Decode_digit _ _ (by omega : a.toNat % 4*16+b.toNat/16 < 64),
      base64Decode_digit _ _ (by omega : b.toNat % 16*4 < 64)]
    -- one padding character completes a group of three digits
    have hend : base64Decode ⟨3, 0, b.toNat % 16*4 % 4⟩ ['='] = some [] := rfl
    rw [hend, base64Emit_byte b _ (by omega), base64Emit_byte a _ (by omega)]
  | case3 a =>
    have ha := a.toNat_lt
    rw [base64Chars]
    simp only [base64Decode_digit _ _ (by omega : a.toNat/4 < 64),
      base64Decode_digit _ _ (by omega : a.toNat % 4*16 < 64)]
    have hend : base64Decode ⟨2, 0, a.toNat % 4*16 % 16⟩ ['=', '='] = some [] := rfl
    rw [hend, base64Emit_byte a _ (by omega)]
  | case4 => rfl

theorem urlsafeB64Decode_encode (bs : Bytes) :
    urlsafeB64Decode (urlsafeB64Encode bs) = some bs := by
  obtain ⟨w, hw, heq⟩ := base64Chars_canonical bs
  rw [urlsafeB64Decode, urlsafeB64Encode, if_pos, base64Decode_chars]
  rw [heq, List.all_eq_true]
  intro c hc
  rcases List.mem_append.mp hc with hc | hc
  · obtain ⟨n, hn, rfl⟩ := (mem_base64Alphabet c).mp (hw.digits c hc)
    exact decide_eq_true (base64Char_facts n hn).2.2.2
  · rw [List.eq_of_mem_replicate hc]
    decide

/-! ## Skipped characters -/

/-- Characters without a value leave no trace, wherever they stand. -/
theorem base64Decode_skip (es : List Char) (h : ∀ c ∈ es, c ≠ '=' ∧ base64Value c = none)
    (cs ds : List Char) (st : Base64State) :
    base64Decode st (cs ++ (es ++ ds)) = base64Decode st (cs ++ ds) := by
  induction cs generalizing st with
  | nil =>
    induction es with
    | nil => rfl
    | cons e es ih =>
      obtain ⟨hpad, hvalue⟩ := h e (by simp)
      rw [List.nil_append, List.cons_append, base64Decode, if_neg hpad, hvalue]
      exact ih (fun c hc => h c (List.mem_cons_of_mem _ hc))
  | cons c cs ih =>
    -- a step looks at its own character and leaves the rest to the state it goes on with
    simp only [List.cons_append, base64Decode, ih]

end Foundations
