import DecentralizedIDP.FoundationsJson

/-! Reading back printed JSON: strings, numbers, and by recursion on the document
every value, list of elements and list of members. -/
namespace Foundations

/-! ## Strings -/

theorem scanString_plain (c : Char) (cs : List Char) (h1 : c ≠ '"') (h2 : c ≠ '\\')
    (h3 : 0x20 ≤ c.toNat) : scanString (c :: cs) = push c (scanString cs) := by
  rw [scanString.eq_def]
  split
  · contradiction
  · next h => exact absurd (List.cons.inj h).1 h1
  · next h => exact absurd (List.cons.inj h).1 h2
  · next h => exact absurd (List.cons.inj h).1 h2
  · next h =>
    obtain ⟨rfl, rfl⟩ := List.cons.inj h
    rw [if_neg]
    simp only [not_or]
    exact ⟨by omega, h2⟩

theorem scanString_short (e c : Char) (cs : List Char) (he : e ≠ 'u')
    (hu : unescape e = some c) : scanString ('\\' :: e :: cs) = push c (scanString cs) := by
  rw [scanString.eq_def]
  split
  · contradiction
  · next h => exact absurd (List.cons.inj h).1 (by decide)
  · next h => exact absurd (List.cons.inj (List.cons.inj h).2).1 he
  · next h =>
    obtain ⟨-, h⟩ := List.cons.inj h
    obtain ⟨rfl, rfl⟩ := List.cons.inj h
    rw [hu]
  · next _ hx h =>
    obtain ⟨rfl, rfl⟩ := List.cons.inj h
    exact (hx _ _ rfl rfl).elim

theorem hex4Value_hex4 (n : ℕ) (hn : n < 0x10000) :
    hex4Value (hexDigit (n/4096 % 16)) (hexDigit (n/256 % 16)) (hexDigit (n/16 % 16))
      (hexDigit (n % 16)) = some n := by
  have hd (k : ℕ) : hexValue (hexDigit (k % 16)) = some (k % 16) :=
    (hexDigit_facts _ (Nat.mod_lt _ (by decide))).1
  simp only [hex4Value, hd, Option.some.injEq]
  omega

theorem scanString_plane (n : ℕ) (cs : List Char) (hn : n < 0x10000)
    (hs : n < 0xd800 ∨ 0xdfff < n) :
    scanString ('\\' :: 'u' :: (hex4 n ++ cs)) = push (Char.ofNat n) (scanString cs) := by
  simp only [hex4, List.cons_append, List.nil_append]
  rw [scanString, hex4Value_hex4 n hn]
  exact if_pos hs

theorem scanString_pair (n m : ℕ) (cs : List Char) (hn : 0xd800 ≤ n ∧ n < 0xdc00)
    (hm : 0xdc00 ≤ m ∧ m ≤ 0xdfff) :
    scanString ('\\' :: 'u' :: (hex4 n ++ '\\' :: 'u' :: (hex4 m ++ cs))) =
      push (Char.ofNat (0x10000+(n-0xd800)*1024+(m-0xdc00))) (scanString cs) := by
  simp only [hex4, List.cons_append, List.nil_append]
  rw [scanString, hex4Value_hex4 n (by omega)]
  dsimp only
  rw [if_neg (by omega)]
  simp only [hex4Value_hex4 m (by omega)]
  exact if_pos ⟨hn.2, hm⟩

theorem char_not_surrogate (c : Char) :
    c.toNat < 0xd800 ∨ 0xdfff < c.toNat ∧ c.toNat < 0x110000 := by
  have h := c.valid
  simpa [UInt32.isValidChar, Nat.isValidChar] using h

theorem scanString_escapeChar (c : Char) (cs : List Char) :
    scanString (escapeChar c ++ cs) = push c (scanString cs) := by
  rw [escapeChar]
  split
  · next e he =>
    have hshort : e ≠ 'u' ∧ unescape e = some c := by
      obtain ⟨l₁, l₂, hl, -⟩ := List.lookup_eq_some_iff.mp he
      have hmem : (c, e) ∈ shortEscapes := by
        rw [hl]
        exact List.mem_append_right _ List.mem_cons_self
      have hall : ∀ p ∈ shortEscapes, p.2 ≠ 'u' ∧ unescape p.2 = some p.1 := by decide
      exact hall _ hmem
    exact scanString_short e c cs hshort.1 hshort.2
  · next hnone =>
    have hkey (k : Char) (hk : k ∈ shortEscapes.map Prod.fst) : c ≠ k := by
      obtain ⟨p, hp, rfl⟩ := List.mem_map.mp hk
      simpa using List.lookup_eq_none_iff.mp hnone p hp
    split_ifs with hp hb
    · exact scanString_plain c cs (hkey _ (by decide)) (hkey _ (by decide)) hp.1
    · have hscalar : c.toNat < 0xd800 ∨ 0xdfff < c.toNat := by
        rcases char_not_surrogate c with h | h <;> omega
      have hc := scanString_plane c.toNat cs hb hscalar
      rw [Char.ofNat_toNat] at hc
      exact hc
    · -- beyond the first plane: the two halves of the surrogate pair give the code point back
      have hc := scanString_pair (0xd800+(c.toNat-0x10000)/1024)
        (0xdc00+(c.toNat-0x10000) % 1024) cs
        (by rcases char_not_surrogate c with h | h <;> omega) (by omega)
      have hv : 0x10000+(0xd800+(c.toNat-0x10000)/1024-0xd800)*1024+
          (0xdc00+(c.toNat-0x10000) % 1024-0xdc00) = c.toNat := by omega
      rw [hv, Char.ofNat_toNat] at hc
      simpa only [List.cons_append, List.append_assoc] using hc

theorem scanString_escapeString (cs rest : List Char) :
    scanString (cs.flatMap escapeChar ++ '"' :: rest) = some (cs, rest) := by
  induction cs with
  | nil => rw [List.flatMap_nil, List.nil_append, scanString]
  | cons c cs ih =>
    rw [List.flatMap_cons, List.append_assoc, scanString_escapeChar, ih, push, Option.map_some]

/-! ## Numbers -/

/-- What follows a number does not continue it. -/
def Delimited (cs : List Char) : Prop := ∀ c ∈ cs.head?, isNumberChar c = false

theorem span_append_of_delimited (p : Char → Bool) (token rest : List Char)
    (ht : ∀ c ∈ token, p c = true) (hr : ∀ c ∈ rest.head?, p c = false) :
    (token ++ rest).span p = (token, rest) := by
  rw [List.span_eq_takeWhile_dropWhile, List.takeWhile_append_of_pos ht,
    List.dropWhile_append_of_pos ht]
  cases rest with
  | nil => simp
  | cons c rest =>
    have hc := hr c rfl
    simp [hc]

theorem splitSign_digit (d : Char) (cs : List Char) (hd : d.isDigit = true) :
    splitSign (d :: cs) = (false, d :: cs) := by
  rw [splitSign.eq_def]
  split
  · next h =>
    obtain ⟨rfl, -⟩ := List.cons.inj h
    exact absurd hd (by decide)
  · rfl

theorem splitSign_intChars (n : ℤ) (rest : List Char) :
    splitSign (intChars n ++ rest) = (decide (n < 0), Nat.toDigits 10 n.natAbs ++ rest) := by
  rw [intChars]
  split_ifs with hn
  · simp [splitSign, hn]
  · obtain ⟨d, ds, hd⟩ := List.exists_cons_of_ne_nil
      (Nat.toDigits_ne_nil (n := n.natAbs) (b := 10))
    have hdigit : d.isDigit = true :=
      Nat.isDigit_of_mem_toDigits (by decide) (by decide) (hd ▸ List.mem_cons_self)
    rw [hd, List.cons_append, splitSign_digit d _ hdigit, decide_eq_false hn]

/-- A whole number, and what a tail that does not start with a digit makes of it. -/
theorem numberValue_intChars_append (n : ℤ) (rest : List Char)
    (hr : ∀ c ∈ rest.head?, c.isDigit = false) :
    numberValue (intChars n ++ rest) =
      if rest = [] then some (.int n)
      else if isFraction rest then some (.float (String.ofList (intChars n ++ rest)))
      else none := by
  have hspan : (Nat.toDigits 10 n.natAbs ++ rest).span Char.isDigit =
      (Nat.toDigits 10 n.natAbs, rest) :=
    span_append_of_delimited Char.isDigit _ rest
      (fun c hc => Nat.isDigit_of_mem_toDigits (by decide) (by decide) hc) hr
  have hzero : ¬(Nat.toDigits 10 n.natAbs = [] ∨
      ((Nat.toDigits 10 n.natAbs).head? = some '0' ∧ (Nat.toDigits 10 n.natAbs).tail ≠ [])) := by
    rintro (h | ⟨h, ht⟩)
    · exact Nat.toDigits_ne_nil h
    · apply ht
      obtain ⟨d, ds, hd⟩ := List.exists_cons_of_ne_nil
        (Nat.toDigits_ne_nil (n := n.natAbs) (b := 10))
      rw [hd] at h ⊢
      simp only [List.head?_cons, Option.some.injEq] at h
      subst h
      exact toDigits_head_zero n.natAbs ds hd
  have hint : (if decide (n < 0) = true then -(n.natAbs : ℤ) else n.natAbs) = n := by
    split_ifs with hn
    · have hneg := of_decide_eq_true hn
      omega
    · have hpos : ¬n < 0 := fun h => hn (decide_eq_true h)
      omega
  simp only [numberValue, splitSign_intChars, hspan, if_neg hzero, digitsValue_toDigits, hint]

theorem numberValue_intChars (n : ℤ) : numberValue (intChars n) = some (.int n) := by
  have h := numberValue_intChars_append n [] (by simp)
  rwa [List.append_nil, if_pos rfl] at h

theorem intChars_injective : Function.Injective intChars := by
  intro m n h
  have hv := congrArg numberValue h
  rw [numberValue_intChars, numberValue_intChars] at hv
  exact Json.int.inj (Option.some.inj hv)

/-- A whole number, a point and some digits make a float. -/
theorem numberValue_fraction (n : ℤ) (ds : List Char) (hne : ds ≠ [])
    (hds : ∀ c ∈ ds, c.isDigit = true) : numberValue (intChars n ++ '.' :: ds) =
      some (.float (String.ofList (intChars n ++ '.' :: ds))) := by
  have hspan : ds.span Char.isDigit = (ds, []) := by
    have h := span_append_of_delimited Char.isDigit ds [] hds (by simp)
    rwa [List.append_nil] at h
  have hfraction : isFraction ('.' :: ds) = true := by
    simp only [isFraction, hspan, isExponent]
    simp [hne]
  rw [numberValue_intChars_append n ('.' :: ds) (by simp), if_neg (by simp), if_pos hfraction]

theorem numberValue_head (token : List Char) (v : Json) (h : numberValue token = some v) :
    ∃ d cs, d.isDigit = true ∧ (token = d :: cs ∨ token = '-' :: d :: cs) := by
  have hdigits : ((splitSign token).2.span Char.isDigit).1 ≠ [] := by
    intro hnil
    unfold numberValue at h
    rw [if_pos (Or.inl hnil)] at h
    cases h
  have hbody : ∃ d ds, d.isDigit = true ∧ (splitSign token).2 = d :: ds := by
    rw [List.span_eq_takeWhile_dropWhile] at hdigits
    cases hb : (splitSign token).2 with
    | nil => simp [hb] at hdigits
    | cons d ds =>
      refine ⟨d, ds, ?_, rfl⟩
      by_contra hd
      simp [hb, hd] at hdigits
  obtain ⟨d, ds, hd, hb⟩ := hbody
  refine ⟨d, ds, hd, ?_⟩
  rw [splitSign.eq_def] at hb
  split at hb
  · exact Or.inr (congrArg _ hb)
  · exact Or.inl hb

theorem scanKeyword_digit (d : Char) (cs : List Char) (hd : d.isDigit = true) :
    scanKeyword (d :: cs) = none ∧ scanKeyword ('-' :: d :: cs) = none := by
  have hne (c : Char) (hc : c.isDigit = false) : c ≠ d := by
    rintro rfl
    rw [hd] at hc
    cases hc
  constructor <;>
    simp [scanKeyword, keywords, hne 'n' (by decide), hne 't' (by decide), hne 'f' (by decide),
      hne 'N' (by decide), hne 'I' (by decide), hne '-' (by decide)]

theorem scanNumber_token (token rest : List Char) (v : Json)
    (ht : ∀ c ∈ token, isNumberChar c = true) (hv : numberValue token = some v)
    (hr : Delimited rest) : scanNumber (token ++ rest) = some (v, rest) := by
  rw [scanNumber, span_append_of_delimited _ token rest ht hr, hv, Option.map_some]

/-- A literal that reads back as a float and nothing else. -/
def FloatLiteral (t : String) : Prop :=
  (∀ c ∈ t.toList, isNumberChar c = true) ∧ numberValue t.toList = some (.float t)

theorem intChars_number (n : ℤ) : ∀ c ∈ intChars n, isNumberChar c = true := by
  have hdigit (c : Char) (hc : c ∈ Nat.toDigits 10 n.natAbs) : isNumberChar c = true := by
    have h := Nat.isDigit_of_mem_toDigits (by decide) (by decide) hc
    simp [isNumberChar, h]
  intro c hc
  rw [intChars] at hc
  split_ifs at hc
  · rcases List.mem_cons.mp hc with rfl | hc
    · decide
    · exact hdigit c hc
  · exact hdigit c hc

theorem parseValue_number (fuel : ℕ) (token rest : List Char) (v : Json)
    (ht : ∀ c ∈ token, isNumberChar c = true) (hv : numberValue token = some v)
    (hr : Delimited rest) : parseValue (fuel+1) (token ++ rest) = some (v, rest) := by
  obtain ⟨d, cs, hd, htoken⟩ := numberValue_head token v hv
  have hkeyword : scanKeyword (token ++ rest) = none := by
    rcases htoken with rfl | rfl
    · exact (scanKeyword_digit d _ hd).1
    · exact (scanKeyword_digit d _ hd).2
  have hhead (c : Char) (hc : c.isDigit = false) (hminus : c ≠ '-') (ds : List Char) :
      token ++ rest ≠ c :: ds := by
    rcases htoken with rfl | rfl <;> intro h <;> obtain ⟨rfl, -⟩ := List.cons.inj h
    · rw [hd] at hc
      cases hc
    · exact hminus rfl
  rw [parseValue, hkeyword, Option.orElse_none, scanNumber_token token rest v ht hv hr]
  · exact fun ds => hhead '"' (by decide) (by decide) ds
  · exact fun ds => hhead '[' (by decide) (by decide) ds
  · exact fun ds => hhead '\x7b' (by decide) (by decide) ds

/-! ## The round trip -/

mutual
/-- Every float is a literal. -/
def Json.Valid : Json → Prop
  | .float t => FloatLiteral t
  | .arr es => ValidElems es
  | .obj ms => ValidMembers ms
  | _ => True
def ValidElems : List Json → Prop
  | [] => True
  | e :: es => e.Valid ∧ ValidElems es
def ValidMembers : List (String × Json) → Prop
  | [] => True
  | (_, v) :: ms => v.Valid ∧ ValidMembers ms
end

theorem render_head (v : Json) (hv : v.Valid) : ∃ c cs, v.render = c :: cs ∧
    (c == ' ' || c == '\t' || c == '\n' || c == '\r') = false ∧ c ≠ ']' ∧ c ≠ '\x7d' := by
  have hnumber (token : List Char) (v : Json) (ht : numberValue token = some v) :
      ∃ c cs, token = c :: cs ∧ (c == ' ' || c == '\t' || c == '\n' || c == '\r') = false ∧
        c ≠ ']' ∧ c ≠ '\x7d' := by
    obtain ⟨d, cs, hd, h | h⟩ := numberValue_head token v ht
    · refine ⟨d, cs, h, ?_, ?_, ?_⟩
      · have hne (k : Char) (hk : k.isDigit = false) : (d == k) = false := by
          rw [beq_eq_false_iff_ne]
          rintro rfl
          rw [hd] at hk
          cases hk
        simp only [hne ' ' (by decide), hne '\t' (by decide), hne '\n' (by decide),
          hne '\r' (by decide), Bool.or_false]
      · rintro rfl
        exact absurd hd (by decide)
      · rintro rfl
        exact absurd hd (by decide)
    · exact ⟨'-', d :: cs, h, by decide, by decide, by decide⟩
  match v with
  | .null => exact ⟨_, _, rfl, by decide, by decide, by decide⟩
  | .bool true => exact ⟨_, _, rfl, by decide, by decide, by decide⟩
  | .bool false => exact ⟨_, _, rfl, by decide, by decide, by decide⟩
  | .int n => exact hnumber _ _ (numberValue_intChars n)
  | .float t => exact hnumber _ _ hv.2
  | .str s => exact ⟨_, _, rfl, by decide, by decide, by decide⟩
  | .arr [] => exact ⟨_, _, rfl, by decide, by decide, by decide⟩
  | .arr (_ :: _) => exact ⟨_, _, rfl, by decide, by decide, by decide⟩
  | .obj [] => exact ⟨_, _, rfl, by decide, by decide, by decide⟩
  | .obj ((_, _) :: _) => exact ⟨_, _, rfl, by decide, by decide, by decide⟩

theorem skipSpace_render (v : Json) (hv : v.Valid) (rest : List Char) :
    skipSpace (v.render ++ rest) = v.render ++ rest := by
  obtain ⟨c, cs, hc, hspace, -, -⟩ := render_head v hv
  rw [hc, List.cons_append, skipSpace, hspace]
  rfl

theorem skipSpace_of_not (c : Char) (cs : List Char)
    (hc : (c == ' ' || c == '\t' || c == '\n' || c == '\r') = false) :
    skipSpace (c :: cs) = c :: cs := by
  rw [skipSpace, hc]
  rfl

theorem delimited_cons (c : Char) (cs : List Char) (hc : isNumberChar c = false) :
    Delimited (c :: cs) := by
  intro d hd
  obtain rfl := Option.some.inj hd
  exact hc

theorem renderElems_delimited (es : List Json) (rest : List Char) :
    Delimited (renderElems es ++ rest) := by
  cases es with
  | nil => exact delimited_cons _ _ (by decide)
  | cons e es => exact delimited_cons _ _ (by decide)

theorem renderMembers_delimited (ms : List (String × Json)) (rest : List Char) :
    Delimited (renderMembers ms ++ rest) := by
  cases ms with
  | nil => exact delimited_cons _ _ (by decide)
  | cons m ms => exact delimited_cons _ _ (by decide)

theorem renderElems_length_pos (es : List Json) : 1 ≤ (renderElems es).length := by
  cases es <;> simp [renderElems]

theorem renderMembers_length_pos (ms : List (String × Json)) : 1 ≤ (renderMembers ms).length := by
  cases ms <;> simp [renderMembers]

theorem scanString_key (cs rest : List Char) :
    escapeString cs ++ rest = '"' :: (cs.flatMap escapeChar ++ '"' :: rest) := by
  simp only [escapeString, List.cons_append, List.append_assoc, List.nil_append]

mutual
theorem parseValue_render (v : Json) (hv : v.Valid) (fuel : ℕ) (rest : List Char)
    (hf : v.render.length ≤ fuel) (hr : Delimited rest) :
    parseValue fuel (v.render ++ rest) = some (v, rest) := by
  obtain ⟨c, cs, hhead, -, -, -⟩ := render_head v hv
  obtain ⟨fuel, rfl⟩ : ∃ k, fuel = k+1 := ⟨fuel-1, by rw [hhead] at hf; simp at hf; omega⟩
  match v with
  | .null => simp [Json.render, parseValue, scanKeyword, keywords]
  | .bool true => simp [Json.render, parseValue, scanKeyword, keywords]
  | .bool false => simp [Json.render, parseValue, scanKeyword, keywords]
  | .int n =>
    exact parseValue_number fuel _ rest _ (intChars_number n) (numberValue_intChars n) hr
  | .float t => exact parseValue_number fuel _ rest _ hv.1 hv.2 hr
  | .str s =>
    rw [Json.render, scanString_key, parseValue, scanString_escapeString, Option.map_some,
      String.ofList_toList]
  | .arr [] => simp [Json.render, parseValue, skipSpace]
  | .arr (e :: es) =>
    obtain ⟨d, ds, hd, hspace, hclose, -⟩ := render_head e hv.1
    have hlen : (e.render ++ renderElems es).length ≤ fuel := by
      simpa [Json.render] using hf
    have helems := parseElems_render e es hv fuel rest hlen
    rw [Json.render, List.cons_append, parseValue]
    rw [hd, List.cons_append, List.cons_append] at helems ⊢
    rw [skipSpace_of_not d _ hspace]
    split
    · next h => exact absurd (List.cons.inj h).1 hclose
    · rw [helems, Option.map_some]
  | .obj [] => simp [Json.render, parseValue, skipSpace]
  | .obj ((k, v) :: ms) =>
    have hlen : (escapeString k.toList ++ ':' :: ' ' ::
        (v.render ++ renderMembers ms)).length ≤ fuel := by
      simpa [Json.render] using hf
    have hmembers := parseMembers_render k v ms hv fuel rest hlen
    rw [Json.render, List.cons_append, parseValue]
    rw [List.append_assoc, scanString_key] at hmembers ⊢
    rw [skipSpace_of_not _ _ (by decide)]
    exact congrArg (Option.map _) hmembers
termination_by fuel
theorem parseElems_render (e : Json) (es : List Json) (hv : ValidElems (e :: es)) (fuel : ℕ)
    (rest : List Char) (hf : (e.render ++ renderElems es).length ≤ fuel) :
    parseElems fuel ((e.render ++ renderElems es) ++ rest) = some (e :: es, rest) := by
  have hpos := renderElems_length_pos es
  rw [List.length_append] at hf
  obtain ⟨fuel, rfl⟩ : ∃ k, fuel = k+1 := ⟨fuel-1, by omega⟩
  have hfirst := parseValue_render e hv.1 fuel (renderElems es ++ rest) (by omega)
    (renderElems_delimited es rest)
  rw [List.append_assoc, parseElems, hfirst]
  match es with
  | [] => simp [renderElems, skipSpace]
  | e' :: es' =>
    have hlen : (e'.render ++ renderElems es').length ≤ fuel := by
      simp only [renderElems, List.length_cons, List.length_append] at hf ⊢
      omega
    have hnext := parseElems_render e' es' hv.2 fuel rest hlen
    dsimp only
    rw [renderElems, List.cons_append, skipSpace_of_not _ _ (by decide)]
    rw [List.cons_append, List.append_assoc]
    rw [List.append_assoc] at hnext
    simp only []
    rw [show skipSpace (' ' :: (e'.render ++ (renderElems es' ++ rest))) =
      e'.render ++ (renderElems es' ++ rest) from skipSpace_render e' hv.2.1 _, hnext,
      Option.map_some]
termination_by fuel
theorem parseMembers_render (k : String) (v : Json) (ms : List (String × Json))
    (hv : ValidMembers ((k, v) :: ms)) (fuel : ℕ) (rest : List Char)
    (hf : (escapeString k.toList ++ ':' :: ' ' :: (v.render ++ renderMembers ms)).length ≤ fuel) :
    parseMembers fuel ((escapeString k.toList ++ ':' :: ' ' :: (v.render ++ renderMembers ms)) ++
      rest) = some ((k, v) :: ms, rest) := by
  have hpos := renderMembers_length_pos ms
  simp only [List.length_append, List.length_cons] at hf
  obtain ⟨fuel, rfl⟩ : ∃ k, fuel = k+1 := ⟨fuel-1, by omega⟩
  have hvalue := parseValue_render v hv.1 fuel (renderMembers ms ++ rest) (by omega)
    (renderMembers_delimited ms rest)
  rw [List.append_assoc, scanString_key, parseMembers, scanString_escapeString]
  simp only [List.cons_append, List.append_assoc]
  rw [skipSpace_of_not ':' _ (by decide)]
  simp only []
  rw [show skipSpace (' ' :: (v.render ++ (renderMembers ms ++ rest))) =
    v.render ++ (renderMembers ms ++ rest) from skipSpace_render v hv.1 _, hvalue]
  dsimp only
  match ms with
  | [] => simp [renderMembers, skipSpace]
  | (k', v') :: ms' =>
    have hlen : (escapeString k'.toList ++ ':' :: ' ' :: (v'.render ++ renderMembers ms')).length ≤
        fuel := by
      simp only [renderMembers, List.length_cons, List.length_append] at hf ⊢
      omega
    have hnext := parseMembers_render k' v' ms' hv.2 fuel rest hlen
    rw [List.append_assoc, scanString_key] at hnext
    rw [renderMembers, List.cons_append, skipSpace_of_not _ _ (by decide)]
    rw [List.cons_append, List.append_assoc, scanString_key]
    simp only []
    rw [skipSpace]
    rw [if_pos (by decide), skipSpace_of_not _ _ (by decide), hnext, Option.map_some,
      String.ofList_toList]
termination_by fuel
end

/-- Reading back what was printed. -/
theorem loads_dumps (v : Json) (hv : v.Valid) : loads (dumps v) = some v := by
  have hskip := skipSpace_render v hv []
  have hparse := parseValue_render v hv (v.render.length+1) [] (by omega) (by simp [Delimited])
  rw [List.append_nil] at hskip hparse
  rw [loads, dumps, String.toList_ofList, hskip, hparse]
  rfl

theorem validMembers_iff (ms : List (String × Json)) :
    ValidMembers ms ↔ ∀ m ∈ ms, m.2.Valid := by
  induction ms with
  | nil => simp [ValidMembers]
  | cons m ms ih => simp [ValidMembers, ih]

theorem validElems_iff (es : List Json) : ValidElems es ↔ ∀ e ∈ es, e.Valid := by
  induction es with
  | nil => simp [ValidElems]
  | cons e es ih => simp [ValidElems, ih]

theorem loads_dumpsSorted (ms : List (String × Json)) (hv : ∀ m ∈ ms, m.2.Valid) :
    loads (dumpsSorted ms) = some (.obj (sortMembers ms)) := by
  apply loads_dumps
  apply (validMembers_iff _).mpr
  intro m hm
  exact hv m ((List.perm_insertionSort _ ms).mem_iff.mp hm)

/-- Sorting the members does not change what a key stands for. -/
theorem get?_sortMembers (ms : List (String × Json)) (k : String) (v : Json)
    (hnodup : (ms.map Prod.fst).Nodup) (hm : (k, v) ∈ ms) :
    (Json.obj (sortMembers ms)).get? k = some v := by
  have hperm := List.perm_insertionSort (fun a b : String × Json => a.1 ≤ b.1) ms
  have hmem : (k, v) ∈ (sortMembers ms).reverse := by
    rw [List.mem_reverse]
    exact hperm.mem_iff.mpr hm
  have hkeys : ((sortMembers ms).reverse.map Prod.fst).Nodup := by
    rw [List.map_reverse, List.nodup_reverse]
    exact (hperm.map Prod.fst).nodup_iff.mpr hnodup
  rw [Json.get?]
  obtain ⟨m, hfind⟩ : ∃ m, (sortMembers ms).reverse.find? (fun m => m.1 == k) = some m := by
    apply Option.isSome_iff_exists.mp
    rw [List.find?_isSome]
    exact ⟨_, hmem, by simp⟩
  have hkey : m.1 = k := by simpa using List.find?_some hfind
  have hm' := List.mem_of_find?_eq_some hfind
  have heq := List.inj_on_of_nodup_map hkeys hm' hmem hkey
  rw [hfind, heq, Option.map_some]

end Foundations
