import DecentralizedIDP.FoundationsJsonRoundTrip

/-! What the parser does with more text behind a text that it accepts. A document between
brackets or quotes ends where it ends, so a text that was broken off is no document. -/
namespace Foundations

/-! ## More text behind -/

theorem push_some (c : Char) (r : Option (List Char × List Char)) (out rest : List Char)
    (h : push c r = some (out, rest)) : ∃ out', r = some (out', rest) ∧ out = c :: out' := by
  obtain ⟨⟨out', rest'⟩, hr, heq⟩ := Option.map_eq_some_iff.mp h
  obtain ⟨rfl, rfl⟩ := Prod.mk.inj heq
  exact ⟨out', hr, rfl⟩

theorem scanString_append (cs out rest more : List Char) (h : scanString cs = some (out, rest)) :
    scanString (cs ++ more) = some (out, rest ++ more) := by
  -- each character that is read stays what it is, and the closing quote is where it was
  fun_induction scanString cs generalizing out with
  | case1 => cases h
  | case2 cs =>
    obtain ⟨rfl, rfl⟩ := Prod.mk.inj (Option.some.inj h)
    rw [List.cons_append, scanString]
  | case4 a b c d cs n hn hplane ih =>
    obtain ⟨out', hout, rfl⟩ := push_some _ _ _ _ h
    simp only [List.cons_append, scanString, hn, if_pos hplane, ih out' hout, push,
      Option.map_some]
  | case6 a b c d n hn hplane a' b' c' d' cs m hm hpair ih =>
    obtain ⟨out', hout, rfl⟩ := push_some _ _ _ _ h
    simp only [List.cons_append, scanString, hn, if_neg hplane, hm, if_pos hpair, ih out' hout,
      push, Option.map_some]
  | case10 e cs hplain c hc ih =>
    obtain ⟨out', hout, rfl⟩ := push_some _ _ _ _ h
    have he : e ≠ 'u' := by
      intro heq
      have hnone : unescape 'u' = none := by decide
      rw [heq, hnone] at hc
      cases hc
    rw [List.cons_append, List.cons_append, scanString_short e c _ he hc, ih out' hout, push,
      Option.map_some]
  | case12 c cs hquote hhex hescape hplain ih =>
    obtain ⟨out', hout, rfl⟩ := push_some _ _ _ _ h
    rw [not_or] at hplain
    rw [List.cons_append, scanString_plain c _ hquote hplain.2 (not_lt.mp hplain.1), ih out' hout,
      push, Option.map_some]
  | _ => cases h

theorem skipSpace_append (cs more : List Char) (h : skipSpace cs ≠ []) :
    skipSpace (cs ++ more) = skipSpace cs ++ more := by
  induction cs with
  | nil => exact absurd rfl h
  | cons c cs ih =>
    rw [List.cons_append, skipSpace, skipSpace]
    rw [skipSpace] at h
    split_ifs at h ⊢ with hblank
    · exact ih h
    · rfl

theorem skipSpace_blanks (cs more : List Char) (h : skipSpace cs = []) :
    skipSpace (cs ++ more) = skipSpace more := by
  induction cs with
  | nil => rfl
  | cons c cs ih =>
    rw [skipSpace] at h
    rw [List.cons_append, skipSpace]
    split_ifs at h ⊢ with hblank
    exact ih h

/-- An array, an object or a string: it ends with its own last character. -/
def Json.Closed : Json → Prop
  | .str _ => True
  | .arr _ => True
  | .obj _ => True
  | _ => False

/-- No keyword is a first part of another one with more text behind. -/
theorem keywords_find (kv : List Char × Json) (hkv : kv ∈ keywords) (rest : List Char) :
    scanKeyword (kv.1 ++ rest) = some (kv.2, rest) := by
  rw [keywords] at hkv
  simp only [List.mem_cons, List.not_mem_nil, or_false] at hkv
  rcases hkv with hkv | hkv | hkv | hkv | hkv | hkv
  all_goals
    rw [hkv]
    rfl

theorem scanKeyword_append (cs rest more : List Char) (v : Json)
    (h : scanKeyword cs = some (v, rest)) : scanKeyword (cs ++ more) = some (v, rest ++ more) := by
  rw [scanKeyword] at h
  obtain ⟨kv, hkv, hmatch⟩ := List.exists_of_findSome?_eq_some h
  split_ifs at hmatch with hfront
  obtain ⟨tail, rfl⟩ := List.isPrefixOf_iff_prefix.mp hfront
  rw [List.drop_left, Option.some.injEq] at hmatch
  have hrest := congrArg Prod.snd hmatch
  have hvalue := congrArg Prod.fst hmatch
  dsimp only at hrest hvalue
  rw [← hrest, ← hvalue, List.append_assoc]
  exact keywords_find kv hkv _

theorem scanNumber_append (cs rest more : List Char) (v : Json) (h : scanNumber cs = some (v, rest))
    (hrest : rest ≠ []) (fuel : ℕ) : parseValue (fuel+1) (cs ++ more) = some (v, rest ++ more) := by
  rw [scanNumber, List.span_eq_takeWhile_dropWhile] at h
  obtain ⟨v', hvalue, heq⟩ := Option.map_eq_some_iff.mp h
  obtain ⟨rfl, rfl⟩ := Prod.mk.inj heq
  have hsplit : cs ++ more =
      cs.takeWhile isNumberChar ++ (cs.dropWhile isNumberChar ++ more) := by
    rw [← List.append_assoc, List.takeWhile_append_dropWhile]
  rw [hsplit]
  apply parseValue_number fuel _ _ _ (List.all_eq_true.mp List.all_takeWhile) hvalue
  -- the character that ended the token still does
  intro c hc
  have hstop := List.head?_dropWhile_not isNumberChar cs
  rw [List.head?_append_of_ne_nil _ hrest] at hc
  rwa [hc] at hstop

theorem scanNumber_open (cs rest : List Char) (v : Json) (h : scanNumber cs = some (v, rest)) :
    ¬v.Closed := by
  obtain ⟨v', hvalue, heq⟩ := Option.map_eq_some_iff.mp h
  obtain ⟨rfl, -⟩ := Prod.mk.inj heq
  unfold numberValue at hvalue
  dsimp only at hvalue
  split_ifs at hvalue <;>
  · cases hvalue
    exact id

/-- The end of a value is not moved by what stands behind it. -/
def Json.Ends (rest : List Char) (v : Json) : Prop := rest ≠ [] ∨ v.Closed

theorem parseValue_nil (fuel : ℕ) : parseValue fuel [] = none := by
  cases fuel with
  | zero => rfl
  | succ fuel => rfl

theorem parseElems_nil (fuel : ℕ) : parseElems fuel [] = none := by
  cases fuel with
  | zero => rfl
  | succ fuel => rw [parseElems, parseValue_nil]

theorem parseMembers_nil (fuel : ℕ) : parseMembers fuel [] = none := by
  cases fuel with
  | zero => rfl
  | succ fuel => rfl

theorem append_ne_cons {α : Type*} {l : List α} {a : α} (more : List α) (hl : l ≠ [])
    (h : ∀ t, l ≠ a :: t) (t : List α) : l ++ more ≠ a :: t := by
  cases l with
  | nil => exact absurd rfl hl
  | cons b l =>
    intro heq
    obtain ⟨rfl, -⟩ := List.cons.inj heq
    exact h l rfl

mutual
theorem parseValue_append (fuel : ℕ) (cs rest more : List Char) (v : Json)
    (h : parseValue fuel cs = some (v, rest)) (hend : v.Ends rest) :
    parseValue fuel (cs ++ more) = some (v, rest ++ more) := by
  match fuel with
  | 0 => cases h
  | fuel+1 =>
    rw [parseValue.eq_def] at h
    dsimp only at h
    split at h
    · obtain ⟨⟨out, rest'⟩, hscan, heq⟩ := Option.map_eq_some_iff.mp h
      obtain ⟨rfl, rfl⟩ := Prod.mk.inj heq
      rw [List.cons_append, parseValue, scanString_append _ _ _ more hscan, Option.map_some]
    · next cs' =>
      rw [List.cons_append, parseValue]
      have hnil : skipSpace cs' ≠ [] := by
        intro hnil
        simp only [hnil, parseElems_nil] at h
        cases h
      rw [skipSpace_append cs' more hnil]
      split at h
      · next hclose =>
        rw [hclose, List.cons_append]
        cases h
        rfl
      · next hopen =>
        obtain ⟨⟨es, rest'⟩, helems, heq⟩ := Option.map_eq_some_iff.mp h
        obtain ⟨rfl, rfl⟩ := Prod.mk.inj heq
        split
        · next hclose => exact absurd hclose (append_ne_cons more hnil hopen _)
        · rw [parseElems_append fuel _ _ more es helems, Option.map_some]
    · next cs' =>
      rw [List.cons_append, parseValue]
      have hnil : skipSpace cs' ≠ [] := by
        intro hnil
        simp only [hnil, parseMembers_nil] at h
        cases h
      rw [skipSpace_append cs' more hnil]
      split at h
      · next hclose =>
        rw [hclose, List.cons_append]
        cases h
        rfl
      · next hopen =>
        obtain ⟨⟨ms, rest'⟩, hmembers, heq⟩ := Option.map_eq_some_iff.mp h
        obtain ⟨rfl, rfl⟩ := Prod.mk.inj heq
        split
        · next hclose => exact absurd hclose (append_ne_cons more hnil hopen _)
        · rw [parseMembers_append fuel _ _ more ms hmembers, Option.map_some]
    · next hquote hbracket hbrace =>
      cases hkeyword : scanKeyword cs with
      | some found =>
        rw [hkeyword] at h
        obtain rfl := Option.some.inj h
        have hcs : cs ≠ [] := by
          rintro rfl
          cases hkeyword
        rw [parseValue, scanKeyword_append cs rest more v hkeyword]
        · rfl
        · exact append_ne_cons more hcs hquote
        · exact append_ne_cons more hcs hbracket
        · exact append_ne_cons more hcs hbrace
      | none =>
        rw [hkeyword, Option.orElse_none] at h
        have hrest : rest ≠ [] := by
          rcases hend with hrest | hclosed
          · exact hrest
          · exact absurd hclosed (scanNumber_open cs rest v h)
        exact scanNumber_append cs rest more v h hrest fuel
theorem parseElems_append (fuel : ℕ) (cs rest more : List Char) (es : List Json)
    (h : parseElems fuel cs = some (es, rest)) :
    parseElems fuel (cs ++ more) = some (es, rest ++ more) := by
  match fuel with
  | 0 => cases h
  | fuel+1 =>
    rw [parseElems] at h ⊢
    split at h
    · cases h
    · next v after hvalue =>
      have hnil : skipSpace after ≠ [] := by
        intro hnil
        simp only [hnil] at h
        cases h
      have hafter : after ≠ [] := by
        rintro rfl
        exact hnil rfl
      rw [parseValue_append fuel cs after more v hvalue (Or.inl hafter)]
      dsimp only
      rw [skipSpace_append after more hnil]
      split at h
      · next hclose =>
        rw [hclose, List.cons_append]
        cases h
        rfl
      · next cs' hcomma =>
        obtain ⟨⟨es', rest'⟩, helems, heq⟩ := Option.map_eq_some_iff.mp h
        obtain ⟨rfl, rfl⟩ := Prod.mk.inj heq
        have hnext : skipSpace cs' ≠ [] := by
          intro hnext
          rw [hnext, parseElems_nil] at helems
          cases helems
        rw [hcomma, List.cons_append]
        simp only [skipSpace_append cs' more hnext, parseElems_append fuel _ _ more es' helems,
          Option.map_some]
      · cases h
theorem parseMembers_append (fuel : ℕ) (cs rest more : List Char) (ms : List (String × Json))
    (h : parseMembers fuel cs = some (ms, rest)) :
    parseMembers fuel (cs ++ more) = some (ms, rest ++ more) := by
  match fuel with
  | 0 => cases h
  | fuel+1 =>
    rw [parseMembers.eq_def] at h
    dsimp only at h
    split at h
    · next cs' =>
      rw [List.cons_append, parseMembers]
      split at h
      · cases h
      · next key after hkey =>
        rw [scanString_append cs' key after more hkey]
        dsimp only
        have hafter : skipSpace after ≠ [] := by
          intro hnil
          simp only [hnil] at h
          cases h
        rw [skipSpace_append after more hafter]
        split at h
        · next body hcolon =>
          rw [hcolon, List.cons_append]
          split at h
          · cases h
          · next v tail hvalue =>
            have hbody : skipSpace body ≠ [] := by
              intro hnil
              rw [hnil, parseValue_nil] at hvalue
              cases hvalue
            have hnil : skipSpace tail ≠ [] := by
              intro hnil
              simp only [hnil] at h
              cases h
            have htail : tail ≠ [] := by
              rintro rfl
              exact hnil rfl
            simp only [skipSpace_append body more hbody,
              parseValue_append fuel _ tail more v hvalue (Or.inl htail),
              skipSpace_append tail more hnil]
            split at h
            · next hclose =>
              rw [hclose, List.cons_append]
              cases h
              rfl
            · next cs'' hcomma =>
              obtain ⟨⟨ms', rest'⟩, hmembers, heq⟩ := Option.map_eq_some_iff.mp h
              obtain ⟨rfl, rfl⟩ := Prod.mk.inj heq
              have hnext : skipSpace cs'' ≠ [] := by
                intro hnext
                rw [hnext, parseMembers_nil] at hmembers
                cases hmembers
              rw [hcomma, List.cons_append]
              simp only [skipSpace_append cs'' more hnext,
                parseMembers_append fuel _ _ more ms' hmembers, Option.map_some]
            · cases h
        · cases h
    · cases h
end

/-! ## More fuel -/

mutual
theorem parseValue_succ (fuel : ℕ) (cs : List Char) (r : Json × List Char)
    (h : parseValue fuel cs = some r) : parseValue (fuel+1) cs = some r := by
  match fuel with
  | 0 => cases h
  | fuel+1 =>
    rw [parseValue.eq_def] at h
    dsimp only at h
    split at h
    · rwa [parseValue]
    · next cs' =>
      rw [parseValue]
      split at h
      · exact h
      · obtain ⟨es, helems, rfl⟩ := Option.map_eq_some_iff.mp h
        rw [parseElems_succ fuel _ es helems, Option.map_some]
    · next cs' =>
      rw [parseValue]
      split at h
      · exact h
      · obtain ⟨ms, hmembers, rfl⟩ := Option.map_eq_some_iff.mp h
        rw [parseMembers_succ fuel _ ms hmembers, Option.map_some]
    · next hquote hbracket hbrace =>
      rwa [parseValue]
      · exact hquote
      · exact hbracket
      · exact hbrace
theorem parseElems_succ (fuel : ℕ) (cs : List Char) (r : List Json × List Char)
    (h : parseElems fuel cs = some r) : parseElems (fuel+1) cs = some r := by
  match fuel with
  | 0 => cases h
  | fuel+1 =>
    rw [parseElems] at h ⊢
    split at h
    · cases h
    · next v after hvalue =>
      rw [parseValue_succ fuel cs _ hvalue]
      dsimp only
      split at h
      · exact h
      · obtain ⟨es, helems, rfl⟩ := Option.map_eq_some_iff.mp h
        rw [parseElems_succ fuel _ es helems, Option.map_some]
      · cases h
theorem parseMembers_succ (fuel : ℕ) (cs : List Char) (r : List (String × Json) × List Char)
    (h : parseMembers fuel cs = some r) : parseMembers (fuel+1) cs = some r := by
  match fuel with
  | 0 => cases h
  | fuel+1 =>
    rw [parseMembers.eq_def] at h
    dsimp only at h
    split at h
    · next cs' =>
      rw [parseMembers]
      split at h
      · cases h
      · split at h
        · next body hcolon =>
          split at h
          · cases h
          · next v tail hvalue =>
            simp only [parseValue_succ fuel _ _ hvalue]
            split at h
            · exact h
            · obtain ⟨ms, hmembers, rfl⟩ := Option.map_eq_some_iff.mp h
              rw [parseMembers_succ fuel _ ms hmembers, Option.map_some]
            · cases h
        · cases h
    · cases h
end

theorem parseValue_mono (fuel fuel' : ℕ) (hle : fuel ≤ fuel') (cs : List Char)
    (r : Json × List Char) (h : parseValue fuel cs = some r) : parseValue fuel' cs = some r := by
  induction fuel', hle using Nat.le_induction with
  | base => exact h
  | succ fuel' _ ih => exact parseValue_succ fuel' cs r ih

/-! ## Whole texts -/

/-- Behind a closed document there may be nothing but blanks. -/
theorem loads_append (cs more : List Char) (v : Json) (hv : v.Closed)
    (h : loads (String.ofList cs) = some v) :
    loads (String.ofList (cs ++ more)) = if skipSpace more = [] then some v else none := by
  rw [loads, String.toList_ofList] at h ⊢
  split at h
  · next v' rest hparse =>
    split_ifs at h with hrest
    obtain rfl := Option.some.inj h
    have hcs : skipSpace cs ≠ [] := by
      intro hnil
      rw [hnil, parseValue_nil] at hparse
      cases hparse
    have hmore := parseValue_append _ _ rest more v' hparse (Or.inr hv)
    rw [← skipSpace_append cs more hcs] at hmore
    rw [parseValue_mono _ ((cs ++ more).length+1) (by simp) _ _ hmore]
    dsimp only
    rw [skipSpace_blanks rest more hrest]
  · cases h

theorem closed_of_brace (cs : List Char) (v : Json)
    (h : loads (String.ofList ('\x7b' :: cs)) = some v) : v.Closed := by
  rw [loads, String.toList_ofList, skipSpace_of_not _ _ (by decide)] at h
  split at h
  · next v' rest hparse =>
    split_ifs at h
    obtain rfl := Option.some.inj h
    rw [parseValue] at hparse
    split at hparse
    · cases hparse
      trivial
    · obtain ⟨ms, -, heq⟩ := Option.map_eq_some_iff.mp hparse
      rw [← (Prod.mk.inj heq).1]
      trivial
  · cases h

theorem renderMembers_last (ms : List (String × Json)) :
    ∃ front, renderMembers ms = front ++ ['\x7d'] := by
  induction ms with
  | nil => exact ⟨[], rfl⟩
  | cons m ms ih =>
    obtain ⟨front, hfront⟩ := ih
    refine ⟨',' :: ' ' :: (escapeString m.1.toList ++ ':' :: ' ' :: (m.2.render ++ front)), ?_⟩
    simp only [renderMembers, hfront, List.cons_append, List.append_assoc]

theorem render_obj (ms : List (String × Json)) :
    ∃ front, (Json.obj ms).render = '\x7b' :: (front ++ ['\x7d']) := by
  cases ms with
  | nil => exact ⟨[], rfl⟩
  | cons m ms =>
    obtain ⟨front, hfront⟩ := renderMembers_last ms
    refine ⟨escapeString m.1.toList ++ ':' :: ' ' :: (m.2.render ++ front), ?_⟩
    simp only [Json.render, hfront, List.cons_append, List.append_assoc]

theorem skipSpace_ne_nil (cs : List Char) (c : Char)
    (hc : (c == ' ' || c == '\t' || c == '\n' || c == '\r') = false) :
    skipSpace (cs ++ [c]) ≠ [] := by
  by_cases hcs : skipSpace cs = []
  · rw [skipSpace_blanks cs _ hcs, skipSpace_of_not c _ hc]
    exact List.cons_ne_nil _ _
  · rw [skipSpace_append cs _ hcs]
    exact List.append_ne_nil_of_left_ne_nil hcs _

/-- A document between braces that was broken off before its end is no document. -/
theorem loads_broken (front : List Char) (v : Json)
    (h : loads (String.ofList ('\x7b' :: (front ++ ['\x7d']))) = some v) (n : ℕ)
    (hn : n < front.length+2) :
    loads (String.ofList (('\x7b' :: (front ++ ['\x7d'])).take n)) = none := by
  cases n with
  | zero => rfl
  | succ n =>
    rw [List.take_succ_cons]
    by_contra hsome
    obtain ⟨w, hw⟩ := Option.ne_none_iff_exists'.mp hsome
    -- what is missing ends with a brace, which is no blank
    have hmissing : (front ++ ['\x7d']).drop n = front.drop n ++ ['\x7d'] :=
      List.drop_append_of_le_length (by omega)
    have happend := loads_append _ ((front ++ ['\x7d']).drop n) w (closed_of_brace _ _ hw) hw
    rw [List.cons_append, List.take_append_drop, h, hmissing,
      if_neg (skipSpace_ne_nil _ _ (by decide))] at happend
    cases happend

theorem loads_broken_dumps (ms : List (String × Json)) (hv : (Json.obj ms).Valid) (n : ℕ)
    (hn : n < (Json.obj ms).render.length) :
    loads (String.ofList ((Json.obj ms).render.take n)) = none := by
  obtain ⟨front, hfront⟩ := render_obj ms
  have hwhole := loads_dumps (Json.obj ms) hv
  rw [dumps] at hwhole
  rw [hfront] at hn hwhole ⊢
  rw [List.length_cons, List.length_append, List.length_singleton] at hn
  exact loads_broken front _ hwhole n hn

end Foundations
