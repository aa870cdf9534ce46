import DecentralizedIDP.FoundationsJsonPrefix

/-! JSON text over several lines: a printer that is given the blanks between the entries, and
reading back what it printed. -/
namespace Foundations

/-- The blanks inside the brackets of a document at some depth: before the first entry, after
a comma, and before the closing bracket. -/
structure Layout where
  first : ℕ → List Char
  next : ℕ → List Char
  last : ℕ → List Char
  first_blank : ∀ d, skipSpace (first d) = []
  next_blank : ∀ d, skipSpace (next d) = []
  last_blank : ∀ d, skipSpace (last d) = []

/-- A new line that starts with `n` spaces. -/
def newLine (n : ℕ) : List Char := '\n' :: List.replicate n ' '

theorem newLine_blank (n : ℕ) : skipSpace (newLine n) = [] := by
  have hspaces : skipSpace (List.replicate n ' ') = [] := by
    induction n with
    | zero => rfl
    | succ n ih => exact ih
  exact hspaces

/-- One entry a line, as `json.dump(.., indent=width)` writes it. -/
def indented (width : ℕ) : Layout where
  first := fun d => newLine (width*(d+1))
  next := fun d => newLine (width*(d+1))
  last := fun d => newLine (width*d)
  first_blank := fun _ => newLine_blank _
  next_blank := fun _ => newLine_blank _
  last_blank := fun _ => newLine_blank _

mutual
def Json.renderIn (L : Layout) (d : ℕ) : Json → List Char
  | .arr (e :: es) => '[' :: (L.first d ++ (e.renderIn L (d+1) ++ renderElemsIn L d es))
  | .obj ((k, v) :: ms) =>
    '\x7b' :: (L.first d ++
      (escapeString k.toList ++ ':' :: ' ' :: (v.renderIn L (d+1) ++ renderMembersIn L d ms)))
  | v => v.render
def renderElemsIn (L : Layout) (d : ℕ) : List Json → List Char
  | [] => L.last d ++ [']']
  | e :: es => ',' :: (L.next d ++ (e.renderIn L (d+1) ++ renderElemsIn L d es))
def renderMembersIn (L : Layout) (d : ℕ) : List (String × Json) → List Char
  | [] => L.last d ++ ['\x7d']
  | (k, v) :: ms =>
    ',' :: (L.next d ++
      (escapeString k.toList ++ ':' :: ' ' :: (v.renderIn L (d+1) ++ renderMembersIn L d ms)))
end

def dumpsIndent (width : ℕ) (v : Json) : String := String.ofList (v.renderIn (indented width) 0)

/-! ## Reading it back -/

section Layout
variable (L : Layout) (d : ℕ)

theorem renderIn_head (v : Json) (hv : v.Valid) : ∃ c cs, v.renderIn L d = c :: cs ∧
    (c == ' ' || c == '\t' || c == '\n' || c == '\r') = false ∧ c ≠ ']' ∧ c ≠ '\x7d' := by
  match v with
  | .arr (_ :: _) => exact ⟨_, _, by rw [Json.renderIn], by decide, by decide, by decide⟩
  | .obj ((_, _) :: _) => exact ⟨_, _, by rw [Json.renderIn], by decide, by decide, by decide⟩
  | .arr [] => exact render_head _ hv
  | .obj [] => exact render_head _ hv
  | .null => exact render_head _ hv
  | .bool _ => exact render_head _ hv
  | .int _ => exact render_head _ hv
  | .float _ => exact render_head _ hv
  | .str _ => exact render_head _ hv

theorem skipSpace_renderIn (v : Json) (hv : v.Valid) (rest : List Char) :
    skipSpace (v.renderIn L d ++ rest) = v.renderIn L d ++ rest := by
  obtain ⟨c, cs, hc, hspace, -, -⟩ := renderIn_head L d v hv
  rw [hc, List.cons_append, skipSpace_of_not c _ hspace]

/-- Before a bracket that closes stand blanks, if anything. -/
theorem delimited_blanks (blanks rest : List Char) (h : skipSpace blanks = [])
    (hrest : Delimited rest) : Delimited (blanks ++ rest) := by
  cases blanks with
  | nil => exact hrest
  | cons c cs =>
    apply delimited_cons
    rw [skipSpace] at h
    split_ifs at h with hc
    simp only [Bool.or_eq_true, beq_iff_eq] at hc
    rcases hc with ((rfl | rfl) | rfl) | rfl <;> decide

theorem renderElemsIn_delimited (es : List Json) (rest : List Char) :
    Delimited (renderElemsIn L d es ++ rest) := by
  cases es with
  | nil =>
    rw [renderElemsIn, List.append_assoc]
    exact delimited_blanks _ _ (L.last_blank d) (delimited_cons _ _ (by decide))
  | cons e es =>
    rw [renderElemsIn]
    exact delimited_cons _ _ (by decide)

theorem renderMembersIn_delimited (ms : List (String × Json)) (rest : List Char) :
    Delimited (renderMembersIn L d ms ++ rest) := by
  cases ms with
  | nil =>
    rw [renderMembersIn, List.append_assoc]
    exact delimited_blanks _ _ (L.last_blank d) (delimited_cons _ _ (by decide))
  | cons m ms =>
    rw [renderMembersIn]
    exact delimited_cons _ _ (by decide)

theorem renderElemsIn_length_pos (es : List Json) : 1 ≤ (renderElemsIn L d es).length := by
  cases es <;> simp [renderElemsIn]

theorem renderMembersIn_length_pos (ms : List (String × Json)) :
    1 ≤ (renderMembersIn L d ms).length := by
  cases ms <;> simp [renderMembersIn]

theorem skipSpace_key (key : List Char) (rest : List Char) :
    skipSpace (escapeString key ++ rest) = escapeString key ++ rest := by
  rw [scanString_key, skipSpace_of_not _ _ (by decide)]

mutual
theorem parseValue_renderIn (d : ℕ) (v : Json) (hv : v.Valid) (fuel : ℕ) (rest : List Char)
    (hf : (v.renderIn L d).length ≤ fuel) (hr : Delimited rest) :
    parseValue fuel (v.renderIn L d ++ rest) = some (v, rest) := by
  match v with
  | .arr (e :: es) =>
    rw [Json.renderIn, List.length_cons, List.length_append] at hf
    obtain ⟨fuel, rfl⟩ : ∃ k, fuel = k+1 := ⟨fuel-1, by omega⟩
    have helems := parseElems_renderIn d e es hv fuel rest (by omega)
    obtain ⟨c, cs, hc, -, hclose, -⟩ := renderIn_head L (d+1) e hv.1
    have hopen : skipSpace (L.first d ++
        ((e.renderIn L (d+1) ++ renderElemsIn L d es) ++ rest)) =
          (e.renderIn L (d+1) ++ renderElemsIn L d es) ++ rest := by
      rw [skipSpace_blanks _ _ (L.first_blank d), List.append_assoc,
        skipSpace_renderIn L (d+1) e hv.1]
    rw [Json.renderIn, List.cons_append, parseValue, List.append_assoc, hopen]
    split
    · next h =>
      rw [hc] at h
      exact absurd (List.cons.inj h).1 hclose
    · rw [helems, Option.map_some]
  | .obj ((k, v) :: ms) =>
    rw [Json.renderIn, List.length_cons, List.length_append] at hf
    obtain ⟨fuel, rfl⟩ : ∃ k, fuel = k+1 := ⟨fuel-1, by omega⟩
    have hmembers := parseMembers_renderIn d k v ms hv fuel rest (by omega)
    rw [Json.renderIn, List.cons_append, parseValue, List.append_assoc,
      skipSpace_blanks _ _ (L.first_blank d)]
    rw [List.append_assoc] at hmembers ⊢
    rw [skipSpace_key]
    rw [scanString_key] at hmembers ⊢
    exact congrArg (Option.map _) hmembers
  | .arr [] => exact parseValue_render _ hv fuel rest hf hr
  | .obj [] => exact parseValue_render _ hv fuel rest hf hr
  | .null => exact parseValue_render _ hv fuel rest hf hr
  | .bool _ => exact parseValue_render _ hv fuel rest hf hr
  | .int _ => exact parseValue_render _ hv fuel rest hf hr
  | .float _ => exact parseValue_render _ hv fuel rest hf hr
  | .str _ => exact parseValue_render _ hv fuel rest hf hr
termination_by fuel
theorem parseElems_renderIn (d : ℕ) (e : Json) (es : List Json) (hv : ValidElems (e :: es))
    (fuel : ℕ) (rest : List Char)
    (hf : (e.renderIn L (d+1) ++ renderElemsIn L d es).length ≤ fuel) :
    parseElems fuel ((e.renderIn L (d+1) ++ renderElemsIn L d es) ++ rest) =
      some (e :: es, rest) := by
  have hpos := renderElemsIn_length_pos L d es
  rw [List.length_append] at hf
  obtain ⟨fuel, rfl⟩ : ∃ k, fuel = k+1 := ⟨fuel-1, by omega⟩
  have hfirst := parseValue_renderIn (d+1) e hv.1 fuel (renderElemsIn L d es ++ rest) (by omega)
    (renderElemsIn_delimited L d es rest)
  rw [List.append_assoc, parseElems, hfirst]
  dsimp only
  match es with
  | [] =>
    rw [renderElemsIn, List.append_assoc, skipSpace_blanks _ _ (L.last_blank d)]
    rfl
  | e' :: es' =>
    rw [renderElemsIn, List.length_cons, List.length_append] at hf
    have hnext := parseElems_renderIn d e' es' hv.2 fuel rest (by omega)
    have hskip : skipSpace (L.next d ++
        ((e'.renderIn L (d+1) ++ renderElemsIn L d es') ++ rest)) =
          (e'.renderIn L (d+1) ++ renderElemsIn L d es') ++ rest := by
      rw [skipSpace_blanks _ _ (L.next_blank d), List.append_assoc,
        skipSpace_renderIn L (d+1) e' hv.2.1]
    rw [renderElemsIn, List.cons_append, skipSpace_of_not _ _ (by decide), List.append_assoc]
    simp only [hskip, hnext, Option.map_some]
termination_by fuel
theorem parseMembers_renderIn (d : ℕ) (k : String) (v : Json) (ms : List (String × Json))
    (hv : ValidMembers ((k, v) :: ms)) (fuel : ℕ) (rest : List Char)
    (hf : (escapeString k.toList ++
      ':' :: ' ' :: (v.renderIn L (d+1) ++ renderMembersIn L d ms)).length ≤ fuel) :
    parseMembers fuel ((escapeString k.toList ++
      ':' :: ' ' :: (v.renderIn L (d+1) ++ renderMembersIn L d ms)) ++ rest) =
        some ((k, v) :: ms, rest) := by
  have hpos := renderMembersIn_length_pos L d ms
  simp only [List.length_append, List.length_cons] at hf
  obtain ⟨fuel, rfl⟩ : ∃ k, fuel = k+1 := ⟨fuel-1, by omega⟩
  have hvalue := parseValue_renderIn (d+1) v hv.1 fuel (renderMembersIn L d ms ++ rest)
    (by omega) (renderMembersIn_delimited L d ms rest)
  have hspace : skipSpace (' ' :: (v.renderIn L (d+1) ++ (renderMembersIn L d ms ++ rest))) =
      v.renderIn L (d+1) ++ (renderMembersIn L d ms ++ rest) :=
    skipSpace_renderIn L (d+1) v hv.1 _
  rw [List.append_assoc, scanString_key, parseMembers, scanString_escapeString]
  simp only [List.cons_append, List.append_assoc]
  rw [skipSpace_of_not ':' _ (by decide)]
  simp only [hspace, hvalue]
  match ms with
  | [] =>
    rw [renderMembersIn, List.append_assoc, skipSpace_blanks _ _ (L.last_blank d),
      String.ofList_toList]
    rfl
  | (k', v') :: ms' =>
    simp only [renderMembersIn, List.length_cons, List.length_append] at hf
    have hnext := parseMembers_renderIn d k' v' ms' hv.2 fuel rest (by
      simp only [List.length_append, List.length_cons]
      omega)
    rw [renderMembersIn, List.cons_append, skipSpace_of_not _ _ (by decide), List.append_assoc]
    rw [List.append_assoc] at hnext ⊢
    simp only [skipSpace_blanks _ _ (L.next_blank d), skipSpace_key, hnext, Option.map_some,
      String.ofList_toList]
termination_by fuel
end

/-- Whatever the layout, what was printed is read back. -/
theorem loads_renderIn (v : Json) (hv : v.Valid) :
    loads (String.ofList (v.renderIn L d)) = some v := by
  have hskip := skipSpace_renderIn L d v hv []
  have hparse := parseValue_renderIn L d v hv ((v.renderIn L d).length+1) [] (by omega)
    (by simp [Delimited])
  rw [List.append_nil] at hskip hparse
  rw [loads, String.toList_ofList, hskip, hparse]
  rfl

theorem renderMembersIn_last (ms : List (String × Json)) :
    ∃ front, renderMembersIn L d ms = front ++ ['\x7d'] := by
  induction ms with
  | nil => exact ⟨_, by rw [renderMembersIn]⟩
  | cons m ms ih =>
    obtain ⟨front, hfront⟩ := ih
    refine ⟨',' :: (L.next d ++
      (escapeString m.1.toList ++ ':' :: ' ' :: (m.2.renderIn L (d+1) ++ front))), ?_⟩
    simp only [renderMembersIn, hfront, List.cons_append, List.append_assoc]

theorem renderIn_obj (ms : List (String × Json)) :
    ∃ front, (Json.obj ms).renderIn L d = '\x7b' :: (front ++ ['\x7d']) := by
  cases ms with
  | nil => exact ⟨[], rfl⟩
  | cons m ms =>
    obtain ⟨front, hfront⟩ := renderMembersIn_last L d ms
    refine ⟨L.first d ++
      (escapeString m.1.toList ++ ':' :: ' ' :: (m.2.renderIn L (d+1) ++ front)), ?_⟩
    simp only [Json.renderIn, hfront, List.cons_append, List.append_assoc]

theorem loads_broken_renderIn (ms : List (String × Json)) (hv : (Json.obj ms).Valid) (n : ℕ)
    (hn : n < ((Json.obj ms).renderIn L d).length) :
    loads (String.ofList (((Json.obj ms).renderIn L d).take n)) = none := by
  obtain ⟨front, hfront⟩ := renderIn_obj L d ms
  have hwhole := loads_renderIn L d (Json.obj ms) hv
  rw [hfront] at hn hwhole ⊢
  rw [List.length_cons, List.length_append, List.length_singleton] at hn
  exact loads_broken front _ hwhole n hn

end Layout

/-! ## Setting a member -/

/-- `d[key] = value`. A key that is there keeps its place. -/
def setMember (key : String) (value : Json) : List (String × Json) → List (String × Json)
  | [] => [(key, value)]
  | m :: ms => if m.1 = key then (key, value) :: ms else m :: setMember key value ms

theorem mem_setMember (key : String) (value : Json) (ms : List (String × Json))
    (m : String × Json) (h : m ∈ setMember key value ms) : m = (key, value) ∨ m ∈ ms := by
  induction ms with
  | nil => exact Or.inl (List.mem_singleton.mp h)
  | cons m' ms ih =>
    rw [setMember] at h
    split_ifs at h with hkey
    · rcases List.mem_cons.mp h with rfl | hmem
      · exact Or.inl rfl
      · exact Or.inr (List.mem_cons_of_mem _ hmem)
    · rcases List.mem_cons.mp h with rfl | hmem
      · exact Or.inr List.mem_cons_self
      · exact (ih hmem).imp_right (List.mem_cons_of_mem _)

theorem setMember_keys (key : String) (value : Json) (ms : List (String × Json)) :
    (setMember key value ms).map Prod.fst =
      if key ∈ ms.map Prod.fst then ms.map Prod.fst else ms.map Prod.fst ++ [key] := by
  induction ms with
  | nil => rfl
  | cons m ms ih =>
    rw [setMember]
    by_cases hkey : m.1 = key
    · rw [if_pos hkey, if_pos (by rw [List.map_cons, hkey]; exact List.mem_cons_self),
        List.map_cons, List.map_cons, hkey]
    · have hmem : key ∈ (m :: ms).map Prod.fst ↔ key ∈ ms.map Prod.fst := by
        rw [List.map_cons, List.mem_cons]
        exact or_iff_right (Ne.symm hkey)
      rw [if_neg hkey, List.map_cons, ih, List.map_cons]
      by_cases hin : key ∈ ms.map Prod.fst
      · rw [if_pos hin, if_pos (List.mem_cons_of_mem _ hin)]
      · rw [if_neg hin, if_neg (by rwa [← List.map_cons, hmem]), List.cons_append]

theorem setMember_keys_nodup (key : String) (value : Json) (ms : List (String × Json))
    (h : (ms.map Prod.fst).Nodup) : ((setMember key value ms).map Prod.fst).Nodup := by
  rw [setMember_keys]
  split_ifs with hin
  · exact h
  · rw [← List.concat_eq_append]
    exact h.concat hin

theorem get?_cons (m : String × Json) (ms : List (String × Json)) (key : String) :
    (Json.obj (m :: ms)).get? key =
      ((Json.obj ms).get? key).or (if m.1 = key then some m.2 else none) := by
  rw [Json.get?, Json.get?, List.reverse_cons, List.find?_append, Option.map_or]
  congr 1
  by_cases hkey : m.1 = key
  · rw [List.find?_cons_of_pos (by simpa using hkey), if_pos hkey]
    rfl
  · rw [List.find?_cons_of_neg (by simpa using hkey), if_neg hkey]
    rfl

theorem get?_eq_none (ms : List (String × Json)) (key : String) (h : key ∉ ms.map Prod.fst) :
    (Json.obj ms).get? key = none := by
  induction ms with
  | nil => rfl
  | cons m ms ih =>
    rw [List.map_cons, List.mem_cons, not_or] at h
    rw [get?_cons, ih h.2, if_neg (Ne.symm h.1)]
    rfl

/-- In an object with distinct keys, setting one changes what is read there and nothing else. -/
theorem get?_setMember (key : String) (value : Json) (ms : List (String × Json))
    (h : (ms.map Prod.fst).Nodup) (key' : String) :
    (Json.obj (setMember key value ms)).get? key' =
      if key' = key then some value else (Json.obj ms).get? key' := by
  induction ms with
  | nil =>
    rw [setMember, get?_cons]
    by_cases hkey : key' = key
    · rw [if_pos hkey.symm, if_pos hkey]
      rfl
    · rw [if_neg (Ne.symm hkey), if_neg hkey]
      rfl
  | cons m ms ih =>
    rw [List.map_cons, List.nodup_cons] at h
    rw [setMember]
    by_cases hm : m.1 = key
    · rw [if_pos hm, get?_cons, get?_cons]
      by_cases hkey : key' = key
      · -- the key stands nowhere behind its place
        rw [hm, ← hkey] at h
        rw [get?_eq_none ms key' h.1, if_pos hkey.symm, if_pos hkey]
        rfl
      · rw [if_neg (Ne.symm hkey), if_neg hkey, hm, if_neg (Ne.symm hkey)]
    · rw [if_neg hm, get?_cons, get?_cons, ih h.2]
      by_cases hkey : key' = key
      · rw [if_pos hkey, if_pos hkey]
        rfl
      · rw [if_neg hkey, if_neg hkey]

end Foundations
