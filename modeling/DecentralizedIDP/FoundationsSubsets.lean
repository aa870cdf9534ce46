import Mathlib.Data.List.Sublists

/-! Subsets of a list in lexicographic order of positions, and a search that stops
at the first hit or at the first exception. -/
namespace Foundations

variable {α β ε : Type*}

/-! ## Combinations -/

/-- The `k`-element sublists, in lexicographic order of their positions. -/
def combinations : ℕ → List α → List (List α)
  | 0, _ => [[]]
  | _+1, [] => []
  | k+1, a :: as => (combinations k as).map (a :: ·) ++ combinations (k+1) as

theorem mem_combinations (k : ℕ) (l s : List α) :
    s ∈ combinations k l ↔ s.Sublist l ∧ s.length = k := by
  induction l generalizing k s with
  | nil =>
    cases k with
    | zero => simp [combinations]
    | succ k =>
      simp only [combinations, List.not_mem_nil, List.sublist_nil, false_iff, not_and]
      rintro rfl
      simp
  | cons a as ih =>
    cases k with
    | zero =>
      simp only [combinations, List.mem_singleton]
      constructor
      · rintro rfl
        exact ⟨List.nil_sublist _, rfl⟩
      · rintro ⟨-, h⟩
        exact List.length_eq_zero_iff.mp h
    | succ k =>
      simp only [combinations, List.mem_append, List.mem_map, ih]
      -- with the first element one fewer is taken from the rest, without it all of them
      constructor
      · rintro (⟨t, ⟨ht, hk⟩, rfl⟩ | ⟨hs, hk⟩)
        · exact ⟨ht.cons_cons a, by rw [List.length_cons, hk]⟩
        · exact ⟨hs.cons a, hk⟩
      · rintro ⟨hs, hk⟩
        cases hs with
        | cons _ hs => exact Or.inr ⟨hs, hk⟩
        | cons_cons _ hs => exact Or.inl ⟨_, ⟨hs, by simpa using hk⟩, rfl⟩

theorem combinations_map (f : α → β) (k : ℕ) (l : List α) :
    combinations k (l.map f) = (combinations k l).map (List.map f) := by
  induction l generalizing k with
  | nil => cases k <;> rfl
  | cons a as ih =>
    cases k with
    | zero => rfl
    | succ k =>
      simp only [List.map_cons, combinations, ih, List.map_append, List.map_map]
      rfl

theorem combinations_one (l : List α) : combinations 1 l = l.map (fun a => [a]) := by
  induction l with
  | nil => rfl
  | cons a l ih => rw [combinations, ih, combinations, List.map_cons, List.map_nil]; rfl

/-- The triples of a list start with those of its first two elements. -/
theorem combinations_three_row (a b : α) (rest : List α) :
    ∃ more, combinations 3 (a :: b :: rest) = rest.map (fun c => [a, b, c]) ++ more := by
  refine ⟨(combinations 2 rest).map (a :: ·) ++ combinations 3 (b :: rest), ?_⟩
  rw [combinations, combinations, combinations_one, List.map_append, List.map_map, List.map_map,
    List.append_assoc]
  rfl

/-- The first of all triples is that of the first three elements. -/
theorem combinations_three_first (a b c : α) (rest : List α) :
    ∃ more, combinations 3 (a :: b :: c :: rest) = [a, b, c] :: more := by
  obtain ⟨more, hrow⟩ := combinations_three_row a b (c :: rest)
  exact ⟨rest.map (fun d => [a, b, d]) ++ more, hrow⟩

/-- Two elements with one image can be brought to the front. -/
theorem exists_perm_of_not_nodup (f : α → β) (l : List α) (h : ¬(l.map f).Nodup) :
    ∃ a b rest, l.Perm (a :: b :: rest) ∧ f a = f b := by
  induction l with
  | nil => exact absurd List.nodup_nil h
  | cons c l ih =>
    rw [List.map_cons, List.nodup_cons, not_and_or, not_not] at h
    -- the first element has a partner further on, or the pair is in the rest
    rcases h with hmem | htail
    · obtain ⟨d, hd, hdc⟩ := List.mem_map.mp hmem
      obtain ⟨pre, post, rfl⟩ := List.append_of_mem hd
      exact ⟨c, d, pre ++ post, List.perm_middle.cons c, hdc.symm⟩
    · obtain ⟨a, b, rest, hperm, hab⟩ := ih htail
      have hpast : (c :: a :: b :: rest).Perm (a :: b :: c :: rest) :=
        (List.Perm.swap a c (b :: rest)).trans ((List.Perm.swap b c rest).cons a)
      exact ⟨a, b, c :: rest, (hperm.cons c).trans hpast, hab⟩

/-! ## Positions and keys -/

theorem filterMap_getElem?_range (l : List α) :
    (List.range l.length).filterMap (fun k => l[k]?) = l := by
  induction l using List.reverseRecOn with
  | nil => rfl
  | append_singleton l a ih =>
    have hold : (List.range l.length).filterMap (fun k => (l ++ [a])[k]?) = l := by
      refine (List.filterMap_congr ?_).trans ih
      intro k hk
      rw [List.getElem?_append_left (List.mem_range.mp hk)]
    rw [List.length_append, List.length_singleton, List.range_succ, List.filterMap_append, hold]
    simp

/-- The keys of the images are among the keys of the elements, in the same order. -/
theorem map_filterMap_sublist {γ : Type*} (f : α → Option β) (key : β → γ) (g : α → γ)
    (l : List α) (hkey : ∀ a ∈ l, ∀ b, f a = some b → key b = g a) :
    ((l.filterMap f).map key).Sublist (l.map g) := by
  induction l with
  | nil => exact List.Sublist.refl _
  | cons a l ih =>
    have hrest := ih (fun a' ha' => hkey a' (List.mem_cons_of_mem _ ha'))
    rw [List.filterMap_cons, List.map_cons]
    cases hfa : f a with
    | none => exact hrest.cons _
    | some b =>
      rw [List.map_cons, hkey a List.mem_cons_self b hfa]
      exact hrest.cons_cons _

/-! ## Searching with early exit -/

/-- Test the elements in order; stop at the first success or exception. -/
def findFirst (test : α → Except ε Bool) : List α → Except ε (Option α)
  | [] => .ok none
  | a :: as =>
    match test a with
    | .error e => .error e
    | .ok true => .ok (some a)
    | .ok false => findFirst test as

theorem findFirst_eq_some (test : α → Except ε Bool) (l : List α) (a : α) :
    findFirst test l = .ok (some a) ↔
      ∃ pre post, l = pre ++ a :: post ∧ (∀ b ∈ pre, test b = .ok false) ∧ test a = .ok true := by
  induction l with
  | nil => simp [findFirst]
  | cons b l ih =>
    rw [findFirst]
    constructor
    · intro h
      split at h
      · cases h
      · next hb =>
        cases h
        exact ⟨[], l, rfl, by simp, hb⟩
      · next hb =>
        obtain ⟨pre, post, rfl, hpre, ha⟩ := ih.mp h
        refine ⟨b :: pre, post, rfl, ?_, ha⟩
        intro c hc
        rcases List.mem_cons.mp hc with rfl | hc
        · exact hb
        · exact hpre c hc
    · rintro ⟨pre, post, hl, hpre, ha⟩
      cases pre with
      | nil =>
        obtain ⟨rfl, -⟩ := List.cons.inj hl
        rw [ha]
      | cons c pre =>
        obtain ⟨rfl, rfl⟩ := List.cons.inj hl
        rw [hpre b List.mem_cons_self]
        exact ih.mpr ⟨pre, post, rfl, fun d hd => hpre d (List.mem_cons_of_mem _ hd), ha⟩

theorem findFirst_eq_none (test : α → Except ε Bool) (l : List α) :
    findFirst test l = .ok none ↔ ∀ a ∈ l, test a = .ok false := by
  induction l with
  | nil => simp [findFirst]
  | cons b l ih =>
    rw [findFirst, List.forall_mem_cons, ← ih]
    cases test b with
    | error e => simp
    | ok hit => cases hit <;> simp

/-- With no exception in sight, a hit anywhere makes the search succeed. -/
theorem findFirst_of_hit (test : α → Except ε Bool) (l : List α)
    (hok : ∀ a ∈ l, ∃ b, test a = .ok b) (hit : ∃ a ∈ l, test a = .ok true) :
    ∃ a, findFirst test l = .ok (some a) := by
  induction l with
  | nil => simp at hit
  | cons b l ih =>
    rw [findFirst]
    obtain ⟨r, hr⟩ := hok b List.mem_cons_self
    cases r with
    -- the first element is the hit, or it answers and the search goes on
    | true => exact ⟨b, by rw [hr]⟩
    | false =>
      rw [hr]
      apply ih (fun a ha => hok a (List.mem_cons_of_mem _ ha))
      obtain ⟨a, ha, hta⟩ := hit
      rcases List.mem_cons.mp ha with rfl | ha
      · rw [hr] at hta
        cases hta
      · exact ⟨a, ha, hta⟩

/-- An exception before the first hit is raised. -/
theorem findFirst_of_error (test : α → Except ε Bool) (pre post : List α) (a : α) (e : ε)
    (hpre : ∀ b ∈ pre, test b = .ok false) (ha : test a = .error e) :
    findFirst test (pre ++ a :: post) = .error e := by
  induction pre with
  | nil => rw [List.nil_append, findFirst, ha]
  | cons b pre ih =>
    rw [List.cons_append, findFirst, hpre b List.mem_cons_self]
    exact ih (fun c hc => hpre c (List.mem_cons_of_mem _ hc))

/-- The search raises when an exception stands before every hit. -/
theorem findFirst_raises_iff (test : α → Except ε Bool) (l : List α) :
    (∃ e, findFirst test l = .error e) ↔ ∃ pre a post, l = pre ++ a :: post ∧
      (∀ b ∈ pre, test b ≠ .ok true) ∧ ∃ e, test a = .error e := by
  induction l with
  | nil => simp [findFirst]
  | cons b l ih =>
    rw [findFirst]
    constructor
    · rintro ⟨e, h⟩
      split at h
      · next e' hb => exact ⟨[], b, l, rfl, by simp, e', hb⟩
      · cases h
      · next hb =>
        obtain ⟨pre, a, post, rfl, hpre, ha⟩ := ih.mp ⟨e, h⟩
        refine ⟨b :: pre, a, post, rfl, ?_, ha⟩
        intro c hc
        rcases List.mem_cons.mp hc with rfl | hc
        · rw [hb]
          simp
        · exact hpre c hc
    · rintro ⟨pre, a, post, hl, hpre, e, ha⟩
      cases pre with
      | nil =>
        obtain ⟨rfl, -⟩ := List.cons.inj hl
        rw [ha]
        exact ⟨e, rfl⟩
      | cons c pre =>
        obtain ⟨rfl, rfl⟩ := List.cons.inj hl
        have hmiss := hpre b List.mem_cons_self
        have hrest := ih.mpr ⟨pre, a, post, rfl,
          fun d hd => hpre d (List.mem_cons_of_mem _ hd), e, ha⟩
        cases hb : test b with
        | error e' => exact ⟨e', rfl⟩
        | ok hit =>
          cases hit with
          | true => exact absurd hb hmiss
          | false => exact hrest

theorem findFirst_append_of_some (test : α → Except ε Bool) (l more : List α) (a : α)
    (h : findFirst test l = .ok (some a)) : findFirst test (l ++ more) = .ok (some a) := by
  obtain ⟨pre, post, rfl, hpre, ha⟩ := (findFirst_eq_some test l a).mp h
  exact (findFirst_eq_some test _ a).mpr ⟨pre, post ++ more, by simp, hpre, ha⟩

theorem findFirst_map (test : β → Except ε Bool) (f : α → β) (l : List α) :
    findFirst test (l.map f) =
      (findFirst (fun a => test (f a)) l).map (Option.map f) := by
  induction l with
  | nil => rfl
  | cons a l ih =>
    rw [List.map_cons, findFirst, findFirst]
    cases test (f a) with
    | error e => rfl
    | ok hit =>
      cases hit
      · exact ih
      · rfl

end Foundations
