import Mathlib.Data.List.Count
import Mathlib.Data.List.Induction
import Mathlib.Data.List.Nodup
import Mathlib.Tactic.Ring
import Mathlib.Data.Finset.Card

/-! Counting votes in arrival order. The winner is the value with the most votes,
and of several such values the one that was seen first. -/
namespace Foundations

variable {α : Type*} [DecidableEq α]

/-- One more vote; an unseen value goes to the end of the tally. -/
def tallyAdd (x : α) : List (α × ℕ) → List (α × ℕ)
  | [] => [(x, 1)]
  | (y, n) :: c => if y = x then (y, n+1) :: c else (y, n) :: tallyAdd x c

def tally (xs : List α) : List (α × ℕ) := xs.foldl (fun c x => tallyAdd x c) []

/-- The first entry with the greatest count. -/
def firstMax : List (α × ℕ) → Option (α × ℕ)
  | [] => none
  | e :: es =>
    match firstMax es with
    | none => some e
    | some b => if e.2 < b.2 then some b else some e

def mostCommon (xs : List α) : Option α := (firstMax (tally xs)).map Prod.fst

/-! ## What a tally records -/

/-- `c` lists every value of `xs` with the number of its votes. -/
structure Tallies (xs : List α) (c : List (α × ℕ)) : Prop where
  counts : ∀ e ∈ c, e.2 = xs.count e.1
  complete : ∀ x ∈ xs, ∃ e ∈ c, e.1 = x
  keys_nodup : (c.map Prod.fst).Nodup

theorem mem_tallyAdd_fst (x y : α) (c : List (α × ℕ)) :
    y ∈ (tallyAdd x c).map Prod.fst ↔ y = x ∨ y ∈ c.map Prod.fst := by
  induction c with
  | nil => simp [tallyAdd]
  | cons e c ih =>
    rw [tallyAdd]
    split_ifs with he
    · simp only [List.map_cons, List.mem_cons]
      constructor
      · exact Or.inr
      · rintro (rfl | h)
        · exact Or.inl he.symm
        · exact h
    · simp only [List.map_cons, List.mem_cons, ih]
      tauto

theorem mem_tallyAdd (x : α) (c : List (α × ℕ)) (hc : (c.map Prod.fst).Nodup) (e : α × ℕ)
    (he : e ∈ tallyAdd x c) :
    (e.1 ≠ x ∧ e ∈ c) ∨ (e = (x, 1) ∧ x ∉ c.map Prod.fst) ∨
      ∃ n, (x, n) ∈ c ∧ e = (x, n+1) := by
  induction c with
  | nil => exact Or.inr (Or.inl ⟨by simpa [tallyAdd] using he, by simp⟩)
  | cons d c ih =>
    obtain ⟨y, n⟩ := d
    simp only [List.map_cons, List.nodup_cons] at hc
    rw [tallyAdd] at he
    split_ifs at he with hy
    · subst hy
      -- the entry of `x` itself gained the vote, the others are as they were
      rcases List.mem_cons.mp he with rfl | he
      · exact Or.inr (Or.inr ⟨n, List.mem_cons_self, rfl⟩)
      · refine Or.inl ⟨fun h => hc.1 (h ▸ List.mem_map_of_mem he), List.mem_cons_of_mem _ he⟩
    · rcases List.mem_cons.mp he with rfl | he
      · exact Or.inl ⟨hy, List.mem_cons_self⟩
      · rcases ih hc.2 he with ⟨h1, h2⟩ | ⟨h1, h2⟩ | ⟨m, h1, h2⟩
        · exact Or.inl ⟨h1, List.mem_cons_of_mem _ h2⟩
        · refine Or.inr (Or.inl ⟨h1, ?_⟩)
          simp only [List.map_cons, List.mem_cons, not_or]
          exact ⟨fun h => hy h.symm, h2⟩
        · exact Or.inr (Or.inr ⟨m, List.mem_cons_of_mem _ h1, h2⟩)

theorem tallyAdd_keys_nodup (x : α) (c : List (α × ℕ)) (hc : (c.map Prod.fst).Nodup) :
    ((tallyAdd x c).map Prod.fst).Nodup := by
  induction c with
  | nil => simp [tallyAdd]
  | cons e c ih =>
    obtain ⟨y, n⟩ := e
    simp only [List.map_cons, List.nodup_cons] at hc
    rw [tallyAdd]
    split_ifs with hy
    · simpa only [List.map_cons, List.nodup_cons] using hc
    · simp only [List.map_cons, List.nodup_cons, mem_tallyAdd_fst, not_or]
      exact ⟨⟨hy, hc.1⟩, ih hc.2⟩

theorem tallies_snoc (xs : List α) (x : α) (c : List (α × ℕ)) (h : Tallies xs c) :
    Tallies (xs ++ [x]) (tallyAdd x c) := by
  have hcount (y : α) : (xs ++ [x]).count y = xs.count y+(if y = x then 1 else 0) := by
    rw [List.count_append, List.count_singleton]
    by_cases hy : y = x
    · simp [hy]
    · simp [hy, Ne.symm hy]
  refine ⟨?_, ?_, tallyAdd_keys_nodup x c h.keys_nodup⟩
  · -- an entry is that of another value, a new one, or an old one with one vote more
    intro e he
    rcases mem_tallyAdd x c h.keys_nodup e he with ⟨hne, hmem⟩ | ⟨rfl, hnew⟩ | ⟨n, hmem, rfl⟩
    · rw [hcount, if_neg hne, add_zero]
      exact h.counts e hmem
    -- a value without an entry had no vote yet
    · have hzero : xs.count x = 0 := by
        apply List.count_eq_zero_of_not_mem
        intro hx
        obtain ⟨d, hd, hdx⟩ := h.complete x hx
        exact hnew (hdx ▸ List.mem_map_of_mem hd)
      simp only [hcount, hzero, ↓reduceIte]
    · simp only [hcount, ↓reduceIte, ← h.counts _ hmem]
  · intro y hy
    have hkey : y ∈ (tallyAdd x c).map Prod.fst := by
      rw [mem_tallyAdd_fst]
      rcases List.mem_append.mp hy with hy | hy
      · obtain ⟨e, he, rfl⟩ := h.complete y hy
        exact Or.inr (List.mem_map_of_mem he)
      · exact Or.inl (List.mem_singleton.mp hy)
    exact List.mem_map.mp hkey

theorem tally_tallies (xs : List α) : Tallies xs (tally xs) := by
  induction xs using List.reverseRecOn with
  | nil => exact ⟨by simp [tally], by simp, by simp [tally]⟩
  | append_singleton xs x ih =>
    rw [tally, List.foldl_append, List.foldl_cons, List.foldl_nil]
    exact tallies_snoc xs x _ ih

/-! ## The winner -/

omit [DecidableEq α] in
theorem firstMax_eq_none (c : List (α × ℕ)) : firstMax c = none ↔ c = [] := by
  cases c with
  | nil => simp [firstMax]
  | cons e es =>
    rw [firstMax]
    split
    · simp
    · split_ifs <;> simp

omit [DecidableEq α] in
theorem firstMax_spec (c : List (α × ℕ)) (b : α × ℕ) (h : firstMax c = some b) :
    b ∈ c ∧ ∀ e ∈ c, e.2 ≤ b.2 := by
  induction c generalizing b with
  | nil => simp [firstMax] at h
  | cons e es ih =>
    rw [firstMax] at h
    split at h
    · next hnone =>
      have hes := (firstMax_eq_none es).mp hnone
      simp only [Option.some.injEq] at h
      subst hes h
      simp
    · next d hd =>
      obtain ⟨hmem, hmax⟩ := ih d hd
      -- the best of the rest wins only when it is strictly better: the first of equals stays
      split_ifs at h with hlt <;> simp only [Option.some.injEq] at h <;> subst h
      · refine ⟨List.mem_cons_of_mem _ hmem, ?_⟩
        intro f hf
        rcases List.mem_cons.mp hf with rfl | hf
        · exact hlt.le
        · exact hmax f hf
      · refine ⟨List.mem_cons_self, ?_⟩
        intro f hf
        rcases List.mem_cons.mp hf with rfl | hf
        · exact le_rfl
        · exact (hmax f hf).trans (not_lt.mp hlt)

theorem mostCommon_eq_none (xs : List α) : mostCommon xs = none ↔ xs = [] := by
  rw [mostCommon, Option.map_eq_none_iff, firstMax_eq_none]
  constructor
  · intro h
    by_contra hne
    obtain ⟨x, hx⟩ := List.exists_mem_of_ne_nil xs hne
    obtain ⟨e, he, -⟩ := (tally_tallies xs).complete x hx
    rw [h] at he
    exact List.not_mem_nil he
  · rintro rfl
    rfl

theorem mostCommon_spec (xs : List α) (x : α) (h : mostCommon xs = some x) :
    x ∈ xs ∧ ∀ y, xs.count y ≤ xs.count x := by
  have ht := tally_tallies xs
  obtain ⟨b, hb, rfl⟩ := Option.map_eq_some_iff.mp h
  obtain ⟨hmem, hmax⟩ := firstMax_spec _ b hb
  have hcount (y : α) (hy : y ∈ xs) : xs.count y ≤ xs.count b.1 := by
    obtain ⟨e, he, rfl⟩ := ht.complete y hy
    rw [← ht.counts e he, ← ht.counts b hmem]
    exact hmax e he
  have hbx : b.1 ∈ xs := by
    by_contra hn
    have hnil : xs ≠ [] := by
      rintro rfl
      simp [tally] at hmem
    obtain ⟨y, hy⟩ := List.exists_mem_of_ne_nil xs hnil
    have hpos := List.count_pos_iff.mpr hy
    have hle := hcount y hy
    rw [List.count_eq_zero_of_not_mem hn] at hle
    omega
  refine ⟨hbx, fun y => ?_⟩
  by_cases hy : y ∈ xs
  · exact hcount y hy
  · rw [List.count_eq_zero_of_not_mem hy]
    exact Nat.zero_le _

theorem count_add_count_le (xs : List α) (x y : α) (hxy : x ≠ y) :
    xs.count x+xs.count y ≤ xs.length := by
  induction xs with
  | nil => simp
  | cons a xs ih =>
    simp only [List.count_cons, List.length_cons, beq_iff_eq]
    split_ifs with hx hy hy
    · exact absurd (hx.symm.trans hy) hxy
    all_goals omega

/-- A value with more than half of the votes wins in every order of arrival. -/
theorem mostCommon_of_majority (xs : List α) (x : α) (h : xs.length < 2*xs.count x) :
    mostCommon xs = some x := by
  cases hw : mostCommon xs with
  | none =>
    rw [mostCommon_eq_none] at hw
    subst hw
    simp at h
  | some w =>
    -- another winner would have as many votes, and there are not enough for both
    have hmax := (mostCommon_spec xs w hw).2 x
    by_contra hne
    have hwx : w ≠ x := fun he => hne (congrArg some he)
    have hle := count_add_count_le xs w x hwx
    omega

/-! ## One vote per key -/

section KeepFirst
variable {κ : Type*} [DecidableEq κ] (key : α → κ)

def keepNew (kept : List α) (a : α) : List α :=
  if key a ∈ kept.map key then kept else kept ++ [a]

/-- The first element with each key, in order. -/
def keepFirst (l : List α) : List α := l.foldl (keepNew key) []

omit [DecidableEq α] in
theorem keepFirst_snoc (l : List α) (a : α) :
    keepFirst key (l ++ [a]) = keepNew key (keepFirst key l) a := by
  rw [keepFirst, List.foldl_append, List.foldl_cons, List.foldl_nil, ← keepFirst]

omit [DecidableEq α] in
theorem keepFirst_sublist (l : List α) : (keepFirst key l).Sublist l := by
  induction l using List.reverseRecOn with
  | nil => exact List.Sublist.refl _
  | append_singleton l a ih =>
    rw [keepFirst_snoc, keepNew]
    split_ifs
    · exact ih.trans (List.sublist_append_left l [a])
    · exact ih.append (List.Sublist.refl [a])

omit [DecidableEq α] in
theorem keepFirst_keys_nodup (l : List α) : ((keepFirst key l).map key).Nodup := by
  induction l using List.reverseRecOn with
  | nil => exact List.nodup_nil
  | append_singleton l a ih =>
    rw [keepFirst_snoc, keepNew]
    split_ifs with h
    · exact ih
    · rw [List.map_append, List.map_singleton]
      exact List.Nodup.append ih (List.nodup_singleton _) (List.disjoint_singleton.mpr h)

omit [DecidableEq α] in
theorem mem_keepFirst_keys (l : List α) (k : κ) :
    k ∈ (keepFirst key l).map key ↔ k ∈ l.map key := by
  induction l using List.reverseRecOn with
  | nil => rfl
  | append_singleton l a ih =>
    rw [keepFirst_snoc, keepNew, List.map_append, List.mem_append, ← ih]
    split_ifs with h
    · constructor
      · exact Or.inl
      · rintro (hk | hk)
        · exact hk
        · rw [List.map_singleton, List.mem_singleton] at hk
          rwa [hk]
    · rw [List.map_append, List.mem_append]

omit [DecidableEq α] in
/-- An element is kept when it is the first with its key. -/
theorem mem_keepFirst (l : List α) (a : α) :
    a ∈ keepFirst key l ↔ l.find? (fun b => key b = key a) = some a := by
  induction l using List.reverseRecOn with
  | nil => simp [keepFirst]
  | append_singleton l b ih =>
    rw [keepFirst_snoc, keepNew, List.find?_append, Option.or_eq_some_iff, ← ih,
      List.find?_eq_none]
    split_ifs with h
    · rw [mem_keepFirst_keys] at h
      obtain ⟨c, hc, hcb⟩ := List.mem_map.mp h
      constructor
      · exact Or.inl
      · rintro (hm | ⟨hnone, hb⟩)
        · exact hm
        · obtain ⟨hba, rfl⟩ : key b = key a ∧ b = a := by simpa using hb
          exact absurd (by simpa using hcb) (hnone c hc)
    · rw [List.mem_append, List.mem_singleton]
      constructor
      · rintro (hm | rfl)
        · exact Or.inl hm
        · refine Or.inr ⟨?_, by simp⟩
          intro c hc hca
          apply h
          rw [mem_keepFirst_keys]
          exact List.mem_map.mpr ⟨c, hc, by simpa using hca⟩
      · rintro (hm | ⟨-, hb⟩)
        · exact Or.inl hm
        · obtain ⟨-, rfl⟩ : key b = key a ∧ b = a := by simpa using hb
          exact Or.inr rfl

omit [DecidableEq α] in
theorem keepFirst_of_nodup (l : List α) (h : (l.map key).Nodup) : keepFirst key l = l := by
  induction l using List.reverseRecOn with
  | nil => rfl
  | append_singleton l a ih =>
    rw [List.map_append, List.map_singleton, List.nodup_append] at h
    obtain ⟨hl, -, hdisjoint⟩ := h
    rw [keepFirst_snoc, keepNew, ih hl, if_neg]
    exact fun hmem => hdisjoint _ hmem _ (List.mem_singleton_self _) rfl

omit [DecidableEq α] in
/-- One element is kept for each key. -/
theorem keepFirst_length (l : List α) : (keepFirst key l).length = (l.map key).toFinset.card := by
  have hkeys : (l.map key).toFinset = ((keepFirst key l).map key).toFinset := by
    ext k
    rw [List.mem_toFinset, List.mem_toFinset, mem_keepFirst_keys]
  rw [hkeys, List.toFinset_card_of_nodup (keepFirst_keys_nodup key l), List.length_map]

omit [DecidableEq α] in
/-- Elements that come later do not displace those that were kept. -/
theorem keepFirst_append (l more : List α) :
    ∃ new, keepFirst key (l ++ more) = keepFirst key l ++ new := by
  induction more using List.reverseRecOn with
  | nil => exact ⟨[], by rw [List.append_nil, List.append_nil]⟩
  | append_singleton more a ih =>
    obtain ⟨new, hnew⟩ := ih
    rw [← List.append_assoc, keepFirst_snoc, keepNew, hnew]
    split_ifs
    · exact ⟨new, rfl⟩
    · exact ⟨new ++ [a], List.append_assoc _ _ _⟩

/-! ## Keys that are kept whatever the order -/

/-- The keys under which some element satisfies `p`. -/
def heldKeys (p : α → Bool) (l : List α) : Finset κ := ((l.filter p).map key).toFinset

/-- The keys under which elements are held, all of which satisfy `p`. -/
def firmKeys (p : α → Bool) (l : List α) : Finset κ :=
  heldKeys key p l \ heldKeys key (fun a => !p a) l

omit [DecidableEq α] in
theorem mem_heldKeys (p : α → Bool) (l : List α) (k : κ) :
    k ∈ heldKeys key p l ↔ ∃ a ∈ l, p a = true ∧ key a = k := by
  simp only [heldKeys, List.mem_toFinset, List.mem_map, List.mem_filter, and_assoc]

omit [DecidableEq α] in
theorem heldKeys_perm (p : α → Bool) (l l' : List α) (h : l.Perm l') :
    heldKeys key p l = heldKeys key p l' := by
  ext k
  simp only [mem_heldKeys, h.mem_iff]

omit [DecidableEq α] in
theorem firmKeys_perm (p : α → Bool) (l l' : List α) (h : l.Perm l') :
    firmKeys key p l = firmKeys key p l' := by
  rw [firmKeys, firmKeys, heldKeys_perm key p l l' h, heldKeys_perm key _ l l' h]

omit [DecidableEq α] in
/-- Of the kept elements, those with `p` are counted by their keys. -/
theorem countP_keepFirst (p : α → Bool) (l : List α) :
    (keepFirst key l).countP p = (heldKeys key p (keepFirst key l)).card := by
  have hnodup : (((keepFirst key l).filter p).map key).Nodup :=
    (keepFirst_keys_nodup key l).sublist (List.filter_sublist.map key)
  rw [heldKeys, List.toFinset_card_of_nodup hnodup, List.length_map, List.countP_eq_length_filter]

omit [DecidableEq α] in
theorem keepFirst_held_subset (p : α → Bool) (l : List α) :
    heldKeys key p (keepFirst key l) ⊆ heldKeys key p l := by
  intro k hk
  obtain ⟨a, ha, hp, rfl⟩ := (mem_heldKeys key p _ k).mp hk
  exact (mem_heldKeys key p l _).mpr ⟨a, (keepFirst_sublist key l).subset ha, hp, rfl⟩

omit [DecidableEq α] in
theorem firm_subset_keepFirst (p : α → Bool) (l : List α) :
    firmKeys key p l ⊆ heldKeys key p (keepFirst key l) := by
  intro k hk
  obtain ⟨hheld, hfirm⟩ := Finset.mem_sdiff.mp hk
  obtain ⟨a, ha, -, hak⟩ := (mem_heldKeys key p l k).mp hheld
  -- the key is kept, and only by an element with `p`
  have hkept : k ∈ (keepFirst key l).map key := by
    rw [mem_keepFirst_keys]
    exact List.mem_map.mpr ⟨a, ha, hak⟩
  obtain ⟨b, hb, hbk⟩ := List.mem_map.mp hkept
  refine (mem_heldKeys key p _ k).mpr ⟨b, hb, ?_, hbk⟩
  by_contra hno
  apply hfirm
  rw [mem_heldKeys]
  exact ⟨b, (keepFirst_sublist key l).subset hb, by simpa using hno, hbk⟩

omit [DecidableEq α] in
theorem countP_keepFirst_le (p : α → Bool) (l : List α) :
    (keepFirst key l).countP p ≤ (heldKeys key p l).card := by
  rw [countP_keepFirst]
  exact Finset.card_le_card (keepFirst_held_subset key p l)

omit [DecidableEq α] in
theorem firm_le_countP_keepFirst (p : α → Bool) (l : List α) :
    (firmKeys key p l).card ≤ (keepFirst key l).countP p := by
  rw [countP_keepFirst]
  exact Finset.card_le_card (firm_subset_keepFirst key p l)

omit [DecidableEq α] in
/-- When the elements with `p` come first, all their keys are kept for them. -/
theorem countP_keepFirst_front (p : α → Bool) (front rest : List α)
    (hfront : ∀ a ∈ front, p a = true) (hrest : ∀ a ∈ rest, p a = false) :
    (heldKeys key p (front ++ rest)).card ≤ (keepFirst key (front ++ rest)).countP p := by
  rw [countP_keepFirst]
  apply Finset.card_le_card
  intro k hk
  obtain ⟨a, ha, hp, hak⟩ := (mem_heldKeys key p _ k).mp hk
  have hafront : a ∈ front := by
    rcases List.mem_append.mp ha with ha | ha
    · exact ha
    · rw [hrest a ha] at hp
      cases hp
  have hkept : k ∈ (keepFirst key front).map key := by
    rw [mem_keepFirst_keys]
    exact List.mem_map.mpr ⟨a, hafront, hak⟩
  obtain ⟨b, hb, hbk⟩ := List.mem_map.mp hkept
  obtain ⟨new, hnew⟩ := keepFirst_append key front rest
  rw [mem_heldKeys, hnew]
  exact ⟨b, List.mem_append_left _ hb, hfront b ((keepFirst_sublist key front).subset hb), hbk⟩

omit [DecidableEq α] in
/-- When they come last, only the keys that nothing else holds are kept for them. -/
theorem countP_keepFirst_back (p : α → Bool) (front rest : List α)
    (hfront : ∀ a ∈ front, p a = false) (hrest : ∀ a ∈ rest, p a = true) :
    (keepFirst key (front ++ rest)).countP p ≤ (firmKeys key p (front ++ rest)).card := by
  rw [countP_keepFirst]
  apply Finset.card_le_card
  intro k hk
  refine Finset.mem_sdiff.mpr ⟨keepFirst_held_subset key p _ hk, fun hother => ?_⟩
  obtain ⟨a, ha, hp, hak⟩ := (mem_heldKeys key p _ k).mp hk
  obtain ⟨b, hb, hpb, hbk⟩ := (mem_heldKeys key (fun a => !p a) _ k).mp hother
  have hbfront : b ∈ front := by
    rcases List.mem_append.mp hb with hb | hb
    · exact hb
    · simp [hrest b hb] at hpb
  -- the other holder of the key is in front, so the kept one has the key of another kept one
  have hkept : k ∈ (keepFirst key front).map key := by
    rw [mem_keepFirst_keys]
    exact List.mem_map.mpr ⟨b, hbfront, hbk⟩
  obtain ⟨c, hc, hck⟩ := List.mem_map.mp hkept
  obtain ⟨new, hnew⟩ := keepFirst_append key front rest
  have hcall : c ∈ keepFirst key (front ++ rest) := by
    rw [hnew]
    exact List.mem_append_left _ hc
  have heq : a = c := List.inj_on_of_nodup_map (keepFirst_keys_nodup key _) ha hcall
    (hak.trans hck.symm)
  rw [heq, hfront c ((keepFirst_sublist key front).subset hc)] at hp
  cases hp

end KeepFirst

/-! ## The winner, from the votes alone -/

/-- `x` got the most votes, and was seen before every other value with as many. -/
def Wins (xs : List α) (x : α) : Prop :=
  x ∈ xs ∧ ∀ y ∈ xs, xs.count y < xs.count x ∨
    (xs.count y = xs.count x ∧ xs.idxOf x ≤ xs.idxOf y)

theorem tallyAdd_keys (x : α) (c : List (α × ℕ)) :
    (tallyAdd x c).map Prod.fst = keepNew id (c.map Prod.fst) x := by
  rw [keepNew, List.map_id, id]
  induction c with
  | nil => simp [tallyAdd]
  | cons e c ih =>
    obtain ⟨y, n⟩ := e
    rw [tallyAdd]
    by_cases hy : y = x
    · simp [hy]
    · rw [if_neg hy, List.map_cons, ih]
      by_cases hx : x ∈ c.map Prod.fst
      · simp [hx]
      · simp only [if_neg hx, List.map_cons, List.mem_cons, Ne.symm hy, false_or, List.cons_append]

theorem tally_keys (xs : List α) : (tally xs).map Prod.fst = keepFirst id xs := by
  induction xs using List.reverseRecOn with
  | nil => rfl
  | append_singleton xs x ih =>
    rw [tally, List.foldl_append, List.foldl_cons, List.foldl_nil, ← tally, tallyAdd_keys, ih,
      keepFirst_snoc]

/-- Distinct values are kept in the order in which they were first seen. -/
theorem keepFirst_ordered (xs : List α) :
    (keepFirst id xs).Pairwise (fun x y => xs.idxOf x < xs.idxOf y) := by
  induction xs using List.reverseRecOn with
  | nil => exact List.Pairwise.nil
  | append_singleton xs x ih =>
    have hmem (y : α) (hy : y ∈ keepFirst id xs) : y ∈ xs := (keepFirst_sublist id xs).subset hy
    have hold : (keepFirst id xs).Pairwise
        (fun y z => (xs ++ [x]).idxOf y < (xs ++ [x]).idxOf z) := by
      refine ih.imp_of_mem ?_
      intro y z hy hz hyz
      rwa [List.idxOf_append_of_mem (hmem y hy), List.idxOf_append_of_mem (hmem z hz)]
    rw [keepFirst_snoc, keepNew]
    split_ifs with hx
    · exact hold
    · -- a value seen for the first time stands behind all the others
      refine List.pairwise_append.mpr ⟨hold, List.pairwise_singleton _ _, ?_⟩
      intro y hy z hz
      have hxs : x ∉ xs := by
        rwa [id, mem_keepFirst_keys, List.map_id] at hx
      rw [List.mem_singleton.mp hz, List.idxOf_append_of_mem (hmem y hy),
        List.idxOf_append_of_notMem hxs]
      exact Nat.lt_add_right _ (List.idxOf_lt_length_iff.mpr (hmem y hy))

omit [DecidableEq α] in
/-- Of several entries with the greatest count the first is taken. -/
theorem firstMax_first (r : α → α → Prop) (c : List (α × ℕ)) (hr : (c.map Prod.fst).Pairwise r)
    (b : α × ℕ) (h : firstMax c = some b) :
    ∀ e ∈ c, e.2 < b.2 ∨ (e.2 = b.2 ∧ (e = b ∨ r b.1 e.1)) := by
  induction c generalizing b with
  | nil => cases h
  | cons d c ih =>
    rw [List.map_cons, List.pairwise_cons] at hr
    rw [firstMax] at h
    split at h
    · next hnone =>
      rw [firstMax_eq_none] at hnone
      rw [Option.some.injEq] at h
      subst hnone h
      intro e he
      exact Or.inr ⟨by rw [List.mem_singleton.mp he], Or.inl (List.mem_singleton.mp he)⟩
    · next m hm =>
      -- the head loses only to a later entry that is strictly greater
      have hmax := (firstMax_spec c m hm).2
      split_ifs at h with hlt <;> rw [Option.some.injEq] at h <;> subst h
      · intro e he
        rcases List.mem_cons.mp he with rfl | he
        · exact Or.inl hlt
        · exact ih hr.2 m hm e he
      · intro e he
        rcases List.mem_cons.mp he with rfl | he
        · exact Or.inr ⟨rfl, Or.inl rfl⟩
        · have hle := hmax e he
          have hearlier := hr.1 e.1 (List.mem_map_of_mem he)
          by_cases heq : e.2 = d.2
          · exact Or.inr ⟨heq, Or.inr hearlier⟩
          · exact Or.inl (by omega)

theorem wins_of_mostCommon (xs : List α) (x : α) (h : mostCommon xs = some x) : Wins xs x := by
  have ht := tally_tallies xs
  refine ⟨(mostCommon_spec xs x h).1, fun y hy => ?_⟩
  obtain ⟨b, hb, rfl⟩ := Option.map_eq_some_iff.mp h
  have hordered : ((tally xs).map Prod.fst).Pairwise (fun x y => xs.idxOf x < xs.idxOf y) := by
    rw [tally_keys]
    exact keepFirst_ordered xs
  obtain ⟨e, he, rfl⟩ := ht.complete y hy
  rw [← ht.counts e he, ← ht.counts b (firstMax_spec _ b hb).1]
  rcases firstMax_first _ _ hordered b hb e he with hlt | ⟨heq, rfl | hearlier⟩
  · exact Or.inl hlt
  · exact Or.inr ⟨heq, le_rfl⟩
  · exact Or.inr ⟨heq, hearlier.le⟩

theorem wins_unique (xs : List α) (x y : α) (hx : Wins xs x) (hy : Wins xs y) : x = y := by
  -- neither has fewer votes, and neither was seen after the other
  rcases hx.2 y hy.1 with hlt | ⟨heq, hle⟩
  · rcases hy.2 x hx.1 with hlt' | ⟨heq, -⟩ <;> omega
  · rcases hy.2 x hx.1 with hlt' | ⟨-, hle'⟩
    · omega
    · exact (List.idxOf_inj hx.1).mp (le_antisymm hle hle')

theorem mostCommon_eq_some_iff (xs : List α) (x : α) : mostCommon xs = some x ↔ Wins xs x := by
  refine ⟨wins_of_mostCommon xs x, fun hx => ?_⟩
  cases hw : mostCommon xs with
  | none =>
    rw [mostCommon_eq_none] at hw
    subst hw
    exact absurd hx.1 List.not_mem_nil
  | some w => rw [wins_unique xs w x (wins_of_mostCommon xs w hw) hx]

end Foundations
