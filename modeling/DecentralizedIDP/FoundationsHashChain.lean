import Mathlib.Data.List.Forall2
import Mathlib.Data.List.Induction
import Mathlib.Data.List.Nodup

/-! A chain of records, each carrying the digest of its content and the digest of
the record before it. Two chains with one head have the same contents, unless they
show a collision or a preimage of the first link. -/
namespace Foundations

variable {α β δ : Type*}

/-- How a record is hashed: `link` is the digest it carries of its predecessor,
`stored` the digest it carries of itself, `digest (preimage x)` the digest of its
content. -/
structure ChainFormat (α β δ : Type*) where
  link : α → δ
  stored : α → δ
  preimage : α → β
  digest : β → δ

namespace ChainFormat
variable (F : ChainFormat α β δ)

def head (genesis : δ) (xs : List α) : δ := (xs.getLast?.map F.stored).getD genesis

/-- Every record is linked to the one before it and carries its own digest. -/
def Linked : δ → List α → Prop
  | _, [] => True
  | genesis, x :: xs =>
    F.link x = genesis ∧ F.digest (F.preimage x) = F.stored x ∧ Linked (F.stored x) xs

@[simp] theorem head_nil (genesis : δ) : F.head genesis [] = genesis := rfl

@[simp] theorem head_snoc (genesis : δ) (xs : List α) (x : α) :
    F.head genesis (xs ++ [x]) = F.stored x := by
  rw [head, List.getLast?_concat, Option.map_some, Option.getD_some]

theorem head_cons (genesis : δ) (x : α) (xs : List α) :
    F.head genesis (x :: xs) = F.head (F.stored x) xs := by
  rcases List.eq_nil_or_concat xs with rfl | ⟨ys, y, rfl⟩
  · rfl
  · rw [List.concat_eq_append, ← List.cons_append, head_snoc, head_snoc]

theorem linked_append (genesis : δ) (xs ys : List α) :
    F.Linked genesis (xs ++ ys) ↔ F.Linked genesis xs ∧ F.Linked (F.head genesis xs) ys := by
  induction xs generalizing genesis with
  | nil => simp [Linked]
  | cons x xs ih => simp only [List.cons_append, Linked, ih, head_cons, and_assoc]

theorem linked_snoc (genesis : δ) (xs : List α) (x : α) :
    F.Linked genesis (xs ++ [x]) ↔
      F.Linked genesis xs ∧ F.link x = F.head genesis xs ∧
        F.digest (F.preimage x) = F.stored x := by
  simp [linked_append, Linked]

/-- A record is linked to the head of those before it. -/
theorem link_at (genesis : δ) (xs ys : List α) (x : α) (h : F.Linked genesis (xs ++ x :: ys)) :
    F.link x = F.head genesis xs :=
  ((F.linked_append genesis xs (x :: ys)).mp h).2.1

/-- A record that replaces another in a chain has its link, and both carry their digests. -/
theorem linked_replaced (genesis : δ) (xs ys : List α) (x y : α)
    (hx : F.Linked genesis (xs ++ x :: ys)) (hy : F.Linked genesis (xs ++ y :: ys)) :
    F.link y = F.link x ∧ F.digest (F.preimage x) = F.stored x ∧
      F.digest (F.preimage y) = F.stored y := by
  obtain ⟨-, hlinkx, hstoredx, -⟩ := (F.linked_append genesis xs (x :: ys)).mp hx
  obtain ⟨-, hlinky, hstoredy, -⟩ := (F.linked_append genesis xs (y :: ys)).mp hy
  exact ⟨hlinky.trans hlinkx.symm, hstoredx, hstoredy⟩

/-- `W` is the shape of digests that makes a link readable from a content. -/
structure Readable (W : δ → Prop) (genesis : δ) : Prop where
  digest : ∀ b, W (F.digest b)
  genesis : W genesis
  link : ∀ x y, W (F.link x) → W (F.link y) → F.preimage x = F.preimage y → F.link x = F.link y

/-- No content has the first link as its digest, and no two of the two lists have one
digest without being the same. -/
structure CollisionFree (genesis : δ) (xs ys : List α) : Prop where
  left : ∀ x ∈ xs, F.digest (F.preimage x) ≠ genesis
  right : ∀ y ∈ ys, F.digest (F.preimage y) ≠ genesis
  injective : ∀ x ∈ xs, ∀ y ∈ ys, F.digest (F.preimage x) = F.digest (F.preimage y) →
    F.preimage x = F.preimage y

variable {F} in
theorem CollisionFree.subset {genesis : δ} {xs ys xs' ys' : List α}
    (h : F.CollisionFree genesis xs ys) (hx : xs' ⊆ xs) (hy : ys' ⊆ ys) :
    F.CollisionFree genesis xs' ys' where
  left := fun x hmem => h.left x (hx hmem)
  right := fun y hmem => h.right y (hy hmem)
  injective := fun x hxmem y hymem => h.injective x (hx hxmem) y (hy hymem)

section Readable
variable (W : δ → Prop) (genesis : δ) (hread : F.Readable W genesis)
include hread

/-- Every link of a chain is its first link or a digest. -/
theorem link_of_linked (start : δ) (hstart : W start) (xs : List α) (h : F.Linked start xs) :
    ∀ x ∈ xs, W (F.link x) := by
  induction xs generalizing start with
  | nil => simp
  | cons x xs ih =>
    obtain ⟨hlink, hstored, hrest⟩ := h
    intro y hy
    rcases List.mem_cons.mp hy with rfl | hy
    · rwa [hlink]
    · exact ih (F.stored x) (hstored ▸ hread.digest _) hrest y hy

/-- The contents of two chains with one head agree record by record. -/
theorem preimages_agree (xs ys : List α) (hx : F.Linked genesis xs) (hy : F.Linked genesis ys)
    (hhead : F.head genesis xs = F.head genesis ys) (hfree : F.CollisionFree genesis xs ys) :
    List.Forall₂ (fun x y => F.preimage x = F.preimage y ∧ F.link x = F.link y ∧
      F.stored x = F.stored y) xs ys := by
  -- from the end: the head is the digest of the last record, and fixes it first
  induction xs using List.reverseRecOn generalizing ys with
  | nil =>
    rcases List.eq_nil_or_concat ys with rfl | ⟨ys, y, rfl⟩
    · exact List.Forall₂.nil
    · rw [List.concat_eq_append] at hy hhead hfree
      have hstored := ((F.linked_snoc genesis ys y).mp hy).2.2
      rw [head_nil, head_snoc] at hhead
      exact absurd (hstored.trans hhead.symm) (hfree.right y (by simp))
  | append_singleton xs x ih =>
    obtain ⟨hxs, hxlink, hxstored⟩ := (F.linked_snoc genesis xs x).mp hx
    -- an empty chain has the first link as its head, which is no digest
    rcases List.eq_nil_or_concat ys with rfl | ⟨ys, y, rfl⟩
    · rw [head_nil, head_snoc] at hhead
      exact absurd (hxstored.trans hhead) (hfree.left x (by simp))
    · rw [List.concat_eq_append] at *
      obtain ⟨hys, hylink, hystored⟩ := (F.linked_snoc genesis ys y).mp hy
      rw [head_snoc, head_snoc] at hhead
      -- the last contents agree, hence the links they carry, which are the heads of the rests
      have hpre : F.preimage x = F.preimage y :=
        hfree.injective x (by simp) y (by simp) (by rw [hxstored, hystored, hhead])
      have hlink : F.link x = F.link y := by
        apply hread.link x y _ _ hpre
        · exact F.link_of_linked W genesis hread genesis hread.genesis _ hx x (by simp)
        · exact F.link_of_linked W genesis hread genesis hread.genesis _ hy y (by simp)
      have hrest : F.head genesis xs = F.head genesis ys := by rw [← hxlink, hlink, hylink]
      have hinit := ih ys hxs hys hrest
        (hfree.subset (List.subset_append_left _ _) (List.subset_append_left _ _))
      exact List.rel_append hinit (List.Forall₂.cons ⟨hpre, hlink, hhead⟩ List.Forall₂.nil)

/-! ## The records of one chain -/

section Chain
variable (xs : List α) (hx : F.Linked genesis xs) (hfree : F.CollisionFree genesis xs xs)
include hx hfree

/-- The heads of the beginnings of a chain are different. -/
theorem prefix_of_head (as bs : List α) (ha : as <+: xs) (hb : bs <+: xs)
    (hhead : F.head genesis as = F.head genesis bs) : as = bs := by
  have hlinked (cs : List α) (hc : cs <+: xs) : F.Linked genesis cs := by
    obtain ⟨rest, rfl⟩ := hc
    exact ((F.linked_append genesis cs rest).mp hx).1
  have hagree := F.preimages_agree W genesis hread as bs (hlinked as ha) (hlinked bs hb) hhead
    (hfree.subset ha.subset hb.subset)
  have hlen : as.length = bs.length := hagree.length_eq
  exact (List.prefix_of_prefix_length_le ha hb (Nat.le_of_eq hlen)).eq_of_length hlen

/-- A chain made of the records of another one is a beginning of it. -/
theorem linked_iff_initial (ys : List α) (hsub : ys ⊆ xs) : F.Linked genesis ys ↔ ys <+: xs := by
  constructor
  · intro hy
    -- record by record; each stands where its link says
    induction ys using List.reverseRecOn with
    | nil => exact List.nil_prefix
    | append_singleton ys y ih =>
      obtain ⟨hys, hlink, -⟩ := (F.linked_snoc genesis ys y).mp hy
      have hinit := ih (fun a ha => hsub (List.mem_append_left _ ha)) hys
      have hmem : y ∈ xs := hsub (by simp)
      obtain ⟨as, bs, rfl⟩ := List.append_of_mem hmem
      -- in the chain the record stands after the beginning whose head it is linked to
      have hat := F.link_at genesis as bs y hx
      have heq := F.prefix_of_head W genesis hread _ hx hfree ys as hinit
        (List.prefix_append _ _) (hlink.symm.trans hat)
      rw [heq]
      exact ⟨bs, by simp⟩
  · rintro ⟨rest, rfl⟩
    exact ((F.linked_append genesis ys rest).mp hx).1

/-- No record occurs twice. -/
theorem nodup_of_linked : xs.Nodup := by
  induction xs using List.reverseRecOn with
  | nil => exact List.nodup_nil
  | append_singleton xs x ih =>
    obtain ⟨hxs, hlink, -⟩ := (F.linked_snoc genesis xs x).mp hx
    have hsub := List.subset_append_left xs [x]
    have hnew : x ∉ xs := by
      intro hmem
      obtain ⟨as, bs, rfl⟩ := List.append_of_mem hmem
      -- it would be linked to the heads of two beginnings
      have hat := F.link_at genesis as bs x hxs
      have heq := F.prefix_of_head W genesis hread _ hxs (hfree.subset hsub hsub) as
        (as ++ x :: bs) (List.prefix_append _ _) List.prefix_rfl (hat.symm.trans hlink)
      exact absurd (congrArg List.length heq) (by simp)
    have hrest := ih hxs (hfree.subset hsub hsub)
    exact List.nodup_append_comm.mpr (List.nodup_cons.mpr ⟨hnew, hrest⟩)

end Chain

end Readable

end ChainFormat

end Foundations
