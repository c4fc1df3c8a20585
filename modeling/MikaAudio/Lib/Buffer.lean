import Mathlib.Data.List.Basic

/-!
# Blocks of an array

An array is a list, and `overwrite` puts a block into it.  `copy` is the copy of a
block from one array to another, with the bounds checked; blocks that are written one
behind the other make up one block (`overwrite_overwrite`), and what is in front of
the last one is read back as it was written (`take_overwrite`).  Blocks that are parts
of one array may be written in any order and more than once (`getElem?_overwrites`), and
blocks that share no place are all parts of the array in the end (`partOf_overwrites`).
-/

namespace Buffer

variable {α : Type*}

/-- The array with the block `ys` at position `i`. -/
def overwrite (xs : List α) (i : Nat) (ys : List α) : List α :=
  xs.take i ++ ys ++ xs.drop (i + ys.length)

/-- Copy `len` elements; `none` is an index out of bounds. -/
def copy (src : List α) (srcPos : Nat) (dst : List α) (dstPos len : Nat) : Option (List α) :=
  if srcPos + len ≤ src.length ∧ dstPos + len ≤ dst.length then
    some (overwrite dst dstPos ((src.drop srcPos).take len))
  else none

/-- Write one element; `none` is an index out of bounds. -/
def write (xs : List α) (i : Nat) (a : α) : Option (List α) :=
  if i < xs.length then some (xs.set i a) else none

variable {xs ys zs : List α} {i : Nat}

theorem length_overwrite (h : i + ys.length ≤ xs.length) :
    (overwrite xs i ys).length = xs.length := by
  simp only [overwrite, List.length_append, List.length_take, List.length_drop]
  omega

@[simp] theorem overwrite_nil : overwrite xs i [] = xs := by
  simp [overwrite]

theorem take_overwrite (h : i ≤ xs.length) :
    (overwrite xs i ys).take (i + ys.length) = xs.take i ++ ys := by
  refine List.take_left' ?_
  rw [List.length_append, List.length_take, Nat.min_eq_left h]

theorem drop_overwrite (h : i ≤ xs.length) :
    (overwrite xs i ys).drop (i + ys.length) = xs.drop (i + ys.length) := by
  refine List.drop_left' ?_
  rw [List.length_append, List.length_take, Nat.min_eq_left h]

theorem overwrite_overwrite (h : i ≤ xs.length) :
    overwrite (overwrite xs i ys) (i + ys.length) zs = overwrite xs i (ys ++ zs) := by
  rw [overwrite, take_overwrite h, ← List.drop_drop, drop_overwrite h, List.drop_drop, overwrite,
    List.length_append, ← Nat.add_assoc, List.append_assoc (xs.take i)]

/-- **A block changes only its own place.** -/
theorem getElem?_overwrite (h : i + ys.length ≤ xs.length) (k : Nat) :
    (overwrite xs i ys)[k]? = if i ≤ k ∧ k < i + ys.length then ys[k - i]? else xs[k]? := by
  have htake : (xs.take i).length = i := by
    rw [List.length_take]
    omega
  rw [overwrite, List.append_assoc]
  by_cases hlt : k < i
  · rw [List.getElem?_append_left (by omega), List.getElem?_take_of_lt hlt, if_neg (by omega)]
  · rw [List.getElem?_append_right (by omega), htake]
    by_cases hin : k < i + ys.length
    · rw [List.getElem?_append_left (by omega), if_pos ⟨by omega, hin⟩]
    · rw [List.getElem?_append_right (by omega), List.getElem?_drop, if_neg (by omega)]
      congr 1
      omega

theorem overwrite_self {n : Nat} (h : i + n ≤ xs.length) :
    overwrite xs i ((xs.drop i).take n) = xs := by
  rw [overwrite, List.length_take, List.length_drop, Nat.min_eq_left (by omega),
    List.append_assoc, ← List.drop_drop, List.take_append_drop, List.take_append_drop]

theorem set_eq_overwrite {a : α} (h : i < xs.length) : xs.set i a = overwrite xs i [a] := by
  rw [List.set_eq_take_append_cons_drop, if_pos h, overwrite, List.append_assoc]
  rfl

theorem overwrite_cons {a : α} (h : i < xs.length) :
    overwrite xs i (a :: ys) = overwrite (xs.set i a) (i + 1) ys := by
  rw [set_eq_overwrite h]
  exact (@overwrite_overwrite _ xs [a] ys i (Nat.le_of_lt h)).symm

/-! ### The parts of one array -/

/-- The block, at its position, is a part of the array. -/
def PartOf (target : List α) (block : Nat × List α) : Prop :=
  ∀ k < block.2.length, block.2[k]? = target[block.1 + k]?

/-- The block holds the place `k`. -/
def Covers (block : Nat × List α) (k : Nat) : Prop :=
  block.1 ≤ k ∧ k < block.1 + block.2.length

instance (block : Nat × List α) (k : Nat) : Decidable (Covers block k) :=
  inferInstanceAs (Decidable (_ ∧ _))

/-- The blocks are put into the array, one after the other. -/
def overwrites (xs : List α) (blocks : List (Nat × List α)) : List α :=
  blocks.foldl (fun xs block => overwrite xs block.1 block.2) xs

variable {target : List α} {blocks : List (Nat × List α)}

/-- **The parts of an array end up in their places, in whichever order they come**: what a
place holds depends on which parts there are only. -/
theorem getElem?_overwrites
    (h : ∀ block ∈ blocks, PartOf target block ∧ block.1 + block.2.length ≤ xs.length) (k : Nat) :
    (overwrites xs blocks)[k]? =
      if ∃ block ∈ blocks, Covers block k then target[k]? else xs[k]? := by
  induction blocks generalizing xs with
  | nil => rw [if_neg (fun hex => absurd hex.choose_spec.1 List.not_mem_nil)]; rfl
  | cons block blocks ih =>
    obtain ⟨hpart, hfits⟩ := h block List.mem_cons_self
    have hlen := length_overwrite hfits
    have hrest := @ih (overwrite xs block.1 block.2)
      (fun q hq => hlen ▸ h q (List.mem_cons_of_mem block hq))
    refine hrest.trans ?_
    by_cases hlater : ∃ q ∈ blocks, Covers q k
    · obtain ⟨q, hq, hk⟩ := hlater
      rw [if_pos ⟨q, hq, hk⟩, if_pos ⟨q, List.mem_cons_of_mem block hq, hk⟩]
    · rw [if_neg hlater, getElem?_overwrite hfits k]
      by_cases hk : block.1 ≤ k ∧ k < block.1 + block.2.length
      · rw [if_pos hk, if_pos ⟨block, List.mem_cons_self, hk⟩,
          hpart (k - block.1) (Nat.sub_lt_left_of_lt_add hk.1 hk.2), Nat.add_sub_cancel' hk.1]
      · rw [if_neg hk, if_neg]
        rintro ⟨q, hq, hqk⟩
        rcases List.mem_cons.mp hq with rfl | hq
        · exact hk hqk
        · exact hlater ⟨q, hq, hqk⟩

theorem partOf_overwrite (h : i + ys.length ≤ xs.length) :
    PartOf (overwrite xs i ys) (i, ys) := by
  intro k hk
  rw [getElem?_overwrite h, if_pos ⟨Nat.le_add_right i k, Nat.add_lt_add_left hk i⟩,
    Nat.add_sub_cancel_left]

theorem take_drop_of_partOf (h : PartOf xs (i, ys)) :
    (xs.drop i).take ys.length = ys := by
  refine List.ext_getElem? fun k => ?_
  by_cases hk : k < ys.length
  · rw [List.getElem?_take_of_lt hk, List.getElem?_drop]
    exact (h k hk).symm
  · rw [List.getElem?_take, if_neg hk, List.getElem?_eq_none (Nat.le_of_not_lt hk)]

/-- No place is in both blocks. -/
def Apart (p q : Nat × List α) : Prop :=
  p.1 + p.2.length ≤ q.1 ∨ q.1 + q.2.length ≤ p.1

theorem PartOf.overwrites {block : Nat × List α} (h : PartOf xs block)
    (hfits : ∀ q ∈ blocks, q.1 + q.2.length ≤ xs.length) (hapart : ∀ q ∈ blocks, Apart block q) :
    PartOf (overwrites xs blocks) block := by
  induction blocks generalizing xs with
  | nil => exact h
  | cons q blocks ih =>
    have hq := hfits q List.mem_cons_self
    refine ih (fun k hk => ?_)
      (fun r hr => (length_overwrite hq).symm ▸ hfits r (List.mem_cons_of_mem q hr))
      (fun r hr => hapart r (List.mem_cons_of_mem q hr))
    have haway := hapart q List.mem_cons_self
    rw [getElem?_overwrite hq, if_neg, h k hk]
    unfold Apart at haway
    omega

/-- **Blocks that share no place are all there in the end**, in whichever order they were
written. -/
theorem partOf_overwrites (hfits : ∀ block ∈ blocks, block.1 + block.2.length ≤ xs.length)
    (hapart : blocks.Pairwise Apart) {block : Nat × List α} (h : block ∈ blocks) :
    PartOf (overwrites xs blocks) block := by
  induction blocks generalizing xs with
  | nil => exact absurd h List.not_mem_nil
  | cons q blocks ih =>
    have hq := hfits q List.mem_cons_self
    have hrest : ∀ r ∈ blocks, r.1 + r.2.length ≤ (overwrite xs q.1 q.2).length := fun r hr =>
      (length_overwrite hq).symm ▸ hfits r (List.mem_cons_of_mem q hr)
    obtain ⟨hqr, hpairs⟩ := List.pairwise_cons.mp hapart
    rcases List.mem_cons.mp h with rfl | h
    · exact (partOf_overwrite hq).overwrites hrest hqr
    · exact ih hrest hpairs h

end Buffer
