import Mathlib.Data.List.Basic

/-!
# Lists that are iterated while others change them

An array list counts its structural changes, and an iterator over it keeps the count it
was made at: `hasNext` compares positions only, `next` fails when the counts differ.
`hasNext` is OpenJDK's, `cursor != size`; Android's array list counts the elements that
remain of those there were when the iterator was made.

`Tracks it l P` is what can be known of the iterator meanwhile: `P` of the elements, as
long as nothing was changed since it was made.  Whatever is added or removed afterwards,
by whom ever, leaves it true.
-/

namespace FailFast

variable {α : Type*}

/-- A list with the number of its structural changes. -/
structure ModList (α : Type*) where
  elems : List α
  modCount : Nat

/-- An iterator with the number of changes it expects. -/
structure Iterator where
  cursor : Nat := 0
  expected : Nat
  deriving DecidableEq

/-- How `next` ends. -/
inductive Next (α : Type*)
  | element (a : α) (it : Iterator)
  | concurrentModification
  | noSuchElement

namespace ModList

/-- `add`: at the end. -/
def add (l : ModList α) (a : α) : ModList α := ⟨l.elems ++ [a], l.modCount + 1⟩

/-- `remove`: the first occurrence, if there is one. -/
def remove [DecidableEq α] (l : ModList α) (a : α) : ModList α :=
  if a ∈ l.elems then ⟨l.elems.erase a, l.modCount + 1⟩ else l

/-- `iterator`. -/
def iterator (l : ModList α) : Iterator := { expected := l.modCount }

theorem elems_remove [DecidableEq α] (l : ModList α) (a : α) :
    (l.remove a).elems = l.elems.erase a := by
  unfold remove
  split_ifs with h
  · rfl
  · exact (List.erase_of_not_mem h).symm

end ModList

namespace Iterator

/-- `hasNext`: `cursor != size`. -/
def hasNext (it : Iterator) (l : ModList α) : Bool := decide (it.cursor ≠ l.elems.length)

/-- `next`. -/
def next (it : Iterator) (l : ModList α) : Next α :=
  if l.modCount ≠ it.expected then .concurrentModification
  else match l.elems[it.cursor]? with
    | none => .noSuchElement
    | some a => .element a { it with cursor := it.cursor + 1 }

/-- `P` holds of the elements unless they have changed since the iterator was made. -/
def Tracks (it : Iterator) (l : ModList α) (P : List α → Prop) : Prop :=
  it.expected ≤ l.modCount ∧ (l.modCount = it.expected → P l.elems)

variable {it : Iterator} {l : ModList α} {P : List α → Prop}

theorem Tracks.add (h : it.Tracks l P) (a : α) : it.Tracks (l.add a) P := by
  refine ⟨Nat.le_succ_of_le h.1, fun heq => ?_⟩
  have hlt : it.expected < (l.add a).modCount := Nat.lt_succ_of_le h.1
  omega

theorem Tracks.remove [DecidableEq α] (h : it.Tracks l P) (a : α) : it.Tracks (l.remove a) P := by
  unfold ModList.remove
  split_ifs
  · refine ⟨Nat.le_succ_of_le h.1, fun heq => ?_⟩
    have hlt : it.expected < l.modCount + 1 := Nat.lt_succ_of_le h.1
    exact absurd heq (Nat.ne_of_gt hlt)
  · exact h

/-- The elements before the cursor are `seen`. -/
def Seen (it : Iterator) (seen : List α) (elems : List α) : Prop :=
  it.cursor ≤ elems.length ∧ seen = elems.take it.cursor

variable {seen : List α}

theorem seen_iterator (l : ModList α) : l.iterator.Tracks l (l.iterator.Seen []) :=
  ⟨Nat.le_refl _, fun _ => ⟨Nat.zero_le _, rfl⟩⟩

theorem Tracks.of_hasNext (h : it.Tracks l (it.Seen seen)) (hyes : it.hasNext l = true) :
    it.Tracks l fun elems => it.cursor < elems.length := by
  refine ⟨h.1, fun heq => ?_⟩
  have hne : it.cursor ≠ l.elems.length := of_decide_eq_true hyes
  have hle := (h.2 heq).1
  omega

theorem Tracks.next (h : it.Tracks l (it.Seen seen))
    (hlt : it.Tracks l fun elems => it.cursor < elems.length) (heq : l.modCount = it.expected) :
    ∃ a, it.next l = .element a { it with cursor := it.cursor + 1 } ∧
      Tracks { it with cursor := it.cursor + 1 } l
        (Seen { it with cursor := it.cursor + 1 } (seen ++ [a])) := by
  have hcursor := hlt.2 heq
  refine ⟨l.elems[it.cursor], ?_, h.1, fun _ => ⟨hcursor, ?_⟩⟩
  · unfold Iterator.next
    rw [if_neg (not_not.mpr heq), List.getElem?_eq_getElem hcursor]
  · rw [(h.2 heq).2]
    exact List.take_append_getElem hcursor

/-- Where nothing has changed and `hasNext` says no, `next` has given every element. -/
theorem Tracks.all (h : it.Tracks l (it.Seen seen)) (hno : it.hasNext l = false)
    (heq : l.modCount = it.expected) : seen = l.elems := by
  have hcursor : it.cursor = l.elems.length := by simpa [hasNext] using hno
  rw [(h.2 heq).2, hcursor, List.take_length]

end Iterator

end FailFast
