import Mathlib.Data.List.Basic
import Mathlib.Tactic.Common

/-!
# Times that are apart

`Apart gap times` says that each time is at least `gap` after all those before it.  A loop that
waits keeps this when it adds a time (`Apart.concat`), and it bounds how many of the times there
are in a window (`Apart.window`).
-/

namespace Pace

/-- Each time is at least `gap` after those before it. -/
def Apart (gap : Int) (times : List Int) : Prop := times.Pairwise fun a b => a + gap ≤ b

variable {gap t : Int} {times : List Int}

theorem Apart.nil : Apart gap [] := List.Pairwise.nil

theorem Apart.concat (h : Apart gap times) (ht : ∀ a ∈ times, a + gap ≤ t) :
    Apart gap (times ++ [t]) := by
  refine List.pairwise_append.mpr ⟨h, List.pairwise_singleton _ _, fun a ha b hb => ?_⟩
  rw [List.mem_singleton.mp hb]
  exact ht a ha

theorem Apart.length_le : ∀ (n : Nat) (a : Int) (times : List Int), Apart gap times →
    (∀ t ∈ times, a ≤ t ∧ t < a + n * gap) → times.length ≤ n := by
  intro n
  induction n with
  | zero =>
    intro a times _ hall
    cases times with
    | nil => exact Nat.le_refl 0
    | cons t times =>
      have ht := hall t List.mem_cons_self
      omega
  | succ n ih =>
    intro a times hapart hall
    cases times with
    | nil => exact Nat.zero_le _
    | cons t times =>
      obtain ⟨ht, -⟩ := hall t List.mem_cons_self
      obtain ⟨hhead, htail⟩ := List.pairwise_cons.mp hapart
      -- what comes after the first is in the window without its first `gap`
      have hrest := ih (a + gap) times htail fun u hu => by
        obtain ⟨-, hlt⟩ := hall u (List.mem_cons_of_mem t hu)
        have hgap := hhead u hu
        rw [Int.natCast_succ, Int.add_mul, Int.one_mul] at hlt
        exact ⟨by omega, by omega⟩
      exact Nat.succ_le_succ hrest

/-- **A window of length `n * gap` has at most `n` of the times in it.** -/
theorem Apart.window (h : Apart gap times) (a : Int) (n : Nat) :
    (times.filter fun t => a ≤ t ∧ t < a + n * gap).length ≤ n :=
  Apart.length_le n a _ (List.Pairwise.filter _ h) fun _ ht =>
    of_decide_eq_true (List.mem_filter.mp ht).2

end Pace
