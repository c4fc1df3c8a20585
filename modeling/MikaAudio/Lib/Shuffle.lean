import Mathlib.Data.List.Basic
import Mathlib.Logic.Function.Basic

/-!
# Shuffles

A list is a shuffle of the sequences of several sources when every element can be given
to a source so that each source gets exactly its own sequence, in its order.  Nothing is
lost then, nothing is there twice, and nothing comes from elsewhere.
-/

namespace Shuffle

variable {ι α : Type*} [DecidableEq ι]

/-- The elements of one source. -/
def part (i : ι) (tagged : List (ι × α)) : List α :=
  (tagged.filter fun p => p.1 = i).map Prod.snd

/-- `l` is a shuffle of the sequences `f i`. -/
def IsShuffle (f : ι → List α) (l : List α) : Prop :=
  ∃ tagged : List (ι × α), tagged.map Prod.snd = l ∧ ∀ i, part i tagged = f i

theorem IsShuffle.nil : IsShuffle (fun _ : ι => ([] : List α)) [] :=
  ⟨[], rfl, fun _ => rfl⟩

theorem IsShuffle.snoc {f : ι → List α} {l : List α} (h : IsShuffle f l) (i : ι) (a : α) :
    IsShuffle (Function.update f i (f i ++ [a])) (l ++ [a]) := by
  obtain ⟨tagged, hl, hpart⟩ := h
  refine ⟨tagged ++ [(i, a)], by rw [List.map_append, hl]; rfl, fun j => ?_⟩
  rw [part, List.filter_append, List.map_append]
  have hj := hpart j
  rw [part] at hj
  rw [hj]
  by_cases hij : i = j
  · subst hij
    simp
  · rw [Function.update_of_ne (Ne.symm hij)]
    simp [hij]

end Shuffle
