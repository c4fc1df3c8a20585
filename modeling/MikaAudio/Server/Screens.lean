import MikaAudio.Server.Isolation
import Mathlib.Data.List.Count

/-!
# The screens native `init` makes

`FrameModule.stop` destroys the screen of the last session, and it is called when the
server is shut down.  It does so only if `connected` is set, and nothing ever sets it: no
screen is destroyed, so none is used after that, and none is released.
-/

namespace MikaAudio.Server

open Thread Interleave

theorem Fields.connected {c : Nat} {fm fm' : FrameModule} {pc pc' : TaskPc}
    (h : Fields c fm pc fm' pc') (hc : fm.connected = false) : fm'.connected = false := by
  cases h with
  | quiet connected _ _ _ hconnected =>
    cases connected with
    | false => rfl
    | true => exact (hconnected rfl).symm.trans hc
  | _ => simpa using hc

theorem TaskPc.destroy_not_mem (pc : TaskPc) (r : Reply Env) (p : Int) :
    NativeCall.destroy p ∉ pc.nativeCalls r := by
  unfold TaskPc.nativeCalls
  split
  · simp
  · simp

namespace Host

/-- Each screen that was made was destroyed once. -/
def Destroyed (calls : List NativeCall) : Prop :=
  ∀ p, p ≠ -1 → calls.count (.destroy p) = calls.count (.init p)

/-- A screen is used after it was destroyed only if it was made anew meanwhile. -/
def UsedAlive (calls : List NativeCall) : Prop :=
  ∀ p before between after,
    calls = before ++ .destroy p :: (between ++ .updateFrame p :: after) → .init p ∈ between

/-- Once `onDestroy` has returned, each screen was destroyed once, and from then on none
that was destroyed is used. -/
def Released (stack : Nat) (s : Host) : Prop :=
  Destroyed s.native ∧ ∀ t, Reach (step stack) (fun _ _ => True) s t → UsedAlive t.native

variable {stack : Nat} {s t : Host} {l : Label}

/-- `connected` is `false`, and no screen was destroyed. -/
structure Undestroyed (s : Host) : Prop where
  connected : s.memory.frame.connected = false
  native : ∀ p, .destroy p ∉ s.native

theorem Undestroyed.step (h : Undestroyed s) (hst : Host.step stack l s = some t) :
    Undestroyed t := by
  cases l with
  | accept c =>
    rw [Host.step] at hst
    split_ifs at hst
    cases hst
    exact ⟨h.connected, h.native⟩
  | task c r =>
    obtain ⟨_, m, pc, hexec, rfl⟩ := step_task hst
    refine ⟨(taskOp_fields hexec).connected h.connected, fun p hp => ?_⟩
    rcases List.mem_append.mp hp with hp | hp
    · exact h.native p hp
    · exact TaskPc.destroy_not_mem _ _ p hp
  | beginFrameTask i =>
    obtain ⟨fm, hfm, rfl⟩ := Option.map_eq_some_iff.mp hst
    obtain ⟨_, _, _, _, rfl⟩ := FrameModule.beginFrameTask_cases hfm
    exact ⟨h.connected, h.native⟩
  | beginInputTask i =>
    obtain ⟨fm, hfm, rfl⟩ := Option.map_eq_some_iff.mp hst
    obtain ⟨_, _, _, _, rfl⟩ := FrameModule.beginInputTask_cases hfm
    exact ⟨h.connected, h.native⟩
  | updateFrame i =>
    obtain ⟨ft, _, rfl⟩ := Option.map_eq_some_iff.mp hst
    refine ⟨h.connected, fun p hp => ?_⟩
    rcases List.mem_append.mp hp with hp | hp
    · exact h.native p hp
    · simp at hp
  | destroy =>
    cases hst
    have hstop : s.memory.frame.stop = s.memory.frame := by
      rw [FrameModule.stop, h.connected, if_neg Bool.false_ne_true]
    refine ⟨(congrArg FrameModule.connected hstop).trans h.connected, fun p hp => ?_⟩
    rw [h.connected, if_neg Bool.false_ne_true, List.append_nil] at hp
    exact h.native p hp
  | stop d =>
    cases hst
    exact ⟨h.connected, h.native⟩
  | close d =>
    cases hst
    exact ⟨h.connected, h.native⟩

theorem Undestroyed.reach (h : Undestroyed s) (hr : Reach (Host.step stack) (fun _ _ => True) s t) :
    Undestroyed t :=
  hr.invariant h (fun _ _ _ hs _ hst => hs.step hst)

/-- **The screens are released when the server is shut down if and only if none was made**:
no native `init` has returned anything but `-1`. -/
theorem screens_released (h : Reach (step stack) (fun _ _ => True) {} s)
    (hst : step stack .destroy s = some t) :
    Released stack t ↔ ∀ p, .init p ∈ t.native → p = -1 := by
  have hs : Undestroyed s := Undestroyed.reach ⟨rfl, fun _ => List.not_mem_nil⟩ h
  have ht : Undestroyed t := hs.step hst
  have hnone : ∀ p, t.native.count (.destroy p) = 0 := fun p => List.count_eq_zero.mpr (ht.native p)
  constructor
  · rintro ⟨hdestroyed, _⟩ p hp
    by_contra hne
    have hcount := hdestroyed p hne
    rw [hnone] at hcount
    exact List.count_eq_zero.mp hcount.symm hp
  · intro hinit
    refine ⟨fun p hp => ?_, fun u hu => ?_⟩
    · rw [hnone]
      exact (List.count_eq_zero.mpr fun hmem => hp (hinit p hmem)).symm
    · rintro p before between after heq
      refine absurd ?_ ((ht.reach hu).native p)
      simp [heq]

/-- Native `init` fails, and the server is shut down. -/
theorem screens_released_failed : ∃ s : Host, s.native = [.init (-1)] ∧ Released 9 s := by
  obtain ⟨s, hs, hk⟩ := Reach.exists_of_run (show
    (run (fun l s => if True then step 9 l s else none) (initialized 0 (-1)) {}).map
      (fun s => (s.native, s.memory.frame.connected)) = some ([.init (-1)], false) by
    decide +kernel)
  simp only [Prod.mk.injEq] at hk
  have hst : step 9 .destroy s = some _ := rfl
  have hnative : s.native ++ (if s.memory.frame.connected then
      [.destroy s.memory.frame.instancePtr] else []) = [.init (-1)] := by
    rw [hk.1, hk.2]
    rfl
  refine ⟨_, hnative, (screens_released hs hst).mpr fun p hp => ?_⟩
  rw [hnative] at hp
  simpa using hp

/-- **The screen of a session is not destroyed** when the server is shut down. -/
theorem screens_kept : ¬ ∀ stack s t, Reach (step stack) (fun _ _ => True) {} s →
    step stack .destroy s = some t → Released stack t := by
  intro hclaim
  obtain ⟨s, hs, hk⟩ := Reach.exists_of_run (show
    (run (fun l s => if True then step 9 l s else none) (initialized 0 7) {}).map
      (fun s => (s.native, s.memory.frame.connected)) = some ([.init 7], false) by
    decide +kernel)
  simp only [Prod.mk.injEq] at hk
  have hcount := (hclaim 9 s _ hs rfl).1 7 (by decide)
  simp [hk.1, hk.2] at hcount

end Host

end MikaAudio.Server
