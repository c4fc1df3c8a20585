import MikaAudio.Lib.Interleave
import MikaAudio.Lib.Pace
import MikaAudio.Server.Screen
import MikaAudio.Session.Transfer

/-!
# The whole loop of the server's `FrameTask`

A round of `while (running)` takes a screenshot into the bitmap, compresses it, cuts it into
packets and sends them, and sleeps for what is left of `TIMEOUT`.  A round in which the native
`updateFrame` fails, or whose frame is skipped, sends nothing and does not sleep.

What the round meets is a `Round`: the clock, the results of the native calls, and which
packets `socket.send` throws for; the `IOException` is caught for each packet on its own.
`frame.compress` is a function of the pixels.

* `frame_rate`: at most `n` frames in any `n * TIMEOUT` milliseconds, if the clock does not
  go back and no sleep ends early.
-/

namespace MikaAudio.Server.FrameLoop

open Thread (Byte)
open Interleave (Reach run)
open FrameTask (send threshold)
open Pace (Apart)

/-- `TIMEOUT`. -/
def timeout : Int := 67

/-- What a round of the loop meets: `System.currentTimeMillis()` in front of `updateFrame` and
behind the packets, what `AndroidBitmap_lockPixels` returns, the screenshot, and the packets
that `socket.send` sends. -/
structure Round where
  instant : Int
  lock : BitVec 32
  screenshot : Screenshot
  sends : Nat → Bool
  ended : Int

/-- The pixels of `frame`, the variable `diff` and the array of the packet.  `wake` is the time
before which the loop does not go on, `datagrams` is what was sent, and `sent` are the frames
with the time of their round; the program does not keep these three. -/
structure State where
  frame : List Byte
  diff : Nat := 0
  data : List Byte
  wake : Int
  datagrams : List (List Byte) := []
  sent : List (Int × List Byte) := []

/-- The native `updateFrame(screenPtr, frame)` of `Frame.cpp`. -/
def updateFrame (screen : Screen) (lock : BitVec 32) (client : Screenshot) (bitmapPtr : List Byte) :
    Option (BitVec 32 × List Byte) :=
  if lock ≠ 0 then some (lock, bitmapPtr) else screen.updateFrame client bitmapPtr

/-- The packets for which `socket.send` does not throw. -/
def goThrough (sends : Nat → Bool) (packets : List (List Byte)) : List (List Byte) :=
  (packets.zipIdx.filter fun p => sends p.2).map Prod.fst

/-- One round of `while (running)`; `none` is an access outside an array. -/
def round (screen : Screen) (compress : List Byte → List Byte) (r : Round) (s : State) :
    Option State := do
  let (err, frame) ← updateFrame screen r.lock r.screenshot s.frame
  if err = 0 then
    let bitmap := compress frame
    if s.diff ≠ bitmap.length ∧ threshold ≤ bitmap.length then
      let (packets, data) ← send bitmap 0 s.data
      let timeout := r.instant + timeout - r.ended
      return {
        frame := frame
        diff := bitmap.length
        data := data
        wake := if timeout > 0 then r.ended + timeout else r.ended
        datagrams := s.datagrams ++ goThrough r.sends packets
        sent := s.sent ++ [(r.instant, bitmap)] }
    else return { s with frame := frame, wake := r.instant }
  else return { s with frame := frame, wake := r.instant }

/-- The task was just made, or has a loop in front of it that sends nothing. -/
structure Fresh (s : State) : Prop where
  diff : s.diff = 0
  data : s.data.length = sizeFrameHeader + sizeData
  datagrams : s.datagrams = []
  sent : s.sent = []

/-- The round does not begin before the loop goes on, and the clock does not go back in it. -/
def Timely (r : Round) (s : State) : Prop := s.wake ≤ r.instant ∧ r.instant ≤ r.ended

/-- The test in front of the packets. -/
def Sends (s : State) (err : BitVec 32) (bitmap : List Byte) : Prop :=
  err = 0 ∧ s.diff ≠ bitmap.length ∧ threshold ≤ bitmap.length

instance (s : State) (err : BitVec 32) (bitmap : List Byte) : Decidable (Sends s err bitmap) :=
  inferInstanceAs (Decidable (_ ∧ _ ∧ _))

variable {screen : Screen} {compress : List Byte → List Byte} {r : Round} {s t : State}
  {err : BitVec 32} {frame : List Byte}

/-! ### One round -/

/-- **What a round does**: it keeps the bitmap only, or sends the fragments of a frame, and the
loop goes on `TIMEOUT` after the round began, or later. -/
theorem exists_round (hdata : s.data.length = sizeFrameHeader + sizeData)
    (hupdate : updateFrame screen r.lock r.screenshot s.frame = some (err, frame)) :
    ∃ t, round screen compress r s = some t ∧ t.frame = frame ∧
      t.data.length = sizeFrameHeader + sizeData ∧
      (¬ Sends s err (compress frame) ∧ t.wake = r.instant ∧ t.diff = s.diff ∧
          t.datagrams = s.datagrams ∧ t.sent = s.sent ∨
        Sends s err (compress frame) ∧ t.wake = max (r.instant + timeout) r.ended ∧
          t.diff = (compress frame).length ∧
          t.datagrams = s.datagrams ++
            goThrough r.sends ((fragments (compress frame) 0).map Fragment.encode) ∧
          t.sent = s.sent ++ [(r.instant, compress frame)]) := by
  rw [round, hupdate, Option.bind_eq_bind, Option.bind_some]
  dsimp only
  by_cases herr : err = 0
  · by_cases htest : s.diff ≠ (compress frame).length ∧ threshold ≤ (compress frame).length
    · obtain ⟨data, hsend, hlength⟩ := send_eq (compress frame) 0 s.data hdata
      rw [if_pos herr, if_pos htest, hsend, Option.bind_eq_bind, Option.bind_some]
      refine ⟨_, rfl, rfl, hlength, .inr ⟨⟨herr, htest⟩, ?_, rfl, rfl, rfl⟩⟩
      dsimp only
      omega
    · rw [if_pos herr, if_neg htest]
      exact ⟨_, rfl, rfl, hdata, .inl ⟨fun hs => htest hs.2, rfl, rfl, rfl, rfl⟩⟩
  · rw [if_neg herr]
    exact ⟨_, rfl, rfl, hdata, .inl ⟨fun hs => herr hs.1, rfl, rfl, rfl, rfl⟩⟩

theorem exists_updateFrame (h : round screen compress r s = some t) :
    ∃ err frame, updateFrame screen r.lock r.screenshot s.frame = some (err, frame) := by
  rw [round, Option.bind_eq_bind, Option.bind_eq_some_iff] at h
  obtain ⟨⟨err, frame⟩, hupdate, -⟩ := h
  exact ⟨err, frame, hupdate⟩

/-! ### The rate of the frames -/

/-- The rounds that sent a frame are `TIMEOUT` apart, and the last of them is that long ago
when the loop goes on. -/
structure Paced (s : State) : Prop where
  data : s.data.length = sizeFrameHeader + sizeData
  apart : Apart timeout (s.sent.map Prod.fst)
  wake : ∀ a ∈ s.sent.map Prod.fst, a + timeout ≤ s.wake

theorem Fresh.paced (h : Fresh s) : Paced s where
  data := h.data
  apart := by
    rw [h.sent]
    exact .nil
  wake := by
    rw [h.sent]
    exact nofun

theorem Paced.round (h : Paced s) (hr : Timely r s) (hst : round screen compress r s = some t) :
    Paced t := by
  obtain ⟨hinstant, hended⟩ := hr
  obtain ⟨err, frame, hupdate⟩ := exists_updateFrame hst
  obtain ⟨t', ht', -, hdata, hcases⟩ := @exists_round screen compress r s _ _ h.data hupdate
  obtain rfl : t' = t := Option.some.inj (ht'.symm.trans hst)
  rcases hcases with ⟨-, hwake, -, -, hsent⟩ | ⟨-, hwake, -, -, hsent⟩
  · refine ⟨hdata, hsent ▸ h.apart, fun a ha => ?_⟩
    rw [hsent] at ha
    rw [hwake]
    exact Int.le_trans (h.wake a ha) hinstant
  · have hlast : ∀ a ∈ s.sent.map Prod.fst, a + timeout ≤ r.instant := fun a ha =>
      Int.le_trans (h.wake a ha) hinstant
    refine ⟨hdata, ?_, fun a ha => ?_⟩
    · rw [hsent, List.map_append]
      exact h.apart.concat hlast
    · rw [hsent, List.map_append] at ha
      rw [hwake]
      rcases List.mem_append.mp ha with ha | ha
      · have := hlast a ha
        omega
      · rw [List.mem_singleton.mp ha]
        omega

/-- **The rate of the frames**: in any `n * TIMEOUT` milliseconds at most `n` rounds begin that
send a frame. -/
theorem frame_rate {s₀ s : State} (h₀ : Fresh s₀)
    (h : Reach (round screen compress) Timely s₀ s) (a : Int) (n : Nat) :
    ((s.sent.map Prod.fst).filter fun t => a ≤ t ∧ t < a + n * timeout).length ≤ n := by
  have hpaced : Paced s := h.invariant h₀.paced fun _ _ _ hp hr hst => hp.round hr hst
  exact hpaced.apart.window a n

/-- A task for a screen of one pixel. -/
def sample : State :=
  { frame := [0, 0], data := List.replicate (sizeFrameHeader + sizeData) 0, wake := 0 }

/-- The screen is black or white. -/
def plain (b : Byte) : Screenshot := ⟨0, 1, [b, b, b, b]⟩

/-- A white pixel makes the longer frame. -/
def lighter (frame : List Byte) : List Byte :=
  List.replicate (if frame = [0, 0] then 10000 else 10001) 7

theorem updateFrame_plain (b x y : Byte) :
    updateFrame (Screen.initDisplay 1 1 true).1 0 (plain b) [x, y] =
      some ((0 : BitVec 32), [(Screen.rgb b b b &&& 0xFF).setWidth 8,
        (Screen.rgb b b b >>> 8).setWidth 8]) := by
  have hcount (stride : U32) : (Screen.initDisplay 1 1 true).1.nextPixel stride 0 0 = 0 :=
    if_neg fun h => h.2 rfl
  have hend (out : List Byte) (stride : U32) :
      (Screen.initDisplay 1 1 true).1.convert stride [b, b, b, b] 2 4 out = some out := by
    rw [Screen.convert, if_neg (by decide)]
  rw [updateFrame, if_neg (fun h => h rfl), Screen.updateFrame, if_neg (fun h => h rfl),
    Screen.convert, if_pos (by decide), hcount]
  exact congrArg (Option.map ((0 : BitVec 32), ·)) (hend _ _)

/-- A black frame and a white one, `TIMEOUT` apart. -/
theorem frame_rate_two : ∃ s : State, s.sent.map Prod.fst = [0, 67] ∧
    ((s.sent.map Prod.fst).filter fun t => 0 ≤ t ∧ t < 0 + (1 : Nat) * timeout).length ≤ 1 := by
  have hfresh : Fresh sample := ⟨rfl, List.length_replicate, rfl, rfl⟩
  obtain ⟨s, hs, hframe, hdata, ⟨hskip, -⟩ | ⟨-, hwake, hdiff, -, hsent⟩⟩ :=
    @exists_round _ lighter ⟨0, 0, plain 0, fun _ => true, 10⟩ sample _ _ hfresh.data
      (updateFrame_plain 0 0 0)
  · refine absurd ⟨rfl, ?_⟩ hskip
    rw [lighter, List.length_replicate]
    decide
  obtain ⟨t, ht, -, -, ⟨hskip, -⟩ | ⟨-, -, -, -, hsent'⟩⟩ :=
    @exists_round _ lighter ⟨67, 0, plain 255, fun _ => true, 80⟩ s _ _ hdata
      (hframe ▸ updateFrame_plain 255 _ _)
  · refine absurd ⟨rfl, ?_⟩ hskip
    rw [hdiff, lighter, lighter, List.length_replicate, List.length_replicate]
    decide
  have hreach : Reach (round _ lighter) Timely sample t :=
    .tail (.single ⟨by decide, by decide⟩ hs)
      ⟨by rw [hwake]; decide, by decide⟩ ht
  refine ⟨t, ?_, frame_rate hfresh hreach 0 1⟩
  rw [hsent', hsent]
  rfl

end MikaAudio.Server.FrameLoop
