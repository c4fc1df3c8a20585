import MikaAudio.Client.Memory

/-!
# Touch events

`InputThread.sendInput(action, x, y, metaState)` runs on the UI thread.  It writes the
event into the array of the one packet and posts a message; the `InputThread` sends the
packet when it comes to the message, with what the array holds by then.  So there is one
datagram for a call, but a call made while a message waits changes the datagram of the
call before.

The calls and the handled messages are atomic steps here.  The other messages of the
`InputThread` may come between them.
-/

namespace MikaAudio.Client

open Thread (Byte)
open Interleave (Reach run)

/-! ### The event and its bytes -/

/-- The arguments of one call. -/
structure Touch where
  action : JInt
  x : JFloat
  y : JFloat
  metaState : JInt
  deriving DecidableEq

/-- `POSITION_ACTION`. -/
def positionAction : Nat := 0

/-- `POSITION_X`. -/
def positionX : Nat := 4

/-- `POSITION_Y`. -/
def positionY : Nat := 8

/-- `POSITION_META_STATE`. -/
def positionMetaState : Nat := 12

/-- `SIZE_PACKET`. -/
def sizePacket : Nat := 16

/-- What a call writes into the array of the packet. -/
def Touch.write (t : Touch) (data : List Byte) : List Byte :=
  writeInt (writeFloat (writeFloat (writeInt data t.action positionAction) t.x positionX)
    t.y positionY) t.metaState positionMetaState

/-- The encoding of an event. -/
def Touch.encode (t : Touch) : List Byte :=
  intBytes t.action ++ intBytes (floatToIntBits t.x) ++ intBytes (floatToIntBits t.y) ++
    intBytes t.metaState

theorem Touch.write_eq (t : Touch) {data : List Byte} (h : data.length = sizePacket) :
    t.write data = t.encode := by
  match data, h with
  | [_, _, _, _, _, _, _, _, _, _, _, _, _, _, _, _], _ =>
    simp [Touch.write, Touch.encode, writeFloat, writeInt, intBytes, positionAction, positionX,
      positionY, positionMetaState]

@[simp] theorem Touch.length_encode (t : Touch) : t.encode.length = sizePacket := rfl

/-! ### The `InputThread` -/

/-- A message of the `InputThread`: `MODE_EVENT`, or one of the others. -/
inductive Message
  | event
  | input (msg : InputMsg)
  deriving DecidableEq

/-- The `InputThread` after `initFrameInput`: the array of its packet, its messages, the
bytes it has written and the datagrams it has sent.  `calls` are the events the UI has
sent; the program does not keep them. -/
structure InputThread where
  data : List Byte
  queue : List Message := []
  out : List Sent := []
  sent : List (List Byte) := []
  calls : List Touch := []
  deriving DecidableEq

namespace InputThread

/-- Who moves. -/
inductive Label
  /-- The UI calls `sendInput(action, x, y, metaState)`. -/
  | sendInput (t : Touch)
  /-- Another message is posted. -/
  | post (msg : InputMsg)
  /-- The `InputThread` handles a message. -/
  | handle

/-- One call, or one message. -/
def step (l : Label) (s : InputThread) : Option InputThread :=
  match l with
  | .sendInput t =>
    some { s with
      data := t.write s.data
      queue := s.queue ++ [.event]
      calls := s.calls ++ [t] }
  | .post msg => some { s with queue := s.queue ++ [.input msg] }
  | .handle =>
    match s.queue with
    | .event :: queue => some { s with queue := queue, sent := s.sent ++ [s.data] }
    | .input msg :: queue => some { s with queue := queue, out := s.out ++ msg.bytes }
    | [] => none

/-- The packet was just made. -/
structure Fresh (s : InputThread) : Prop where
  data : s.data.length = sizePacket
  queue : .event ∉ s.queue
  sent : s.sent = []
  calls : s.calls = []

/-- The datagrams carry the events in the order of the calls, and there is one for each call
whose message has been handled. -/
structure Faithful (s : InputThread) : Prop where
  sent : s.sent <+: s.calls.map Touch.encode
  waiting : s.sent.length + s.queue.count .event = s.calls.length

/-- A call made while a message of another call waits writes what is in the array. -/
def Spaced : Label → InputThread → Prop
  | .sendInput t, s => .event ∈ s.queue → t.encode = s.data
  | _, _ => True

/-- Every message that waits is for what is in the array. -/
structure Inv (s : InputThread) : Prop where
  data : s.data.length = sizePacket
  calls : s.calls.map Touch.encode = s.sent ++ List.replicate (s.queue.count .event) s.data

variable {s t : InputThread} {l : Label}

theorem Fresh.inv (h : Fresh s) : Inv s where
  data := h.data
  calls := by
    rw [h.calls, h.sent, List.count_eq_zero_of_not_mem h.queue]
    rfl

theorem Inv.faithful (h : Inv s) : Faithful s where
  sent := ⟨_, h.calls.symm⟩
  waiting := by
    have := congrArg List.length h.calls
    rw [List.length_map, List.length_append, List.length_replicate] at this
    exact this.symm

/-- **A step keeps the events in order.** -/
theorem Inv.step (h : Inv s) (hl : Spaced l s) (hst : step l s = some t) : Inv t := by
  cases l with
  | sendInput e =>
    simp only [InputThread.step, e.write_eq h.data, Option.some.injEq] at hst
    subst hst
    refine ⟨e.length_encode, ?_⟩
    -- the array holds the new event already, or no message waits for what it held
    have hwaiting : List.replicate (s.queue.count .event) s.data ++ [e.encode] =
        List.replicate (s.queue.count .event + 1) e.encode := by
      by_cases hwait : Message.event ∈ s.queue
      · rw [← hl hwait, List.replicate_succ']
      · rw [List.count_eq_zero_of_not_mem hwait]
        rfl
    rw [List.map_append, h.calls, List.count_append, List.append_assoc]
    exact congrArg (s.sent ++ ·) hwaiting
  | post msg =>
    cases hst
    refine ⟨h.data, ?_⟩
    rw [List.count_append]
    exact h.calls
  | handle =>
    simp only [InputThread.step] at hst
    have hcalls := h.calls
    split at hst
    · rename_i queue hq
      cases hst
      rw [hq, List.count_cons_self, List.replicate_succ] at hcalls
      exact ⟨h.data, hcalls.trans (List.append_cons _ _ _)⟩
    · rename_i msg queue hq
      cases hst
      rw [hq, List.count_cons_of_ne (show Message.input msg ≠ .event from nofun)] at hcalls
      exact ⟨h.data, hcalls⟩
    · cases hst

/-- **No touch event is lost or altered**, if a call is made only when the message of the
one before has been handled. -/
theorem touches_sent {s₀ s : InputThread} (h₀ : Fresh s₀) (h : Reach step Spaced s₀ s) :
    Faithful s :=
  (h.invariant h₀.inv (fun _ _ _ hs hl hst => hs.step hl hst)).faithful

instance (l : Label) (s : InputThread) : Decidable (Spaced l s) := by
  induction l using Label.casesOn
  all_goals
    dsimp only [Spaced]
    infer_instance

/-- A packet as `initFrameInput` makes it. -/
def fresh : InputThread := { data := List.replicate sizePacket 0 }

theorem fresh_fresh : Fresh fresh := ⟨rfl, List.not_mem_nil, rfl, rfl⟩

/-- A finger goes down and up. -/
def down : Touch := ⟨0, 0x3F000000, 0x3F000000, 0⟩

/-- The second event of the two. -/
def up : Touch := { down with action := 1 }

/-- Each event is sent before the next one. -/
theorem touches_sent_two : ∃ s : InputThread, s.sent.length = 2 ∧ Faithful s := by
  obtain ⟨s, hs, hk⟩ := Reach.exists_of_run (show
    (run (fun l s => if Spaced l s then step l s else none)
      [.sendInput down, .handle, .sendInput up, .handle] fresh).map (·.sent.length) = some 2
    by decide)
  exact ⟨s, hk, touches_sent fresh_fresh hs⟩

/-- **Two calls before the first message is handled send the second event twice.** -/
theorem touches_altered : ¬ ∀ s₀ s : InputThread, Fresh s₀ → Reach step (fun _ _ => True) s₀ s →
    Faithful s := by
  intro hclaim
  obtain ⟨s, hs, hk⟩ := Reach.exists_of_run (show
    (run (fun l s => if True then step l s else none)
      [.sendInput down, .sendInput up, .handle] fresh).map (fun s => (s.sent, s.calls)) =
      some ([up.encode], [down, up]) by decide)
  simp only [Prod.mk.injEq] at hk
  have hsent := (hclaim fresh s fresh_fresh hs).sent
  rw [hk.1, hk.2] at hsent
  exact absurd hsent (by decide)

end InputThread

end MikaAudio.Client
