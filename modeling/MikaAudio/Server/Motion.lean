import MikaAudio.Client.Touch
import MikaAudio.Codec
import Mathlib.Data.List.Induction

/-!
# Motion events

`InputTask.run` receives into the array of one packet, which keeps what the datagrams
before have left behind the end of a short one.  It reads the fields of a `MotionEvent`
from the array, and the clock up to two times: for `eventTime` when a datagram has come,
and then for `downTime` when the action is `ACTION_DOWN`.

A history is the list of the datagrams that come before the loop ends, and the readings
of `SystemClock.uptimeMillis` are a function of their number.

* `ownDatagram_iff`: an event depends on its own datagram only if this fills the array.
* `consistent_iff`: `downTime ≤ eventTime` in every event, if no time passes between the
  two readings.
-/

namespace MikaAudio.Server.Motion

open Thread (Byte)
open Buffer

/-! ### The loop -/

/-- `POSITION_ACTION`. -/
def positionAction : Nat := 0

/-- `POSITION_X`. -/
def positionX : Nat := 4

/-- `POSITION_Y`. -/
def positionY : Nat := 8

/-- `POSITION_META_STATE`. -/
def positionMetaState : Nat := 12

/-- `SIZE_INPUT_PACKET`. -/
def sizeInputPacket : Nat := 16

/-- `MotionEvent.ACTION_DOWN`. -/
def actionDown : JInt := 0

/-- The product of a `float` and an `int`, which is not carried out here. -/
structure Product where
  float : JFloat
  int : JInt
  deriving DecidableEq

/-- The arguments of `MotionEvent.obtain`. -/
structure MotionEvent where
  downTime : Int
  eventTime : Int
  action : JInt
  x : Product
  y : Product
  metaState : JInt
  deriving DecidableEq

/-- The array of the packet, the variable `downTime`, how often the clock was read, and the
events given to `inputMotionEvent`. -/
structure State where
  data : List Byte
  downTime : Int
  readings : Nat
  events : List MotionEvent
  deriving DecidableEq

/-- `socket.receive(packet)`: what does not fit is lost. -/
def receive (data datagram : List Byte) : List Byte :=
  overwrite data 0 (datagram.take data.length)

section

variable (clock : Nat → Int) (screenWidth screenHeight : JInt)

/-- The variables in front of the loop, with the packet that `init` has made. -/
def start : State where
  data := List.replicate sizeInputPacket 0
  downTime := clock 0
  readings := 1
  events := []

/-- One round of the loop. -/
def handle (s : State) (datagram : List Byte) : State :=
  let data := receive s.data datagram
  let eventTime := clock s.readings
  let action := readInt data positionAction
  -- `downTime` is read after `eventTime`
  let downTime := if action = actionDown then clock (s.readings + 1) else s.downTime
  let readings := if action = actionDown then s.readings + 2 else s.readings + 1
  let x := ⟨readFloat data positionX, screenWidth⟩
  let y := ⟨readFloat data positionY, screenHeight⟩
  let metaState := readInt data positionMetaState
  { data, downTime, readings
    events := s.events ++ [{ downTime, eventTime, action, x, y, metaState }] }

/-- `run()`. -/
def run (history : List (List Byte)) : State :=
  history.foldl (handle clock screenWidth screenHeight) (start clock)

end

/-- What an event takes from the array: the action, the two floats before they are scaled and
the meta state. -/
def MotionEvent.content (e : MotionEvent) : JInt × JFloat × JFloat × JInt :=
  (e.action, e.x.float, e.y.float, e.metaState)

/-- The same, of an array. -/
def content (data : List Byte) : JInt × JFloat × JFloat × JInt :=
  (readInt data positionAction, readFloat data positionX, readFloat data positionY,
    readInt data positionMetaState)

/-! ### The array -/

section

variable {data datagram : List Byte} {clock : Nat → Int} {w h : JInt}

@[simp] theorem length_receive : (receive data datagram).length = data.length :=
  length_overwrite (by rw [Nat.zero_add]; exact List.length_take_le _ _)

theorem receive_of_le (h : data.length ≤ datagram.length) :
    receive data datagram = datagram.take data.length := by
  have hlen : (datagram.take data.length).length = data.length := by
    rw [List.length_take, Nat.min_eq_left h]
  rw [receive, overwrite, hlen, List.take_zero, Nat.zero_add, List.drop_length, List.nil_append,
    List.append_nil]

theorem getElem?_receive {k : Nat} (h : datagram.length ≤ k) :
    (receive data datagram)[k]? = data[k]? := by
  have hle := List.length_take_le data.length datagram
  have hle' := List.length_take_le' data.length datagram
  rw [receive, getElem?_overwrite (by omega), if_neg (by omega)]

theorem length_data_run (history : List (List Byte)) :
    (run clock w h history).data.length = sizeInputPacket := by
  induction history using List.reverseRecOn with
  | nil => exact List.length_replicate
  | append_singleton history d ih =>
    rw [run, List.foldl_append]
    exact length_receive.trans ih

theorem scaled_run (history : List (List Byte)) {e : MotionEvent}
    (he : e ∈ (run clock w h history).events) : e.x.int = w ∧ e.y.int = h := by
  induction history using List.reverseRecOn with
  | nil => cases he
  | append_singleton history d ih =>
    rw [run, List.foldl_append] at he
    rcases List.mem_append.mp he with he | he
    · exact ih he
    · obtain rfl := List.mem_singleton.mp he
      exact ⟨rfl, rfl⟩

/-- **The last event is read from the array.** -/
theorem content_getLast {history : List (List Byte)} {d : List Byte} {e : MotionEvent}
    (he : (run clock w h (history ++ [d])).events.getLast? = some e) :
    e.content = content (receive (run clock w h history).data d) := by
  rw [run, List.foldl_append, List.foldl_cons, List.foldl_nil, handle,
    List.getLast?_concat, Option.some.injEq] at he
  rw [← he]
  rfl

end

/-! ### An event and its datagram -/

/-- The bits of a `float` that is no number. -/
def IsNaN (x : JFloat) : Prop := 0x7F800000 < x &&& 0x7FFFFFFF

instance (x : JFloat) : Decidable (IsNaN x) := inferInstanceAs (Decidable (_ < _))

theorem floatToIntBits_of_not_isNaN {x : JFloat} (h : ¬ IsNaN x) : floatToIntBits x = x :=
  if_neg h

/-- The event dispatched for the datagram does not depend on those before it, and has the
arguments of the `sendInput` the datagram is from. -/
structure OwnDatagram (d : List Byte) : Prop where
  independent : ∀ (clock clock' : Nat → Int) (w h : JInt) (history history' : List (List Byte))
    (e e' : MotionEvent), (run clock w h (history ++ [d])).events.getLast? = some e →
    (run clock' w h (history' ++ [d])).events.getLast? = some e' → e.content = e'.content
  arguments : ∀ (t : Client.Touch) (data : List Byte), data.length = Client.sizePacket →
    ¬ IsNaN t.x → ¬ IsNaN t.y → t.write data = d →
    ∀ (clock : Nat → Int) (w h : JInt) (history : List (List Byte)) (e : MotionEvent),
      (run clock w h (history ++ [d])).events.getLast? = some e →
      e.content = (t.action, t.x, t.y, t.metaState)

theorem take_drop_of_readInt {xs ys : List Byte} {o : Nat} (hx : o + 4 ≤ xs.length)
    (hy : o + 4 ≤ ys.length) (h : readInt xs o = readInt ys o) :
    (xs.drop o).take 4 = (ys.drop o).take 4 := by
  rw [readInt_eq_get, readInt_eq_get] at h
  refine intCode.decode_inj ?_ ?_ h
  · rw [List.length_take, List.length_drop]
    exact Nat.min_eq_left (by omega)
  · rw [List.length_take, List.length_drop]
    exact Nat.min_eq_left (by omega)

/-- **An event shows the whole array.** -/
theorem getElem?_of_content {xs ys : List Byte} (hx : xs.length = sizeInputPacket)
    (hy : ys.length = sizeInputPacket) (h : content xs = content ys) {k : Nat}
    (hk : k < sizeInputPacket) : xs[k]? = ys[k]? := by
  simp only [content, readFloat, Prod.mk.injEq] at h
  have hblock {o : Nat} (ho : o + 4 ≤ sizeInputPacket) (hread : readInt xs o = readInt ys o)
      (hok : o ≤ k) (hko : k < o + 4) : xs[k]? = ys[k]? := by
    have hslice := congrArg (·[k - o]?)
      (take_drop_of_readInt (hx ▸ ho) (hy ▸ ho) hread)
    simp only [List.getElem?_take, List.getElem?_drop, Nat.add_sub_cancel' hok] at hslice
    rwa [if_pos (by omega), if_pos (by omega)] at hslice
  obtain ⟨ha, hx, hy, hm⟩ := h
  by_cases h4 : k < 4
  · exact hblock (by decide) ha (Nat.zero_le k) h4
  by_cases h8 : k < 8
  · exact hblock (by decide) hx (Nat.le_of_not_lt h4) h8
  by_cases h12 : k < 12
  · exact hblock (by decide) hy (Nat.le_of_not_lt h8) h12
  · exact hblock (by decide) hm (Nat.le_of_not_lt h12) hk

theorem content_encode (t : Client.Touch) :
    content t.encode =
      (t.action, floatToIntBits t.x, floatToIntBits t.y, t.metaState) := by
  have haction : readInt t.encode positionAction = readInt (intBytes t.action) 0 := rfl
  have hx : readInt t.encode positionX = readInt (intBytes (floatToIntBits t.x)) 0 := rfl
  have hy : readInt t.encode positionY = readInt (intBytes (floatToIntBits t.y)) 0 := rfl
  have hmeta : readInt t.encode positionMetaState = readInt (intBytes t.metaState) 0 := rfl
  rw [content, readFloat, readFloat, haction, hx, hy, hmeta]
  simp only [readInt_intBytes]

section

variable {d : List Byte}

theorem ownDatagram_of_le (hd : sizeInputPacket ≤ d.length) : OwnDatagram d := by
  have hread {clock w h history e}
      (he : (run clock w h (history ++ [d])).events.getLast? = some e) :
      e.content = content (d.take sizeInputPacket) := by
    have hlen : (run clock w h history).data.length = sizeInputPacket := length_data_run history
    rw [content_getLast he, receive_of_le (hlen ▸ hd), hlen]
  refine ⟨fun _ _ _ _ _ _ e e' he he' => (hread he).trans (hread he').symm, ?_⟩
  rintro t data hdata hx hy rfl _ _ _ _ e he
  rw [hread he, t.write_eq hdata, List.take_of_length_le (Nat.le_refl 16), content_encode,
    floatToIntBits_of_not_isNaN hx, floatToIntBits_of_not_isNaN hy]

theorem le_of_ownDatagram (h : OwnDatagram d) : sizeInputPacket ≤ d.length := by
  by_contra hshort
  have hk : d.length < sizeInputPacket := Nat.lt_of_not_le hshort
  -- one history leaves zeros in the array, the other one ones
  let first := run (fun _ => 0) 0 0 []
  let second := run (fun _ => 0) 0 0 [List.replicate sizeInputPacket 0xFF]
  have hlast (s : State) (e : MotionEvent) : (s.events ++ [e]).getLast? = some e :=
    List.getLast?_concat
  have hcontent : content (receive first.data d) = content (receive second.data d) :=
    h.independent (fun _ => 0) (fun _ => 0) 0 0 [] [List.replicate sizeInputPacket 0xFF] _ _
      (hlast first _) (hlast second _)
  have hbyte := getElem?_of_content (length_receive.trans (length_data_run []))
    (length_receive.trans (length_data_run _)) hcontent hk
  rw [getElem?_receive (Nat.le_refl _), getElem?_receive (Nat.le_refl _)] at hbyte
  have hfirst : first.data = List.replicate sizeInputPacket 0 := rfl
  have hsecond : second.data = List.replicate sizeInputPacket 0xFF := by decide
  rw [hfirst, hsecond, List.getElem?_replicate_of_lt hk, List.getElem?_replicate_of_lt hk] at hbyte
  exact absurd hbyte (by decide)

end

/-- **An event depends on its own datagram only, exactly if the datagram fills the array.** -/
theorem ownDatagram_iff (d : List Byte) : OwnDatagram d ↔ sizeInputPacket ≤ d.length :=
  ⟨le_of_ownDatagram, ownDatagram_of_le⟩

/-- **The event of an empty datagram** is the event before it. -/
theorem ownDatagram_empty : ¬ ∀ d, OwnDatagram d := by
  intro hclaim
  have hsame := (hclaim []).independent (fun _ => 0) (fun _ => 0) 0 0 []
    [List.replicate sizeInputPacket 1] _ _ rfl rfl
  exact absurd hsame (by decide)

/-! ### The times -/

/-- The `downTime` of the latest `ACTION_DOWN`, or the time the task began. -/
def latestDown (began : Int) (events : List MotionEvent) : Int :=
  ((events.filter (·.action = actionDown)).getLast?.map (·.downTime)).getD began

/-- The times of a list of events. -/
structure Consistent (began : Int) (events : List MotionEvent) : Prop where
  ordered : ∀ e ∈ events, e.downTime ≤ e.eventTime
  latest : ∀ i e, events[i]? = some e → e.downTime = latestDown began (events.take (i + 1))

section

variable (clock : Nat → Int) (screenWidth screenHeight : JInt)

/-- The readings never go back. -/
def NonDecreasing : Prop := ∀ m n, m ≤ n → clock m ≤ clock n

/-- No time passes between the two readings for an `ACTION_DOWN`. -/
def Steady : State → List (List Byte) → Prop
  | _, [] => True
  | s, d :: history =>
    (readInt (receive s.data d) positionAction = actionDown →
      clock (s.readings + 1) = clock s.readings) ∧
    Steady (handle clock screenWidth screenHeight s d) history

end

section

variable {began : Int} {events : List MotionEvent} {clock : Nat → Int} {w h : JInt}

theorem latestDown_append (e : MotionEvent) :
    latestDown began (events ++ [e]) =
      if e.action = actionDown then e.downTime else latestDown began events := by
  rw [latestDown, List.filter_append]
  by_cases he : e.action = actionDown
  · rw [if_pos he, List.filter_singleton, decide_eq_true he, cond_true, List.getLast?_concat]
    rfl
  · rw [if_neg he, List.filter_singleton, decide_eq_false he, cond_false, List.append_nil]
    rfl

theorem consistent_nil : Consistent began [] := ⟨nofun, nofun⟩

theorem Consistent.of_append {e : MotionEvent} (h : Consistent began (events ++ [e])) :
    Consistent began events := by
  refine ⟨fun e' he' => h.ordered e' (List.mem_append_left _ he'), fun i e' hi => ?_⟩
  have hlt := (List.getElem?_eq_some_iff.mp hi).1
  have hlatest := h.latest i e' ((List.getElem?_append_left hlt).trans hi)
  rwa [List.take_append_of_le_length hlt] at hlatest

theorem Consistent.append {e : MotionEvent} (h : Consistent began events)
    (hle : e.downTime ≤ e.eventTime) (hlatest : e.downTime = latestDown began (events ++ [e])) :
    Consistent began (events ++ [e]) := by
  refine ⟨fun e' he' => ?_, fun i e' hi => ?_⟩
  · rcases List.mem_append.mp he' with he' | he'
    · exact h.ordered e' he'
    · exact List.mem_singleton.mp he' ▸ hle
  · rcases Nat.lt_or_ge i events.length with hlt | hge
    · rw [List.getElem?_append_left hlt] at hi
      rw [List.take_append_of_le_length hlt]
      exact h.latest i e' hi
    · rw [List.getElem?_append_right hge] at hi
      obtain rfl := List.mem_singleton.mp (List.mem_of_getElem? hi)
      rwa [List.take_of_length_le]
      rw [List.length_append, List.length_singleton]
      omega

/-- **One round of the loop**: an event more, and its `downTime` is the variable's. -/
theorem handle_cases (s : State) (d : List Byte) : ∃ e : MotionEvent,
    (handle clock w h s d).events = s.events ++ [e] ∧
    (handle clock w h s d).downTime = e.downTime ∧ e.eventTime = clock s.readings ∧
    e.action = readInt (receive s.data d) positionAction ∧
    ((e.action = actionDown ∧ e.downTime = clock (s.readings + 1) ∧
        (handle clock w h s d).readings = s.readings + 2) ∨
      (e.action ≠ actionDown ∧ e.downTime = s.downTime ∧
        (handle clock w h s d).readings = s.readings + 1)) := by
  refine ⟨_, rfl, rfl, rfl, rfl, ?_⟩
  by_cases hdown : readInt (receive s.data d) positionAction = actionDown
  · exact Or.inl ⟨hdown, if_pos hdown, if_pos hdown⟩
  · exact Or.inr ⟨hdown, if_neg hdown, if_neg hdown⟩

/-- What holds between two rounds: the variable was read from the clock, and is that of the
latest `ACTION_DOWN`. -/
structure Round (clock : Nat → Int) (s : State) : Prop where
  read : ∃ n < s.readings, s.downTime = clock n
  latest : s.downTime = latestDown (clock 0) s.events

theorem round_start : Round clock (start clock) := ⟨⟨0, Nat.zero_lt_one, rfl⟩, rfl⟩

theorem Round.handle {s : State} (hs : Round clock s) (d : List Byte) :
    Round clock (handle clock w h s d) := by
  obtain ⟨⟨n, hn, hread⟩, hlatest⟩ := hs
  obtain ⟨e, hevents, hdown, -, -, ⟨hact, htime, hk⟩ | ⟨hact, htime, hk⟩⟩ :=
    @handle_cases clock w h s d
  · refine ⟨⟨s.readings + 1, by omega, hdown.trans htime⟩, ?_⟩
    rw [hdown, hevents, latestDown_append, if_pos hact]
  · refine ⟨⟨n, by omega, hdown.trans (htime.trans hread)⟩, ?_⟩
    rw [hdown, htime, hlatest, hevents, latestDown_append, if_neg hact]

/-- **One round keeps the times consistent**, if and only if its readings agree. -/
theorem consistent_handle (hmono : NonDecreasing clock) {s : State} (hs : Round clock s)
    (hc : Consistent (clock 0) s.events) (d : List Byte) :
    Consistent (clock 0) (handle clock w h s d).events ↔
      (readInt (receive s.data d) positionAction = actionDown →
        clock (s.readings + 1) = clock s.readings) := by
  have hlatest := (hs.handle (w := w) (h := h) d).latest
  obtain ⟨n, hn, hread⟩ := hs.read
  obtain ⟨e, hevents, hdown, htime, hact, hcases⟩ := @handle_cases clock w h s d
  rw [hdown, hevents] at hlatest
  rw [hevents, ← hact]
  constructor
  · intro hnew hisDown
    have hle := hnew.ordered e (List.mem_append_right _ List.mem_cons_self)
    obtain ⟨-, hdownTime, -⟩ | ⟨hne, -, -⟩ := hcases
    · rw [hdownTime, htime] at hle
      exact Int.le_antisymm hle (hmono _ _ (Nat.le_succ _))
    · exact absurd hisDown hne
  · intro hsame
    refine hc.append ?_ hlatest
    obtain ⟨hisDown, hdownTime, -⟩ | ⟨-, hdownTime, -⟩ := hcases
    · rw [hdownTime, htime, hsame hisDown]
    · rw [hdownTime, htime, hread]
      exact hmono _ _ (Nat.le_of_lt hn)

theorem consistent_of_foldl {s : State} (history : List (List Byte))
    (hc : Consistent began (history.foldl (handle clock w h) s).events) :
    Consistent began s.events := by
  induction history generalizing s with
  | nil => exact hc
  | cons d history ih =>
    obtain ⟨e, hevents, -⟩ := @handle_cases clock w h s d
    have hnext := ih hc
    rw [hevents] at hnext
    exact hnext.of_append

theorem consistent_foldl (hmono : NonDecreasing clock) {s : State} (hs : Round clock s)
    (hc : Consistent (clock 0) s.events) (history : List (List Byte)) :
    Consistent (clock 0) (history.foldl (handle clock w h) s).events ↔
      Steady clock w h s history := by
  induction history generalizing s with
  | nil => exact iff_of_true hc trivial
  | cons d history ih =>
    have hround := consistent_handle (w := w) (h := h) hmono hs hc d
    constructor
    · intro hrun
      have hnext := consistent_of_foldl history hrun
      exact ⟨hround.mp hnext, (ih (hs.handle d) hnext).mp hrun⟩
    · rintro ⟨hstep, hrest⟩
      exact (ih (hs.handle d) (hround.mpr hstep)).mpr hrest

end

/-- **The times are consistent exactly if** no time passes between the readings for an
`ACTION_DOWN`. -/
theorem consistent_iff {clock : Nat → Int} (hmono : NonDecreasing clock) (w h : JInt)
    (history : List (List Byte)) :
    Consistent (clock 0) (run clock w h history).events ↔
      Steady clock w h (start clock) history :=
  consistent_foldl hmono round_start consistent_nil history

/-- The clock stands still up to the readings for the first datagram, and then goes on. -/
def goingOn (n : Nat) : Int := 5 + 10 * (n - 2 : Nat)

/-- A finger goes down, moves and comes up. -/
theorem consistent_iff_goingOn : NonDecreasing goingOn ∧
    ((run goingOn 0 0 [List.replicate sizeInputPacket 0, List.replicate sizeInputPacket 2,
      List.replicate sizeInputPacket 1]).events.map fun e => (e.downTime, e.eventTime)) =
        [(5, 5), (5, 15), (5, 25)] ∧
    Consistent (goingOn 0) (run goingOn 0 0 [List.replicate sizeInputPacket 0,
      List.replicate sizeInputPacket 2, List.replicate sizeInputPacket 1]).events :=
  have hmono : NonDecreasing goingOn := fun m n hle => by
    rw [goingOn, goingOn]
    omega
  ⟨hmono, by decide, (consistent_iff hmono 0 0 _).mpr ⟨by decide, by decide, by decide, trivial⟩⟩

/-- **An `ACTION_DOWN` while the clock goes on** has a `downTime` after its `eventTime`. -/
theorem downTime_after_eventTime : ¬ ∀ (clock : Nat → Int) (w h : JInt)
    (history : List (List Byte)), NonDecreasing clock →
    Consistent (clock 0) (run clock w h history).events := by
  intro hclaim
  have hc := hclaim (fun n => n) 0 0 [List.replicate sizeInputPacket 0]
    fun _ _ hle => Int.ofNat_le.mpr hle
  exact absurd (hc.ordered _ (List.mem_of_mem_getLast? rfl)) (by decide)

end MikaAudio.Server.Motion
