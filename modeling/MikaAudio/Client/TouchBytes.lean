import MikaAudio.Client.Touch

/-!
# Touch events, byte by byte

`sendInput(action, x, y, metaState)` writes the sixteen bytes of the array one after the
other on the UI thread, and nothing keeps the `InputThread` from sending the packet in
between.  Here each write of a byte is a step of its own, and so is each byte that
`socket.send(packet)` copies, in whichever order it does.

* `refines_inputThread`: where a call is made only when no event waits or is being sent, the
  bytes make no difference, and the threads do what `InputThread` does.
* `last_touch_sent`: without that condition a datagram may be a mixture of two events, but
  the last datagram is always the event of the last call.
-/

namespace MikaAudio.Client

open Thread (Byte)
open Interleave (Reach run)

/-! ### The writes of a call -/

/-- The writes of `writeInt(byte[], int, int)`. -/
def intWrites (value : JInt) (offset : Nat) : List (Nat × Byte) :=
  [(offset, (value >>> 24).setWidth 8), (offset + 1, (value >>> 16).setWidth 8),
    (offset + 2, (value >>> 8).setWidth 8), (offset + 3, value.setWidth 8)]

/-- The writes of a call, in their order. -/
def Touch.writes (t : Touch) : List (Nat × Byte) :=
  intWrites t.action positionAction ++ intWrites (floatToIntBits t.x) positionX ++
    intWrites (floatToIntBits t.y) positionY ++ intWrites t.metaState positionMetaState

/-- The array after some writes. -/
def writeAll (data : List Byte) (writes : List (Nat × Byte)) : List Byte :=
  writes.foldl (fun data w => data.set w.1 w.2) data

@[simp] theorem writeAll_nil (data : List Byte) : writeAll data [] = data := rfl

@[simp] theorem writeAll_cons (data : List Byte) (w : Nat × Byte) (writes : List (Nat × Byte)) :
    writeAll data (w :: writes) = writeAll (data.set w.1 w.2) writes := rfl

theorem writeAll_append (data : List Byte) (ws ws' : List (Nat × Byte)) :
    writeAll data (ws ++ ws') = writeAll (writeAll data ws) ws' := List.foldl_append

theorem writeAll_intWrites (data : List Byte) (v : JInt) (o : Nat) :
    writeAll data (intWrites v o) = writeInt data v o := rfl

theorem writeAll_writes (t : Touch) (data : List Byte) :
    writeAll data t.writes = t.write data := by
  simp only [Touch.writes, writeAll_append, writeAll_intWrites]
  rfl

/-! ### The two threads -/

/-- The `InputThread` and the UI thread in `sendInput`: the call that is made with the writes
it has still to make, and the copy that `socket.send` makes of the array.  `calls` are the
calls that have posted their message. -/
structure TouchBytes where
  data : List Byte
  call : Option Touch := none
  writes : List (Nat × Byte) := []
  queue : List Message := []
  copy : Option (List (Option Byte)) := none
  out : List Sent := []
  sent : List (List Byte) := []
  calls : List Touch := []
  deriving DecidableEq

namespace TouchBytes

/-- Who moves. -/
inductive Label
  /-- The UI calls `sendInput(action, x, y, metaState)`. -/
  | sendInput (t : Touch)
  /-- The UI writes the next byte. -/
  | write
  /-- The UI posts the message, and the call returns. -/
  | sendToTarget
  /-- Another message is posted. -/
  | post (msg : InputMsg)
  /-- The `InputThread` takes a message. -/
  | handle
  /-- `socket.send(packet)` copies the byte at `k`. -/
  | copyByte (k : Nat)
  /-- `socket.send(packet)` returns. -/
  | send

/-- One write, one copied byte, or one message. -/
def step (l : Label) (s : TouchBytes) : Option TouchBytes :=
  match l with
  | .sendInput t =>
    match s.call with
    | none => some { s with call := some t, writes := t.writes }
    | some _ => none
  | .write =>
    match s.writes with
    | w :: writes => some { s with data := s.data.set w.1 w.2, writes := writes }
    | [] => none
  | .sendToTarget =>
    match s.call, s.writes with
    | some t, [] =>
      some { s with call := none, queue := s.queue ++ [.event], calls := s.calls ++ [t] }
    | _, _ => none
  | .post msg => some { s with queue := s.queue ++ [.input msg] }
  | .handle =>
    match s.copy, s.queue with
    | none, .event :: queue =>
      some { s with queue := queue, copy := some (List.replicate s.data.length none) }
    | none, .input msg :: queue => some { s with queue := queue, out := s.out ++ msg.bytes }
    | _, _ => none
  | .copyByte k =>
    match s.copy, s.data[k]? with
    | some copy, some b =>
      if copy[k]? = some none then some { s with copy := some (copy.set k (some b)) } else none
    | _, _ => none
  | .send =>
    match s.copy with
    | some copy =>
      if none ∈ copy then none
      else some { s with copy := none, sent := s.sent ++ [copy.filterMap id] }
    | none => none

/-- The packet was just made. -/
structure Fresh (s : TouchBytes) : Prop where
  data : s.data.length = sizePacket
  call : s.call = none
  writes : s.writes = []
  queue : .event ∉ s.queue
  copy : s.copy = none
  sent : s.sent = []
  calls : s.calls = []

/-- A call is made only when no event waits or is being sent. -/
def Spaced : Label → TouchBytes → Prop
  | .sendInput _, s => .event ∉ s.queue ∧ s.copy = none
  | _, _ => True

instance (l : Label) (s : TouchBytes) : Decidable (Spaced l s) := by
  induction l using Label.casesOn
  all_goals
    dsimp only [Spaced]
    infer_instance

/-- A copy that agrees with the array as far as it is made. -/
structure Copies (copy : List (Option Byte)) (data : List Byte) : Prop where
  length : copy.length = data.length
  byte : ∀ (k : Nat) (b : Byte), copy[k]? = some (some b) → data[k]? = some b

/-- What the UI thread has done so far: the writes to come complete the call. -/
structure Writing (s : TouchBytes) : Prop where
  data : s.data.length = sizePacket
  idle : s.call = none → s.writes = []
  busy : ∀ t, s.call = some t → writeAll s.data s.writes = t.encode

variable {s t : TouchBytes} {l : Label}

/-- What each of the moves does. -/
def Moves (l : Label) (s t : TouchBytes) : Prop :=
  match l with
  | .sendInput e => s.call = none ∧ t = { s with call := some e, writes := e.writes }
  | .write => ∃ w writes, s.writes = w :: writes ∧
      t = { s with data := s.data.set w.1 w.2, writes := writes }
  | .sendToTarget => ∃ e, s.call = some e ∧ s.writes = [] ∧
      t = { s with call := none, queue := s.queue ++ [.event], calls := s.calls ++ [e] }
  | .post msg => t = { s with queue := s.queue ++ [.input msg] }
  | .handle => s.copy = none ∧
      ((∃ queue, s.queue = .event :: queue ∧
        t = { s with queue := queue, copy := some (List.replicate s.data.length none) }) ∨
      ∃ msg queue, s.queue = .input msg :: queue ∧
        t = { s with queue := queue, out := s.out ++ msg.bytes })
  | .copyByte k => ∃ copy b, s.copy = some copy ∧ s.data[k]? = some b ∧ copy[k]? = some none ∧
      t = { s with copy := some (copy.set k (some b)) }
  | .send => ∃ copy, s.copy = some copy ∧ none ∉ copy ∧
      t = { s with copy := none, sent := s.sent ++ [copy.filterMap id] }

theorem step_cases (h : step l s = some t) : Moves l s t := by
  cases l with
  | sendInput e =>
    simp only [step] at h
    split at h
    · rename_i hcall
      exact ⟨hcall, (Option.some.inj h).symm⟩
    · cases h
  | write =>
    simp only [step] at h
    split at h
    · rename_i w writes hw
      exact ⟨w, writes, hw, (Option.some.inj h).symm⟩
    · cases h
  | sendToTarget =>
    simp only [step] at h
    split at h
    · rename_i e hcall hw
      exact ⟨e, hcall, hw, (Option.some.inj h).symm⟩
    · cases h
  | post msg => exact (Option.some.inj h).symm
  | handle =>
    simp only [step] at h
    split at h
    · rename_i queue hcopy hq
      exact ⟨hcopy, .inl ⟨queue, hq, (Option.some.inj h).symm⟩⟩
    · rename_i msg queue hcopy hq
      exact ⟨hcopy, .inr ⟨msg, queue, hq, (Option.some.inj h).symm⟩⟩
    · cases h
  | copyByte k =>
    simp only [step] at h
    split at h
    · rename_i copy b hcopy hb
      split_ifs at h with hk
      exact ⟨copy, b, hcopy, hb, hk, (Option.some.inj h).symm⟩
    · cases h
  | send =>
    simp only [step] at h
    split at h
    · rename_i copy hcopy
      split_ifs at h with hall
      exact ⟨copy, hcopy, hall, (Option.some.inj h).symm⟩
    · cases h

/-! ### The copy and the array -/

theorem Copies.new (data : List Byte) : Copies (List.replicate data.length none) data where
  length := List.length_replicate
  byte k b hk := by
    rw [List.getElem?_replicate] at hk
    split_ifs at hk
    cases hk

theorem Copies.set {copy : List (Option Byte)} {data : List Byte} (h : Copies copy data) {k : Nat}
    {b : Byte} (hb : data[k]? = some b) : Copies (copy.set k (some b)) data where
  length := List.length_set.trans h.length
  byte j c hj := by
    rw [List.getElem?_set] at hj
    split_ifs at hj with hkj hlt
    · rw [Option.some.injEq, Option.some.injEq] at hj
      rw [← hkj, ← hj, hb]
    · exact h.byte j c hj

theorem Copies.complete {copy : List (Option Byte)} {data : List Byte} (h : Copies copy data)
    (hall : none ∉ copy) : copy.filterMap id = data := by
  have hcopy : copy = data.map some := by
    refine List.ext_getElem (h.length.trans (List.length_map _).symm) fun k hk hk' => ?_
    rw [List.getElem_map]
    cases hc : copy[k] with
    | none => exact absurd (hc ▸ List.getElem_mem hk) hall
    | some b =>
      have hb := h.byte k b (by rw [List.getElem?_eq_getElem hk, hc])
      exact congrArg some (List.getElem?_eq_some_iff.mp hb).2.symm
  rw [hcopy, List.filterMap_map]
  exact List.filterMap_some

theorem Writing.step (h : Writing s) (hst : step l s = some t) : Writing t := by
  have hmove := step_cases hst
  cases l with
  | sendInput e =>
    obtain ⟨-, rfl⟩ := hmove
    refine ⟨h.data, nofun, fun e' he => ?_⟩
    cases he
    rw [writeAll_writes, e.write_eq h.data]
  | write =>
    obtain ⟨w, writes, hw, rfl⟩ := hmove
    refine ⟨List.length_set.trans h.data, fun hidle => ?_, fun e he => ?_⟩
    · cases hw.symm.trans (h.idle hidle)
    · have hbusy := h.busy e he
      rwa [hw, writeAll_cons] at hbusy
  | sendToTarget =>
    obtain ⟨e, -, hw, rfl⟩ := hmove
    exact ⟨h.data, fun _ => hw, nofun⟩
  | post msg =>
    obtain rfl := hmove
    exact ⟨h.data, h.idle, h.busy⟩
  | handle =>
    obtain ⟨-, ⟨queue, -, rfl⟩ | ⟨msg, queue, -, rfl⟩⟩ := hmove
    · exact ⟨h.data, h.idle, h.busy⟩
    · exact ⟨h.data, h.idle, h.busy⟩
  | copyByte k =>
    obtain ⟨copy, b, -, -, -, rfl⟩ := hmove
    exact ⟨h.data, h.idle, h.busy⟩
  | send =>
    obtain ⟨copy, -, -, rfl⟩ := hmove
    exact ⟨h.data, h.idle, h.busy⟩

/-! ### Spaced calls -/

/-- The `InputThread` that makes a call, and sends a packet, at once.  An event that is being
sent is one that waits there, and a call is made when it returns. -/
structure Refines (s : TouchBytes) (a : InputThread) : Prop where
  writing : Writing s
  length : a.data.length = sizePacket
  idle : s.call = none → a.data = s.data
  busy : ∀ e, s.call = some e → .event ∉ s.queue ∧ s.copy = none
  copies : ∀ copy, s.copy = some copy → Copies copy s.data
  queue : a.queue = if s.copy.isSome then .event :: s.queue else s.queue
  out : a.out = s.out
  sent : a.sent = s.sent
  calls : a.calls = s.calls

/-- **A step of the bytes is a step of the `InputThread`, or none.** -/
theorem Refines.step {a : InputThread} (h : Refines s a) (hl : Spaced l s)
    (hst : step l s = some t) :
    ∃ b, Reach InputThread.step InputThread.Spaced a b ∧ Refines t b := by
  have hmove := step_cases hst
  have hwriting := h.writing.step hst
  obtain ⟨hs, hlength, hidle, hbusy, hcopies, hqueue, hout, hsent, hcalls⟩ := h
  cases l with
  | sendInput e =>
    obtain ⟨hcall, rfl⟩ := hmove
    refine ⟨a, .refl, hwriting, hlength, fun hc => ?_, fun _ _ => hl, hcopies, hqueue, hout, hsent,
      hcalls⟩
    cases hc
  | write =>
    obtain ⟨w, writes, hw, rfl⟩ := hmove
    -- the UI is in a call, so the array is not looked at
    obtain ⟨e, hcall⟩ : ∃ e, s.call = some e := by
      cases hcall : s.call with
      | some e => exact ⟨e, rfl⟩
      | none => cases hw.symm.trans (hs.idle hcall)
    obtain ⟨-, hcopy⟩ := hbusy e hcall
    refine ⟨a, .refl, hwriting, hlength, fun hc => ?_, hbusy, fun copy hc => ?_, hqueue, hout,
      hsent, hcalls⟩
    · cases hcall.symm.trans hc
    · cases hcopy.symm.trans hc
  | sendToTarget =>
    obtain ⟨e, hcall, hw, rfl⟩ := hmove
    obtain ⟨hevent, hcopy⟩ := hbusy e hcall
    have hdata : s.data = e.encode := by
      have hdone := hs.busy e hcall
      rwa [hw, writeAll_nil] at hdone
    simp only [hcopy, Option.isSome_none, Bool.false_eq_true, if_false] at hqueue
    refine ⟨_, .single (l := .sendInput e) (fun hwait => ?_) rfl, hwriting, ?_, fun _ => ?_,
      fun _ he => ?_, fun copy hc => ?_, ?_, hout, hsent, congrArg (· ++ [e]) hcalls⟩
    · exact absurd (hqueue ▸ hwait) hevent
    · rw [e.write_eq hlength, e.length_encode]
    · exact (e.write_eq hlength).trans hdata.symm
    · cases he
    · cases hcopy.symm.trans hc
    · simp only [hcopy, Option.isSome_none, Bool.false_eq_true, if_false, hqueue]
  | post msg =>
    obtain rfl := hmove
    refine ⟨_, .single (l := .post msg) trivial rfl, hwriting, hlength, hidle, fun e he => ?_,
      hcopies, ?_, hout, hsent, hcalls⟩
    · obtain ⟨hevent, hcopy⟩ := hbusy e he
      exact ⟨by simpa using hevent, hcopy⟩
    · dsimp only
      rw [hqueue]
      split_ifs
      · rfl
      · rfl
  | handle =>
    obtain ⟨hcopy, ⟨queue, hq, rfl⟩ | ⟨msg, queue, hq, rfl⟩⟩ := hmove
    · -- the event still waits there
      refine ⟨a, .refl, hwriting, hlength, hidle, fun e he => ?_, fun copy hc => ?_, ?_, hout,
        hsent, hcalls⟩
      · exact absurd (hq ▸ List.mem_cons_self) (hbusy e he).1
      · cases hc
        exact .new s.data
      · rw [hqueue, hcopy, hq]
        rfl
    · simp only [hcopy, Option.isSome_none, Bool.false_eq_true, if_false, hq] at hqueue
      refine ⟨{ a with queue := queue, out := a.out ++ msg.bytes },
        .single (l := .handle) trivial ?_, hwriting, hlength, hidle, fun e he => ?_, hcopies, ?_,
        congrArg (· ++ msg.bytes) hout, hsent, hcalls⟩
      · rw [InputThread.step, hqueue]
      · obtain ⟨hevent, -⟩ := hbusy e he
        rw [hq] at hevent
        exact ⟨fun hmem => hevent (List.mem_cons_of_mem _ hmem), hcopy⟩
      · simp only [hcopy, Option.isSome_none, Bool.false_eq_true, if_false]
  | copyByte k =>
    obtain ⟨copy, b, hcopy, hb, hk, rfl⟩ := hmove
    refine ⟨a, .refl, hwriting, hlength, hidle, fun e he => ?_, fun c hc => ?_, ?_, hout, hsent,
      hcalls⟩
    · cases hcopy.symm.trans (hbusy e he).2
    · cases hc
      exact (hcopies copy hcopy).set hb
    · rw [hqueue, hcopy]
      rfl
  | send =>
    obtain ⟨copy, hcopy, hall, rfl⟩ := hmove
    have hcall : s.call = none := by
      cases hcall : s.call with
      | none => rfl
      | some e => cases hcopy.symm.trans (hbusy e hcall).2
    simp only [hcopy, Option.isSome_some, if_true] at hqueue
    refine ⟨{ a with queue := s.queue, sent := a.sent ++ [a.data] },
      .single (l := .handle) trivial ?_, hwriting, hlength, hidle, fun e he => ?_,
      fun copy hc => ?_, rfl, hout, ?_, hcalls⟩
    · rw [InputThread.step, hqueue]
    · cases hcall.symm.trans he
    · cases hc
    · dsimp only
      rw [hsent, hidle hcall, (hcopies copy hcopy).complete hall]

/-- The `InputThread` at the same packet. -/
def atOnce (s : TouchBytes) : InputThread where
  data := s.data
  queue := s.queue
  out := s.out
  sent := s.sent
  calls := s.calls

theorem Fresh.writing (h : Fresh s) : Writing s :=
  ⟨h.data, fun _ => h.writes, fun _ he => nomatch h.call.symm.trans he⟩

theorem Fresh.refines (h : Fresh s) : Refines s s.atOnce where
  writing := h.writing
  length := h.data
  idle _ := rfl
  busy _ he := nomatch h.call.symm.trans he
  copies _ hc := nomatch h.copy.symm.trans hc
  queue := by
    rw [h.copy]
    rfl
  out := rfl
  sent := rfl
  calls := rfl

theorem Fresh.atOnce (h : Fresh s) : InputThread.Fresh s.atOnce :=
  ⟨h.data, h.queue, h.sent, h.calls⟩

/-- **Spaced calls are as good as atomic ones**: whatever the threads do byte by byte, the
`InputThread` that does it at once may do too. -/
theorem refines_inputThread {s₀ s : TouchBytes} (h₀ : Fresh s₀) (h : Reach step Spaced s₀ s) :
    ∃ a, Reach InputThread.step InputThread.Spaced s₀.atOnce a ∧ a.sent = s.sent ∧
      a.calls = s.calls ∧ a.out = s.out := by
  obtain ⟨a, ha, hR⟩ := h.simulation h₀.refines fun _ _ _ _ hR hl hst => hR.step hl hst
  exact ⟨a, ha, hR.sent, hR.calls, hR.out⟩

theorem sent_spaced {s₀ s : TouchBytes} (h₀ : Fresh s₀) (h : Reach step Spaced s₀ s) :
    s.sent <+: s.calls.map Touch.encode := by
  obtain ⟨a, ha, hR⟩ := h.simulation h₀.refines fun _ _ _ _ hR hl hst => hR.step hl hst
  rw [← hR.sent, ← hR.calls]
  exact (ha.invariant h₀.atOnce.inv fun _ _ _ hi hl hst => hi.step hl hst).faithful.sent

/-! ### The last call -/

/-- Nothing is left to do for the calls that were made. -/
structure Settled (s : TouchBytes) : Prop where
  call : s.call = none
  queue : .event ∉ s.queue
  copy : s.copy = none

/-- One datagram for a call, and the last one is still to come or the event of the last call.
Of a copy that was begun before the call nothing is known, but then the message of the call
still waits. -/
structure Last (s : TouchBytes) : Prop where
  writing : Writing s
  count : s.sent.length + (if s.copy.isSome then 1 else 0) + s.queue.count .event = s.calls.length
  data : s.call = none → ∀ e, s.calls.getLast? = some e → s.data = e.encode
  last : s.call = none → s.calls ≠ [] → .event ∈ s.queue ∨
    (∃ copy, s.copy = some copy ∧ Copies copy s.data) ∨
    s.copy = none ∧ s.sent.getLast? = some s.data

theorem Fresh.last (h : Fresh s) : Last s where
  writing := h.writing
  count := by
    rw [h.sent, h.copy, h.calls, List.count_eq_zero_of_not_mem h.queue]
    rfl
  data _ e he := by
    rw [h.calls] at he
    cases he
  last _ hne := absurd h.calls hne

theorem Last.step (h : Last s) (hst : step l s = some t) : Last t := by
  have hmove := step_cases hst
  have hwriting := h.writing.step hst
  obtain ⟨hs, hcount, hdata, hlast⟩ := h
  cases l with
  | sendInput e =>
    obtain ⟨-, rfl⟩ := hmove
    exact ⟨hwriting, hcount, nofun, nofun⟩
  | write =>
    obtain ⟨w, writes, hw, rfl⟩ := hmove
    -- only a call writes
    have hbusy : s.call ≠ none := fun hcall => nomatch hw.symm.trans (hs.idle hcall)
    exact ⟨hwriting, hcount, fun hcall => absurd hcall hbusy, fun hcall => absurd hcall hbusy⟩
  | sendToTarget =>
    obtain ⟨e, hcall, hw, rfl⟩ := hmove
    refine ⟨hwriting, ?_, fun _ e' he' => ?_, fun _ _ => ?_⟩
    · rw [List.count_append, List.length_append, ← hcount]
      exact (Nat.add_assoc _ _ _).symm
    · rw [List.getLast?_concat, Option.some.injEq] at he'
      have hdone := hs.busy e hcall
      rwa [hw, writeAll_nil, he'] at hdone
    · exact .inl (List.mem_append_right _ (List.mem_singleton_self _))
  | post msg =>
    obtain rfl := hmove
    refine ⟨hwriting, ?_, hdata, fun hcall hne => ?_⟩
    · rw [List.count_append]
      exact hcount
    · exact (hlast hcall hne).imp_left (List.mem_append_left _)
  | handle =>
    obtain ⟨hcopy, ⟨queue, hq, rfl⟩ | ⟨msg, queue, hq, rfl⟩⟩ := hmove
    · refine ⟨hwriting, ?_, hdata, fun _ _ => .inr (.inl ⟨_, rfl, .new s.data⟩)⟩
      rw [hcopy, hq, List.count_cons_self] at hcount
      simp only [Option.isSome_none, Bool.false_eq_true, if_false] at hcount
      simp only [Option.isSome_some, if_true]
      omega
    · rw [hq, List.count_cons_of_ne (show Message.input msg ≠ .event from nofun)] at hcount
      refine ⟨hwriting, hcount, hdata, fun hcall hne => ?_⟩
      rcases hlast hcall hne with hmem | hcopied
      · rw [hq] at hmem
        exact .inl ((List.mem_cons.mp hmem).resolve_left nofun)
      · exact .inr hcopied
  | copyByte k =>
    obtain ⟨copy, b, hcopy, hb, hk, rfl⟩ := hmove
    rw [hcopy] at hcount
    refine ⟨hwriting, hcount, hdata, fun hcall hne => ?_⟩
    rcases hlast hcall hne with hmem | ⟨c, hc, hcopies⟩ | ⟨hnone, -⟩
    · exact .inl hmem
    · cases hcopy.symm.trans hc
      exact .inr (.inl ⟨_, rfl, hcopies.set hb⟩)
    · cases hcopy.symm.trans hnone
  | send =>
    obtain ⟨copy, hcopy, hall, rfl⟩ := hmove
    refine ⟨hwriting, ?_, hdata, fun hcall hne => ?_⟩
    · rw [hcopy] at hcount
      rw [List.length_append]
      exact hcount
    · rcases hlast hcall hne with hmem | ⟨c, hc, hcopies⟩ | ⟨hnone, -⟩
      · exact .inl hmem
      · cases hcopy.symm.trans hc
        refine .inr (.inr ⟨rfl, ?_⟩)
        rw [List.getLast?_concat, hcopies.complete hall]
      · cases hcopy.symm.trans hnone

/-- **The last touch is sent**, whatever became of those before it. -/
theorem last_touch_sent {ok : Label → TouchBytes → Prop} {s₀ s : TouchBytes} (h₀ : Fresh s₀)
    (h : Reach step ok s₀ s) (hs : Settled s) :
    s.sent.length = s.calls.length ∧ s.sent.getLast? = s.calls.getLast?.map Touch.encode := by
  have hinv : Last s := h.invariant h₀.last fun _ _ _ hi _ hst => hi.step hst
  have hlength : s.sent.length = s.calls.length := by
    have hcount := hinv.count
    rwa [hs.copy, List.count_eq_zero_of_not_mem hs.queue] at hcount
  refine ⟨hlength, ?_⟩
  cases hcalls : s.calls.getLast? with
  | none =>
    rw [List.getLast?_eq_none_iff] at hcalls
    rw [hcalls, List.length_nil, List.length_eq_zero_iff] at hlength
    rw [hlength]
    rfl
  | some e =>
    have hne : s.calls ≠ [] := fun hnil => by
      rw [hnil] at hcalls
      cases hcalls
    rcases hinv.last hs.call hne with hmem | ⟨copy, hcopy, -⟩ | ⟨-, hlast⟩
    · exact absurd hmem hs.queue
    · cases hs.copy.symm.trans hcopy
    · rw [hlast, hinv.data hs.call e hcalls]
      rfl

/-! ### The datagrams -/

/-- What is sent fills a packet. -/
structure Sized (s : TouchBytes) : Prop where
  data : s.data.length = sizePacket
  copy : ∀ copy, s.copy = some copy → copy.length = sizePacket
  sent : ∀ d ∈ s.sent, d.length = sizePacket

theorem Fresh.sized (h : Fresh s) : Sized s where
  data := h.data
  copy _ hc := nomatch h.copy.symm.trans hc
  sent d hd := by
    rw [h.sent] at hd
    cases hd

/-- A step sends a datagram or none, and a mixture of two events is as long as an event. -/
theorem Sized.step (h : Sized s) (hst : step l s = some t) :
    Sized t ∧ (t.sent = s.sent ∨ ∃ d, t.sent = s.sent ++ [d]) := by
  have hmove := step_cases hst
  obtain ⟨hdata, hcopy, hsent⟩ := h
  cases l with
  | sendInput e =>
    obtain ⟨-, rfl⟩ := hmove
    exact ⟨⟨hdata, hcopy, hsent⟩, .inl rfl⟩
  | write =>
    obtain ⟨w, writes, -, rfl⟩ := hmove
    exact ⟨⟨List.length_set.trans hdata, hcopy, hsent⟩, .inl rfl⟩
  | sendToTarget =>
    obtain ⟨e, -, -, rfl⟩ := hmove
    exact ⟨⟨hdata, hcopy, hsent⟩, .inl rfl⟩
  | post msg =>
    obtain rfl := hmove
    exact ⟨⟨hdata, hcopy, hsent⟩, .inl rfl⟩
  | handle =>
    obtain ⟨-, ⟨queue, -, rfl⟩ | ⟨msg, queue, -, rfl⟩⟩ := hmove
    · refine ⟨⟨hdata, fun copy hc => ?_, hsent⟩, .inl rfl⟩
      cases hc
      exact List.length_replicate.trans hdata
    · exact ⟨⟨hdata, hcopy, hsent⟩, .inl rfl⟩
  | copyByte k =>
    obtain ⟨copy, b, hc, -, -, rfl⟩ := hmove
    refine ⟨⟨hdata, fun copy' hc' => ?_, hsent⟩, .inl rfl⟩
    cases hc'
    exact List.length_set.trans (hcopy copy hc)
  | send =>
    obtain ⟨copy, hc, hall, rfl⟩ := hmove
    refine ⟨⟨hdata, nofun, fun d hd => ?_⟩, .inr ⟨_, rfl⟩⟩
    rcases List.mem_append.mp hd with hd | hd
    · exact hsent d hd
    · rw [List.mem_singleton.mp hd, ← hcopy copy hc]
      refine List.filterMap_length_eq_length.mpr fun b hb => ?_
      cases b with
      | none => exact absurd hb hall
      | some b => rfl

/-- A packet as `initFrameInput` makes it. -/
def fresh : TouchBytes := { data := List.replicate sizePacket 0 }

theorem fresh_fresh : Fresh fresh := ⟨rfl, rfl, rfl, List.not_mem_nil, rfl, rfl, rfl⟩

/-- A call and its message, with nothing in between. -/
def wholeCall (t : Touch) : List Label :=
  .sendInput t :: (List.replicate sizePacket .write ++ [.sendToTarget, .handle] ++
    (List.range sizePacket).map .copyByte ++ [.send])

/-- Each event is sent before the next one. -/
theorem refines_inputThread_two : ∃ (s : TouchBytes) (a : InputThread),
    s.sent = [InputThread.down.encode, InputThread.up.encode] ∧
      Reach InputThread.step InputThread.Spaced fresh.atOnce a ∧ a.sent = s.sent ∧
      a.calls = s.calls ∧ a.out = s.out := by
  obtain ⟨s, hs, hk⟩ := Reach.exists_of_run (show
    (run (fun l s => if Spaced l s then step l s else none)
      (wholeCall InputThread.down ++ wholeCall InputThread.up) fresh).map (·.sent) =
      some [InputThread.down.encode, InputThread.up.encode] by decide +kernel)
  obtain ⟨a, ha⟩ := refines_inputThread fresh_fresh hs
  exact ⟨s, a, hk, ha⟩

end TouchBytes

end MikaAudio.Client
