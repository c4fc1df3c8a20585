import MikaAudio.Session.Presses
import MikaAudio.Server.Cleanup

/-!
# The command stream of the input mode

The `InputThread` writes a mode byte and then the command; `listen` reads a mode byte
and then what it takes for the command.  `Stage` follows `listen` through the stream
of a list of commands: the keys it has dispatched, and the commands whose bytes are
still to be read.

Two commands do not survive.  `out.write(key)` writes the low byte of a key only.  And
nothing ends a text: `readString` reads to the end of the stream, so on an open
connection `listen` never comes back from the first text.
-/

namespace MikaAudio.Session

open Thread Server Interleave
open Client (InputMsg)

/-! ### Commands -/

/-- What the UI sends: a key, or a text of type `τ`. -/
inductive Command (τ : Type)
  | key (key : JInt)
  | text (text : τ)

section Commands

variable {τ : Type} (encode : τ → List Byte) (decode : List Byte → τ)

/-- The message `sendInput` posts to the `InputThread`. -/
def Command.msg : Command τ → InputMsg
  | .key k => .key k
  | .text t => .text (encode t)

/-- What the server dispatches. -/
def Command.ofEvent : InputEvent → Command τ
  | .key k => .key k
  | .text raw => .text (decode raw)

/-- The bytes the `InputThread` writes for the commands and a final `exit()`. -/
def stream (cmds : List (Command τ)) : List Byte :=
  ((cmds.map (Command.msg encode) ++ [InputMsg.exit]).flatMap InputMsg.bytes).map Client.Sent.val

theorem stream_written (cmds : List (Command τ)) {s t : Session} {n : Nat} (hc : s.c2s = [])
    (hi : s.input = []) (hq : s.client.inputQueue = cmds.map (Command.msg encode) ++ [.exit])
    (hp : Path (fun a b => stepInput a = some b) n s t) (ht : t.InputIdle) :
    t.c2s.map Client.Sent.val = stream encode cmds := by
  have htransit : t.transit = s.transit :=
    hp.invariant (I := fun u => u.transit = s.transit)
      (fun _ _ hst hu => (stepInput_transit hst).trans hu) rfl
  rw [← ht.transit, htransit, transit, hc, hi, hq, List.append_nil, List.nil_append, stream]

@[simp] theorem stream_nil : stream encode ([] : List (Command τ)) = [modeExit] := rfl

@[simp] theorem stream_key (k : JInt) (cmds : List (Command τ)) :
    stream encode (.key k :: cmds) = modeKey :: k.setWidth 8 :: stream encode cmds := rfl

@[simp] theorem stream_text (t : τ) (cmds : List (Command τ)) :
    stream encode (.text t :: cmds) = modeText :: (encode t ++ stream encode cmds) := by
  simp [stream, Command.msg, InputMsg.bytes, Function.comp_def]

/-! ### The stages of `listen` -/

/-- A step of `listen`, on a stream that stays open and without timeouts. -/
def Listens (c : Nat) (s t : Conf Memory TaskPc) : Prop :=
  (∃ pc inString, s.pc = .listen pc inString) ∧
    ∃ e n, Conf.step (taskOp c) false (.go e n) s = some t

/-- The keys `done` are dispatched. -/
def Dispatched (m : Memory) (done : List JInt) (m' : Memory) : Prop :=
  m'.events = m.events ++ done.map fun k => .key (wireKey k)

/-- `listen`, called with `m`, has read the keys `done` of the commands. -/
inductive Stage (m : Memory) (cmds : List (Command τ)) : Conf Memory TaskPc → Prop
  | ack (out : List Byte) : Stage m cmds ⟨m, .listen .ack [], stream encode cmds, out⟩
  | mode (m' : Memory) (out : List Byte) (done : List JInt) (todo : List (Command τ))
      (hcmds : cmds = done.map Command.key ++ todo) (hm : Dispatched m done m') :
      Stage m cmds ⟨m', .listen .mode [], stream encode todo, out⟩
  | key (m' : Memory) (out : List Byte) (done : List JInt) (k : JInt) (todo : List (Command τ))
      (hcmds : cmds = done.map Command.key ++ .key k :: todo) (hm : Dispatched m done m') :
      Stage m cmds ⟨m', .listen .key [], k.setWidth 8 :: stream encode todo, out⟩
  | dispatch (m' : Memory) (out : List Byte) (done : List JInt) (k : JInt)
      (todo : List (Command τ)) (hcmds : cmds = done.map Command.key ++ .key k :: todo)
      (hm : Dispatched m done m') :
      Stage m cmds ⟨m', .listen (.dispatchKey (wireKey k)) [], stream encode todo, out⟩
  | text (m' : Memory) (inString rest out : List Byte) (t : τ) (ht : .text t ∈ cmds) :
      Stage m cmds ⟨m', .listen .text inString, rest, out⟩
  | exitAck (m' : Memory) (out : List Byte) (done : List JInt)
      (hcmds : cmds = done.map Command.key) (hm : Dispatched m done m') :
      Stage m cmds ⟨m', .listen .exitAck [], [], out⟩
  | returned (m' : Memory) (out : List Byte) (done : List JInt)
      (hcmds : cmds = done.map Command.key) (hm : Dispatched m done m') :
      Stage m cmds ⟨m', .loop, [], out⟩

variable {encode}

section Stages

variable {c : Nat} {m : Memory} {cmds : List (Command τ)} {s t : Conf Memory TaskPc}

theorem ofMode_modeExit : ListenPc.ofMode modeExit = .exitAck := by decide

theorem ofMode_modeKey : ListenPc.ofMode modeKey = .key := by decide

theorem ofMode_modeText : ListenPc.ofMode modeText = .text := by decide

theorem Stage.step (h : Stage encode m cmds s) (hst : Listens c s t) :
    Stage encode m cmds t ∧
      32 * t.input.length + t.pc.rank < 32 * s.input.length + s.pc.rank := by
  obtain ⟨⟨pc, inString, hpc⟩, e, n, hst⟩ := hst
  cases h with
  | ack out =>
    rw [Conf.step_write rfl] at hst
    cases hst
    exact ⟨.mode m _ [] cmds rfl (List.append_nil _).symm, by simp [TaskPc.rank, ListenPc.rank]⟩
  | mode m' out done todo hcmds hm =>
    cases todo with
    | nil =>
      rw [stream_nil, Conf.step_read rfl] at hst
      cases hst
      exact ⟨.exitAck m' out done (by rw [hcmds, List.append_nil]) hm,
        by simp [TaskPc.rank, ofMode_modeExit, ListenPc.rank]⟩
    | cons cmd todo =>
      cases cmd with
      | key k =>
        rw [stream_key, Conf.step_read rfl] at hst
        cases hst
        exact ⟨.key m' out done k todo hcmds hm,
          by simp [TaskPc.rank, ofMode_modeKey, ListenPc.rank]⟩
      | text x =>
        rw [stream_text, Conf.step_read rfl] at hst
        cases hst
        exact ⟨.text m' [] _ out x (by rw [hcmds]; simp),
          by simp [TaskPc.rank, ofMode_modeText, ListenPc.rank]⟩
  | key m' out done k todo hcmds hm =>
    rw [Conf.step_read rfl] at hst
    cases hst
    refine ⟨.dispatch m' out done k todo hcmds hm, ?_⟩
    simp only [TaskPc.rank, ListenPc.rank, List.length_cons]
    omega
  | dispatch m' out done k todo hcmds hm =>
    rw [Conf.step_act rfl] at hst
    cases hst
    refine ⟨.mode _ out (done ++ [k]) todo (by simp [hcmds]) ?_,
      by simp [TaskPc.rank, ListenPc.rank]⟩
    rw [Dispatched] at hm ⊢
    simp [Memory.post, hm]
  | text m' inString rest out x hx =>
    cases rest with
    | nil =>
      rw [Conf.step_readBuf_nil rfl] at hst
      cases hst
    | cons b rest =>
      rw [Conf.step_readBuf rfl] at hst
      split at hst
      · cases hst
        rename_i hn
        refine ⟨.text m' _ _ out x hx, ?_⟩
        simp only [TaskPc.rank, ListenPc.rank, List.length_drop]
        omega
      · cases hst
  | exitAck m' out done hcmds hm =>
    rw [Conf.step_write rfl] at hst
    cases hst
    exact ⟨.returned m' _ done hcmds hm, by simp [TaskPc.rank, ListenPc.rank]⟩
  | returned m' out done hcmds hm => cases hpc

/-- As long as no text comes, `listen` goes on. -/
theorem Stage.progress (h : Stage encode m cmds s) (htext : ∀ t, .text t ∉ cmds)
    (hpc : s.pc ≠ .loop) (e : Env) : ∃ t, Listens c s t := by
  cases h with
  | ack out => exact ⟨_, ⟨_, _, rfl⟩, e, 1, Conf.step_write rfl⟩
  | mode m' out done todo hcmds hm =>
    cases todo with
    | nil => exact ⟨_, ⟨_, _, rfl⟩, e, 1, Conf.step_read rfl _ _⟩
    | cons cmd todo =>
      cases cmd with
      | key k => exact ⟨_, ⟨_, _, rfl⟩, e, 1, Conf.step_read rfl _ _⟩
      | text t => exact absurd (by rw [hcmds]; simp) (htext t)
  | key m' out done k todo hcmds hm => exact ⟨_, ⟨_, _, rfl⟩, e, 1, Conf.step_read rfl _ _⟩
  | dispatch m' out done k todo hcmds hm =>
    exact ⟨_, ⟨_, _, rfl⟩, e, 1, by rw [Conf.step_act rfl]; rfl⟩
  | text m' inString rest out t ht => exact absurd ht (htext t)
  | exitAck m' out done hcmds hm => exact ⟨_, ⟨_, _, rfl⟩, e, 1, Conf.step_write rfl⟩
  | returned m' out done hcmds hm => exact absurd rfl hpc

theorem Stage.of_returned (h : Stage encode m cmds s) (hpc : s.pc = .loop) :
    s.input = [] ∧ ∃ done, cmds = done.map Command.key ∧ Dispatched m done s.mem := by
  cases h with
  | returned m' out done hcmds hm => exact ⟨rfl, done, hcmds, hm⟩
  | _ => cases hpc

end Stages

/-! ### What comes out -/

/-- `listen` returns, all bytes are read, and what it has dispatched are the commands. -/
def Received (decode : List Byte → τ) (m : Memory) (cmds : List (Command τ))
    (s : Conf Memory TaskPc) : Prop :=
  s.pc = .loop ∧ s.input = [] ∧
    ∃ events, s.mem.events = m.events ++ events ∧ events.map (Command.ofEvent decode) = cmds

/-- `listen` on the stream of the commands. -/
def listening (encode : τ → List Byte) (m : Memory) (cmds : List (Command τ)) :
    Conf Memory TaskPc :=
  ⟨m, .listen .ack [], stream encode cmds, []⟩

variable {decode}

/-- The command is a key the wire can carry. -/
def Command.Carried (cmd : Command τ) : Prop := ∃ k : JInt, cmd = .key k ∧ k.toNat < 256

theorem wireKey_eq_iff {k : JInt} : wireKey k = k ↔ k.toNat < 256 := by
  refine ⟨fun h => ?_, wireKey_of_lt⟩
  have hk := congrArg BitVec.toNat h
  simp only [wireKey, inRead, BitVec.toNat_setWidth] at hk
  omega

theorem carried_of_received {c : Nat} {m : Memory} {cmds : List (Command τ)}
    (h : Inevitable (Listens c) (Received decode m cmds) (listening encode m cmds)) :
    ∀ cmd ∈ cmds, cmd.Carried := by
  obtain ⟨s, ⟨hpc, _, events, hevents, hcmds⟩, hstage⟩ :=
    h.exists_of_invariant (I := Stage encode m cmds) (fun _ _ hst hs => (hs.step hst).1) (.ack [])
  obtain ⟨_, done, hdone, hm⟩ := hstage.of_returned hpc
  rw [Dispatched, hevents, List.append_cancel_left_eq] at hm
  rw [hm, hdone, List.map_map] at hcmds
  intro cmd hcmd
  rw [hdone] at hcmd
  obtain ⟨k, hk, rfl⟩ := List.mem_map.mp hcmd
  have hwire := List.map_inj_left.mp hcmds k hk
  exact ⟨k, rfl, wireKey_eq_iff.mp (Command.key.inj hwire)⟩

theorem received_of_carried {m : Memory} {cmds : List (Command τ)} (c : Nat)
    (h : ∀ cmd ∈ cmds, cmd.Carried) :
    Inevitable (Listens c) (Received decode m cmds) (listening encode m cmds) := by
  have htext : ∀ t, .text t ∉ cmds := by
    intro t ht
    obtain ⟨k, hk, _⟩ := h _ ht
    cases hk
  have hreturns : Inevitable (Listens c) (fun s => s.pc = .loop ∧ Stage encode m cmds s)
      (listening encode m cmds) := by
    refine Inevitable.of_rank (I := Stage encode m cmds)
      (fun s => 32 * s.input.length + s.pc.rank) ?_ ?_ (.ack [])
    · intro s hs hne
      exact hs.progress htext (fun hpc => hne ⟨hpc, hs⟩) ⟨0, true, 0, 0, 0, true⟩
    · exact fun s t hs _ hst => hs.step hst
  refine hreturns.mono ?_
  rintro s ⟨hpc, hstage⟩
  obtain ⟨hinput, done, rfl, hm⟩ := hstage.of_returned hpc
  refine ⟨hpc, hinput, _, hm, ?_⟩
  rw [List.map_map]
  refine List.map_congr_left (fun k hk => ?_)
  obtain ⟨k', hk', hlt⟩ := h (.key k) (List.mem_map.mpr ⟨k, hk, rfl⟩)
  cases hk'
  exact congrArg Command.key (wireKey_of_lt hlt)

/-- **The command stream decodes to what was encoded if and only if every command is a key
below 256**, whatever bytes stand for a text. -/
theorem stream_decodes (encode : τ → List Byte) (decode : List Byte → τ) (c : Nat) (m : Memory)
    (cmds : List (Command τ)) :
    Inevitable (Listens c) (Received decode m cmds) (listening encode m cmds) ↔
      ∀ cmd ∈ cmds, cmd.Carried :=
  ⟨carried_of_received, received_of_carried c⟩

end Commands

/-- `getBytes(CHARSET_UTF_8)`. -/
def utf8 (text : String) : List Byte := text.toUTF8.data.toList.map UInt8.toBitVec

/-- The string of these bytes. -/
def ofUtf8 (raw : List Byte) : String :=
  (String.fromUTF8? ⟨(raw.map UInt8.ofBitVec).toArray⟩).getD ""

/-- **A text is never dispatched**: `listen` waits for the end of the stream. -/
theorem stream_lost : ¬ ∀ cmds : List (Command String),
    (∀ k : JInt, .key k ∈ cmds → k.toNat < 2 ^ 31) →
      Inevitable (Listens 0) (Received ofUtf8 {} cmds) (listening utf8 {} cmds) := by
  intro hclaim
  obtain ⟨k, hk, _⟩ := carried_of_received (hclaim [.text "a"] (by simp)) (.text "a")
    List.mem_cons_self
  cases hk

end MikaAudio.Session
