import MikaAudio.Lib.Pace
import MikaAudio.Server.Debounce
import MikaAudio.Server.Batches

/-!
# How fast the remote presses keys

The test of `IrParser.run` says no to some events that come late enough, and to none that come
too early.  So whatever the device gives and however the reads cut it up, the events accepted
are `MIN_DELAY` apart, and in any `n * MIN_DELAY` of its time at most `n` keys go to
`inputKeyEvent` (`ir_pace`).
-/

namespace MikaAudio.Server

open Thread
open Interleave
open Pace (Apart)

/-! ### What is accepted -/

/-- The key an event is for, if it is accepted. -/
def Examined.key? (e : Examined) : Option JInt :=
  if e.accepted then keyProtocols.lookup (getInt e.event 12) else none

/-- The times of the accepted events, in microseconds. -/
def acceptedTimes (log : List Examined) : List Int :=
  (log.filter Examined.accepted).map fun e => e.time.micros

/-- The times of those that are for a key. -/
def keyTimes (log : List Examined) : List Int :=
  log.filterMap fun e => e.key?.map fun _ => e.time.micros

theorem keyTimes_sublist (log : List Examined) : (keyTimes log).Sublist (acceptedTimes log) := by
  induction log with
  | nil => exact .slnil
  | cons e log ih =>
    unfold keyTimes acceptedTimes Examined.key? at ih ⊢
    rw [List.filterMap_cons, List.filter_cons]
    cases e.accepted with
    | false => exact ih
    | true =>
      rw [if_pos rfl, if_pos rfl, List.map_cons]
      cases keyProtocols.lookup (getInt e.event 12) with
      | none => exact ih.cons _
      | some key => exact ih.cons_cons _

/-- **What is accepted is late enough**, after the last accepted event and so after all. -/
theorem apart_acceptedTimes : ∀ {log : List Examined} {prev : Time}, prev.Valid →
    (∀ e ∈ log, e.time.Valid) → (∀ e ∈ log, prev.micros ≤ e.time.micros) →
    log.Pairwise (fun a b => a.time.micros ≤ b.time.micros) →
    Decides (fun prev t => prev.accepts t = true) prev log →
    (∀ t ∈ acceptedTimes log, prev.micros + minDelay.toInt ≤ t) ∧
      Apart minDelay.toInt (acceptedTimes log) := by
  intro log
  induction log with
  | nil => intro prev _ _ _ _ _; exact ⟨nofun, .nil⟩
  | cons e log ih =>
    intro prev hprev hvalid hle horder hdecides
    obtain ⟨hlater, horder⟩ := List.pairwise_cons.mp horder
    have he := hvalid e List.mem_cons_self
    have hrest := hdecides.2
    have hvalid' := fun d hd => hvalid d (List.mem_cons_of_mem e hd)
    cases haccepted : e.accepted with
    | false =>
      have htimes : acceptedTimes (e :: log) = acceptedTimes log := by
        rw [acceptedTimes, List.filter_cons, haccepted]
        rfl
      rw [haccepted, if_neg Bool.false_ne_true] at hrest
      rw [htimes]
      exact ih hprev hvalid' (fun d hd => hle d (List.mem_cons_of_mem e hd)) horder hrest
    | true =>
      have htimes : acceptedTimes (e :: log) = e.time.micros :: acceptedTimes log := by
        rw [acceptedTimes, List.filter_cons, haccepted]
        rfl
      rw [haccepted, if_pos rfl] at hrest
      obtain ⟨hafter, hapart⟩ := ih he hvalid' hlater horder hrest
      have hlate := ((accepts_iff hprev he (hle e List.mem_cons_self)).mp
        (hdecides.1.mp haccepted)).1
      have hgap : prev.micros + minDelay.toInt ≤ e.time.micros := by
        unfold Time.elapsed at hlate
        unfold Time.micros
        omega
      have hpos : minDelay.toInt = 100000 := rfl
      rw [htimes]
      refine ⟨fun t ht => ?_, List.pairwise_cons.mpr ⟨hafter, hapart⟩⟩
      rcases List.mem_cons.mp ht with rfl | ht
      · exact hgap
      · have hstep := hafter t ht
        omega

/-! ### What the parser looks at -/

/-- The device gives whole events, as its stamps are, in order. -/
structure Device (events : List (List Byte)) : Prop where
  length : ∀ e ∈ events, e.length = sizeEvent
  valid : ∀ e ∈ events, (timeOf e).Valid
  order : events.Pairwise fun a b => (timeOf a).micros ≤ (timeOf b).micros

/-- A read gives one event or two, or fails. -/
def Reads (ch : Choice Unit) : Prop := Whole ch ∨ ch = .fail

instance (ch : Choice Unit) : Decidable (Reads ch) :=
  match ch with
  | .go e n => decidable_of_iff (Whole (.go e n)) (by simp [Reads])
  | .timeout => .isFalse (by simp [Reads, Whole])
  | .fail => .isTrue (.inr rfl)

/-- The events in the log, the one in the buffer and those still to be read are in order, and
the keys are those of the log. -/
structure Ordered (c : Conf IrMemory IrPc) : Prop where
  rest : ∃ rest : List (List Byte), c.input = rest.flatten ∧ Device rest ∧
    ∀ p ∈ c.pc.parser, ∀ d ∈ rest, (timeOf p.buf).micros ≤ (timeOf d).micros
  buf : ∀ p ∈ c.pc.parser, p.buf.length = lengthBuf ∧ (timeOf p.buf).Valid ∧
    ∀ e ∈ c.mem.log, e.time.micros ≤ (timeOf p.buf).micros
  valid : ∀ e ∈ c.mem.log, e.time.Valid
  order : c.mem.log.Pairwise fun a b => a.time.micros ≤ b.time.micros
  keys : c.mem.keys = c.mem.log.filterMap Examined.key?

variable {c t : Conf IrMemory IrPc} {events : List (List Byte)}

theorem Device.drop (h : Device events) (k : Nat) : Device (events.drop k) :=
  ⟨fun e he => h.length e (List.mem_of_mem_drop he),
    fun e he => h.valid e (List.mem_of_mem_drop he), h.order.sublist (List.drop_sublist k events)⟩

theorem Time.Valid.micros_nonneg {t : Time} (h : t.Valid) : 0 ≤ t.micros := by
  have hs := h.s
  have hus := h.us
  unfold Time.micros
  omega

theorem getInt_take (buf : List Byte) : getInt (buf.take sizeEvent) 12 = getInt buf 12 := by
  simp only [getInt, byteAt, List.getD_eq_getElem?_getD]
  rw [List.getElem?_take_of_lt (by decide), List.getElem?_take_of_lt (by decide),
    List.getElem?_take_of_lt (by decide), List.getElem?_take_of_lt (by decide)]

theorem drop_flatten (h : ∀ e ∈ events, e.length = sizeEvent) (k : Nat) :
    events.flatten.drop (k * sizeEvent) = (events.drop k).flatten := by
  induction k generalizing events with
  | zero => rw [Nat.zero_mul, List.drop_zero, List.drop_zero]
  | succ k ih =>
    cases events with
    | nil => rw [List.flatten_nil, List.drop_nil, List.drop_nil, List.flatten_nil]
    | cons e events =>
      have he := h e List.mem_cons_self
      rw [Nat.succ_mul, Nat.add_comm, ← List.drop_drop, List.flatten_cons, List.drop_left' he,
        List.drop_succ_cons]
      exact ih fun d hd => h d (List.mem_cons_of_mem e hd)

/-- **A read brings the next event to the front.** -/
theorem Ordered.read {m : IrMemory} {p : IrParser} {input out : List Byte} {k : Nat}
    (h : Ordered ⟨m, .read p, input, out⟩) (hk : k = 1 ∨ k = 2)
    (hle : k * sizeEvent ≤ input.length) :
    Ordered ⟨m, .examine { p with buf := Buffer.overwrite p.buf 0 (input.take (k * sizeEvent)) }
      (BitVec.ofNat 32 (k * sizeEvent)), input.drop (k * sizeEvent), out⟩ := by
  obtain ⟨rest, rfl, hdevice, hrest⟩ : ∃ rest : List (List Byte), input = rest.flatten ∧
      Device rest ∧ ∀ q ∈ (IrPc.read p).parser, ∀ d ∈ rest,
        (timeOf q.buf).micros ≤ (timeOf d).micros := h.rest
  obtain ⟨hbuf, -, hlog⟩ := h.buf p rfl
  have hsize : sizeEvent ≤ k * sizeEvent := Nat.le_mul_of_pos_left _ (by omega)
  cases rest with
  | nil => exact absurd (hsize.trans hle) (by decide)
  | cons e rest =>
    have he := hdevice.length e List.mem_cons_self
    obtain ⟨hlater, -⟩ := List.pairwise_cons.mp hdevice.order
    -- the event in front of the buffer is `e`
    have htake : ((e :: rest).flatten.take (k * sizeEvent)).take sizeEvent = e := by
      rw [List.take_take, Nat.min_eq_left hsize, List.flatten_cons, List.take_left' he]
    have hlength : ((e :: rest).flatten.take (k * sizeEvent)).length = k * sizeEvent :=
      List.length_take_of_le hle
    have hroom : 0 + ((e :: rest).flatten.take (k * sizeEvent)).length ≤ p.buf.length := by
      rw [hlength, hbuf]
      rcases hk with rfl | rfl
      · decide
      · decide
    have hfront : timeOf (Buffer.overwrite p.buf 0 ((e :: rest).flatten.take (k * sizeEvent))) =
        timeOf e := by
      rw [← timeOf_take, Buffer.overwrite, List.take_zero, List.nil_append,
        List.take_append_of_le_length (by rw [hlength]; exact hsize), htake]
    have hmem : ∀ d ∈ (e :: rest).drop k, d ∈ rest := by
      intro d hd
      rcases hk with rfl | rfl
      · exact hd
      · exact List.mem_of_mem_drop hd
    refine ⟨⟨(e :: rest).drop k, drop_flatten hdevice.length k, hdevice.drop k,
      fun q hq d hd => ?_⟩, fun q hq => ?_, h.valid, h.order, h.keys⟩
    · rw [← Option.some.inj hq, hfront]
      exact hlater d (hmem d hd)
    · rw [← Option.some.inj hq, hfront]
      refine ⟨(Buffer.length_overwrite hroom).trans hbuf, hdevice.valid e List.mem_cons_self,
        fun d hd => (hlog d hd).trans (hrest p rfl e List.mem_cons_self)⟩

theorem Ordered.examine {m : IrMemory} {p : IrParser} {x : JInt} {input out : List Byte}
    (h : Ordered ⟨m, .examine p x, input, out⟩) :
    Ordered ⟨m.examine p x, .loop p.keep, input, out⟩ := by
  obtain ⟨rest, hinput, hdevice, hrest⟩ := h.rest
  obtain ⟨hbuf, hvalid, hlog⟩ := h.buf p rfl
  have hkeep : p.keep.buf = p.buf := by
    unfold IrParser.keep
    split_ifs
    · rfl
    · rfl
  have htime : (Examined.mk x (p.buf.take sizeEvent) p.accepts).time = timeOf p.buf :=
    timeOf_take p.buf
  refine ⟨⟨rest, hinput, hdevice, fun q hq d hd => ?_⟩, fun q hq => ?_, fun e he => ?_, ?_, ?_⟩
  · rw [← Option.some.inj hq, hkeep]
    exact hrest p rfl d hd
  · rw [← Option.some.inj hq, hkeep]
    refine ⟨hbuf, hvalid, fun e he => ?_⟩
    rcases List.mem_append.mp he with he | he
    · exact hlog e he
    · rw [List.mem_singleton.mp he, htime]
  · rcases List.mem_append.mp he with he | he
    · exact h.valid e he
    · rw [List.mem_singleton.mp he, htime]
      exact hvalid
  · refine List.pairwise_append.mpr ⟨h.order, List.pairwise_singleton _ _, fun a ha b hb => ?_⟩
    rw [List.mem_singleton.mp hb, htime]
    exact hlog a ha
  · have hkeys : m.keys = m.log.filterMap Examined.key? := h.keys
    show (if p.accepts then m.keys ++ _ else m.keys) = (m.log ++ [_]).filterMap Examined.key?
    rw [List.filterMap_append, ← hkeys]
    cases haccepts : p.accepts with
    | false => exact (List.append_nil _).symm
    | true =>
      rw [if_pos rfl, List.filterMap_cons, List.filterMap_nil, Examined.key?, if_pos rfl,
        getInt_take]
      rfl

theorem Ordered.step {ended : Bool} {ch : Choice Unit} (h : Ordered c) (hch : Reads ch)
    (hs : c.step irOp ended ch = some t) : Ordered t := by
  obtain ⟨m, pc, input, out⟩ := c
  obtain ⟨p, hpc, rfl⟩ | ⟨p, n, hpc, _, _, hle, rfl, e, rfl⟩ | ⟨p, hpc, _, _, rfl⟩ |
    ⟨p, x, hpc, rfl⟩ | ⟨-, rfl⟩ := irStep_cases hs
  · obtain rfl : pc = .loop p := hpc
    show Ordered ⟨m, if m.running then .read p else .done, input, out⟩
    split_ifs
    · exact ⟨h.rest, h.buf, h.valid, h.order, h.keys⟩
    · obtain ⟨rest, hinput, hdevice, -⟩ := h.rest
      exact ⟨⟨rest, hinput, hdevice, nofun⟩, nofun, h.valid, h.order, h.keys⟩
  · obtain rfl : pc = .read p := hpc
    rcases hch with (hch | hch) | hch
    · obtain rfl : n = 1 * sizeEvent := (Choice.go.inj hch).2
      exact h.read (.inl rfl) hle
    · obtain rfl : n = 2 * sizeEvent := (Choice.go.inj hch).2
      exact h.read (.inr rfl) hle
    · cases hch
  · obtain rfl : pc = .read p := hpc
    exact ⟨h.rest, h.buf, h.valid, h.order, h.keys⟩
  · obtain rfl : pc = .examine p x := hpc
    exact h.examine
  · obtain ⟨rest, hinput, hdevice, -⟩ := h.rest
    exact ⟨⟨rest, hinput, hdevice, nofun⟩, nofun, h.valid, h.order, h.keys⟩

theorem Device.ordered (h : Device events) : Ordered (irStart events.flatten) := by
  refine ⟨⟨events, rfl, h, fun p hp d hd => ?_⟩, fun p hp => ?_, nofun, .nil, rfl⟩
  · rw [← Option.some.inj hp]
    exact (h.valid d hd).micros_nonneg
  · rw [← Option.some.inj hp]
    exact ⟨rfl, ⟨by decide, by decide, by decide⟩, nofun⟩

/-- **The pace of the remote**: in any `n * MIN_DELAY` microseconds of the device at most `n`
events are accepted, and so at most `n` keys go to `inputKeyEvent`. -/
theorem ir_pace (hdevice : Device events) {ended : Bool}
    (h : Reach (fun ch c => Conf.step irOp ended ch c) (fun ch _ => Reads ch)
      (irStart events.flatten) c) :
    c.mem.keys = c.mem.log.filterMap Examined.key? ∧ ∀ (a : Int) (n : Nat),
      ((keyTimes c.mem.log).filter fun t => a ≤ t ∧ t < a + n * minDelay.toInt).length ≤ n := by
  have hordered : Ordered c :=
    h.invariant hdevice.ordered fun _ _ _ ho hch hs => ho.step hch hs
  have hzero : (⟨0, 0⟩ : Time).Valid := ⟨by decide, by decide, by decide⟩
  obtain ⟨-, hapart⟩ := apart_acceptedTimes hzero hordered.valid
    (fun e he => (hordered.valid e he).micros_nonneg) hordered.order (Logged.of_reach h).decides
  exact ⟨hordered.keys, Apart.window (List.Pairwise.sublist (keyTimes_sublist _) hapart)⟩

/-- An event of `IR_KEY_CLICK`. -/
def clickAt (s us : List Byte) : List Byte := s ++ us ++ [1, 0, 4, 0] ++ [0x65, 0, 1, 0]

/-- Two of them, 0.3 seconds apart, and a third one. -/
def threePresses : List (List Byte) :=
  [clickAt [1, 0, 0, 0] [0, 0, 0, 0], clickAt [1, 0, 0, 0] [0xE0, 0x93, 4, 0],
    clickAt [2, 0, 0, 0] [0, 0, 0, 0]]

/-- The first two come with one read, and the second of them is not looked at. -/
theorem ir_pace_two : ∃ c : Conf IrMemory IrPc, c.mem.keys = [23, 23] ∧
    ((keyTimes c.mem.log).filter fun t => 1000000 ≤ t ∧
      t < 1000000 + (1 : Nat) * minDelay.toInt).length ≤ 1 := by
  have hdevice : Device threePresses := by
    refine ⟨by decide, fun e he => ?_, by decide⟩
    rcases List.mem_cons.mp he with rfl | he
    · exact ⟨by decide, by decide, by decide⟩
    · rcases List.mem_pair.mp he with rfl | rfl
      · exact ⟨by decide, by decide, by decide⟩
      · exact ⟨by decide, by decide, by decide⟩
  obtain ⟨c, hc, hk⟩ := Reach.exists_of_run (show
    (run (fun ch c => if Reads ch then Conf.step irOp false ch c else none)
      [.go () 16, .go () 32, .go () 16, .go () 16, .go () 16, .go () 16]
      (irStart threePresses.flatten)).map (fun c => c.mem.keys) = some [23, 23] by decide +kernel)
  exact ⟨c, hk, (ir_pace hdevice hc).2 1000000 1⟩

end MikaAudio.Server
