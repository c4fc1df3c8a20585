import MikaAudio.Server.Ir

/-!
# Which infrared events are accepted

An event shall be accepted if `MIN_DELAY` has passed since the last one that was.  The test
looks at the microseconds alone, and where these are too few, at whether a second has begun
in between; it then counts one second, not the number of them.  So it says no to an event
that comes two seconds later or more, just before the microseconds of the last one
(`Missed`), and is right about every other (`accepts_iff`).
-/

namespace MikaAudio.Server

open Thread
open Interleave

/-! ### One event -/

/-- A time stamp of the device: the seconds are not negative, and the microseconds are less
than a second. -/
structure Time.Valid (t : Time) : Prop where
  s : 0 ≤ t.s.toInt
  us : 0 ≤ t.us.toInt
  us_lt : t.us.toInt < 1000000

/-- The time stamp in microseconds. -/
def Time.micros (t : Time) : Int := 1000000 * t.s.toInt + t.us.toInt

/-- The time that has passed, in microseconds. -/
def Time.elapsed (prev t : Time) : Int :=
  1000000 * (t.s.toInt - prev.s.toInt) + (t.us.toInt - prev.us.toInt)

/-- `t` is two seconds later or more, and its microseconds are just in front of those of
`prev`. -/
def Time.Missed (prev t : Time) : Prop :=
  2 ≤ t.s.toInt - prev.s.toInt ∧ t.us.toInt + 1000000 - prev.us.toInt < minDelay.toInt

instance (prev t : Time) : Decidable (prev.Missed t) :=
  inferInstanceAs (Decidable (_ ∧ _))

section Event

variable {prev t : Time}

theorem accepts_eq (hprev : prev.Valid) (ht : t.Valid) :
    prev.accepts t = true ↔ minDelay.toInt ≤ t.us.toInt - prev.us.toInt ∨
      prev.s.toInt < t.s.toInt ∧ minDelay.toInt ≤ t.us.toInt + 1000000 - prev.us.toInt := by
  have hus := hprev.us
  have hlt := hprev.us_lt
  have hus' := ht.us
  have hlt' := ht.us_lt
  have hsub : (t.us - prev.us).toInt = t.us.toInt - prev.us.toInt := by
    rw [BitVec.toInt_sub, Int.bmod_eq_of_le (by omega) (by omega)]
  have hadd : (t.us + 1000000).toInt = t.us.toInt + 1000000 := by
    rw [BitVec.toInt_add, show (1000000 : JInt).toInt = 1000000 from rfl,
      Int.bmod_eq_of_le (by omega) (by omega)]
  have hsub' : (t.us + 1000000 - prev.us).toInt = t.us.toInt + 1000000 - prev.us.toInt := by
    rw [BitVec.toInt_sub, hadd, Int.bmod_eq_of_le (by omega) (by omega)]
  simp only [Time.accepts, Bool.or_eq_true, Bool.and_eq_true, BitVec.sle_iff_toInt_le,
    BitVec.slt_iff_toInt_lt, hsub, hsub']

/-- **The test is right, unless the event is missed.** -/
theorem accepts_iff (hprev : prev.Valid) (ht : t.Valid) (hle : prev.micros ≤ t.micros) :
    prev.accepts t = true ↔ minDelay.toInt ≤ prev.elapsed t ∧ ¬ prev.Missed t := by
  have hus := hprev.us
  have hlt := hprev.us_lt
  have hus' := ht.us
  have hlt' := ht.us_lt
  have hdelay : minDelay.toInt = 100000 := rfl
  rw [accepts_eq hprev ht, Time.elapsed, Time.Missed, hdelay]
  unfold Time.micros at hle
  omega

theorem Time.Missed.elapsed (hprev : prev.Valid) (ht : t.Valid) (h : prev.Missed t) :
    minDelay.toInt ≤ prev.elapsed t := by
  have hlt := hprev.us_lt
  have hus' := ht.us
  have hdelay : minDelay.toInt = 100000 := rfl
  rw [Time.elapsed, hdelay]
  have := h.1
  omega

end Event

/-! ### All events -/

/-- The time of the last event that was accepted, if there was none `prev`. -/
def lastAccepted (prev : Time) (log : List Examined) : Time :=
  log.foldl (fun prev e => if e.accepted then e.time else prev) prev

theorem lastAccepted_concat (prev : Time) (log : List Examined) (e : Examined) :
    lastAccepted prev (log ++ [e]) = if e.accepted then e.time else lastAccepted prev log :=
  List.foldl_append

/-- Every event was accepted exactly if `test` says so of it and of the last accepted one. -/
def Decides (test : Time → Time → Prop) : Time → List Examined → Prop
  | _, [] => True
  | prev, e :: log =>
    (e.accepted = true ↔ test prev e.time) ∧ Decides test (if e.accepted then e.time else prev) log

theorem Decides.concat {test : Time → Time → Prop} {log : List Examined} {e : Examined} :
    ∀ {prev : Time}, Decides test prev log →
      (e.accepted = true ↔ test (lastAccepted prev log) e.time) →
      Decides test prev (log ++ [e]) := by
  induction log with
  | nil => intro prev _ he; exact ⟨he, trivial⟩
  | cons d log ih => intro prev h he; exact ⟨h.1, ih h.2 he⟩

/-- The events that elapsed time alone lets through, and of each one that comes: it is none
that the test misses. -/
def Unmissed : Time → List Time → Prop
  | _, [] => True
  | prev, t :: times =>
    ¬ prev.Missed t ∧ Unmissed (if minDelay.toInt ≤ prev.elapsed t then t else prev) times

/-- **What the parser decides is decided by elapsed time, exactly as long as it misses
none.** -/
theorem decides_elapsed_iff : ∀ {log : List Examined} {prev : Time}, prev.Valid →
    (∀ e ∈ log, e.time.Valid) → (∀ e ∈ log, prev.micros ≤ e.time.micros) →
    log.Pairwise (fun a b => a.time.micros ≤ b.time.micros) →
    Decides (fun prev t => prev.accepts t = true) prev log →
    (Decides (fun prev t => minDelay.toInt ≤ prev.elapsed t) prev log ↔
      Unmissed prev (log.map Examined.time)) := by
  intro log
  induction log with
  | nil => intro prev _ _ _ _ _; exact Iff.rfl
  | cons e log ih =>
    intro prev hprev hvalid hle horder hdecides
    have htest : e.accepted = true ↔ prev.accepts e.time = true := hdecides.1
    have hrest := hdecides.2
    obtain ⟨hlater, horder⟩ := List.pairwise_cons.mp horder
    have he := hvalid e List.mem_cons_self
    have hiff := accepts_iff hprev he (hle e List.mem_cons_self)
    rw [List.map_cons, Decides, Unmissed]
    by_cases hmissed : prev.Missed e.time
    · refine iff_of_false (fun h => ?_) (fun h => h.1 hmissed)
      exact (hiff.mp (htest.mp (h.1.mpr (hmissed.elapsed hprev he)))).2 hmissed
    · -- the parser and elapsed time agree on `e`, and go on with the same last event
      have hagree : e.accepted = true ↔ minDelay.toInt ≤ prev.elapsed e.time := by
        rw [htest, hiff]
        exact and_iff_left hmissed
      rw [iff_true_intro hagree, iff_true_intro hmissed, true_and, true_and]
      by_cases hlate : minDelay.toInt ≤ prev.elapsed e.time
      · rw [if_pos (hagree.mpr hlate)] at hrest ⊢
        rw [if_pos hlate]
        exact ih he (fun d hd => hvalid d (List.mem_cons_of_mem e hd)) hlater horder hrest
      · rw [if_neg (fun h => hlate (hagree.mp h))] at hrest ⊢
        rw [if_neg hlate]
        exact ih hprev (fun d hd => hvalid d (List.mem_cons_of_mem e hd))
          (fun d hd => hle d (List.mem_cons_of_mem e hd)) horder hrest

/-! ### The parser -/

theorem timeOf_take (buf : List Byte) : timeOf (buf.take sizeEvent) = timeOf buf := by
  simp only [timeOf, getInt, byteAt, List.getD_eq_getElem?_getD]
  rw [List.getElem?_take_of_lt (by decide), List.getElem?_take_of_lt (by decide),
    List.getElem?_take_of_lt (by decide), List.getElem?_take_of_lt (by decide),
    List.getElem?_take_of_lt (by decide), List.getElem?_take_of_lt (by decide),
    List.getElem?_take_of_lt (by decide), List.getElem?_take_of_lt (by decide)]

/-- What the parser knows is the last accepted event of its log. -/
structure Logged (c : Conf IrMemory IrPc) : Prop where
  decides : Decides (fun prev t => prev.accepts t = true) ⟨0, 0⟩ c.mem.log
  prev : ∀ p ∈ c.pc.parser, p.prev = lastAccepted ⟨0, 0⟩ c.mem.log

theorem Logged.step {ended : Bool} {ch : Choice Unit} {c t : Conf IrMemory IrPc} (h : Logged c)
    (hs : c.step irOp ended ch = some t) : Logged t := by
  obtain ⟨p, hpc, rfl⟩ | ⟨p, n, hpc, _, _, _, rfl, _⟩ | ⟨p, hpc, _, _, rfl⟩ | ⟨p, x, hpc, rfl⟩ |
    ⟨_, rfl⟩ := irStep_cases hs
  · refine ⟨h.decides, ?_⟩
    show ∀ q ∈ (if c.mem.running then IrPc.read p else .done).parser, _
    split_ifs
    · exact h.prev p (by rw [hpc]; rfl) ▸ fun q hq => by rw [← Option.some.inj hq]
    · nofun
  · refine ⟨h.decides, fun q hq => ?_⟩
    rw [← Option.some.inj hq]
    exact h.prev p (by rw [hpc]; rfl)
  · refine ⟨h.decides, fun q hq => ?_⟩
    rw [← Option.some.inj hq]
    exact h.prev p (by rw [hpc]; rfl)
  · have hprev := h.prev p (by rw [hpc]; rfl)
    refine ⟨h.decides.concat ?_, fun q hq => ?_⟩
    · show p.accepts = true ↔ (lastAccepted ⟨0, 0⟩ c.mem.log).accepts (timeOf _) = true
      rw [timeOf_take, ← hprev]
      rfl
    · rw [← Option.some.inj hq]
      show p.keep.prev = lastAccepted _ (c.mem.log ++ _)
      rw [lastAccepted_concat, ← hprev]
      show (if p.accepts then _ else p).prev = if p.accepts then timeOf _ else p.prev
      rw [timeOf_take]
      split_ifs
      · rfl
      · rfl
  · exact ⟨h.decides, nofun⟩

theorem Logged.of_reach {ended : Bool} {ok : Choice Unit → Conf IrMemory IrPc → Prop}
    {input : List Byte} {c : Conf IrMemory IrPc}
    (h : Reach (fun ch c => Conf.step irOp ended ch c) ok (irStart input) c) : Logged c :=
  h.invariant ⟨trivial, fun p hp => by rw [← Option.some.inj hp]; rfl⟩
    (fun _ _ _ hi _ hs => hi.step hs)

/-- Each event may come in a read of its own. -/
theorem exists_reach {ended : Bool} : ∀ (events : List (List Byte)) (m : IrMemory) (p : IrParser)
    (out : List Byte), (∀ e ∈ events, e.length = sizeEvent) → m.running = true →
    ∃ c, Reach (fun ch c => Conf.step irOp ended ch c) (fun _ _ => True)
        ⟨m, .loop p, events.flatten, out⟩ c ∧
      c.mem.log.map Examined.event = m.log.map Examined.event ++ events := by
  intro events
  induction events with
  | nil => intro m p out _ _; exact ⟨_, .refl, (List.append_nil _).symm⟩
  | cons e events ih =>
    intro m p out hlen hrunning
    have he := hlen e List.mem_cons_self
    let p' : IrParser := { p with buf := Buffer.overwrite p.buf 0 e }
    have hevent : p'.buf.take sizeEvent = e := by
      show (Buffer.overwrite p.buf 0 e).take sizeEvent = e
      rw [Buffer.overwrite, List.take_zero, List.nil_append, List.take_left' he]
    have hloop : Conf.step irOp ended (.go () 1) ⟨m, .loop p, (e :: events).flatten, out⟩ =
        some ⟨m, .read p, (e :: events).flatten, out⟩ := by
      rw [Conf.step_act rfl, hrunning]
      rfl
    have hread : Conf.step irOp ended (.go () sizeEvent) ⟨m, .read p, (e :: events).flatten, out⟩ =
        some ⟨m, .examine p' (BitVec.ofNat 32 e.length), events.flatten, out⟩ := by
      obtain ⟨b, rest, rfl⟩ : ∃ b rest, e = b :: rest := List.exists_cons_of_length_eq_add_one he
      rw [List.flatten_cons, List.cons_append, Conf.step_readBuf rfl, ← List.cons_append,
        if_pos ⟨by decide, by decide, by rw [List.length_append, he]; exact Nat.le_add_right _ _⟩,
        List.take_left' he, List.drop_left' he]
    have hexamine : Conf.step irOp ended (.go () 1)
        ⟨m, .examine p' (BitVec.ofNat 32 e.length), events.flatten, out⟩ =
        some ⟨m.examine p' (BitVec.ofNat 32 e.length), .loop p'.keep, events.flatten, out⟩ := by
      rw [Conf.step_act rfl]
      rfl
    obtain ⟨c, hreach, hlog⟩ := ih (m.examine p' (BitVec.ofNat 32 e.length)) p'.keep out
      (fun d hd => hlen d (List.mem_cons_of_mem e hd)) hrunning
    refine ⟨c, .trans (.tail (.tail (.tail .refl trivial hloop) trivial hread) trivial hexamine)
      hreach, hlog.trans ?_⟩
    show (m.log ++ [_]).map Examined.event ++ events = _
    rw [List.map_append, List.append_assoc]
    exact congrArg (fun d => m.log.map Examined.event ++ (d :: events)) hevent

theorem decides_log_iff {events : List (List Byte)} (hvalid : ∀ e ∈ events, (timeOf e).Valid)
    (horder : events.Pairwise fun a b => (timeOf a).micros ≤ (timeOf b).micros) {ended : Bool}
    {input : List Byte} {c : Conf IrMemory IrPc}
    (h : Reach (fun ch c => Conf.step irOp ended ch c) (fun _ _ => True) (irStart input) c)
    (hlog : c.mem.log.map Examined.event = events) :
    Decides (fun prev t => minDelay.toInt ≤ prev.elapsed t) ⟨0, 0⟩ c.mem.log ↔
      Unmissed ⟨0, 0⟩ (events.map timeOf) := by
  subst hlog
  rw [List.pairwise_map] at horder
  have hvalid' : ∀ e ∈ c.mem.log, e.time.Valid := fun e he => hvalid _ (List.mem_map_of_mem he)
  rw [decides_elapsed_iff ⟨by decide, by decide, by decide⟩ hvalid' ?_ horder
      (Logged.of_reach h).decides,
    List.map_map]
  · rfl
  · intro e he
    have hs := (hvalid' e he).s
    have hus := (hvalid' e he).us
    have hzero : (⟨0, 0⟩ : Time).micros = 0 := rfl
    rw [hzero, Time.micros]
    omega

/-- **An event is accepted if and only if enough time has passed, exactly in the sequences of
which no event is missed.** -/
theorem debounce_iff {events : List (List Byte)} (hlen : ∀ e ∈ events, e.length = sizeEvent)
    (hvalid : ∀ e ∈ events, (timeOf e).Valid)
    (horder : events.Pairwise fun a b => (timeOf a).micros ≤ (timeOf b).micros) :
    (∃ c, Reach (fun ch c => Conf.step irOp false ch c) (fun _ _ => True)
        (irStart events.flatten) c ∧ c.mem.log.map Examined.event = events) ∧
      ∀ (ended : Bool) (input : List Byte) (c : Conf IrMemory IrPc),
        Reach (fun ch c => Conf.step irOp ended ch c) (fun _ _ => True) (irStart input) c →
        c.mem.log.map Examined.event = events →
        (Decides (fun prev t => minDelay.toInt ≤ prev.elapsed t) ⟨0, 0⟩ c.mem.log ↔
          Unmissed ⟨0, 0⟩ (events.map timeOf)) :=
  ⟨exists_reach events {} {} [] hlen rfl, fun _ _ _ h hlog => decides_log_iff hvalid horder h hlog⟩

/-- An event of the device: the time stamp, and eight bytes more. -/
def eventAt (s us : List Byte) : List Byte := s ++ us ++ List.replicate 8 0

/-- Events at 1.95 and at 2.1 seconds: the second one borrows a second. -/
def borrowing : List (List Byte) :=
  [eventAt [1, 0, 0, 0] [0xF0, 0x7E, 0x0E, 0], eventAt [2, 0, 0, 0] [0xA0, 0x86, 0x01, 0]]

/-- Both are accepted or not as the time that has passed says. -/
theorem debounce_iff_borrowing : ∃ c,
    Reach (fun ch c => Conf.step irOp false ch c) (fun _ _ => True) (irStart borrowing.flatten) c ∧
    c.mem.log.map Examined.event = borrowing ∧
    Decides (fun prev t => minDelay.toInt ≤ prev.elapsed t) ⟨0, 0⟩ c.mem.log := by
  have hvalid : ∀ e ∈ borrowing, (timeOf e).Valid := by
    intro e he
    rcases List.mem_pair.mp he with rfl | rfl
    · exact ⟨by decide, by decide, by decide⟩
    · exact ⟨by decide, by decide, by decide⟩
  obtain ⟨⟨c, hreach, hlog⟩, hall⟩ := @debounce_iff borrowing (by decide) hvalid
    (List.pairwise_pair.mpr (by decide))
  exact ⟨c, hreach, hlog, (hall _ _ c hreach hlog).mpr ⟨by decide, by decide, trivial⟩⟩

/-- **An event 1.06 seconds after the last one is taken for too early**: the stamps are
0.95 and 2.01 seconds. -/
theorem debounce_missed : ¬ ∀ (events : List (List Byte)) (ended : Bool) (input : List Byte)
    (c : Conf IrMemory IrPc), (∀ e ∈ events, e.length = sizeEvent) →
    (∀ e ∈ events, (timeOf e).Valid) →
    (events.Pairwise fun a b => (timeOf a).micros ≤ (timeOf b).micros) →
    Reach (fun ch c => Conf.step irOp ended ch c) (fun _ _ => True) (irStart input) c →
    c.mem.log.map Examined.event = events →
    Decides (fun prev t => minDelay.toInt ≤ prev.elapsed t) ⟨0, 0⟩ c.mem.log := by
  intro hclaim
  let events : List (List Byte) :=
    [eventAt [0, 0, 0, 0] [0xF0, 0x7E, 0x0E, 0], eventAt [2, 0, 0, 0] [0x10, 0x27, 0, 0]]
  have hlen : ∀ e ∈ events, e.length = sizeEvent := by decide
  have hvalid : ∀ e ∈ events, (timeOf e).Valid := by
    intro e he
    rcases List.mem_pair.mp he with rfl | rfl
    · exact ⟨by decide, by decide, by decide⟩
    · exact ⟨by decide, by decide, by decide⟩
  have horder : events.Pairwise fun a b => (timeOf a).micros ≤ (timeOf b).micros :=
    List.pairwise_pair.mpr (by decide)
  obtain ⟨c, hreach, hlog⟩ := @exists_reach false events {} {} [] hlen rfl
  have hunmissed := (decides_log_iff hvalid horder hreach hlog).mp
    (hclaim events false _ c hlen hvalid horder hreach hlog)
  exact hunmissed.2.1 (by decide)

end MikaAudio.Server
