import MikaAudio.Server.Ir

/-!
# Events that come two at a time

The parser takes up to two events with one read and looks at the first one only, so an
event that comes second is never looked at.  And it does not look at the count either: at
the end of the stream the event that is still in the buffer is looked at again, in each of
the rounds that now follow without end.
-/

namespace MikaAudio.Server

open Thread
open Interleave

/-- A read gives one event or two; the other steps do not read. -/
def Whole (ch : Choice Unit) : Prop := ch = .go () sizeEvent ∨ ch = .go () lengthBuf

instance (ch : Choice Unit) : Decidable (Whole ch) :=
  match ch with
  | .go _ n => decidable_of_iff (n = sizeEvent ∨ n = lengthBuf) <| by
      simp [Whole]
  | .timeout => .isFalse (by simp [Whole])
  | .fail => .isFalse (by simp [Whole])

/-- One step of the parser on a stream that ends. -/
def Batched (c t : Conf IrMemory IrPc) : Prop :=
  ∃ ch, Whole ch ∧ Conf.step irOp true ch c = some t

/-- The states of all ways the events may come. -/
abbrev Batches (events : List (List Byte)) (c : Conf IrMemory IrPc) : Prop :=
  Reach (fun ch c => Conf.step irOp true ch c) (fun ch _ => Whole ch) (irStart events.flatten) c

/-- The events the parser has looked at. -/
def IrMemory.examined (m : IrMemory) : List (List Byte) := m.log.map Examined.event

/-- The parser looks at every event once and in the order they come, however they come, and
ends with the stream. -/
structure Decoded (events : List (List Byte)) : Prop where
  once : ∀ c, Batches events c → c.mem.examined <+: events
  ends : Inevitable Batched (fun c => c.pc = .done ∧ c.mem.examined = events)
    (irStart events.flatten)

/-! ### The loop goes on -/

/-- What holds of the parser all the time. -/
structure Steady (c : Conf IrMemory IrPc) : Prop where
  running : c.mem.running = true
  pc : c.pc ≠ .done
  whole : sizeEvent ∣ c.input.length

theorem Steady.step {ch : Choice Unit} {c t : Conf IrMemory IrPc} (h : Steady c) (hch : Whole ch)
    (hs : c.step irOp true ch = some t) : Steady t := by
  obtain ⟨p, hpc, rfl⟩ | ⟨p, n, hpc, _, _, _, rfl, e, hgo⟩ | ⟨p, hpc, _, _, rfl⟩ |
    ⟨p, x, hpc, rfl⟩ | ⟨hfail, rfl⟩ := irStep_cases hs
  · refine ⟨h.running, ?_, h.whole⟩
    rw [if_pos h.running]
    exact IrPc.noConfusion
  · refine ⟨h.running, IrPc.noConfusion, ?_⟩
    have hn : sizeEvent ∣ n := by
      rcases hch with rfl | rfl
      · obtain rfl : sizeEvent = n := (Choice.go.inj hgo).2
        exact Nat.dvd_refl _
      · obtain rfl : lengthBuf = n := (Choice.go.inj hgo).2
        decide
    rw [List.length_drop]
    exact Nat.dvd_sub h.whole hn
  · exact ⟨h.running, IrPc.noConfusion, h.whole⟩
  · exact ⟨h.running, IrPc.noConfusion, h.whole⟩
  · rcases hch with rfl | rfl
    · rcases hfail with hfail | hfail
      · cases hfail
      · cases hfail
    · rcases hfail with hfail | hfail
      · cases hfail
      · cases hfail

theorem length_flatten_events : ∀ {events : List (List Byte)},
    (∀ e ∈ events, e.length = sizeEvent) → events.flatten.length = events.length * sizeEvent := by
  intro events
  induction events with
  | nil => intro _; rfl
  | cons e events ih =>
    intro hlen
    rw [List.flatten_cons, List.length_append, hlen e List.mem_cons_self,
      ih (fun d hd => hlen d (List.mem_cons_of_mem e hd)), List.length_cons, Nat.succ_mul,
      Nat.add_comm]

theorem steady_start {events : List (List Byte)} (hlen : ∀ e ∈ events, e.length = sizeEvent) :
    Steady (irStart events.flatten) := by
  refine ⟨rfl, IrPc.noConfusion, ?_⟩
  show sizeEvent ∣ events.flatten.length
  rw [length_flatten_events hlen]
  exact Nat.dvd_mul_left _ _

theorem Steady.of_reach {events : List (List Byte)} (hlen : ∀ e ∈ events, e.length = sizeEvent)
    {c : Conf IrMemory IrPc} (h : Batches events c) : Steady c :=
  h.invariant (steady_start hlen) (fun _ _ _ hi hch hs => hi.step hch hs)

theorem Steady.exists_step {c : Conf IrMemory IrPc} (h : Steady c) : ∃ t, Batched c t := by
  obtain ⟨m, pc, input, out⟩ := c
  cases pc with
  | loop p => exact ⟨_, _, Or.inl rfl, rfl⟩
  | examine p x => exact ⟨_, _, Or.inl rfl, rfl⟩
  | done => exact absurd rfl h.pc
  | read p =>
    cases input with
    | nil => exact ⟨_, _, Or.inl rfl, (Conf.step_readBuf_nil rfl).trans (if_pos rfl)⟩
    | cons b rest =>
      have hle : sizeEvent ≤ (b :: rest).length := Nat.le_of_dvd (Nat.succ_pos _) h.whole
      exact ⟨_, _, Or.inl rfl,
        (Conf.step_readBuf rfl b rest).trans (if_pos ⟨by decide, by decide, hle⟩)⟩

/-- How many steps a round has still to go. -/
def IrPc.toGo : IrPc → Nat
  | .loop _ => 2
  | .read _ => 1
  | _ => 0

theorem examined_grows {events : List (List Byte)} {c : Conf IrMemory IrPc} (h : Steady c) :
    Inevitable Batched (fun c => ¬ c.mem.examined <+: events) c := by
  refine Inevitable.of_rank (I := Steady)
    (fun c => 3 * (events.length + 1 - c.mem.log.length) + c.pc.toGo)
    (fun c hc _ => hc.exists_step) ?_ h
  rintro c t hc hp ⟨ch, hch, hs⟩
  refine ⟨hc.step hch hs, ?_⟩
  have hlog : c.mem.log.length ≤ events.length := by
    have := (not_not.mp hp).length_le
    rwa [IrMemory.examined, List.length_map] at this
  obtain ⟨p, hpc, rfl⟩ | ⟨p, n, hpc, _, _, _, rfl, _⟩ | ⟨p, hpc, _, _, rfl⟩ | ⟨p, x, hpc, rfl⟩ |
    ⟨hfail, rfl⟩ := irStep_cases hs
  · rw [if_pos hc.running, hpc]
    exact Nat.add_lt_add_left (Nat.lt_succ_self _) _
  · rw [hpc]
    exact Nat.add_lt_add_left (Nat.lt_succ_self _) _
  · rw [hpc]
    exact Nat.add_lt_add_left (Nat.lt_succ_self _) _
  · rw [hpc]
    show 3 * (events.length + 1 - (c.mem.log ++ [_]).length) + 2 <
      3 * (events.length + 1 - c.mem.log.length) + 0
    rw [List.length_append, List.length_singleton]
    omega
  · rcases hch with rfl | rfl
    · rcases hfail with hfail | hfail
      · cases hfail
      · cases hfail
    · rcases hfail with hfail | hfail
      · cases hfail
      · cases hfail

/-! ### Before the end of the stream -/

/-- The counts of the reads so far. -/
def counts (c : Conf IrMemory IrPc) : List JInt :=
  c.mem.log.map Examined.x ++ (match c.pc with | .examine _ x => [x] | _ => [])

/-- The events looked at so far, with the one that is next. -/
def fronts (c : Conf IrMemory IrPc) : List (List Byte) :=
  c.mem.examined ++ (match c.pc with | .examine p _ => [p.buf.take sizeEvent] | _ => [])

/-- What the counts say of what has been read of `events`. -/
structure Counted (events : List (List Byte)) (c : Conf IrMemory IrPc) : Prop where
  buf : ∀ p ∈ c.pc.parser, p.buf.length = lengthBuf
  event : ∀ e ∈ fronts c, e.length = sizeEvent
  kind : ∀ x ∈ counts c, x = 16 ∨ x = 32 ∨ x = -1
  read : (∀ x ∈ counts c, x ≠ -1) →
    ((counts c).map BitVec.toNat).sum + c.input.length = events.flatten.length
  single : (∀ x ∈ counts c, x = 16) → (fronts c).flatten ++ c.input = events.flatten

variable {events : List (List Byte)}

theorem Counted.read_step {m : IrMemory} {p : IrParser} {input out : List Byte} {n : Nat}
    (h : Counted events ⟨m, .read p, input, out⟩) (hn : n = sizeEvent ∨ n = lengthBuf)
    (hle : n ≤ input.length) :
    Counted events ⟨m, .examine { p with buf := Buffer.overwrite p.buf 0 (input.take n) }
      (BitVec.ofNat 32 n), input.drop n, out⟩ := by
  have htake : (input.take n).length = n := List.length_take_of_le hle
  have hbuf : p.buf.length = lengthBuf := h.buf p rfl
  have hroom : 0 + (input.take n).length ≤ p.buf.length := by
    rw [htake, hbuf]
    rcases hn with rfl | rfl
    · decide
    · decide
  have hlen : (Buffer.overwrite p.buf 0 (input.take n)).length = lengthBuf :=
    (Buffer.length_overwrite hroom).trans hbuf
  have hcounts : counts ⟨m, .read p, input, out⟩ = m.log.map Examined.x := List.append_nil _
  have hfronts : fronts ⟨m, .read p, input, out⟩ = m.examined := List.append_nil _
  refine ⟨fun q hq => ?_, fun e he => ?_, fun x hx => ?_, fun hall => ?_, fun hall => ?_⟩
  · rw [← Option.some.inj hq]
    exact hlen
  · rcases List.mem_append.mp he with he | he
    · exact h.event e (hfronts ▸ he)
    · rw [List.mem_singleton.mp he, List.length_take, hlen]
      rfl
  · rcases List.mem_append.mp hx with hx | hx
    · exact h.kind x (hcounts ▸ hx)
    · rw [List.mem_singleton.mp hx]
      rcases hn with rfl | rfl
      · exact Or.inl rfl
      · exact Or.inr (Or.inl rfl)
  · have hread := h.read (fun x hx => hall x (List.mem_append_left _ (hcounts ▸ hx)))
    rw [hcounts] at hread
    show ((m.log.map Examined.x ++ [BitVec.ofNat 32 n]).map BitVec.toNat).sum +
      (input.drop n).length = _
    have hnat : (BitVec.ofNat 32 n).toNat = n := by
      rcases hn with rfl | rfl
      · rfl
      · rfl
    rw [List.map_append, List.sum_append, List.map_singleton, List.sum_singleton, hnat,
      List.length_drop, ← hread]
    show _ = _ + input.length
    omega
  · have hsingle := h.single (fun x hx => hall x (List.mem_append_left _ (hcounts ▸ hx)))
    rw [hfronts] at hsingle
    have hlast := hall _ (List.mem_append_right _ List.mem_cons_self)
    obtain rfl : n = sizeEvent := by
      rcases hn with rfl | rfl
      · rfl
      · exact absurd hlast (by decide)
    show (m.examined ++ [(Buffer.overwrite p.buf 0 (input.take sizeEvent)).take sizeEvent]).flatten
      ++ input.drop sizeEvent = _
    rw [← hsingle, Buffer.overwrite, List.take_zero, List.nil_append, List.take_left' htake,
      List.flatten_append, List.flatten_singleton, List.append_assoc, List.take_append_drop]

theorem Counted.step {ch : Choice Unit} {c t : Conf IrMemory IrPc} (h : Counted events c)
    (hch : Whole ch) (hs : c.step irOp true ch = some t) : Counted events t := by
  obtain ⟨m, pc, input, out⟩ := c
  obtain ⟨p, hpc, rfl⟩ | ⟨p, n, hpc, _, _, hle, rfl, e, hgo⟩ | ⟨p, hpc, _, _, rfl⟩ |
    ⟨p, x, hpc, rfl⟩ | ⟨hfail, rfl⟩ := irStep_cases hs
  · obtain rfl : pc = .loop p := hpc
    show Counted events ⟨m, if m.running then .read p else .done, input, out⟩
    split_ifs
    · exact ⟨h.buf, h.event, h.kind, h.read, h.single⟩
    · exact ⟨nofun, h.event, h.kind, h.read, h.single⟩
  · obtain rfl : pc = .read p := hpc
    refine h.read_step ?_ hle
    rcases hch with rfl | rfl
    · exact Or.inl (Choice.go.inj hgo).2.symm
    · exact Or.inr (Choice.go.inj hgo).2.symm
  · obtain rfl : pc = .read p := hpc
    have hnever : ∀ y : JInt, y ≠ -1 → ¬ ∀ x ∈ counts ⟨m, .examine p (-1), input, out⟩, x = y :=
      fun y hy hall => hy (hall (-1) (List.mem_append_right _ List.mem_cons_self)).symm
    refine ⟨h.buf, fun e he => ?_, fun x hx => ?_, fun hall => ?_, fun hall => ?_⟩
    · rcases List.mem_append.mp he with he | he
      · exact h.event e (List.mem_append_left _ he)
      · rw [List.mem_singleton.mp he, List.length_take, h.buf p rfl]
        rfl
    · rcases List.mem_append.mp hx with hx | hx
      · exact h.kind x (List.mem_append_left _ hx)
      · exact Or.inr (Or.inr (List.mem_singleton.mp hx))
    · exact absurd rfl (hall (-1) (List.mem_append_right _ List.mem_cons_self))
    · exact absurd hall (hnever 16 (by decide))
  · obtain rfl : pc = .examine p x := hpc
    have hcounts : counts ⟨m.examine p x, .loop p.keep, input, out⟩ =
        counts ⟨m, .examine p x, input, out⟩ :=
      (List.append_nil _).trans List.map_append
    have hfronts : fronts ⟨m.examine p x, .loop p.keep, input, out⟩ =
        fronts ⟨m, .examine p x, input, out⟩ :=
      (List.append_nil _).trans List.map_append
    refine ⟨fun q hq => ?_, hfronts ▸ h.event, hcounts ▸ h.kind, hcounts ▸ h.read, ?_⟩
    · rw [← Option.some.inj hq, ← h.buf p rfl]
      show (if p.accepts then _ else p).buf.length = _
      split_ifs
      · rfl
      · rfl
    · rw [hcounts, hfronts]
      exact h.single
  · rcases hch with rfl | rfl
    · rcases hfail with hfail | hfail
      · cases hfail
      · cases hfail
    · rcases hfail with hfail | hfail
      · cases hfail
      · cases hfail

theorem Counted.of_reach {c : Conf IrMemory IrPc} (h : Batches events c) : Counted events c :=
  h.invariant ⟨fun p hp => by rw [← Option.some.inj hp]; rfl, nofun, nofun,
      fun _ => Nat.zero_add _, fun _ => rfl⟩
    (fun _ _ _ hi hch hs => hi.step hch hs)

/-- Reads of one event or two that give as many bytes as there are events gave one each. -/
theorem eq_of_sum : ∀ {xs : List JInt}, (∀ x ∈ xs, x = 16 ∨ x = 32) →
    (xs.map BitVec.toNat).sum ≤ sizeEvent * xs.length → ∀ x ∈ xs, x = 16 := by
  have hsum : ∀ {xs : List JInt}, (∀ x ∈ xs, x = 16 ∨ x = 32) →
      sizeEvent * xs.length ≤ (xs.map BitVec.toNat).sum := by
    intro xs
    induction xs with
    | nil => intro _; exact Nat.le_refl _
    | cons x xs ih =>
      intro hall
      have hrest := ih (fun y hy => hall y (List.mem_cons_of_mem x hy))
      rw [List.map_cons, List.sum_cons, List.length_cons, Nat.mul_succ]
      rcases hall x List.mem_cons_self with rfl | rfl
      · have : BitVec.toNat (16 : JInt) = sizeEvent := rfl
        omega
      · have : BitVec.toNat (32 : JInt) = 2 * sizeEvent := rfl
        omega
  intro xs
  induction xs with
  | nil => intro _ _; exact nofun
  | cons x xs ih =>
    intro hall hle y hy
    have hrest := fun z hz => hall z (List.mem_cons_of_mem x hz)
    have hge := hsum hrest
    rw [List.map_cons, List.sum_cons, List.length_cons, Nat.mul_succ] at hle
    rcases hall x List.mem_cons_self with rfl | rfl
    · have : BitVec.toNat (16 : JInt) = sizeEvent := rfl
      rcases List.mem_cons.mp hy with rfl | hy
      · rfl
      · exact ih hrest (by omega) y hy
    · have : BitVec.toNat (32 : JInt) = 2 * sizeEvent := rfl
      have : 0 < sizeEvent := by decide
      omega

/-- **Before the end of the stream, the events looked at are the events that have come
exactly if none has come together with another one.** -/
theorem Counted.examined_iff {c : Conf IrMemory IrPc} (h : Counted events c) {p : IrParser}
    (hpc : c.pc = .loop p) (hopen : ∀ e ∈ c.mem.log, e.x ≠ -1) :
    c.mem.examined.flatten ++ c.input = events.flatten ↔ ∀ e ∈ c.mem.log, e.x = 16 := by
  obtain ⟨m, pc, input, out⟩ := c
  obtain rfl : pc = .loop p := hpc
  have hcounts : counts ⟨m, .loop p, input, out⟩ = m.log.map Examined.x := List.append_nil _
  have hfronts : fronts ⟨m, .loop p, input, out⟩ = m.examined := List.append_nil _
  obtain ⟨-, hevent, hkind, hread, hsingle⟩ := h
  rw [hcounts] at hkind hread hsingle
  rw [hfronts] at hevent hsingle
  rw [List.forall_mem_map] at hkind hread hsingle
  constructor
  · intro heq
    have hlen := congrArg List.length heq
    rw [List.length_append, length_flatten_events hevent, ← hread hopen, IrMemory.examined,
      List.length_map, Nat.mul_comm] at hlen
    have hall := @eq_of_sum (m.log.map Examined.x) ?_ ?_
    · exact List.forall_mem_map.mp hall
    · rw [List.forall_mem_map]
      intro e he
      rcases hkind e he with hx | hx | hx
      · exact Or.inl hx
      · exact Or.inr hx
      · exact absurd hx (hopen e he)
    · rw [List.length_map]
      exact Nat.le_of_eq (Nat.add_right_cancel hlen).symm
  · exact hsingle

/-! ### No stream is decoded -/

/-- **No stream is decoded as it should be**: the parser does not end, however the events
come, and at last has looked at more events than there are.  Up to the end of the stream it
looks at each event exactly if each one comes alone. -/
theorem not_decoded (hlen : ∀ e ∈ events, e.length = sizeEvent) :
    ¬ Decoded events ∧
      (∀ c, Batches events c → c.pc ≠ .done) ∧
      Inevitable Batched (fun c => ¬ c.mem.examined <+: events) (irStart events.flatten) ∧
      ∀ (c : Conf IrMemory IrPc) (p : IrParser), Batches events c → c.pc = .loop p →
        (∀ e ∈ c.mem.log, e.x ≠ -1) →
        (c.mem.examined.flatten ++ c.input = events.flatten ↔ ∀ e ∈ c.mem.log, e.x = 16) := by
  refine ⟨fun h => ?_, fun c hc => (Steady.of_reach hlen hc).pc,
    examined_grows (steady_start hlen),
    fun c p hc hpc hopen => (Counted.of_reach hc).examined_iff hpc hopen⟩
  obtain ⟨c, ⟨hdone, _⟩, hsteady⟩ := h.ends.exists_of_invariant (I := Steady)
    (fun s t ⟨ch, hch, hs⟩ hi => hi.step hch hs) (steady_start hlen)
  exact hsteady.pc hdone

/-- One event of zeros. -/
theorem not_decoded_one : ¬ Decoded [List.replicate sizeEvent 0] :=
  (not_decoded (by intro e he; rw [List.mem_singleton.mp he]; decide)).1

/-- **Two events that come together**: the second one is not looked at, and at the end of
the stream the first one is looked at again. -/
theorem decoded_two : ¬ ∀ events : List (List Byte), (∀ e ∈ events, e.length = sizeEvent) →
    Decoded events := by
  intro hclaim
  let events : List (List Byte) := [List.replicate sizeEvent 1, List.replicate sizeEvent 2]
  obtain ⟨c, hc, hexamined⟩ := Reach.exists_of_run
    (show (run (fun ch c => if Whole ch then Conf.step irOp true ch c else none)
        [.go () 16, .go () 32, .go () 16, .go () 16, .go () 16, .go () 16]
        (irStart events.flatten)).map (fun c => c.mem.examined) =
      some [List.replicate sizeEvent 1, List.replicate sizeEvent 1] by decide)
  have hprefix := (hclaim events (by decide)).once c hc
  rw [hexamined] at hprefix
  exact absurd hprefix (by decide)

end MikaAudio.Server
