import MikaAudio.Server.Communication

/-!
# Replies to a client that leaves a mode

A client leaves a mode with one byte: `0x00` as a module or as a mode of `listen`, and the
stop `ACK` in `parse`.  It then reads until it gets an `ACK`.  `watch` counts the `ACK`s
written since the last such byte; before the next module byte is read there shall be exactly
one (`Answered`).  The first two are answered.  The stop `ACK` is not: `parse` returns, and
nothing on the way back to the loop writes (`parse_unanswered`).
-/

namespace MikaAudio.Server

open Thread
open Interleave

/-- The byte is a request to leave a mode. -/
def leaves (pc : TaskPc) (b : Byte) : Bool :=
  match pc with
  | .module => b = moduleExit
  | .listen .mode _ => b = modeExit
  | .frame .parse => b = ack
  | _ => false

/-- The number of `ACK`s written since a request to leave a mode was read; `none` is that
there was none since the last module byte. -/
def watch (c : Nat) (s : Conf Memory TaskPc) (owed : Option Nat) : Option Nat :=
  match taskOp c s.pc, s.input with
  | .read _, b :: _ =>
    if leaves s.pc b then some 0 else if s.pc = .module then none else owed
  | .write b _, _ => if b = ack then owed.map (· + 1) else owed
  | _, _ => owed

/-- One step of the thread, without timeouts and errors and on a stream that stays open,
and the count. -/
def watchStep (c : Nat) (l : Env × Nat) (s : Conf Memory TaskPc × Option Nat) :
    Option (Conf Memory TaskPc × Option Nat) :=
  (s.1.step (taskOp c) false (.go l.1 l.2)).map fun t => (t, watch c s.1 s.2)

/-- The thread at its start. -/
def taskStart (m : Memory) (input : List Byte) : Conf Memory TaskPc × Option Nat :=
  (⟨m, .loop, input, []⟩, none)

/-- Before the next module byte, and when the loop is left, every request to leave a mode
has been answered once. -/
def Answered (s : Conf Memory TaskPc × Option Nat) : Prop :=
  s.1.pc = .module ∨ s.1.pc.left = true → s.2 = none ∨ s.2 = some 1

/-- A stop `ACK` is about to be read in `parse`. -/
def StopsFrame (s : Conf Memory TaskPc × Option Nat) : Prop :=
  s.1.pc = .frame .parse ∧ s.1.input.head? = some ack

instance (s : Conf Memory TaskPc × Option Nat) : Decidable (StopsFrame s) :=
  inferInstanceAs (Decidable (_ ∧ _))

/-! ### What is owed where -/

/-- What is owed in each state of a run in which no stop `ACK` is read. -/
def Owes (owed : Option Nat) : TaskPc → Prop
  | .exitAck | .listen .exitAck _ => owed = some 0
  | .frame .stopFrameTask | .frame .stopInputTask => False
  | .listen _ _ | .frame _ => owed = none
  | _ => owed = none ∨ owed = some 1

section Owes

variable {c : Nat} {pc : FramePc}

theorem owes_ofPortBytes (bs : List JInt) : Owes none (.frame (.ofPortBytes bs)) := by
  unfold FramePc.ofPortBytes
  split_ifs
  · rfl
  · rfl

theorem owes_ofMode (mode : Byte) (inString : List Byte) :
    Owes (if mode = modeExit then some 0 else none) (.listen (.ofMode mode) inString) := by
  unfold ListenPc.ofMode
  split_ifs
  all_goals rfl

theorem owes_ofModule (module : Byte) :
    Owes (if module = moduleExit then some 0 else none) (.ofModule module) := by
  unfold TaskPc.ofModule
  split_ifs
  · rfl
  · rfl
  · rfl
  · exact Or.inl rfl

/-- The private `start` and `init` owe nothing, as long as the stop `ACK` does not come. -/
theorem owes_start_read {k : Read → TaskPc} (h : taskOp c (.frame pc) = .read k) {b : Byte}
    (hb : pc = .parse → b ≠ ack) : Owes none (k (.byte b)) := by
  cases pc with
  | port bs =>
    cases h
    exact owes_ofPortBytes _
  | startWait depth =>
    cases h
    show Owes none (.frame (if b = ack then _ else _))
    split_ifs
    · rfl
    · rfl
  | parse =>
    cases h
    show Owes none (.frame (if b = ack then _ else _))
    rw [if_neg (hb rfl)]
    rfl
  | writeInputPort framePort bs =>
    cases bs
    · cases h
    · cases h
  | _ => cases h

theorem owes_start_write {b : Byte} {k : Bool → TaskPc} (h : taskOp c (.frame pc) = .write b k) :
    Owes none (k true) := by
  cases pc with
  | writeInputPort framePort bs =>
    cases bs with
    | nil => cases h
    | cons b bs =>
      cases h
      rfl
  | startTimeout | busyReject =>
    cases h
    exact Or.inl rfl
  | ack | portTimeout | initAck | initReject | parseTimeout =>
    cases h
    rfl
  | _ => cases h

theorem owes_start_send {port : JInt} {data : List Byte} {k : Bool → TaskPc}
    (h : taskOp c (.frame pc) = .send port data k) : Owes none (k true) := by
  cases pc with
  | writeInputPort framePort bs =>
    cases bs
    · cases h
    · cases h
  | sendPacket =>
    cases h
    rfl
  | _ => cases h

theorem owes_start_act {f : Env → Memory → Option (Memory × TaskPc)} {e : Env} {m m' : Memory}
    {pc' : TaskPc} (h : taskOp c (.frame pc) = .act f) (hpc : Owes none (.frame pc))
    (hf : f e m = some (m', pc')) : Owes none pc' := by
  cases pc with
  | testConnected =>
    cases h
    cases hf
    split_ifs
    · rfl
    · rfl
  | newFramePacket framePort =>
    cases h
    dsimp only at hf
    split_ifs at hf
    · cases hf
      rfl
    · cases hf
      exact Or.inl rfl
    · cases hf
      rfl
  | newInputSocket framePort =>
    cases h
    dsimp only at hf
    split_ifs at hf
    · cases hf
      rfl
    · cases hf
      rfl
  | getInputPort framePort =>
    cases h
    cases hf
    cases m.frame.inputSocket with
    | some socket => rfl
    | none => exact Or.inl rfl
  | writeInputPort framePort bs =>
    cases bs with
    | nil =>
      cases h
      cases hf
      rfl
    | cons b bs => cases h
  | newFrameTask framePort =>
    cases h
    dsimp only at hf
    split_ifs at hf
    · cases hf
      rfl
    · cases hf
      exact Or.inl rfl
  | testInstance =>
    cases h
    cases hf
    split_ifs
    · rfl
    · rfl
  | clearConnected =>
    cases h
    cases hf
    exact Or.inl rfl
  | catchInputTask =>
    cases h
    cases hf
    exact Or.inl rfl
  | stopFrameTask | stopInputTask => exact hpc.elim
  | setInputModule | metrics | fillPacket | nativeInit | startFrameTask | newInputTask |
    startInputTask | catchFrameTask =>
    cases h
    cases hf
    rfl
  | _ => cases h

theorem owes_frame {owed : Option Nat} (h : Owes owed (.frame pc)) :
    owed = none ∧ Owes none (.frame pc) := by
  cases pc with
  | stopFrameTask | stopInputTask => exact h.elim
  | _ => exact ⟨h, rfl⟩

end Owes

section Step

variable {c : Nat} {l : Env × Nat} {s t : Conf Memory TaskPc × Option Nat}

theorem Owes.frame_step {pc : FramePc} (hpc : s.1.pc = .frame pc) (h : Owes s.2 s.1.pc)
    (hcond : ¬ StopsFrame s) (hs : watchStep c l s = some t) : Owes t.2 t.1.pc := by
  obtain ⟨⟨m, spc, input, out⟩, owed⟩ := s
  obtain rfl : spc = .frame pc := hpc
  obtain ⟨rfl, hnone⟩ := owes_frame h
  obtain ⟨u, hu, rfl⟩ := Option.map_eq_some_iff.mp hs
  obtain ⟨k, b, rest, hop, hin, rfl⟩ | ⟨k, hop, _, hend, _⟩ | ⟨len, k, hop, _⟩ | ⟨len, k, hop, _⟩ |
    ⟨b, k, hop, rfl⟩ | ⟨port, data, k, hop, rfl⟩ | ⟨f, m', pc', hop, hf, rfl⟩ :=
    Conf.step_cases hu
  · obtain rfl : input = b :: rest := hin
    have hack : pc = .parse → b ≠ ack := by
      rintro rfl rfl
      exact hcond ⟨rfl, rfl⟩
    have hwatch : watch c ⟨m, .frame pc, b :: rest, out⟩ none = none := by
      rw [watch, show taskOp c (.frame pc) = .read k from hop]
      have hleaves : leaves (.frame pc) b = false := by
        cases pc with
        | parse => exact decide_eq_false (hack rfl)
        | _ => rfl
      simp [hleaves]
    show Owes (watch c _ none) _
    rw [hwatch]
    exact owes_start_read hop hack
  · cases hend
  · cases pc with
    | writeInputPort framePort bs =>
      cases bs
      · cases hop
      · cases hop
    | _ => cases hop
  · cases pc with
    | writeInputPort framePort bs =>
      cases bs
      · cases hop
      · cases hop
    | _ => cases hop
  · have hwatch : watch c ⟨m, .frame pc, input, out⟩ none = none := by
      rw [watch, show taskOp c (.frame pc) = .write b k from hop]
      simp
    show Owes (watch c _ none) _
    rw [hwatch]
    exact owes_start_write hop
  · have hwatch : watch c ⟨m, .frame pc, input, out⟩ none = none := by
      rw [watch, show taskOp c (.frame pc) = .send port data k from hop]
    show Owes (watch c _ none) _
    rw [hwatch]
    exact owes_start_send hop
  · have hwatch : watch c ⟨m, .frame pc, input, out⟩ none = none := by
      rw [watch, show taskOp c (.frame pc) = .act f from hop]
    show Owes (watch c _ none) _
    rw [hwatch]
    exact owes_start_act hop hnone hf

theorem Owes.listen_step {pc : ListenPc} {inString : List Byte} (hpc : s.1.pc = .listen pc inString)
    (h : Owes s.2 s.1.pc) (hs : watchStep c l s = some t) : Owes t.2 t.1.pc := by
  obtain ⟨⟨m, spc, input, out⟩, owed⟩ := s
  obtain rfl : spc = .listen pc inString := hpc
  obtain ⟨u, hu, rfl⟩ := Option.map_eq_some_iff.mp hs
  cases pc with
  | exitAck =>
    obtain rfl : owed = some 0 := h
    obtain rfl := Option.some.inj hu
    exact Or.inr rfl
  | mode =>
    obtain rfl : owed = none := h
    cases input with
    | nil => cases hu
    | cons b rest =>
      obtain rfl := Option.some.inj hu
      have hwatch : watch c ⟨m, .listen .mode inString, b :: rest, out⟩ none =
          if b = modeExit then some 0 else none := by
        show (if decide (b = modeExit) = true then some 0 else _) = _
        simp
      show Owes (watch c ⟨m, .listen .mode inString, b :: rest, out⟩ none)
        (.listen (.ofMode b) inString)
      rw [hwatch]
      exact owes_ofMode b inString
  | key =>
    obtain rfl : owed = none := h
    cases input with
    | nil => cases hu
    | cons b rest =>
      obtain rfl := Option.some.inj hu
      rfl
  | text =>
    obtain rfl : owed = none := h
    cases input with
    | nil => cases hu
    | cons b rest =>
      rw [Conf.step_readBuf (show taskOp c (.listen .text inString) = .readBuf _ _ from rfl)] at hu
      split_ifs at hu
      obtain rfl := Option.some.inj hu
      rfl
  | ack | modeTimeout | keyTimeout | textTimeout | dispatchText =>
    obtain rfl : owed = none := h
    obtain rfl := Option.some.inj hu
    rfl
  | dispatchKey k =>
    obtain rfl : owed = none := h
    obtain rfl := Option.some.inj hu
    rfl

/-- **Every step keeps the account**, unless it reads the stop `ACK`. -/
theorem Owes.step (h : Owes s.2 s.1.pc) (hcond : ¬ StopsFrame s) (hs : watchStep c l s = some t) :
    Owes t.2 t.1.pc := by
  obtain ⟨⟨m, pc, input, out⟩, owed⟩ := s
  cases pc with
  | frame pc => exact Owes.frame_step rfl h hcond hs
  | listen pc inString => exact Owes.listen_step rfl h hs
  | loop =>
    obtain ⟨u, hu, rfl⟩ := Option.map_eq_some_iff.mp hs
    obtain rfl := Option.some.inj hu
    show Owes owed (if m.running c then .module else .closeStreams false)
    split_ifs
    · exact h
    · exact h
  | module =>
    obtain ⟨u, hu, rfl⟩ := Option.map_eq_some_iff.mp hs
    cases input with
    | nil => cases hu
    | cons b rest =>
      obtain rfl := Option.some.inj hu
      have hwatch : watch c ⟨m, .module, b :: rest, out⟩ owed =
          if b = moduleExit then some 0 else none := by
        show (if decide (b = moduleExit) = true then some 0 else _) = _
        simp
      show Owes (watch c ⟨m, .module, b :: rest, out⟩ owed) (.ofModule b)
      rw [hwatch]
      exact owes_ofModule b
  | exitAck =>
    obtain rfl : owed = some 0 := h
    obtain ⟨u, hu, rfl⟩ := Option.map_eq_some_iff.mp hs
    obtain rfl := Option.some.inj hu
    exact Or.inr rfl
  | closeStreams escaping =>
    obtain ⟨u, hu, rfl⟩ := Option.map_eq_some_iff.mp hs
    obtain rfl := Option.some.inj hu
    show Owes owed (if escaping then .dead else .closeSocket)
    split_ifs
    · exact h
    · exact h
  | moduleTimeout | closeSocket | remove =>
    obtain ⟨u, hu, rfl⟩ := Option.map_eq_some_iff.mp hs
    obtain rfl := Option.some.inj hu
    exact h
  | done | dead =>
    obtain ⟨u, hu, _⟩ := Option.map_eq_some_iff.mp hs
    cases hu

theorem Owes.answered (h : Owes s.2 s.1.pc) : Answered s := by
  obtain ⟨⟨m, pc, input, out⟩, owed⟩ := s
  rintro (hpc | hpc)
  · obtain rfl : pc = .module := hpc
    exact h
  · cases pc with
    | closeStreams escaping | closeSocket | remove | done | dead => exact h
    | _ => cases hpc

end Step

/-! ### The stop `ACK` -/

/-- One step of the thread, with whatever the environment answers. -/
def Watched (c : Nat) (s t : Conf Memory TaskPc × Option Nat) : Prop :=
  ∃ l, watchStep c l s = some t

theorem inevitable_act {c : Nat} {P : Conf Memory TaskPc × Option Nat → Prop} {m : Memory}
    {pc : TaskPc} {input out : List Byte} {owed : Option Nat} {g : Memory → Memory × TaskPc}
    (hop : taskOp c pc = .act fun _ m => some (g m))
    (h : Inevitable (Watched c) P (⟨(g m).1, (g m).2, input, out⟩, owed)) :
    Inevitable (Watched c) P (⟨m, pc, input, out⟩, owed) := by
  have hstep : ∀ l : Env × Nat, watchStep c l (⟨m, pc, input, out⟩, owed) =
      some (⟨(g m).1, (g m).2, input, out⟩, owed) := by
    intro l
    rw [watchStep, Conf.step_act hop, watch, hop]
    rfl
  refine .later ⟨_, (⟨0, true, 0, 0, 0, true⟩, 0), hstep _⟩ ?_
  rintro t ⟨l, ht⟩
  rw [hstep l] at ht
  obtain rfl := Option.some.inj ht
  exact h

/-- **A stop `ACK` is never answered**: the next module byte is waited for, or the loop is
left, with nothing written. -/
theorem parse_unanswered {c : Nat} {s : Conf Memory TaskPc × Option Nat} (h : StopsFrame s) :
    Inevitable (Watched c) (fun t => ¬ Answered t) s := by
  obtain ⟨⟨m, pc, input, out⟩, owed⟩ := s
  obtain ⟨hpc, hin⟩ := h
  obtain rfl : pc = .frame .parse := hpc
  obtain ⟨rest, rfl⟩ : ∃ rest, input = ack :: rest := by
    cases input with
    | nil => cases hin
    | cons b rest => exact ⟨rest, by rw [Option.some.inj hin]⟩
  have hread : ∀ l : Env × Nat, watchStep c l (⟨m, .frame .parse, ack :: rest, out⟩, owed) =
      some (⟨m, .frame .stopFrameTask, rest, out⟩, some 0) := fun l => rfl
  refine .later ⟨_, (⟨0, true, 0, 0, 0, true⟩, 0), hread _⟩ ?_
  rintro t ⟨l, ht⟩
  rw [hread l] at ht
  obtain rfl := Option.some.inj ht
  refine inevitable_act (g := fun m => (m.onFrame (·.onFrameTask Task.stop), .frame .stopInputTask))
    rfl ?_
  refine inevitable_act (g := fun m => (m.onFrame (·.onInputTask Task.stop), .loop)) rfl ?_
  refine inevitable_act
    (g := fun m => (m, if m.running c then .module else .closeStreams false)) rfl ?_
  refine .now (fun hanswered => ?_)
  have howed := hanswered (by
    dsimp only
    split_ifs
    · exact Or.inl rfl
    · exact Or.inr rfl)
  rcases howed with howed | howed
  · cases howed
  · cases howed

/-- **Every request to leave a mode is answered once, in every run in which no stop `ACK` is
read**; and the answer to a stop `ACK` never comes. -/
theorem leaving_answered {c : Nat} {m : Memory} {input : List Byte}
    {s : Conf Memory TaskPc × Option Nat} :
    (Reach (watchStep c) (fun _ s => ¬ StopsFrame s) (taskStart m input) s → Answered s) ∧
      (StopsFrame s → Inevitable (Watched c) (fun t => ¬ Answered t) s) := by
  refine ⟨fun h => ?_, parse_unanswered⟩
  have howes : Owes s.2 s.1.pc :=
    h.invariant (I := fun s => Owes s.2 s.1.pc) (show Owes none .loop from Or.inl rfl)
      (fun _ _ _ hi hcond hs => hi.step hcond hs)
  exact howes.answered

/-- The input module is entered and left. -/
theorem leaving_answered_input : ∃ s : Conf Memory TaskPc × Option Nat,
    s.1.pc = .module ∧ s.2 = some 1 ∧ Answered s := by
  let e : Env := ⟨40001, true, 1080, 1920, 7, true⟩
  obtain ⟨s, hs, hlast⟩ := Reach.exists_of_run
    (show (run (fun l s => if ¬ StopsFrame s then watchStep 0 l s else none)
      (List.replicate 6 (e, 1)) (taskStart {} [moduleInput, modeExit])).map
        (fun s => (s.1.pc, s.2)) = some (.module, some 1) by decide)
  obtain ⟨hpc, howed⟩ := Prod.mk.inj hlast
  exact ⟨s, hpc, howed, leaving_answered.1 hs⟩

/-- The module byte `MODULE_FRAME`, a port, the start `ACK` and the stop `ACK`. -/
theorem leaving_unanswered : ¬ ∀ (c : Nat) (m : Memory) (input : List Byte)
    (s : Conf Memory TaskPc × Option Nat),
    Reach (watchStep c) (fun _ _ => True) (taskStart m input) s → Answered s := by
  intro hclaim
  let e : Env := ⟨40001, true, 1080, 1920, 7, true⟩
  obtain ⟨s, hs, hlast⟩ := Reach.exists_of_run
    (show (run (fun l s => if True then watchStep 0 l s else none) (List.replicate 32 (e, 1))
      (taskStart {} [moduleFrame, 0, 0, 156, 64, ack, ack])).map (fun s => (s.1.pc, s.2)) =
        some (.module, some 0) by decide)
  obtain ⟨hpc, howed⟩ := Prod.mk.inj hlast
  have hanswered := hclaim 0 {} _ s hs (Or.inl hpc)
  rw [howed] at hanswered
  rcases hanswered with h | h
  · cases h
  · cases h

end MikaAudio.Server
