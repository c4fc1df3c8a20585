import MikaAudio.Client.Modules
import MikaAudio.Lib.Interleave

/-!
# Attempts to enter frame mode

`FrameModule.init` sets `running` when it is called, and clears it in the `catch` of an
`IOException`.  Its last statement, `return in.read() == ACK`, is no such place: with any
other byte `init` gives `false` and `running` stays set, so the next call returns at once,
although the server has answered and waits for the port.

Here the client's two threads that touch the `FrameModule` run with whatever the network
gives them.  The flag says that an attempt has succeeded as long as no `init` is under way
(`Flagged`), unless that byte comes (`Accepted`).
-/

namespace MikaAudio.Client

open Thread
open Interleave

/-- `init` has set `running` and has not returned. -/
def ModulePc.inProgress : ModulePc → Bool
  | .init .testRunning => false
  | .init _ => true
  | _ => false

/-- The statements of `init` other than reads and writes that can throw an
`IOException`. -/
def ModulePc.throws : ModulePc → Bool
  | .init .newSocket => true
  | .init (.initFrameInput _) => true
  | .init .receive => true
  | _ => false

/-- The client's `ModuleThread` and UI thread.  `uiStopping` is as in a session; `succeeded`
says that the last `init` that set `running` gave `true` and nothing has cleared the flag
since, and nothing reads it. -/
structure Attempts where
  memory : Memory := {}
  pc : ModulePc := .idle
  uiStopping : Bool := false
  succeeded : Bool := false

namespace Attempts

/-- Who moves, and what the network gives. -/
inductive Label
  /-- The UI calls `switchModule(module)`. -/
  | switchModule (module : Module)
  /-- The UI thread handles a `HANDLER_MODULE` message. -/
  | uiMessage
  /-- The UI calls `getFrameModule().start()`. -/
  | start
  /-- The UI calls `frameModule.stop()`, up to `frameView.stop()`; the write may throw an
  `IOException`, which ends the call. -/
  | stop (ok : Bool)
  /-- The rest of `stop`; without a task the program ends there. -/
  | stopReturn
  /-- The `ModuleThread` makes its next operation. -/
  | module (r : Reply Env)
  /-- Its next statement throws an `IOException`. -/
  | ioException

/-- The module thread goes on with `m` and `pc`. -/
def advance (m : Memory) (pc : ModulePc) (s : Attempts) : Attempts :=
  { s with
    memory := m
    pc := pc
    succeeded := (decide (s.pc = .init .final ∧ pc = .initDone true) || s.succeeded) &&
      m.frame.running }

/-- The UI thread changes the memory. -/
def onUi (m : Memory) (s : Attempts) : Attempts :=
  { s with memory := m, succeeded := s.succeeded && m.frame.running }

/-- One step of one thread. -/
def step (l : Label) (s : Attempts) : Option Attempts :=
  match l with
  | .switchModule m => some (s.onUi { s.memory with requests := s.memory.requests ++ [m] })
  | .uiMessage =>
    match s.memory.uiQueue with
    | m :: rest => some (s.onUi { s.memory with uiQueue := rest, uiModule := m })
    | [] => none
  | .start =>
    if s.memory.uiModule = .frame ∧ s.uiStopping = false then
      some (s.onUi (s.memory.onFrame FrameModule.beginStart))
    else none
  | .stop ok =>
    if s.memory.uiModule = .frame ∧ s.uiStopping = false then
      some { s with uiStopping := s.memory.frame.running && ok }
    else none
  | .stopReturn =>
    if s.uiStopping then
      s.memory.frame.endStop.map fun fm =>
        { s.onUi { s.memory with frame := fm } with uiStopping := false }
    else none
  | .module r =>
    ((moduleOp s.memory.frame.socketPort s.pc).exec r s.memory).map fun next =>
      s.advance next.1 next.2
  | .ioException => if s.pc.throws then some (s.advance s.memory (.init .failed)) else none

/-- The module thread moves. -/
def Moves (s t : Attempts) : Prop := ∃ r, step (.module r) s = some t

/-- The client is about to write the port of a new socket. -/
def Offers (s : Attempts) : Prop := ∃ port, s.pc = .init (.writePort (intBytes port))

/-- An attempt that failed has left the `FrameModule` as it was, and unless one has succeeded
`init` goes on to writing the port. -/
structure Reusable (s : Attempts) : Prop where
  returned : s.pc = .initDone false → s.succeeded = false → s.memory.frame.running = false
  called : s.pc = .init .testRunning → s.succeeded = false → Inevitable Moves Offers s

/-- `init` ends with a byte other than `ACK`, or with the end of the stream. -/
def refuses : Read → Bool
  | .byte b => decide (b ≠ ack)
  | .eof => true
  | _ => false

/-- The last read of `init` is not refused while `running` is set. -/
def Accepted : Label → Attempts → Prop
  | .module (.read r), s =>
    ¬ (s.pc = .init .final ∧ s.memory.frame.running = true ∧ refuses r = true)
  | _, _ => True

instance (l : Label) (s : Attempts) : Decidable (Accepted l s) := by
  unfold Accepted
  split
  · infer_instance
  · infer_instance

/-! ### What the flag says -/

/-- While `init` is under way no attempt has succeeded, and otherwise `running` is set
exactly if one has. -/
structure Flagged (s : Attempts) : Prop where
  outside : s.pc ≠ .dead → s.pc.inProgress = false → s.memory.frame.running = s.succeeded
  inside : s.pc.inProgress = true → s.succeeded = false

/-- The flag stays as it is or is cleared. -/
def Lowers (m m' : Memory) : Prop :=
  m'.frame.running = m.frame.running ∨ m'.frame.running = false

section Flagged

variable {s t : Attempts} {m : Memory} {pc : ModulePc} {r : Reply Env}

theorem running_of_lowers (hm : Lowers s.memory m) :
    (s.memory.frame.running && m.frame.running) = m.frame.running := by
  rcases hm with hm | hm
  · rw [hm]
    exact Bool.and_self _
  · rw [hm]
    exact Bool.and_false _

theorem Flagged.onUi (h : Flagged s) (hm : Lowers s.memory m) : Flagged (s.onUi m) := by
  refine ⟨fun hdead hpc => ?_, fun hpc => ?_⟩
  · show m.frame.running = (s.succeeded && m.frame.running)
    rw [← h.outside hdead hpc, running_of_lowers hm]
  · show (s.succeeded && m.frame.running) = false
    rw [h.inside hpc]
    exact Bool.false_and _

theorem Flagged.stopping (h : Flagged s) (b : Bool) : Flagged { s with uiStopping := b } :=
  ⟨h.outside, h.inside⟩

theorem succeeded_advance (h : ¬ (s.pc = .init .final ∧ pc = .initDone true)) :
    (s.advance m pc).succeeded = (s.succeeded && m.frame.running) := by
  show ((decide _ || s.succeeded) && m.frame.running) = _
  rw [decide_eq_false h, Bool.false_or]

theorem Flagged.outside_advance (h : Flagged s) (hdead : s.pc ≠ .dead)
    (hpc : s.pc.inProgress = false) (hpc' : pc.inProgress = false) (hm : Lowers s.memory m) :
    Flagged (s.advance m pc) := by
  have hfinal : ¬ (s.pc = .init .final ∧ pc = .initDone true) := by
    rintro ⟨heq, _⟩
    rw [heq] at hpc
    cases hpc
  refine ⟨fun _ _ => ?_, fun hin => absurd (hpc'.symm.trans hin) (by decide)⟩
  rw [succeeded_advance hfinal, ← h.outside hdead hpc]
  exact (running_of_lowers hm).symm

theorem Flagged.inside_advance (h : s.succeeded = false) (hpc : pc.inProgress = true ∨ pc = .dead) :
    Flagged (s.advance m pc) := by
  have hfinal : ¬ (s.pc = .init .final ∧ pc = .initDone true) := by
    rintro ⟨_, rfl⟩
    rcases hpc with hpc | hpc
    · cases hpc
    · cases hpc
  refine ⟨fun hdead hout => ?_, fun _ => ?_⟩
  · rcases hpc with hpc | hpc
    · exact absurd (hpc.symm.trans hout) (by decide)
    · exact absurd hpc hdead
  · rw [succeeded_advance hfinal, h]
    exact Bool.false_and _

theorem Flagged.advance_of_cleared (hpc : pc.inProgress = false) (hm : m.frame.running = false) :
    Flagged (s.advance m pc) := by
  refine ⟨fun _ _ => ?_, fun hin => absurd (hpc.symm.trans hin) (by decide)⟩
  show m.frame.running = ((decide _ || s.succeeded) && m.frame.running)
  rw [hm]
  exact (Bool.and_false _).symm

theorem ModulePc.inProgress_of_throws (h : pc.throws = true) : pc.inProgress = true := by
  cases pc with
  | init p =>
    cases p with
    | testRunning => cases h
    | _ => rfl
  | _ => cases h

theorem ModulePc.inProgress_ofRequest (request current : Module) :
    (ModulePc.ofRequest request current).inProgress = false := by
  cases request with
  | _ =>
    cases current with
    | _ => rfl

theorem running_endStop {fm fm' : FrameModule} (h : fm.endStop = some fm') :
    fm'.running = false := by
  obtain ⟨i, _, rfl⟩ := Option.map_eq_some_iff.mp h
  rfl

/-- An operation outside of `init` sets no flag and does not get into `init` beyond its first
statement. -/
theorem moduleOp_outside {port : JInt} {m m' : Memory} {pc pc' : ModulePc}
    (h : (moduleOp port pc).exec r m = some (m', pc')) (hpc : ∀ p, pc ≠ .init p) :
    pc'.inProgress = false ∧ Lowers m m' := by
  cases pc with
  | init p => exact absurd rfl (hpc p)
  | idle =>
    cases r with
    | env =>
      simp only [moduleOp, Op.exec] at h
      split at h
      · cases h
        exact ⟨ModulePc.inProgress_ofRequest _ _, Or.inl rfl⟩
      · cases h
    | _ => cases h
  | stopTest =>
    obtain ⟨_, rfl, hf⟩ := Op.exec_act h
    cases hf
    refine ⟨?_, Or.inl rfl⟩
    split_ifs
    · rfl
    · rfl
  | stopTask =>
    cases r with
    | env =>
      simp only [moduleOp, Op.exec] at h
      cases hend : m.frame.endStop with
      | some fm =>
        rw [hend] at h
        cases h
        exact ⟨rfl, Or.inr (running_endStop hend)⟩
      | none =>
        rw [hend] at h
        cases h
        exact ⟨rfl, Or.inl rfl⟩
    | _ => cases h
  | stopWrite | inputWrite | frameWrite =>
    obtain ⟨ok, rfl, rfl, rfl⟩ := Op.exec_write h
    refine ⟨?_, Or.inl rfl⟩
    cases ok
    · rfl
    · rfl
  | stopWait | inputWait | exitWait | frameWait =>
    obtain ⟨x, rfl, rfl, rfl⟩ := Op.exec_read h
    refine ⟨?_, Or.inl rfl⟩
    cases x with
    | byte b =>
      dsimp only
      split_ifs
      all_goals rfl
    | _ => rfl
  | inputDone | exit =>
    obtain ⟨_, rfl, hf⟩ := Op.exec_act h
    cases hf
    exact ⟨rfl, Or.inl rfl⟩
  | initDone ok =>
    obtain ⟨_, rfl, hf⟩ := Op.exec_act h
    cases hf
    refine ⟨rfl, Or.inl ?_⟩
    split_ifs
    · rfl
    · rfl
  | dead => cases h

/-- `init` goes on until its last read, an `IOException` or an uncaught exception. -/
theorem initOp_inside {port : JInt} {m m' : Memory} {p : InitPc} {pc' : ModulePc}
    (h : (moduleOp port (.init p)).exec r m = some (m', pc')) (htest : p ≠ .testRunning)
    (hfinal : p ≠ .final) (hfailed : p ≠ .failed) : pc'.inProgress = true ∨ pc' = .dead := by
  cases p with
  | testRunning => exact absurd rfl htest
  | final => exact absurd rfl hfinal
  | failed => exact absurd rfl hfailed
  | newSocket | setDimensions data =>
    obtain ⟨_, rfl, hf⟩ := Op.exec_act h
    cases hf
    exact Or.inl rfl
  | receive =>
    obtain ⟨_, rfl, rfl, rfl⟩ := Op.exec_receive h
    exact Or.inl rfl
  | writePort bs =>
    cases bs with
    | nil =>
      obtain ⟨_, rfl, hf⟩ := Op.exec_act h
      cases hf
      exact Or.inl rfl
    | cons b bs =>
      obtain ⟨ok, rfl, rfl, rfl⟩ := Op.exec_write h
      cases ok
      · exact Or.inl rfl
      · exact Or.inl rfl
  | readPort bs =>
    have hnext : ∀ bs, (ModulePc.init (InitPc.ofPortBytes bs)).inProgress = true := by
      intro bs
      unfold InitPc.ofPortBytes
      split_ifs
      · rfl
      · rfl
    obtain ⟨x, rfl, rfl, rfl⟩ := Op.exec_read h
    cases x with
    | byte b => exact Or.inl (hnext _)
    | eof => exact Or.inl (hnext _)
    | timeout | error => exact Or.inl rfl
  | initFrameInput inputPort =>
    cases r with
    | env =>
      simp only [moduleOp, initOp, Op.exec] at h
      split_ifs at h
      · cases h
        exact Or.inl rfl
      · cases h
        exact Or.inr rfl
    | _ => cases h

theorem Flagged.final (h : Flagged s) (hpc : s.pc = .init .final) {x : Read}
    (hok : ¬ (s.memory.frame.running = true ∧ refuses x = true)) {k : Read → ModulePc}
    (hk : moduleOp s.memory.frame.socketPort (.init .final) = .read k) :
    Flagged (s.advance s.memory (k x)) := by
  cases hk
  have hsucceeded : s.succeeded = false := h.inside (by rw [hpc]; rfl)
  have hcleared : refuses x = true → s.memory.frame.running = false := fun hx =>
    Bool.eq_false_iff.mpr fun hrunning => hok ⟨hrunning, hx⟩
  cases x with
  | byte b =>
    by_cases hb : b = ack
    · refine ⟨fun _ _ => ?_, fun hin => by cases hin⟩
      have hdone : s.pc = .init .final ∧ ModulePc.initDone (decide (b = ack)) = .initDone true :=
        ⟨hpc, by rw [decide_eq_true hb]⟩
      show s.memory.frame.running = ((decide _ || s.succeeded) && s.memory.frame.running)
      rw [decide_eq_true hdone, Bool.true_or, Bool.true_and]
    · exact .advance_of_cleared rfl (hcleared (decide_eq_true hb))
  | eof => exact .advance_of_cleared rfl (hcleared rfl)
  | timeout | error => exact .inside_advance hsucceeded (Or.inl rfl)

theorem Flagged.stepModule (h : Flagged s) (hok : Accepted (.module r) s)
    (hst : step (.module r) s = some t) : Flagged t := by
  obtain ⟨⟨m, pc⟩, hexec, rfl⟩ := Option.map_eq_some_iff.mp hst
  by_cases hinit : ∃ p, s.pc = .init p
  · obtain ⟨p, hpc⟩ := hinit
    rw [hpc] at hexec
    have hinside : p ≠ .testRunning → s.succeeded = false := by
      intro hp
      refine h.inside ?_
      rw [hpc]
      cases p with
      | testRunning => exact absurd rfl hp
      | _ => rfl
    by_cases htest : p = .testRunning
    · subst htest
      have hrunning := h.outside (by rw [hpc]; decide) (by rw [hpc]; rfl)
      cases r with
      | env =>
        simp only [moduleOp, initOp, Op.exec] at hexec
        split_ifs at hexec with hset
        · cases hexec
          exact h.outside_advance (by rw [hpc]; decide) (by rw [hpc]; rfl) rfl (Or.inl rfl)
        · cases hexec
          refine .inside_advance ?_ (Or.inl rfl)
          rw [← hrunning]
          exact Bool.eq_false_iff.mpr hset
      | _ => cases hexec
    by_cases hfinal : p = .final
    · subst hfinal
      obtain ⟨_, rfl, rfl, rfl⟩ := Op.exec_read hexec
      exact h.final hpc (fun hx => hok ⟨hpc, hx⟩) rfl
    by_cases hfailed : p = .failed
    · subst hfailed
      obtain ⟨_, rfl, hf⟩ := Op.exec_act hexec
      cases hf
      exact .advance_of_cleared rfl rfl
    exact .inside_advance (hinside htest) (initOp_inside hexec htest hfinal hfailed)
  · have hne : ∀ p, s.pc ≠ .init p := fun p hp => hinit ⟨p, hp⟩
    obtain ⟨hpc', hm⟩ := moduleOp_outside hexec hne
    have hdead : s.pc ≠ .dead := by
      intro hpc
      rw [hpc] at hexec
      cases hexec
    have hpc : s.pc.inProgress = false := by
      cases hpc : s.pc with
      | init p => exact absurd hpc (hne p)
      | _ => rfl
    exact h.outside_advance hdead hpc hpc' hm

theorem Flagged.step {l : Label} (h : Flagged s) (hok : Accepted l s)
    (hst : Attempts.step l s = some t) : Flagged t := by
  cases l with
  | module r => exact h.stepModule hok hst
  | switchModule m =>
    cases hst
    exact h.onUi (Or.inl rfl)
  | uiMessage =>
    rw [Attempts.step] at hst
    split at hst
    · cases hst
      exact h.onUi (Or.inl rfl)
    · cases hst
  | start =>
    rw [Attempts.step] at hst
    split_ifs at hst
    cases hst
    exact h.onUi (Or.inl rfl)
  | stop ok =>
    rw [Attempts.step] at hst
    split_ifs at hst
    cases hst
    exact h.stopping _
  | stopReturn =>
    rw [Attempts.step] at hst
    split_ifs at hst
    obtain ⟨fm, hfm, rfl⟩ := Option.map_eq_some_iff.mp hst
    exact (h.onUi (Or.inr (running_endStop hfm))).stopping false
  | ioException =>
    rw [Attempts.step] at hst
    split_ifs at hst with hthrows
    cases hst
    exact .inside_advance (h.inside (ModulePc.inProgress_of_throws hthrows)) (Or.inl rfl)

/-! ### The next attempt -/

theorem offers_of_called (hpc : s.pc = .init .testRunning)
    (hrunning : s.memory.frame.running = false) : Inevitable Moves Offers s := by
  obtain ⟨m, pc, uiStopping, succeeded⟩ := s
  obtain rfl : pc = .init .testRunning := hpc
  have hstep : ∀ e : Env, step (.module (.env e)) ⟨m, .init .testRunning, uiStopping, succeeded⟩ =
      some (advance (m.onFrame ({ · with running := true })) (.init .newSocket)
        ⟨m, .init .testRunning, uiStopping, succeeded⟩) := by
    intro e
    simp only [step, moduleOp, initOp, Op.exec, if_neg (Bool.eq_false_iff.mp hrunning)]
    rfl
  refine .later ⟨_, _, hstep ⟨0⟩⟩ ?_
  rintro u ⟨r, hu⟩
  cases r with
  | env e =>
    obtain rfl := Option.some.inj (hu.symm.trans (hstep e))
    refine .later ⟨_, .env ⟨0⟩, rfl⟩ ?_
    rintro v ⟨r, hv⟩
    cases r with
    | env e =>
      obtain rfl := Option.some.inj hv
      exact .now ⟨e.port, rfl⟩
    | _ => cases hv
  | _ => cases hu

/-- After a refused last read `init` gives `false` with the flag as it was. -/
theorem refused {x : Read} (hpc : s.pc = .init .final) (hx : refuses x = true)
    (hnot : s.succeeded = false) (hst : step (.module (.read x)) s = some t) :
    t.pc = .initDone false ∧ t.succeeded = false ∧
      t.memory.frame.running = s.memory.frame.running := by
  obtain ⟨m, pc, uiStopping, succeeded⟩ := s
  obtain rfl : pc = .init .final := hpc
  obtain rfl : succeeded = false := hnot
  cases x with
  | byte b =>
    have hb : decide (b = ack) = false := decide_eq_false (of_decide_eq_true hx)
    obtain rfl := Option.some.inj hst
    refine ⟨congrArg ModulePc.initDone hb, ?_, rfl⟩
    exact succeeded_advance fun ⟨_, hdone⟩ => by
      rw [ModulePc.initDone.injEq, hb] at hdone
      cases hdone
  | eof =>
    obtain rfl := Option.some.inj hst
    exact ⟨rfl, rfl, rfl⟩
  | timeout | error => cases hx

theorem Flagged.reusable (h : Flagged s) : Reusable s := by
  refine ⟨fun hpc hnot => ?_, fun hpc hnot => offers_of_called hpc ?_⟩
  · exact (h.outside (by rw [hpc]; decide) (by rw [hpc]; rfl)).trans hnot
  · exact (h.outside (by rw [hpc]; decide) (by rw [hpc]; rfl)).trans hnot

/-- **In every run in which no last read of `init` is refused, each failed attempt leaves the
`FrameModule` reusable**; and the first one that is refused does not. -/
theorem attempts_reusable (h : Reach step Accepted {} s) :
    Reusable s ∧ ∀ l t, step l s = some t → (Reusable t ↔ Accepted l s) := by
  have hflagged : Flagged s :=
    h.invariant ⟨fun _ _ => rfl, nofun⟩ fun _ _ _ hf hok hst => hf.step hok hst
  refine ⟨hflagged.reusable, fun l t hst => ⟨fun hreusable => ?_, fun hok => ?_⟩⟩
  · by_contra hok
    obtain ⟨r, rfl, hpc, hrunning, hrefuses⟩ : ∃ r, l = .module (.read r) ∧
        s.pc = .init .final ∧ s.memory.frame.running = true ∧ refuses r = true := by
      unfold Accepted at hok
      split at hok
      · exact ⟨_, rfl, not_not.mp hok⟩
      · exact absurd trivial hok
    have hnot := hflagged.inside (by rw [hpc]; rfl)
    obtain ⟨hreturned, hsucceeded, hset⟩ := refused hpc hrefuses hnot hst
    have hcleared := hreusable.returned hreturned hsucceeded
    rw [hset, hrunning] at hcleared
    cases hcleared
  · exact (hflagged.step hok hst).reusable

/-- The UI asks for the frame module, and the server answers `ACK`. -/
def asking : List Label :=
  [.switchModule .frame, .module (.env ⟨40000⟩), .module (.done true), .module (.read (.byte ack))]

/-- A socket cannot be made, and the next attempt is answered. -/
theorem attempts_reusable_two : ∃ s : Attempts, s.pc = .init .testRunning ∧ Reusable s := by
  obtain ⟨s, hs, hpc⟩ := Reach.exists_of_run (show
    (run (fun l s => if Accepted l s then step l s else none)
      (asking ++ [.module (.env ⟨40000⟩), .ioException, .module (.env ⟨40000⟩),
        .module (.env ⟨40000⟩)] ++ asking) {}).map (·.pc) = some (.init .testRunning) by decide)
  exact ⟨s, hpc, (attempts_reusable hs).1⟩

/-- The exchange up to the last read of `init`. -/
def exchanging : List Label :=
  asking ++ [.module (.env ⟨40000⟩), .module (.env ⟨40000⟩)] ++
    List.replicate 4 (.module (.done true)) ++ [.module (.env ⟨40000⟩)] ++
    [0x00, 0x00, 0x9C, 0x41].map (fun b => .module (.read (.byte b))) ++
    [.module (.env ⟨40000⟩), .module (.packet []), .module (.env ⟨40000⟩)]

/-- **The server's native `init` fails, and it answers `REJECT`.** -/
theorem attempt_not_reusable : ¬ ∀ s, Reach step (fun _ _ => True) {} s → Reusable s := by
  intro hclaim
  obtain ⟨s, hs, hlast⟩ := Reach.exists_of_run (show
    (run (fun l s => if True then step l s else none)
      (exchanging ++ [.module (.read (.byte reject))]) {}).map
      (fun s => (s.pc, s.succeeded, s.memory.frame.running)) =
      some (.initDone false, false, true) by decide +kernel)
  simp only [Prod.mk.injEq] at hlast
  have hcleared := (hclaim s hs).returned hlast.1 hlast.2.1
  rw [hlast.2.2] at hcleared
  cases hcleared

end Flagged

end Attempts

end MikaAudio.Client
