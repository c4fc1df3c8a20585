import MikaAudio.Server.Exclusive
import MikaAudio.Server.Isolation

/-!
# A session from the `ACK` of `init` to its end

`Waiting` counts the `ACK`s a connection reads from there on.  The loop of `parse` answers
a timeout and reads again, but the private `start` answers it and returns: the session is
given up before it has begun, and the next byte is taken for a module.  Where no timeout
comes there, the connection stays in the session until it has read two `ACK`s
(`session_survives`).

`Patient` has three conditions more.  A byte that is no `ACK` makes the private `start`
call itself, which has to fit on the stack.  A task that is stopped before its thread has
come to `run()` runs on.  And other connections keep off the fields of the session.
-/

namespace MikaAudio.Server

open Thread Interleave

/-- The task in `frameTask` and the one in `inputTask` are those of connection `c`, and
neither runs. -/
structure Stopped (c : Nat) (fm : FrameModule) : Prop where
  frameTask : ∃ t, fm.currentTask = some t ∧ t.owner = c ∧ t.task.isRunning = false
  inputTask : ∃ t, fm.currentInput = some t ∧ t.IsOf c ∧ t.task.isRunning = false

/-- No timeout comes while the private `start` waits. -/
def TaskPc.awaited : TaskPc → Reply Env → Bool
  | .frame (.startWait _), .read .timeout => false
  | _, _ => true

/-- The operation makes no I/O error. -/
def delivered : Reply Env → Bool
  | .read .error => false
  | .done false => false
  | _ => true

/-- A task is stopped only when its thread has come to `run()`. -/
def TaskPc.begun (fm : FrameModule) : TaskPc → Bool
  | .frame .stopFrameTask => fm.currentTask.all fun t => t.task.pending = 0
  | .frame .stopInputTask => fm.currentInput.all fun t => t.task.pending = 0
  | _ => true

/-- The server, and the `ACK`s connection `c` has read. -/
structure Waiting where
  host : Host
  acks : Nat := 0

namespace Waiting

open Host (Label Apart)

/-- The connection reads an `ACK`. -/
def ackRead (c : Nat) : Label → Nat
  | .task d (.read (.byte b)) => if d = c ∧ b = ack then 1 else 0
  | _ => 0

/-- One step of the server. -/
def step (stack c : Nat) (l : Label) (w : Waiting) : Option Waiting :=
  (Host.step stack l w.host).map fun s => ⟨s, w.acks + ackRead c l⟩

/-- The call of `start` has not returned, and the connection meets no I/O error. -/
def InSession (c : Nat) (l : Label) (w : Waiting) : Prop :=
  (w.host.tasks c).inStart = true ∧
    match l with
    | .task d r => d = c → delivered r = true
    | _ => True

instance (c : Nat) (l : Label) (w : Waiting) : Decidable (InSession c l w) := by
  induction l using Host.Label.casesOn
  all_goals
    dsimp only [InSession]
    infer_instance

/-- Other connections keep off the fields of the session, and the connection's own
operation is none that gives it up. -/
def Patient (stack c : Nat) (l : Label) (w : Waiting) : Prop :=
  InSession c l w ∧ Apart l w.host ∧
    match l with
    | .task d r => d = c → ((w.host.tasks c).awaited r && Host.fits stack (w.host.tasks c) r &&
        (w.host.tasks c).begun w.host.memory.frame) = true
    | _ => True

instance (stack c : Nat) (l : Label) (w : Waiting) : Decidable (Patient stack c l w) := by
  induction l using Host.Label.casesOn
  all_goals
    dsimp only [Patient]
    infer_instance

/-- The connection stays in its session until it has read two `ACK`s: the first one starts
both tasks, the second one stops them and ends the session. -/
structure Survives (c : Nat) (w : Waiting) : Prop where
  waits : w.acks = 0 → (∃ depth, w.host.tasks c = .frame (.startWait depth)) ∨
    w.host.tasks c = .frame .startTimeout
  streams : w.acks = 1 → w.host.tasks c = .frame .startFrameTask ∨
    w.host.tasks c = .frame .newInputTask ∨ w.host.tasks c = .frame .startInputTask ∨
    ((w.host.tasks c = .frame .parse ∨ w.host.tasks c = .frame .parseTimeout) ∧
      Isolated c w.host.memory.frame)
  ends : w.acks = 2 → w.host.tasks c = .frame .stopFrameTask ∨
    w.host.tasks c = .frame .stopInputTask ∨
    (w.host.tasks c = .loop ∧ Stopped c w.host.memory.frame)
  two : w.acks ≤ 2

end Waiting

/-! ### Where the session stands -/

/-- The frame task of connection `c` is stopped. -/
def FrameStopped (c : Nat) (fm : FrameModule) : Prop :=
  ∃ t, fm.currentTask = some t ∧ t.owner = c ∧ t.task.isRunning = false

/-- The local states after a number of `ACK`s. -/
inductive Stands (c : Nat) (fm : FrameModule) : TaskPc → Nat → Prop
  | startWait (depth : Nat) : Stands c fm (.frame (.startWait depth)) 0
  | startFrameTask : Stands c fm (.frame .startFrameTask) 1
  | newInputTask : Stands c fm (.frame .newInputTask) 1
  | startInputTask : Stands c fm (.frame .startInputTask) 1
  | parse : Stands c fm (.frame .parse) 1
  | parseTimeout : Stands c fm (.frame .parseTimeout) 1
  | stopFrameTask : Stands c fm (.frame .stopFrameTask) 2
  | stopInputTask (h : FrameStopped c fm) : Stands c fm (.frame .stopInputTask) 2
  | ended (h : Stopped c fm) : Stands c fm .loop 2

section Operation

variable {c d n : Nat} {fm fm' : FrameModule} {pc pc' : TaskPc} {m m' : Memory} {r : Reply Env}

theorem Stands.stage_pos (h : Stands c fm pc n) (hpc : pc.inStart = true) : 0 < pc.stage := by
  cases h with
  | ended => cases hpc
  | _ => simp

theorem Stands.of_stopped {n : Nat} (h : Stands c fm pc n) (hpc : 0 < pc.stage)
    (hstopped : pc = .frame .stopInputTask → FrameStopped c fm → FrameStopped c fm') :
    Stands c fm' pc n := by
  cases h with
  | startWait depth => exact .startWait depth
  | startFrameTask => exact .startFrameTask
  | newInputTask => exact .newInputTask
  | startInputTask => exact .startInputTask
  | parse => exact .parse
  | parseTimeout => exact .parseTimeout
  | stopFrameTask => exact .stopFrameTask
  | stopInputTask h => exact .stopInputTask (hstopped rfl h)
  | ended => simp at hpc

theorem Task.isRunning_stop_of_begun {t : Task} (h : t.pending = 0) : t.stop.isRunning = false := by
  rw [Task.isRunning_stop, h]
  rfl

theorem Stands.next {stack : Nat} (h : Stands c m.frame pc n) (hpc : 0 < pc.stage)
    (hholds : Holds c m.frame pc.stage) (hexec : (taskOp c pc).exec r m = some (m', pc'))
    (hdelivered : delivered r = true)
    (hok : (pc.awaited r && Host.fits stack pc r && pc.begun m.frame) = true) :
    Stands c m'.frame (pc'.onStack stack) (n + Waiting.ackRead c (.task c r)) := by
  simp only [Bool.and_eq_true] at hok
  obtain ⟨⟨hawaited, hfits⟩, hbegun⟩ := hok
  cases h with
  | startWait depth =>
    obtain ⟨x, rfl, rfl, rfl⟩ := Op.exec_read hexec
    cases x with
    | byte b =>
      by_cases hb : b = ack
      · simp only [hb, if_true, Waiting.ackRead]
        exact .startFrameTask
      · have hlt : depth < stack := by simpa [Host.fits, hb] using hfits
        simp only [hb, if_false, Waiting.ackRead, and_false, TaskPc.onStack,
          if_pos (Nat.succ_le_of_lt hlt)]
        exact .startWait (depth + 1)
    | eof =>
      have hlt : depth < stack := by simpa [Host.fits] using hfits
      simp only [Waiting.ackRead, TaskPc.onStack, if_pos (Nat.succ_le_of_lt hlt)]
      exact .startWait (depth + 1)
    | timeout => cases hawaited
    | error => cases hdelivered
  | startFrameTask =>
    obtain ⟨_, rfl, hf⟩ := Op.exec_act hexec
    cases hf
    exact .newInputTask
  | newInputTask =>
    obtain ⟨_, rfl, hf⟩ := Op.exec_act hexec
    cases hf
    exact .startInputTask
  | startInputTask =>
    obtain ⟨_, rfl, hf⟩ := Op.exec_act hexec
    cases hf
    exact .parse
  | parse =>
    obtain ⟨x, rfl, rfl, rfl⟩ := Op.exec_read hexec
    cases x with
    | byte b =>
      by_cases hb : b = ack
      · simp only [hb, if_true, Waiting.ackRead]
        exact .stopFrameTask
      · simp only [hb, if_false, Waiting.ackRead, and_false]
        exact .parse
    | eof => exact .parse
    | timeout => exact .parseTimeout
    | error => cases hdelivered
  | parseTimeout =>
    obtain ⟨ok, rfl, rfl, rfl⟩ := Op.exec_write hexec
    cases ok with
    | true => exact .parse
    | false => cases hdelivered
  | stopFrameTask =>
    obtain ⟨_, rfl, hf⟩ := Op.exec_act hexec
    cases hf
    obtain ⟨t, ht, howner, _⟩ := hholds.frameTask (by simp)
    have hpending : t.task.pending = 0 := by simpa [TaskPc.begun, ht] using hbegun
    exact .stopInputTask ⟨_, FrameModule.currentTask_on Task.stop _ ht, howner,
      Task.isRunning_stop_of_begun hpending⟩
  | stopInputTask hstopped =>
    obtain ⟨_, rfl, hf⟩ := Op.exec_act hexec
    cases hf
    obtain ⟨t, ht, howner, hrun⟩ := hstopped
    obtain ⟨u, hu, hof, _⟩ := hholds.inputTask (by simp)
    have hpending : u.task.pending = 0 := by simpa [TaskPc.begun, hu] using hbegun
    refine .ended ⟨⟨t, ?_, howner, hrun⟩, _, FrameModule.currentInput_on Task.stop _ hu, hof,
      Task.isRunning_stop_of_begun hpending⟩
    exact (FrameModule.currentTask_onInputTask Task.stop m.frame).trans ht
  | ended => simp at hpc

/-- An operation of another connection starts no stopped task. -/
theorem Fields.frameStopped (h : Fields d fm pc fm' pc') (hstage : pc.stage = 0)
    (hs : FrameStopped c fm) : FrameStopped c fm' := by
  obtain ⟨t, ht, howner, hrun⟩ := hs
  cases h with
  | quiet => exact ⟨t, ht, howner, hrun⟩
  | setInputModule => exact ⟨t, ht, howner, hrun⟩
  | catchFrameTask =>
    refine ⟨_, FrameModule.currentTask_on Task.stop _ ht, howner, ?_⟩
    simp only [Task.isRunning, Bool.or_eq_false_iff] at hrun
    simpa [Task.isRunning_stop] using hrun.1
  | catchInputTask =>
    exact ⟨t, (FrameModule.currentTask_onInputTask Task.stop fm).trans ht, howner, hrun⟩
  | _ => simp at hstage

theorem FrameStopped.beginFrameTask {i : Nat} (h : FrameStopped c fm)
    (hb : fm.beginFrameTask i = some fm') : FrameStopped c fm' := by
  obtain ⟨t, ht, howner, hrun⟩ := h
  obtain ⟨task, htask, heq⟩ := FrameModule.currentTask_beginFrameTask hb ht
  exact ⟨_, htask, howner, heq.trans hrun⟩

theorem FrameStopped.stop (h : FrameStopped c fm) : FrameStopped c fm.stop := by
  unfold FrameModule.stop
  split_ifs
  · exact h
  · exact h

end Operation

/-! ### Whole runs -/

namespace Waiting

open Host (Label Apart)

variable {stack c : Nat} {l : Label} {w v : Waiting}

theorem ackRead_of_ne {d : Nat} (r : Reply Env) (h : d ≠ c) : ackRead c (.task d r) = 0 := by
  unfold ackRead
  split
  · rename_i hl
    cases hl
    exact if_neg fun hand => h hand.1
  · rfl

theorem Stands.other {s t : Host} {n : Nat} (h : Stands c s.memory.frame (s.tasks c) n)
    (hpc : 0 < (s.tasks c).stage) (hst : Host.step stack l s = some t) (hl : ∀ r, l ≠ .task c r)
    (hs : FrameStopped c s.memory.frame → FrameStopped c t.memory.frame) :
    Stands c t.memory.frame (t.tasks c) n := by
  rw [Host.tasks_of_step hst hl]
  exact h.of_stopped hpc fun _ => hs

theorem stands_step (hsessions : Host.Sessions w.host)
    (h : Stands c w.host.memory.frame (w.host.tasks c) w.acks) (hok : Patient stack c l w)
    (hst : step stack c l w = some v) :
    Stands c v.host.memory.frame (v.host.tasks c) v.acks := by
  obtain ⟨⟨hin, hdelivered⟩, hapart, hown⟩ := hok
  have hpc := h.stage_pos hin
  obtain ⟨t, hhost, rfl⟩ := Option.map_eq_some_iff.mp hst
  by_cases hl : ∃ r, l = .task c r
  · obtain ⟨r, rfl⟩ := hl
    obtain ⟨_, m, pc, hexec, rfl⟩ := Host.step_task hhost
    have hnext := h.next hpc (hsessions.holds c) hexec (hdelivered rfl) (hown rfl)
    rw [← Host.tasks_advance] at hnext
    exact hnext
  have hother := Stands.other h hpc hhost (fun r hr => hl ⟨r, hr⟩)
  cases l with
  | task d r =>
    have hd : d ≠ c := by
      rintro rfl
      exact hl ⟨r, rfl⟩
    obtain ⟨_, m, pc, hexec, rfl⟩ := Host.step_task hhost
    have hstage : (w.host.tasks d).stage = 0 := by
      by_contra hpos
      exact hd (hsessions.one d c (Nat.pos_of_ne_zero hpos) hpc)
    simp only [ackRead_of_ne r hd, Nat.add_zero]
    exact hother ((taskOp_fields hexec).frameStopped hstage)
  | accept d =>
    rw [Host.step] at hhost
    split_ifs at hhost
    cases hhost
    exact hother id
  | beginFrameTask i =>
    obtain ⟨fm, hfm, rfl⟩ := Option.map_eq_some_iff.mp hhost
    exact hother fun hs => hs.beginFrameTask hfm
  | beginInputTask i =>
    obtain ⟨fm, hfm, rfl⟩ := Option.map_eq_some_iff.mp hhost
    obtain ⟨_, _, _, _, rfl⟩ := FrameModule.beginInputTask_cases hfm
    exact hother id
  | updateFrame i =>
    obtain ⟨ft, _, rfl⟩ := Option.map_eq_some_iff.mp hhost
    exact hother id
  | destroy =>
    cases hhost
    exact hother FrameStopped.stop
  | stop d =>
    cases hhost
    exact hother id
  | close d =>
    cases hhost
    exact hother id

/-- **A session survives waiting** where no timeout comes before the start `ACK`: from the
`ACK` of `init` on the connection stays in it until it has read two `ACK`s. -/
theorem session_survives {s : Host} (hs : Reach (Host.step stack) Apart {} s)
    (hc : s.tasks c = .frame (.startWait 0)) (h : Reach (step stack c) (Patient stack c) ⟨s, 0⟩ w) :
    Survives c w := by
  have hinv : Host.Sessions w.host ∧ Stands c w.host.memory.frame (w.host.tasks c) w.acks := by
    refine h.invariant (I := fun w => Host.Sessions w.host ∧
      Stands c w.host.memory.frame (w.host.tasks c) w.acks) ⟨Host.sessions hs, ?_⟩ ?_
    · rw [hc]
      exact .startWait 0
    · intro w v l hw hok hst
      have hstands := stands_step hw.1 hw.2 hok hst
      obtain ⟨t, hhost, rfl⟩ := Option.map_eq_some_iff.mp hst
      exact ⟨hw.1.step hok.2.1 hhost, hstands⟩
  obtain ⟨hsessions, hstands⟩ := hinv
  have hholds := hsessions.holds c
  have hisolated : (w.host.tasks c).stage = 6 → Isolated c w.host.memory.frame := by
    intro hstage
    rw [hstage] at hholds
    exact hholds.isolated
  constructor
  · intro hacks
    rw [hacks] at hstands
    generalize hpc : w.host.tasks c = pc at hstands
    cases hstands
    exact Or.inl ⟨_, rfl⟩
  · intro hacks
    rw [hacks] at hstands
    generalize hpc : w.host.tasks c = pc at hstands hisolated
    cases hstands with
    | startFrameTask => exact Or.inl rfl
    | newInputTask => exact Or.inr (Or.inl rfl)
    | startInputTask => exact Or.inr (Or.inr (Or.inl rfl))
    | parse => exact Or.inr (Or.inr (Or.inr ⟨Or.inl rfl, hisolated rfl⟩))
    | parseTimeout => exact Or.inr (Or.inr (Or.inr ⟨Or.inr rfl, hisolated rfl⟩))
  · intro hacks
    rw [hacks] at hstands
    generalize hpc : w.host.tasks c = pc at hstands
    cases hstands with
    | stopFrameTask => exact Or.inl rfl
    | stopInputTask => exact Or.inr (Or.inl rfl)
    | ended hstopped => exact Or.inr (Or.inr ⟨rfl, hstopped⟩)
  · generalize w.host.tasks c = pc at hstands
    generalize w.acks = n at hstands ⊢
    cases hstands with
    | _ => decide

/-- The start `ACK`, both tasks begin, a timeout, and the stop `ACK`. -/
def ended (c : Nat) : List Label :=
  [.task c (.read (.byte ack)), .task c (.env Host.env), .task c (.env Host.env),
    .task c (.env Host.env), .beginFrameTask 0, .task c (.read .timeout), .task c (.done true),
    .beginInputTask 0, .task c (.read (.byte ack)), .task c (.env Host.env),
    .task c (.env Host.env)]

/-- A session is waited for with a byte that is no `ACK`, started, waited in and ended. -/
theorem session_survives_ended : ∃ w : Waiting, w.acks = 2 ∧ w.host.tasks 0 = .loop ∧
    Survives 0 w := by
  obtain ⟨s, hs, hk⟩ := Reach.exists_of_run (show
    (run (fun l s => if Apart l s then Host.step 9 l s else none) (Host.initialized 0 7) {}).map
      (fun s => (s.tasks 0,
        (run (fun l w => if Patient 9 0 l w then step 9 0 l w else none)
          (.task 0 (.read (.byte 5)) :: ended 0) ⟨s, 0⟩).map
            fun w => (w.acks, w.host.tasks 0))) =
      some (.frame (.startWait 0), some (2, .loop)) by decide +kernel)
  simp only [Prod.mk.injEq] at hk
  obtain ⟨w, hw, hk'⟩ := Reach.exists_of_run hk.2
  simp only [Prod.mk.injEq] at hk'
  exact ⟨w, hk'.1, hk'.2, session_survives hs hk.1 hw⟩

/-- **A timeout before the start `ACK` drops the session**: the next byte is taken for a
module. -/
theorem session_dropped : ¬ ∀ stack c s w, Reach (Host.step stack) (fun _ _ => True) {} s →
    s.tasks c = .frame (.startWait 0) → Reach (step stack c) (InSession c) ⟨s, 0⟩ w →
    Survives c w := by
  intro hclaim
  obtain ⟨s, hs, hk⟩ := Reach.exists_of_run (show
    (run (fun l s => if True then Host.step 9 l s else none) (Host.initialized 0 7) {}).map
      (fun s => (s.tasks 0,
        (run (fun l w => if InSession 0 l w then step 9 0 l w else none)
          [.task 0 (.read .timeout), .task 0 (.done true)] ⟨s, 0⟩).map
            fun w => (w.acks, w.host.tasks 0))) =
      some (.frame (.startWait 0), some (0, .loop)) by decide +kernel)
  simp only [Prod.mk.injEq] at hk
  obtain ⟨w, hw, hk'⟩ := Reach.exists_of_run hk.2
  simp only [Prod.mk.injEq] at hk'
  rcases (hclaim 9 0 s w hs hk.1 hw).waits hk'.1 with ⟨depth, hpc⟩ | hpc
  · rw [hk'.2] at hpc
    cases hpc
  · rw [hk'.2] at hpc
    cases hpc

end Waiting

end MikaAudio.Server
