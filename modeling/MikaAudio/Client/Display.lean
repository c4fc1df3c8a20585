import MikaAudio.Lib.Interleave

/-!
# Stopping the display

Three threads meet at the monitor of the `SurfaceHolder`.  The `FrameThread` waits on it
without a limit, at first and after each frame it has drawn; the `FrameTask` calls
`ready`, which wakes it and waits for at most `TIMEOUT`; and `FrameModule.stop` writes
`ACK`, clears `running` in the monitor and joins the `FrameThread`, before it stops the
`FrameTask`.

Nothing wakes the `FrameThread` when `running` is cleared.  So the caller of `stop` hangs
unless the thread is awake then, or a `FrameTask` is about to wake it (`Wakeable`): the
server sends no more datagrams once it has read the `ACK`, and those on the way may be
lost.

Each step is one operation on the monitor, one test, or one datagram.
-/

namespace MikaAudio.Client

open Interleave (Reach run)

/-! ### The threads -/

/-- Where `FrameThread.run` stands. -/
inductive DrawPc
  /-- The first `synchronized (holder)`. -/
  | begin
  /-- The first `holder.wait()`. -/
  | firstWait
  /-- In it. -/
  | firstWaiting
  /-- Notified; the monitor is to be entered again. -/
  | firstWoken
  /-- The end of `synchronized`. -/
  | firstExit
  /-- `canvas = holder.lockCanvas(null)`. -/
  | lockCanvas
  /-- `while (running)`. -/
  | test
  /-- `synchronized (holder)` in the loop. -/
  | enter
  /-- `if (running)`, and then `draw(canvas)` and `holder.unlockCanvasAndPost(canvas)`. -/
  | draw
  /-- `holder.notify()`. -/
  | notify
  /-- `canvas = holder.lockCanvas(null)` in the loop. -/
  | lockAgain
  /-- `holder.wait()` in the loop. -/
  | wait
  /-- In it. -/
  | waiting
  /-- Notified. -/
  | woken
  /-- The end of `synchronized`. -/
  | exit
  /-- `run` has returned. -/
  | done
  deriving DecidableEq

/-- Where `FrameTask.run` stands, with the `ready` it calls. -/
inductive ReadyPc
  /-- `running = true`. -/
  | begin
  /-- `while (running)`. -/
  | test
  /-- `socket.receive(packet)`. -/
  | receive
  /-- `ready`: `synchronized (holder)`. -/
  | enter
  /-- `holder.notify()`. -/
  | notify
  /-- `holder.wait(TIMEOUT)`. -/
  | wait
  /-- In it. -/
  | waiting
  /-- Notified, or the time is over. -/
  | woken
  /-- The end of `synchronized`. -/
  | exit
  /-- `run` has returned. -/
  | done
  deriving DecidableEq

/-- Where `FrameModule.stop` stands. -/
inductive StopPc
  /-- It has not been called. -/
  | before
  /-- `out.write(ACK)`. -/
  | write
  /-- `setRunning(false)`: `synchronized (holder)`. -/
  | enter
  /-- `this.running = running`. -/
  | set
  /-- The end of `synchronized`. -/
  | exit
  /-- `frameThread.join()`. -/
  | join
  /-- `frameTask.stop()`. -/
  | stopTask
  /-- `running = false`. -/
  | clear
  /-- It has returned. -/
  | done
  deriving DecidableEq

/-- The thread has the monitor. -/
def DrawPc.inside : DrawPc → Bool
  | firstWait => true
  | firstExit => true
  | draw => true
  | notify => true
  | lockAgain => true
  | wait => true
  | exit => true
  | _ => false

/-- The thread is in `holder.wait()`. -/
def DrawPc.waits : DrawPc → Bool
  | firstWaiting => true
  | waiting => true
  | _ => false

/-- The thread has the monitor. -/
def ReadyPc.inside : ReadyPc → Bool
  | notify => true
  | wait => true
  | exit => true
  | _ => false

/-- The thread has the monitor. -/
def StopPc.inside : StopPc → Bool
  | set => true
  | exit => true
  | _ => false

/-- Where a waiting thread goes on when it is notified. -/
def DrawPc.notified : DrawPc → DrawPc
  | firstWaiting => firstWoken
  | waiting => woken
  | pc => pc

/-- Where a waiting thread goes on when it is notified. -/
def ReadyPc.notified : ReadyPc → ReadyPc
  | waiting => woken
  | pc => pc

/-- The next operation of `FrameThread.run`. -/
def DrawPc.next (running free : Bool) : DrawPc → Option DrawPc
  | begin => if free then some firstWait else none
  | firstWait => some firstWaiting
  | firstWaiting => none
  | firstWoken => if free then some firstExit else none
  | firstExit => some lockCanvas
  | lockCanvas => some test
  | test => some (if running then enter else done)
  | enter => if free then some draw else none
  | draw => some (if running then notify else exit)
  | notify => some lockAgain
  | lockAgain => some wait
  | wait => some waiting
  | waiting => none
  | woken => if free then some exit else none
  | exit => some test
  | done => none

/-- The next operation of `FrameTask.run` other than `receive`. -/
def ReadyPc.next (running free : Bool) : ReadyPc → Option ReadyPc
  | begin => some test
  | test => some (if running then receive else done)
  | receive => none
  | enter => if free then some notify else none
  | notify => some wait
  | wait => some waiting
  | waiting => none
  | woken => if free then some exit else none
  | exit => some test
  | done => none

/-- The fields of the `FrameThread`, the `FrameTask` and the `FrameModule`, the three threads,
the datagrams on the way, each with its flag, and how far the `ACK` of `stop` has come. -/
structure Display where
  running : Bool := true
  taskRunning : Bool := false
  moduleRunning : Bool := true
  frame : DrawPc := .begin
  task : ReadyPc := .begin
  caller : StopPc := .before
  datagrams : List Bool := []
  acked : Bool := false
  ackRead : Bool := false
  deriving DecidableEq

namespace Display

/-- Nobody has the monitor. -/
def free (s : Display) : Bool := !s.frame.inside && !s.task.inside && !s.caller.inside

/-- The next operation of the caller of `FrameModule.stop`. -/
def stopStep (s : Display) : Option Display :=
  match s.caller with
  | .before => some { s with caller := if s.moduleRunning then .write else .done }
  | .write => some { s with acked := true, caller := .enter }
  | .enter => if s.free then some { s with caller := .set } else none
  | .set => some { s with running := false, caller := .exit }
  | .exit => some { s with caller := .join }
  | .join => if s.frame = .done then some { s with caller := .stopTask } else none
  | .stopTask => some { s with taskRunning := false, caller := .clear }
  | .clear => some { s with moduleRunning := false, caller := .done }
  | .done => none

/-- Who moves. -/
inductive Label
  /-- The `FrameThread`. -/
  | frame
  /-- The `FrameTask`. -/
  | task
  /-- The time of `holder.wait(TIMEOUT)` is over. -/
  | timeout
  /-- The `FrameTask` receives a datagram. -/
  | receive
  /-- The caller of `FrameModule.stop`. -/
  | stop
  /-- The server sends a datagram, which is the last one of a frame or not. -/
  | send (last : Bool)
  /-- A datagram is lost. -/
  | lose
  /-- The server reads the `ACK` of `stop`. -/
  | readAck

/-- One step. -/
def step (l : Label) (s : Display) : Option Display :=
  match l with
  | .frame => (s.frame.next s.running s.free).map fun pc =>
    { s with frame := pc, task := if s.frame = .notify then s.task.notified else s.task }
  | .task => (s.task.next s.taskRunning s.free).map fun pc =>
    { s with
      task := pc
      taskRunning := if s.task = .begin then true else s.taskRunning
      frame := if s.task = .notify then s.frame.notified else s.frame }
  | .timeout => if s.task = .waiting then some { s with task := .woken } else none
  | .receive =>
    match s.task, s.datagrams with
    | .receive, last :: rest =>
      some { s with task := if last then .enter else .test, datagrams := rest }
    | _, _ => none
  | .stop => s.stopStep
  | .send last =>
    if s.ackRead then none else some { s with datagrams := s.datagrams ++ [last] }
  | .lose =>
    match s.datagrams with
    | _ :: rest => some { s with datagrams := rest }
    | [] => none
  | .readAck => if s.acked then some { s with ackRead := true } else none

/-- Any schedule. -/
abbrev Any : Label → Display → Prop := fun _ _ => True

/-- **The caller hangs**: it joins a thread that waits and that nothing will wake. -/
def Hangs (s : Display) : Prop :=
  s.caller = .join ∧ ∀ t, Reach step Any s t → t.frame.waits = true

/-- The `FrameThread` has begun and does not wait, or the `FrameTask` is about to wake it. -/
def Wakeable (s : Display) : Prop :=
  s.frame ≠ .begin ∧ (s.frame.waits = true → s.task = .enter)

instance (s : Display) : Decidable s.Wakeable := inferInstanceAs (Decidable (_ ∧ _))

/-- `running` is cleared only when the `FrameThread` is going to see it. -/
def InTime : Label → Display → Prop
  | .stop, s => s.caller = .set → s.Wakeable
  | _, _ => True

instance (l : Label) (s : Display) : Decidable (InTime l s) := by
  cases l with
  | _ =>
    unfold InTime
    infer_instance

end Display

/-! ### The places of the threads -/

/-- The thread comes to its end without a wait once `running` is cleared. -/
def DrawPc.leaves : DrawPc → Bool
  | firstWoken => true
  | firstExit => true
  | lockCanvas => true
  | test => true
  | enter => true
  | draw => true
  | woken => true
  | exit => true
  | done => true
  | _ => false

/-- The task is about to notify. -/
def ReadyPc.wakes : ReadyPc → Bool
  | enter => true
  | notify => true
  | _ => false

/-- `running` was cleared. -/
def StopPc.cleared : StopPc → Bool
  | exit => true
  | join => true
  | stopTask => true
  | clear => true
  | done => true
  | _ => false

section

variable {running free : Bool}

theorem DrawPc.inside_next {pc pc' : DrawPc} (h : pc.next running free = some pc')
    (hin : pc'.inside = true) : pc.inside = true ∨ free = true := by
  cases pc with
  | begin | firstWoken | enter | woken =>
    cases free with
    | false => cases h
    | true =>
      cases h
      exact Or.inr rfl
  | firstWaiting | waiting | done => cases h
  | lockCanvas | test =>
    cases running with
    | _ =>
      cases free with
      | false =>
        cases h
        cases hin
      | true =>
        cases h
        exact Or.inr rfl
  | _ =>
    cases h
    exact Or.inl rfl

theorem ReadyPc.inside_next {pc pc' : ReadyPc} (h : pc.next running free = some pc')
    (hin : pc'.inside = true) : pc.inside = true ∨ free = true := by
  cases pc with
  | begin | test =>
    cases running with
    | _ =>
      cases free with
      | false =>
        cases h
        cases hin
      | true =>
        cases h
        exact Or.inr rfl
  | enter | woken =>
    cases free with
    | false => cases h
    | true =>
      cases h
      exact Or.inr rfl
  | notify | wait | exit =>
    cases h
    exact Or.inl rfl
  | _ => cases h

@[simp] theorem DrawPc.inside_notified (pc : DrawPc) : pc.notified.inside = pc.inside := by
  cases pc with
  | _ => rfl

@[simp] theorem ReadyPc.inside_notified (pc : ReadyPc) : pc.notified.inside = pc.inside := by
  cases pc with
  | _ => rfl

theorem DrawPc.leaves_notified {pc : DrawPc} (h : (pc.leaves || pc.waits) = true) :
    pc.notified.leaves = true := by
  cases pc with
  | begin | firstWait | notify | lockAgain | wait => cases h
  | _ => rfl

theorem DrawPc.leaves_next {pc pc' : DrawPc} (h : pc.next false free = some pc')
    (hl : pc.leaves = true) : pc'.leaves = true := by
  cases pc with
  | begin =>
    cases free with
    | false => cases h
    | true =>
      cases h
      cases hl
  | firstWait | notify | lockAgain | wait =>
    cases h
    cases hl
  | firstWaiting | waiting | done => cases h
  | firstWoken | enter | woken =>
    cases free with
    | false => cases h
    | true =>
      cases h
      rfl
  | _ =>
    cases h
    rfl

theorem DrawPc.next_of_waits {pc : DrawPc} (h : pc.waits = true) :
    pc.next running free = none := by
  cases pc with
  | firstWaiting | waiting | done => rfl
  | _ => cases h

/-- Whoever has begun, has not the monitor and does not wait is on its way. -/
theorem DrawPc.leaves_of_awake {pc : DrawPc} (hbegin : pc ≠ .begin) (hin : pc.inside = false)
    (hwaits : pc.waits = false) : pc.leaves = true := by
  cases pc with
  | begin => exact absurd rfl hbegin
  | firstWait | notify | lockAgain | wait => exact Bool.noConfusion hin
  | firstWaiting | waiting => exact Bool.noConfusion hwaits
  | _ => rfl

theorem DrawPc.not_waits {pc : DrawPc} (h : pc.leaves = true) : pc.waits = false := by
  cases pc with
  | firstWaiting | waiting => cases h
  | _ => rfl

/-- A thread that waits has given the monitor up. -/
theorem DrawPc.not_inside {pc : DrawPc} (h : pc.waits = true) : pc.inside = false := by
  cases pc with
  | firstWait | firstExit | draw | notify | lockAgain | wait | exit => cases h
  | _ => rfl

/-- **Only a datagram makes the task notify again.** -/
theorem ReadyPc.wakes_next {pc pc' : ReadyPc} (h : pc.next running free = some pc')
    (hw : pc.wakes = false) : pc'.wakes = false := by
  cases pc with
  | receive | waiting | done => cases h
  | enter =>
    cases free with
    | false => cases h
    | true =>
      cases h
      cases hw
  | woken =>
    cases free with
    | false => cases h
    | true =>
      cases h
      rfl
  | _ =>
    cases running with
    | _ =>
      cases h
      rfl

theorem ReadyPc.wakes_iff {pc : ReadyPc} : pc.wakes = true ↔ pc = .enter ∨ pc = .notify := by
  cases pc with
  | _ => decide

end

namespace Display

/-! ### The invariant of all schedules -/

/-- At most one thread has the monitor, and how far `stop` has come. -/
structure Inv (s : Display) : Prop where
  frame : s.frame.inside = true → s.task.inside = false ∧ s.caller.inside = false
  task : s.task.inside = true → s.caller.inside = false
  running : s.running = !s.caller.cleared
  acked : s.caller.cleared = true ∨ s.caller = .enter ∨ s.caller = .set → s.acked = true
  before : s.caller = .before → s.moduleRunning = true

variable {s t : Display} {l : Label}

theorem free_iff : s.free = true ↔
    s.frame.inside = false ∧ s.task.inside = false ∧ s.caller.inside = false := by
  simp [free, and_assoc]

theorem step_cases (hst : step l s = some t) :
    l = .frame ∨ l = .task ∨ l = .stop ∨ ∃ pc datagrams ackRead,
      (pc = s.task ∨ (s.task.wakes = false ∧ pc.inside = false)) ∧
        t = { s with task := pc, datagrams, ackRead } := by
  cases l with
  | frame => exact Or.inl rfl
  | task => exact Or.inr (Or.inl rfl)
  | stop => exact Or.inr (Or.inr (Or.inl rfl))
  | timeout =>
    simp only [step] at hst
    split_ifs at hst with htask
    cases hst
    exact Or.inr (Or.inr (Or.inr ⟨.woken, _, _, Or.inr ⟨htask ▸ rfl, rfl⟩, rfl⟩))
  | receive =>
    simp only [step] at hst
    split at hst
    · cases hst
      rename_i last rest htask _
      refine Or.inr (Or.inr (Or.inr ⟨_, rest, _, Or.inr ⟨htask ▸ rfl, ?_⟩, rfl⟩))
      cases last
      · rfl
      · rfl
    · cases hst
  | send last =>
    simp only [step] at hst
    split_ifs at hst
    cases hst
    exact Or.inr (Or.inr (Or.inr ⟨_, _, _, Or.inl rfl, rfl⟩))
  | lose =>
    simp only [step] at hst
    split at hst
    · cases hst
      exact Or.inr (Or.inr (Or.inr ⟨_, _, _, Or.inl rfl, rfl⟩))
    · cases hst
  | readAck =>
    simp only [step] at hst
    split_ifs at hst
    cases hst
    exact Or.inr (Or.inr (Or.inr ⟨_, _, true, Or.inl rfl, rfl⟩))

theorem Inv.frameStep (h : Inv s) (hst : step .frame s = some t) : Inv t := by
  obtain ⟨pc, hpc, rfl⟩ := Option.map_eq_some_iff.mp hst
  have htask : (if s.frame = .notify then s.task.notified else s.task).inside = s.task.inside := by
    split_ifs
    · exact s.task.inside_notified
    · rfl
  have hothers : pc.inside = true → s.task.inside = false ∧ s.caller.inside = false := fun hin =>
    (DrawPc.inside_next hpc hin).elim h.frame fun hfree => (free_iff.mp hfree).2
  exact ⟨fun hin => ⟨htask.trans (hothers hin).1, (hothers hin).2⟩,
    fun hin => h.task (htask.symm.trans hin), h.running, h.acked, h.before⟩

theorem Inv.taskStep (h : Inv s) (hst : step .task s = some t) : Inv t := by
  obtain ⟨pc, hpc, rfl⟩ := Option.map_eq_some_iff.mp hst
  have hframe : (if s.task = .notify then s.frame.notified else s.frame).inside =
      s.frame.inside := by
    split_ifs
    · exact s.frame.inside_notified
    · rfl
  have hothers : pc.inside = true → s.frame.inside = false ∧ s.caller.inside = false := by
    intro hin
    rcases ReadyPc.inside_next hpc hin with htask | hfree
    · refine ⟨Bool.eq_false_iff.mpr fun hf => ?_, h.task htask⟩
      exact Bool.noConfusion ((h.frame hf).1.symm.trans htask)
    · exact ⟨(free_iff.mp hfree).1, (free_iff.mp hfree).2.2⟩
  refine ⟨fun hin => ?_, fun hin => (hothers hin).2, h.running, h.acked, h.before⟩
  have hf := hframe.symm.trans hin
  refine ⟨Bool.eq_false_iff.mpr fun ht => ?_, (h.frame hf).2⟩
  exact Bool.noConfusion ((hothers ht).1.symm.trans hf)

theorem Inv.moved (h : Inv s) {pc : ReadyPc} (hpc : pc.inside = true → s.task.inside = true)
    (datagrams : List Bool) (ackRead : Bool) : Inv { s with task := pc, datagrams, ackRead } where
  frame hin := by
    refine ⟨Bool.eq_false_iff.mpr fun htask => ?_, (h.frame hin).2⟩
    exact Bool.noConfusion ((h.frame hin).1.symm.trans (hpc htask))
  task hin := h.task (hpc hin)
  running := h.running
  acked := h.acked
  before := h.before

theorem Inv.stopStep (h : Inv s) (hst : Display.stopStep s = some t) : Inv t := by
  rw [Display.stopStep] at hst
  have hrunning := h.running
  cases hc : s.caller with
  | before =>
    rw [hc] at hst hrunning
    cases hst
    rw [h.before hc]
    have hnot : ¬ (StopPc.write.cleared = true ∨ StopPc.write = .enter ∨ StopPc.write = .set) := by
      decide
    exact ⟨fun hin => ⟨(h.frame hin).1, rfl⟩, fun _ => rfl, hrunning, fun hor => absurd hor hnot,
      nofun⟩
  | write =>
    rw [hc] at hst hrunning
    cases hst
    exact ⟨fun hin => ⟨(h.frame hin).1, rfl⟩, fun _ => rfl, hrunning, fun _ => rfl, nofun⟩
  | enter =>
    rw [hc] at hst hrunning
    have hacked := h.acked (Or.inr (Or.inl hc))
    dsimp only at hst
    split_ifs at hst with hfree
    cases hst
    obtain ⟨hframe, htask, -⟩ := free_iff.mp hfree
    exact ⟨fun hin => Bool.noConfusion (hframe.symm.trans hin),
      fun hin => Bool.noConfusion (htask.symm.trans hin), hrunning, fun _ => hacked, nofun⟩
  | set =>
    rw [hc] at hst
    have hacked := h.acked (Or.inr (Or.inr hc))
    cases hst
    have hcaller : s.caller.inside = true := hc ▸ rfl
    exact ⟨fun hin => Bool.noConfusion ((h.frame hin).2.symm.trans hcaller),
      fun hin => Bool.noConfusion ((h.task hin).symm.trans hcaller), rfl, fun _ => hacked, nofun⟩
  | join =>
    rw [hc] at hst hrunning
    have hacked := h.acked (Or.inl (hc ▸ rfl))
    dsimp only at hst
    split_ifs at hst
    cases hst
    exact ⟨fun hin => ⟨(h.frame hin).1, rfl⟩, fun _ => rfl, hrunning, fun _ => hacked, nofun⟩
  | exit | stopTask | clear =>
    rw [hc] at hst hrunning
    have hacked := h.acked (Or.inl (hc ▸ rfl))
    cases hst
    exact ⟨fun hin => ⟨(h.frame hin).1, rfl⟩, fun _ => rfl, hrunning, fun _ => hacked, nofun⟩
  | done =>
    rw [hc] at hst
    cases hst

theorem Inv.step (h : Inv s) (hst : Display.step l s = some t) : Inv t := by
  obtain rfl | rfl | rfl | ⟨pc, datagrams, ackRead, hpc, rfl⟩ := step_cases hst
  · exact h.frameStep hst
  · exact h.taskStep hst
  · exact h.stopStep hst
  · refine h.moved (fun hin => ?_) datagrams ackRead
    obtain rfl | ⟨-, hout⟩ := hpc
    · exact hin
    · exact Bool.noConfusion (hout.symm.trans hin)

theorem Inv.init : Inv {} :=
  ⟨nofun, nofun, rfl, fun hor => absurd hor (by decide), fun _ => rfl⟩

theorem Inv.reach {ok : Label → Display → Prop} (h : Reach Display.step ok {} s) : Inv s :=
  h.invariant .init fun _ _ _ hi _ hst => hi.step hst

/-! ### Stopping in time -/

/-- Once `running` is cleared, the `FrameThread` is on its way to the end or about to be
notified. -/
def Awake (s : Display) : Prop :=
  s.running = false → s.frame.leaves = true ∨ (s.frame.waits = true ∧ s.task.wakes = true)

theorem Awake.frameStep (h : Awake s) (hst : step .frame s = some t) : Awake t := by
  obtain ⟨pc, hpc, rfl⟩ := Option.map_eq_some_iff.mp hst
  intro hrun
  change s.running = false at hrun
  rw [hrun] at hpc
  rcases h hrun with hleaves | ⟨hwaits, -⟩
  · exact Or.inl (DrawPc.leaves_next hpc hleaves)
  · rw [DrawPc.next_of_waits hwaits] at hpc
    cases hpc

theorem Awake.taskStep (h : Awake s) (hst : step .task s = some t) : Awake t := by
  obtain ⟨pc, hpc, rfl⟩ := Option.map_eq_some_iff.mp hst
  intro hrun
  rcases h hrun with hleaves | ⟨hwaits, hwakes⟩
  · refine Or.inl ?_
    dsimp only
    split_ifs
    · exact DrawPc.leaves_notified (by rw [hleaves, Bool.true_or])
    · exact hleaves
  · rcases ReadyPc.wakes_iff.mp hwakes with htask | htask
    · rw [htask] at hpc
      cases hfree : s.free
      · rw [hfree] at hpc
        cases hpc
      · rw [hfree] at hpc
        cases hpc
        refine Or.inr ⟨?_, rfl⟩
        rw [htask, if_neg (by decide)]
        exact hwaits
    · refine Or.inl ?_
      rw [if_pos htask]
      exact DrawPc.leaves_notified (by rw [hwaits, Bool.or_true])

theorem Awake.stopStep (hi : Inv s) (h : Awake s) (hok : InTime .stop s)
    (hst : Display.stopStep s = some t) : Awake t := by
  rw [Display.stopStep] at hst
  cases hc : s.caller with
  | set =>
    rw [hc] at hst
    cases hst
    intro _
    obtain ⟨hbegin, hwakes⟩ := hok hc
    have hin : s.frame.inside = false := by
      refine Bool.eq_false_iff.mpr fun hin => ?_
      have hcaller := (hi.frame hin).2
      rw [hc] at hcaller
      cases hcaller
    cases hwaits : s.frame.waits with
    | false => exact Or.inl (DrawPc.leaves_of_awake hbegin hin hwaits)
    | true => exact Or.inr ⟨rfl, ReadyPc.wakes_iff.mpr (Or.inl (hwakes hwaits))⟩
  | enter | join =>
    rw [hc] at hst
    dsimp only at hst
    split_ifs at hst
    cases hst
    exact h
  | before | write | exit | stopTask | clear =>
    rw [hc] at hst
    cases hst
    exact h
  | done =>
    rw [hc] at hst
    cases hst

theorem Awake.step (hi : Inv s) (h : Awake s) (hok : InTime l s)
    (hst : Display.step l s = some t) : Awake t := by
  obtain rfl | rfl | rfl | ⟨pc, datagrams, ackRead, hpc, rfl⟩ := step_cases hst
  · exact h.frameStep hst
  · exact h.taskStep hst
  · exact h.stopStep hi hok hst
  · intro hrun
    refine (h hrun).imp_right fun hw => ⟨hw.1, ?_⟩
    -- a task that was about to notify has not moved
    obtain rfl | ⟨hwakes, -⟩ := hpc
    · exact hw.2
    · exact Bool.noConfusion (hwakes.symm.trans hw.2)

theorem Awake.reach (h : Reach Display.step InTime {} s) : Awake s :=
  (h.invariant (I := fun s => Inv s ∧ Awake s) ⟨.init, nofun⟩ fun _ _ _ hi hok hst =>
    ⟨hi.1.step hst, hi.2.step hi.1 hok hst⟩).2

theorem exists_woken (hwaits : s.frame.waits = true) (hwakes : s.task.wakes = true)
    (hcaller : s.caller = .join) : ∃ t, Reach step Any s t ∧ t.frame.waits = false := by
  have hnotify : ∀ u : Display, u.frame.waits = true → u.task = .notify →
      ∃ t, Reach step Any u t ∧ t.frame.waits = false := by
    intro u hu htask
    refine ⟨_, .tail (l := .task) .refl trivial (by rw [step, htask]; rfl), ?_⟩
    dsimp only
    rw [if_pos rfl]
    exact DrawPc.not_waits (DrawPc.leaves_notified (by rw [hu, Bool.or_true]))
  rcases ReadyPc.wakes_iff.mp hwakes with htask | htask
  · have hfree : s.free = true := by
      rw [free_iff, hcaller, htask]
      exact ⟨DrawPc.not_inside hwaits, rfl, rfl⟩
    have hst : step .task s = some { s with task := .notify } := by
      rw [step, htask, hfree]
      rfl
    obtain ⟨t, ht, hawake⟩ := hnotify { s with task := .notify } hwaits rfl
    exact ⟨t, (Reach.tail .refl trivial hst).trans ht, hawake⟩
  · exact hnotify s hwaits htask

theorem Awake.not_hangs (hi : Inv s) (h : Awake s) : ¬ s.Hangs := by
  rintro ⟨hcaller, hall⟩
  have hrun : s.running = false := by
    rw [hi.running, hcaller]
    rfl
  rcases h hrun with hleaves | ⟨hwaits, hwakes⟩
  · exact Bool.noConfusion ((DrawPc.not_waits hleaves).symm.trans (hall s .refl))
  · obtain ⟨t, ht, hawake⟩ := exists_woken hwaits hwakes hcaller
    exact Bool.noConfusion (hawake.symm.trans (hall t ht))

/-! ### Stopping too early or too late -/

/-- The `FrameThread` waits, nothing is on the way and nobody is about to notify. -/
structure Dead (s : Display) : Prop where
  caller : s.caller = .join
  waits : s.frame.waits = true
  datagrams : s.datagrams = []
  ackRead : s.ackRead = true
  wakes : s.task.wakes = false

theorem Dead.taskStep (h : Dead s) (hst : step .task s = some t) : Dead t := by
  obtain ⟨pc, hpc, rfl⟩ := Option.map_eq_some_iff.mp hst
  have hnotify : s.task ≠ .notify := fun heq => by
    have := h.wakes
    rw [heq] at this
    cases this
  refine ⟨h.caller, ?_, h.datagrams, h.ackRead, ReadyPc.wakes_next hpc h.wakes⟩
  rw [if_neg hnotify]
  exact h.waits

theorem Dead.step (h : Dead s) (hst : Display.step l s = some t) : Dead t := by
  cases l with
  | frame =>
    rw [Display.step, DrawPc.next_of_waits h.waits] at hst
    cases hst
  | task => exact h.taskStep hst
  | timeout =>
    simp only [Display.step] at hst
    split_ifs at hst
    cases hst
    exact ⟨h.caller, h.waits, h.datagrams, h.ackRead, rfl⟩
  | receive =>
    simp only [Display.step, h.datagrams] at hst
    split at hst
    · cases hst
      rename_i hcons
      cases hcons
    · cases hst
  | stop =>
    have hframe : s.frame ≠ .done := fun heq => by
      have := h.waits
      rw [heq] at this
      cases this
    simp only [Display.step, Display.stopStep, h.caller, if_neg hframe] at hst
    cases hst
  | send last =>
    simp only [Display.step, h.ackRead, if_true] at hst
    cases hst
  | lose =>
    simp only [Display.step, h.datagrams] at hst
    cases hst
  | readAck =>
    simp only [Display.step] at hst
    split_ifs at hst
    cases hst
    exact ⟨h.caller, h.waits, h.datagrams, rfl, h.wakes⟩

theorem Dead.hangs (h : Dead s) : s.Hangs :=
  ⟨h.caller, fun _ ht => (ht.invariant h fun _ _ _ hd _ hst => hd.step hst).waits⟩

theorem reach_lost (s : Display) : Reach step Any s { s with datagrams := [] } := by
  cases hl : s.datagrams with
  | nil =>
    rw [← hl]
    exact .refl
  | cons last rest =>
    have hst : step .lose s = some { s with datagrams := rest } := by
      simp only [step, hl]
    have hrest := reach_lost { s with datagrams := rest }
    exact (Reach.tail .refl trivial hst).trans hrest
  termination_by s.datagrams.length
  decreasing_by simp [hl]

theorem reach_firstWaiting (hframe : s.frame = .begin) (hfree : s.free = true) :
    Reach step Any s { s with frame := .firstWaiting } := by
  have hbegin : step .frame s = some { s with frame := .firstWait } := by
    rw [step, hframe, hfree]
    rfl
  exact .tail (l := .frame) (.tail .refl trivial hbegin) trivial rfl

/-- A `ready` that comes before the `FrameThread` has begun notifies nobody. -/
theorem reach_readyWaiting (htask : s.task = .enter) (hframe : s.frame = .begin)
    (hfree : s.free = true) : Reach step Any s { s with task := .waiting } := by
  have henter : step .task s = some { s with task := .notify } := by
    rw [step, htask, hfree]
    rfl
  have hnotify : step .task { s with task := .notify } = some { s with task := .wait } := by
    simp only [step, hframe]
    rfl
  exact .tail (l := .task) (.tail (.tail .refl trivial henter) trivial hnotify) trivial rfl

/-- The `FrameThread` can come to wait where nothing wakes it, if it has not begun. -/
theorem exists_dead_of_begin (hcaller : s.caller = .join) (hframe : s.frame = .begin)
    (htask : s.task.inside = false) (hd : s.datagrams = []) (hack : s.ackRead = true) :
    ∃ t, Reach step Any s t ∧ Dead t := by
  have hfree : s.free = true := by
    rw [free_iff, hcaller, hframe]
    exact ⟨rfl, htask, rfl⟩
  cases hwakes : s.task.wakes with
  | false => exact ⟨_, reach_firstWaiting hframe hfree, hcaller, rfl, hd, hack, hwakes⟩
  | true =>
    have henter : s.task = .enter := by
      rcases ReadyPc.wakes_iff.mp hwakes with h | h
      · exact h
      · rw [h] at htask
        cases htask
    have hready := reach_readyWaiting henter hframe hfree
    have hfree' : free { s with task := .waiting } = true := by
      rw [free_iff] at hfree ⊢
      exact ⟨hfree.1, rfl, hfree.2.2⟩
    exact ⟨_, hready.trans (reach_firstWaiting hframe hfree'), hcaller, rfl, hd, hack, rfl⟩

/-- **Where `running` is cleared at another moment, the caller can hang.** -/
theorem exists_hangs (hi : Inv s) (hcaller : s.caller = .set) (hst : step .stop s = some t)
    (hnot : ¬ s.Wakeable) : ∃ u, Reach step Any t u ∧ u.Hangs := by
  simp only [step, Display.stopStep, hcaller] at hst
  cases hst
  have hacked := hi.acked (Or.inr (Or.inr hcaller))
  have hinside : s.task.inside = false := by
    refine Bool.eq_false_iff.mpr fun hin => ?_
    have := hi.task hin
    rw [hcaller] at this
    cases this
  have hjoin : Reach step Any { s with running := false, caller := .exit }
      { s with running := false, caller := .join, datagrams := [], ackRead := true } := by
    refine .tail (l := .readAck) ((Reach.tail (l := .stop) .refl trivial rfl).trans
      (reach_lost _)) trivial ?_
    simp only [step, hacked, if_true]
  suffices hdead : ∃ u, Reach step Any
      { s with running := false, caller := .join, datagrams := [], ackRead := true } u ∧ Dead u by
    obtain ⟨u, hu, hd⟩ := hdead
    exact ⟨u, hjoin.trans hu, hd.hangs⟩
  by_cases hwaits : s.frame.waits = true
  · refine ⟨_, .refl, rfl, hwaits, rfl, rfl, Bool.eq_false_iff.mpr fun hwakes => ?_⟩
    rcases ReadyPc.wakes_iff.mp hwakes with htask | htask
    · refine hnot ⟨fun heq => ?_, fun _ => htask⟩
      rw [heq] at hwaits
      cases hwaits
    · change s.task = .notify at htask
      rw [htask] at hinside
      cases hinside
  · have hbegin : s.frame = .begin :=
      not_not.mp fun hne => hnot ⟨hne, fun hw => absurd hw hwaits⟩
    exact exists_dead_of_begin rfl hbegin hinside rfl rfl

/-! ### The run as a whole -/

theorem cleared_stopStep (h : s.caller.cleared = true) (hst : s.stopStep = some t) :
    t.caller.cleared = true := by
  rw [Display.stopStep] at hst
  cases hc : s.caller with
  | exit | stopTask | clear =>
    rw [hc] at hst
    cases hst
    rfl
  | join =>
    rw [hc] at hst
    dsimp only at hst
    split_ifs at hst
    cases hst
    rfl
  | done =>
    rw [hc] at hst
    cases hst
  | before | write | enter | set =>
    rw [hc] at h
    cases h

theorem cleared_step (h : s.caller.cleared = true) (hst : step l s = some t) :
    t.caller.cleared = true := by
  obtain rfl | rfl | rfl | ⟨pc, datagrams, ackRead, -, rfl⟩ := step_cases hst
  · obtain ⟨pc, -, rfl⟩ := Option.map_eq_some_iff.mp hst
    exact h
  · obtain ⟨pc, -, rfl⟩ := Option.map_eq_some_iff.mp hst
    exact h
  · exact cleared_stopStep h hst
  · exact h

/-- **Where `running` is cleared in time, the caller does not hang.** -/
theorem not_hangs_after (hi : Inv s) (hcaller : s.caller = .set) (hst : step .stop s = some t)
    (hw : s.Wakeable) : ∀ u, Reach step Any t u → ¬ u.Hangs := by
  have hnot : Awake s := fun hrun => by
    rw [hi.running, hcaller] at hrun
    cases hrun
  have hcleared : t.caller.cleared = true := by
    simp only [step, Display.stopStep, hcaller] at hst
    cases hst
    rfl
  intro u hu
  have hinv := hu.invariant (I := fun u => Inv u ∧ Awake u ∧ u.caller.cleared = true)
    ⟨hi.step hst, hnot.stopStep hi (fun _ => hw) hst, hcleared⟩ fun v w l hv _ hvw => by
      have hok : InTime l v := by
        cases l with
        | stop =>
          intro hset
          have := hv.2.2
          rw [hset] at this
          cases this
        | _ => trivial
      exact ⟨hv.1.step hvw, hv.2.1.step hv.1 hok hvw, cleared_step hv.2.2 hvw⟩
  exact hinv.2.1.not_hangs hinv.1

/-- **Stopping the display.**  A caller that always clears `running` in time never hangs; and
each time `running` is cleared, nothing that may come after it makes the caller hang exactly if
it was in time. -/
theorem not_hangs_iff_wakeable (h : Reach step InTime {} s) :
    ¬ s.Hangs ∧ ∀ u t, Reach step Any {} u → u.caller = .set → step .stop u = some t →
      ((∀ v, Reach step Any t v → ¬ v.Hangs) ↔ u.Wakeable) := by
  refine ⟨(Awake.reach h).not_hangs (.reach h), fun u t hu hcaller hst =>
    ⟨fun hall => ?_, not_hangs_after (.reach hu) hcaller hst⟩⟩
  by_contra hnot
  obtain ⟨v, hv, hhangs⟩ := exists_hangs (.reach hu) hcaller hst hnot
  exact hall v hv hhangs

/-- `FrameThread` and `FrameTask` up to the end of the first frame. -/
def firstFrame : List Label :=
  [.frame, .frame, .task, .task, .send true, .receive, .task, .task, .task, .frame, .frame, .frame,
    .frame, .frame, .frame, .frame, .frame, .frame, .task, .task, .task]

/-- `stop` while the last datagram of the second frame has just come. -/
theorem not_hangs_stopped : ∃ s, Reach step InTime {} s ∧ s.caller = .done ∧ ¬ s.Hangs := by
  obtain ⟨s, hs, hdone⟩ := Reach.exists_of_run (f := Display.caller) (a := .done)
    (show (run (fun l s => if InTime l s then step l s else none)
      (firstFrame ++ [.send true, .receive, .stop, .stop, .stop, .stop, .stop, .task, .task, .task,
        .frame, .frame, .frame, .stop, .stop, .stop]) {}).map Display.caller = some .done by
      decide +kernel)
  exact ⟨s, hs, hdone, (not_hangs_iff_wakeable hs).1⟩

/-- `stop` between two frames. -/
theorem hangs_between_frames : ¬ ∀ s, Reach step Any {} s → ¬ s.Hangs := by
  intro hall
  obtain ⟨s, hs, hf⟩ := Reach.exists_of_run
    (f := fun s : Display => (s.caller, s.frame, s.datagrams, s.ackRead, s.task))
    (a := (.join, .waiting, [], true, .receive))
    (show (run (fun l s => if Any l s then step l s else none)
      (firstFrame ++ [.stop, .stop, .stop, .stop, .stop, .readAck]) {}).map _ = some _ by
      decide +kernel)
  simp only [Prod.mk.injEq] at hf
  obtain ⟨hcaller, hframe, hd, hack, htask⟩ := hf
  exact hall s hs (Dead.hangs ⟨hcaller, hframe ▸ rfl, hd, hack, htask ▸ rfl⟩)

end Display

end MikaAudio.Client
