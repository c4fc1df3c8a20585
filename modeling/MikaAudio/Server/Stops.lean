import MikaAudio.Server.Isolation

/-!
# Stopping the tasks of a session

`stop()` clears the flag of a task, and `run()` sets it before the first test.  A thread that
was started and comes to `run()` only after `stop()` therefore undoes it, and nobody stops it
again.  This file puts the loops of both tasks on the server's threads (`Stops`) and proves
that a stop lasts when it is called on a task that has no thread still to begin, and no thread
is started for a task already stopped (`InTime`); a call at any other time can be undone.
-/

namespace MikaAudio.Server

open Thread
open Interleave

/-! ### Which task an operation starts or stops -/

/-- A `FrameTask` or an `InputTask`, by its number. -/
inductive TaskId
  | frame (i : Nat)
  | input (i : Nat)
  deriving DecidableEq

/-- The flag of a task and its threads that are still to begin. -/
def FrameModule.task (fm : FrameModule) : TaskId → Option Task
  | .frame i => fm.frameTasks[i]?.map (·.task)
  | .input i => fm.inputTasks[i]?.map (·.task)

/-- The value of `running` in a task. -/
def FrameModule.running (fm : FrameModule) (id : TaskId) : Bool :=
  match fm.task id with
  | some t => t.running
  | none => false

/-- The task in the field `frameTask`. -/
def FrameModule.frameId (fm : FrameModule) : Option TaskId :=
  fm.frameTask.bind fun i => fm.frameTasks[i]?.map fun _ => .frame i

/-- The task in the field `inputTask`. -/
def FrameModule.inputId (fm : FrameModule) : Option TaskId :=
  fm.inputTask.bind fun i => fm.inputTasks[i]?.map fun _ => .input i

/-- The task whose thread an operation starts. -/
def TaskPc.starts (fm : FrameModule) : TaskPc → Option TaskId
  | .frame .startFrameTask => fm.frameId
  | .frame .startInputTask => fm.inputId
  | _ => none

/-- The task whose `stop()` an operation calls. -/
def TaskPc.stops (fm : FrameModule) : TaskPc → Option TaskId
  | .frame .stopFrameTask => fm.frameId
  | .frame .stopInputTask => fm.inputId
  | .frame .catchFrameTask => fm.frameId
  | .frame .catchInputTask => fm.inputId
  | _ => none

section Task

variable {fm fm' : FrameModule} {id : TaskId} {c : Nat} {pc pc' : TaskPc}

theorem FrameModule.running_eq {t : Task} (h : fm.task id = some t) :
    fm.running id = t.running := by
  rw [running, h]

theorem FrameModule.task_onFrameTask (f : Task → Task) :
    (fm.onFrameTask f).task id =
      if fm.frameId = some id then (fm.task id).map f else fm.task id := by
  cases hf : fm.frameTask with
  | none => simp [onFrameTask, frameId, hf]
  | some i =>
    cases id with
    | input j => simp [onFrameTask, frameId, hf, task]
    | frame j =>
      by_cases hij : i = j
      · cases hj : fm.frameTasks[j]?
        · simp [onFrameTask, frameId, hf, task, hij, hj]
        · simp [onFrameTask, frameId, hf, task, hij, hj]
      · simp [onFrameTask, frameId, hf, task, hij]

theorem FrameModule.task_onInputTask (f : Task → Task) :
    (fm.onInputTask f).task id =
      if fm.inputId = some id then (fm.task id).map f else fm.task id := by
  cases hf : fm.inputTask with
  | none => simp [onInputTask, inputId, hf]
  | some i =>
    cases id with
    | frame j => simp [onInputTask, inputId, hf, task]
    | input j =>
      by_cases hij : i = j
      · cases hj : fm.inputTasks[j]?
        · simp [onInputTask, inputId, hf, task, hij, hj]
        · simp [onInputTask, inputId, hf, task, hij, hj]
      · simp [onInputTask, inputId, hf, task, hij]

theorem FrameModule.exists_of_frameId (h : fm.frameId = some id) : ∃ t, fm.task id = some t := by
  obtain ⟨i, _, hi⟩ := Option.bind_eq_some_iff.mp h
  obtain ⟨t, ht, rfl⟩ := Option.map_eq_some_iff.mp hi
  exact ⟨t.task, by rw [FrameModule.task, ht]; rfl⟩

theorem FrameModule.exists_of_inputId (h : fm.inputId = some id) : ∃ t, fm.task id = some t := by
  obtain ⟨i, _, hi⟩ := Option.bind_eq_some_iff.mp h
  obtain ⟨t, ht, rfl⟩ := Option.map_eq_some_iff.mp hi
  exact ⟨t.task, by rw [FrameModule.task, ht]; rfl⟩

theorem TaskPc.exists_of_starts (h : pc.starts fm = some id) : ∃ t, fm.task id = some t := by
  unfold TaskPc.starts at h
  split at h
  · exact FrameModule.exists_of_frameId h
  · exact FrameModule.exists_of_inputId h
  · cases h

theorem TaskPc.exists_of_stops (h : pc.stops fm = some id) : ∃ t, fm.task id = some t := by
  unfold TaskPc.stops at h
  split at h
  · exact FrameModule.exists_of_frameId h
  · exact FrameModule.exists_of_inputId h
  · exact FrameModule.exists_of_frameId h
  · exact FrameModule.exists_of_inputId h
  · cases h

/-! ### What an operation does to a task -/

section Append

variable {α : Type} {get : α → Task} {ts : List α} {i : Nat} {t : Task}

theorem append_of_exists (a : α) (h : ts[i]?.map get = some t) :
    (ts ++ [a])[i]?.map get = some t := by
  obtain ⟨b, hb, rfl⟩ := Option.map_eq_some_iff.mp h
  rw [List.getElem?_append_left (List.getElem?_eq_some_iff.mp hb).1, hb]
  rfl

theorem exists_of_append {a : α} (h : (ts ++ [a])[i]?.map get = some t) :
    t = get a ∨ ts[i]?.map get = some t := by
  rw [List.getElem?_append] at h
  split_ifs at h
  · exact Or.inr h
  · obtain ⟨b, hb, rfl⟩ := Option.map_eq_some_iff.mp h
    obtain rfl := List.mem_singleton.mp (List.mem_of_getElem? hb)
    exact Or.inl rfl

end Append

theorem Fields.task (h : Fields c fm pc fm' pc') {t' : Task} (ht : fm'.task id = some t') :
    t' = {} ∨ ∃ t, fm.task id = some t ∧
      (t' = t ∨ pc.starts fm = some id ∧ t' = t.start ∨ pc.stops fm = some id ∧ t' = t.stop) := by
  have hsame : ∀ {f : Task → Task} {p : Prop} [Decidable p],
      (if p then (fm.task id).map f else fm.task id) = some t' →
        ∃ t, fm.task id = some t ∧ (t' = t ∨ p ∧ t' = f t) := by
    intro f p _ h
    split_ifs at h with hp
    · obtain ⟨t, hold, hf⟩ := Option.map_eq_some_iff.mp h
      exact ⟨t, hold, Or.inr ⟨hp, hf.symm⟩⟩
    · exact ⟨t', h, Or.inl rfl⟩
  cases h with
  | quiet | setInputModule | newInputSocket => exact Or.inr ⟨t', ht, Or.inl rfl⟩
  | newFrameTask p =>
    cases id with
    | input i => exact Or.inr ⟨t', ht, Or.inl rfl⟩
    | frame i => exact (exists_of_append ht).imp_right fun ht => ⟨t', ht, Or.inl rfl⟩
  | newInputTask =>
    cases id with
    | frame i => exact Or.inr ⟨t', ht, Or.inl rfl⟩
    | input i => exact (exists_of_append ht).imp_right fun ht => ⟨t', ht, Or.inl rfl⟩
  | startFrameTask =>
    rw [FrameModule.task_onFrameTask] at ht
    obtain ⟨t, ht, h⟩ := hsame ht
    exact Or.inr ⟨t, ht, h.imp_right Or.inl⟩
  | startInputTask =>
    rw [FrameModule.task_onInputTask] at ht
    obtain ⟨t, ht, h⟩ := hsame ht
    exact Or.inr ⟨t, ht, h.imp_right Or.inl⟩
  | stopFrameTask | catchFrameTask =>
    rw [FrameModule.task_onFrameTask] at ht
    obtain ⟨t, ht, h⟩ := hsame ht
    exact Or.inr ⟨t, ht, h.imp_right Or.inr⟩
  | stopInputTask | catchInputTask =>
    rw [FrameModule.task_onInputTask] at ht
    obtain ⟨t, ht, h⟩ := hsame ht
    exact Or.inr ⟨t, ht, h.imp_right Or.inr⟩

theorem Fields.exists_task (h : Fields c fm pc fm' pc') (ht : ∃ t, fm.task id = some t) :
    ∃ t, fm'.task id = some t := by
  obtain ⟨t, ht⟩ := ht
  have hsome : ∀ {f : Task → Task} {p : Prop} [Decidable p],
      ∃ t', (if p then (fm.task id).map f else fm.task id) = some t' := by
    intro f p _
    rw [ht]
    split_ifs
    · exact ⟨f t, rfl⟩
    · exact ⟨t, rfl⟩
  cases h with
  | quiet | setInputModule | newInputSocket => exact ⟨t, ht⟩
  | newFrameTask p =>
    cases id with
    | input i => exact ⟨t, ht⟩
    | frame i => exact ⟨t, append_of_exists _ ht⟩
  | newInputTask =>
    cases id with
    | frame i => exact ⟨t, ht⟩
    | input i => exact ⟨t, append_of_exists _ ht⟩
  | startFrameTask | stopFrameTask | catchFrameTask =>
    rw [FrameModule.task_onFrameTask]
    exact hsome
  | startInputTask | stopInputTask | catchInputTask =>
    rw [FrameModule.task_onInputTask]
    exact hsome

variable {r : Reply Env} {m m' : Memory}

theorem task_of_starts (h : (taskOp c pc).exec r m = some (m', pc'))
    (hid : pc.starts m.frame = some id) :
    m'.frame.task id = (m.frame.task id).map Task.start := by
  unfold TaskPc.starts at hid
  split at hid
  · obtain ⟨_, rfl, hf⟩ := Op.exec_act h
    cases hf
    exact (FrameModule.task_onFrameTask _).trans (if_pos hid)
  · obtain ⟨_, rfl, hf⟩ := Op.exec_act h
    cases hf
    exact (FrameModule.task_onInputTask _).trans (if_pos hid)
  · cases hid

theorem task_of_stops (h : (taskOp c pc).exec r m = some (m', pc'))
    (hid : pc.stops m.frame = some id) :
    m'.frame.task id = (m.frame.task id).map Task.stop := by
  unfold TaskPc.stops at hid
  split at hid
  · obtain ⟨_, rfl, hf⟩ := Op.exec_act h
    cases hf
    exact (FrameModule.task_onFrameTask _).trans (if_pos hid)
  · obtain ⟨_, rfl, hf⟩ := Op.exec_act h
    cases hf
    exact (FrameModule.task_onInputTask _).trans (if_pos hid)
  · obtain ⟨_, rfl, hf⟩ := Op.exec_act h
    cases hf
    exact (FrameModule.task_onFrameTask _).trans (if_pos hid)
  · obtain ⟨_, rfl, hf⟩ := Op.exec_act h
    cases hf
    exact (FrameModule.task_onInputTask _).trans (if_pos hid)
  · cases hid

theorem FrameModule.task_beginFrameTask {i : Nat} (h : fm.beginFrameTask i = some fm') :
    ∃ t t', fm.task (.frame i) = some t ∧ t.begin = some t' ∧
      ∀ id, fm'.task id = if id = .frame i then some t' else fm.task id := by
  obtain ⟨u, u', hu, hbegin, rfl⟩ := beginFrameTask_cases h
  have hlt := (List.getElem?_eq_some_iff.mp hu).1
  refine ⟨u.task, u', by rw [task, hu]; rfl, hbegin, fun id => ?_⟩
  cases id with
  | input j => rw [if_neg nofun]; rfl
  | frame j =>
    by_cases hij : i = j
    · subst hij
      simp [task, hlt]
    · simp [task, hij, Ne.symm hij]

theorem FrameModule.task_beginInputTask {i : Nat} (h : fm.beginInputTask i = some fm') :
    ∃ t t', fm.task (.input i) = some t ∧ t.begin = some t' ∧
      ∀ id, fm'.task id = if id = .input i then some t' else fm.task id := by
  obtain ⟨u, u', hu, hbegin, rfl⟩ := beginInputTask_cases h
  have hlt := (List.getElem?_eq_some_iff.mp hu).1
  refine ⟨u.task, u', by rw [task, hu]; rfl, hbegin, fun id => ?_⟩
  cases id with
  | frame j => rw [if_neg nofun]; rfl
  | input j =>
    by_cases hij : i = j
    · subst hij
      simp [task, hlt]
    · simp [task, hij, Ne.symm hij]

end Task

namespace Host

/-- The task a thread of which comes to `run()`. -/
def Label.begins : Label → Option TaskId
  | .beginFrameTask i => some (.frame i)
  | .beginInputTask i => some (.input i)
  | _ => none

variable {stack : Nat} {l : Label} {s t : Host} {id : TaskId}

theorem step_begins (h : step stack l s = some t) (hl : l.begins = some id) :
    ∃ u u', s.memory.frame.task id = some u ∧ u.begin = some u' ∧
      ∀ j, t.memory.frame.task j = if j = id then some u' else s.memory.frame.task j := by
  cases l with
  | beginFrameTask i =>
    obtain rfl := Option.some.inj hl
    obtain ⟨fm, hfm, rfl⟩ := Option.map_eq_some_iff.mp h
    exact FrameModule.task_beginFrameTask hfm
  | beginInputTask i =>
    obtain rfl := Option.some.inj hl
    obtain ⟨fm, hfm, rfl⟩ := Option.map_eq_some_iff.mp h
    exact FrameModule.task_beginInputTask hfm
  | _ => cases hl

theorem exists_begin (stack : Nat) {u : Task} (h : s.memory.frame.task id = some u)
    (hu : u.pending ≠ 0) :
    ∃ l t, l.begins = some id ∧ step stack l s = some t ∧ t.memory.frame.running id = true := by
  have hbegin : u.begin = some ⟨u.pending - 1, true⟩ := if_neg hu
  have hrunning : ∀ {l t}, l.begins = some id → step stack l s = some t →
      t.memory.frame.running id = true := by
    intro l t hl ht
    obtain ⟨v, v', hv, hv', hall⟩ := step_begins ht hl
    obtain rfl : u = v := Option.some.inj (h.symm.trans hv)
    obtain rfl := Option.some.inj (hbegin.symm.trans hv')
    exact FrameModule.running_eq ((hall id).trans (if_pos rfl))
  cases id with
  | frame i =>
    obtain ⟨ft, hft, rfl⟩ := Option.map_eq_some_iff.mp h
    obtain ⟨fm, hfm⟩ : ∃ fm, s.memory.frame.beginFrameTask i = some fm :=
      ⟨_, by simp [FrameModule.beginFrameTask, hft, hbegin]; rfl⟩
    have ht : step stack (.beginFrameTask i) s = some (s.onFrame fm) := congrArg (Option.map _) hfm
    exact ⟨.beginFrameTask i, _, rfl, ht, hrunning rfl ht⟩
  | input i =>
    obtain ⟨it, hit, rfl⟩ := Option.map_eq_some_iff.mp h
    obtain ⟨fm, hfm⟩ : ∃ fm, s.memory.frame.beginInputTask i = some fm :=
      ⟨_, by simp [FrameModule.beginInputTask, hit, hbegin]; rfl⟩
    have ht : step stack (.beginInputTask i) s = some (s.onFrame fm) := congrArg (Option.map _) hfm
    exact ⟨.beginInputTask i, _, rfl, ht, hrunning rfl ht⟩

theorem task_of_step (h : step stack l s = some t) (hl : l.begins = none)
    (htask : ∀ c r, l ≠ .task c r) : t.memory.frame.task id = s.memory.frame.task id := by
  cases l with
  | accept d =>
    rw [step] at h
    split_ifs at h
    cases h
    rfl
  | task c r => exact absurd rfl (htask c r)
  | beginFrameTask i | beginInputTask i => cases hl
  | updateFrame i =>
    obtain ⟨ft, _, rfl⟩ := Option.map_eq_some_iff.mp h
    rfl
  | destroy =>
    obtain rfl := Option.some.inj h
    show s.memory.frame.stop.task id = _
    unfold FrameModule.stop
    split_ifs
    · rfl
    · rfl
  | stop c | close c =>
    obtain rfl := Option.some.inj h
    rfl

end Host

/-! ### The threads of the tasks -/

/-- Where a thread of a task stands in `run()`. -/
inductive LoopPc
  /-- `while (running)`. -/
  | test
  /-- `updateFrame(screenPtr, frame)`, or `socket.receive(packet)`. -/
  | capture
  /-- The packets are sent, or the motion event is dispatched. -/
  | deliver
  /-- `run` has returned. -/
  | done
  deriving DecidableEq

/-- A thread that has come to `run()`.  The counts are of what it has done since `stop()` was
called on its task: rounds begun, frames or datagrams taken, frames sent or motion events
dispatched.  The program does not keep them. -/
structure Worker where
  task : TaskId
  pc : LoopPc := .test
  begun : Nat := 0
  captured : Nat := 0
  delivered : Nat := 0
  deriving DecidableEq

/-- Where the thread goes on when there is no new frame, or when a packet is not sent; an
exception ends the loop of an `InputTask`. -/
def TaskId.missed : TaskId → LoopPc
  | .frame _ => .test
  | .input _ => .done

/-- The next operation of the thread, with the flag it reads and `ok` for whether there is a
frame or a datagram and whether it goes out.  `late` is that the task was stopped. -/
def Worker.step (running ok late : Bool) (w : Worker) : Option Worker :=
  match w.pc with
  | .test =>
    if running then some { w with pc := .capture, begun := w.begun + late.toNat }
    else some { w with pc := .done }
  | .capture =>
    some { w with
      pc := if ok then .deliver else w.task.missed
      captured := w.captured + late.toNat }
  | .deliver =>
    some { w with
      pc := if ok then .test else w.task.missed
      delivered := w.delivered + late.toNat }
  | .done => none

/-- The server with the threads of its tasks, and the tasks on which `stop()` was called, which
the program does not keep. -/
structure Stops where
  host : Host := {}
  workers : List Worker := []
  stopped : List TaskId := []

namespace Stops

/-- Who moves. -/
inductive Label
  /-- A connection, a thread that begins, or the manager. -/
  | host (l : Host.Label)
  /-- The `n`-th thread of a task. -/
  | worker (n : Nat) (ok : Bool)

/-- The task whose `stop()` is called. -/
def calls (s : Stops) : Host.Label → Option TaskId
  | .task c _ => (s.host.tasks c).stops s.host.memory.frame
  | _ => none

/-- The host after the operation of a thread: a frame task calls `updateFrame`. -/
def afterWorker (stack : Nat) (w : Worker) (s : Host) : Option Host :=
  match w.pc, w.task with
  | .capture, .frame i => s.step stack (.updateFrame i)
  | _, _ => some s

/-- One step of one thread. -/
def step (stack : Nat) (l : Label) (s : Stops) : Option Stops :=
  match l with
  | .host (.updateFrame _) => none
  | .host l => (s.host.step stack l).map fun host =>
    { host
      workers := s.workers ++ l.begins.toList.map fun task => { task }
      stopped := (s.calls l).toList ++ s.stopped }
  | .worker n ok => do
    let w ← s.workers[n]?
    let w' ← w.step (s.host.memory.frame.running w.task) ok (decide (w.task ∈ s.stopped))
    let host ← afterWorker stack w s.host
    return { s with host, workers := s.workers.set n w' }

/-- A task that was stopped does not run, and each of its threads at most ends the round it
was in. -/
structure Quiet (s : Stops) : Prop where
  running : ∀ id ∈ s.stopped, s.host.memory.frame.running id = false
  begun : ∀ w ∈ s.workers, w.begun = 0
  captured : ∀ w ∈ s.workers, w.captured ≤ 1
  delivered : ∀ w ∈ s.workers, w.delivered ≤ 1

/-- `stop()` is called on a task only when each of its started threads has come to `run()`,
and no thread is started for a task that was stopped. -/
def InTime : Label → Stops → Prop
  | .host (.task c _), s =>
    (∀ id ∈ (s.host.tasks c).stops s.host.memory.frame,
      ∀ t ∈ s.host.memory.frame.task id, t.pending = 0) ∧
    ∀ id ∈ (s.host.tasks c).starts s.host.memory.frame, id ∉ s.stopped
  | _, _ => True

instance (l : Label) (s : Stops) : Decidable (InTime l s) := by
  unfold InTime
  split
  · infer_instance
  · infer_instance

end Stops

/-! ### A round that is under way -/

/-- The frames or datagrams a thread still takes in its round. -/
def LoopPc.captures : LoopPc → Nat
  | .capture => 1
  | _ => 0

/-- The frames or motion events that still go out in its round. -/
def LoopPc.deliveries : LoopPc → Nat
  | .capture => 1
  | .deliver => 1
  | _ => 0

/-- The thread has done nothing since the stop that does not belong to one round. -/
structure Worker.InRound (stopped : List TaskId) (w : Worker) : Prop where
  begun : w.begun = 0
  captured : w.captured + w.pc.captures ≤ 1
  delivered : w.delivered + w.pc.deliveries ≤ 1
  unstopped : w.task ∉ stopped → w.captured = 0 ∧ w.delivered = 0

section Worker

variable {w w' : Worker} {stopped stopped' : List TaskId} {running ok : Bool}

theorem Worker.InRound.mono (h : w.InRound stopped) (hsub : stopped ⊆ stopped') :
    w.InRound stopped' :=
  ⟨h.begun, h.captured, h.delivered, fun hw => h.unstopped fun hmem => hw (hsub hmem)⟩

theorem LoopPc.captures_le (pc : LoopPc) : pc.captures ≤ 1 := by
  cases pc with
  | _ => decide

theorem LoopPc.deliveries_le (pc : LoopPc) : pc.deliveries ≤ 1 := by
  cases pc with
  | _ => decide

theorem TaskId.captures_missed (id : TaskId) : id.missed.captures = 0 := by
  cases id
  · rfl
  · rfl

theorem TaskId.deliveries_missed (id : TaskId) : id.missed.deliveries = 0 := by
  cases id
  · rfl
  · rfl

theorem Worker.InRound.of_zero (task : TaskId) (pc : LoopPc) :
    Worker.InRound stopped ⟨task, pc, 0, 0, 0⟩ := by
  refine ⟨rfl, ?_, ?_, fun _ => ⟨rfl, rfl⟩⟩
  · exact (Nat.zero_add _).trans_le pc.captures_le
  · exact (Nat.zero_add _).trans_le pc.deliveries_le

/-- A thread that sees the flag cleared begins no round. -/
theorem Worker.InRound.step (h : w.InRound stopped) (hrunning : w.task ∈ stopped → running = false)
    (hs : w.step running ok (decide (w.task ∈ stopped)) = some w') : w'.InRound stopped := by
  obtain ⟨task, pc, begun, captured, delivered⟩ := w
  obtain ⟨hbegun, hcaptured, hdelivered, hunstopped⟩ := h
  obtain rfl : begun = 0 := hbegun
  dsimp only at hrunning hunstopped hs
  by_cases hlate : task ∈ stopped
  · rw [decide_eq_true hlate] at hs
    have hne : ∀ {p : Prop}, task ∉ stopped → p := fun hw => absurd hlate hw
    cases pc with
    | test =>
      rw [hrunning hlate] at hs
      cases hs
      exact ⟨rfl, hcaptured, hdelivered, hne⟩
    | capture =>
      obtain rfl := Option.some.inj hs
      have hc : captured + 1 ≤ 1 := hcaptured
      have hd : delivered + 1 ≤ 1 := hdelivered
      cases ok with
      | true => exact ⟨rfl, hc, hd, hne⟩
      | false =>
        refine ⟨rfl, ?_, ?_, hne⟩
        · show captured + 1 + task.missed.captures ≤ 1
          rwa [task.captures_missed]
        · show delivered + task.missed.deliveries ≤ 1
          rw [task.deliveries_missed]
          omega
    | deliver =>
      obtain rfl := Option.some.inj hs
      have hc : captured + 0 ≤ 1 := hcaptured
      have hd : delivered + 1 ≤ 1 := hdelivered
      cases ok with
      | true => exact ⟨rfl, hc, hd, hne⟩
      | false =>
        refine ⟨rfl, ?_, ?_, hne⟩
        · show captured + task.missed.captures ≤ 1
          rwa [task.captures_missed]
        · show delivered + 1 + task.missed.deliveries ≤ 1
          rwa [task.deliveries_missed]
    | done => cases hs
  · rw [decide_eq_false hlate] at hs
    obtain ⟨rfl, rfl⟩ : captured = 0 ∧ delivered = 0 := hunstopped hlate
    cases pc with
    | test =>
      rw [Worker.step] at hs
      dsimp only at hs
      split_ifs at hs
      · cases hs
        exact .of_zero task _
      · cases hs
        exact .of_zero task _
    | capture | deliver =>
      obtain rfl := Option.some.inj hs
      exact .of_zero task _
    | done => cases hs

end Worker

/-! ### Runs -/

namespace Stops

variable {stack : Nat} {l : Label} {s t : Stops}

theorem step_host_eq {l : Host.Label} (h : ∀ i, l ≠ .updateFrame i) (s : Stops) :
    step stack (.host l) s = (s.host.step stack l).map fun host =>
      { host
        workers := s.workers ++ l.begins.toList.map fun task => { task }
        stopped := (s.calls l).toList ++ s.stopped } := by
  cases l with
  | updateFrame i => exact absurd rfl (h i)
  | _ => rfl

theorem step_host {l : Host.Label} (h : step stack (.host l) s = some t) :
    ∃ host, s.host.step stack l = some host ∧ t =
      { host
        workers := s.workers ++ l.begins.toList.map fun task => { task }
        stopped := (s.calls l).toList ++ s.stopped } := by
  have hl : ∀ i, l ≠ .updateFrame i := by
    rintro i rfl
    cases h
  rw [step_host_eq hl] at h
  obtain ⟨host, hhost, rfl⟩ := Option.map_eq_some_iff.mp h
  exact ⟨host, hhost, rfl⟩

theorem step_worker {n : Nat} {ok : Bool} (h : step stack (.worker n ok) s = some t) :
    ∃ w w', s.workers[n]? = some w ∧
      w.step (s.host.memory.frame.running w.task) ok (decide (w.task ∈ s.stopped)) = some w' ∧
      t.host.memory = s.host.memory ∧ t.workers = s.workers.set n w' ∧ t.stopped = s.stopped := by
  simp only [step, Option.bind_eq_bind, Option.bind_eq_some_iff, Option.pure_def,
    Option.some.injEq] at h
  obtain ⟨w, hw, w', hw', host, hhost, rfl⟩ := h
  refine ⟨w, w', hw, hw', ?_, rfl, rfl⟩
  unfold afterWorker at hhost
  split at hhost
  · obtain ⟨ft, _, rfl⟩ := Option.map_eq_some_iff.mp hhost
    rfl
  · obtain rfl := Option.some.inj hhost
    rfl

/-- The tasks that were stopped have no thread left that could set the flag. -/
structure Kept (s : Stops) : Prop where
  idle : ∀ id ∈ s.stopped, ∃ t, s.host.memory.frame.task id = some t ∧ t.pending = 0 ∧
    t.running = false
  rounds : ∀ w ∈ s.workers, w.InRound s.stopped

theorem Kept.quiet (h : Kept s) : Quiet s := by
  refine ⟨fun id hid => ?_, fun w hw => (h.rounds w hw).begun, fun w hw => ?_, fun w hw => ?_⟩
  · obtain ⟨t, ht, _, hrunning⟩ := h.idle id hid
    rw [FrameModule.running_eq ht, hrunning]
  · exact (Nat.le_add_right _ _).trans (h.rounds w hw).captured
  · exact (Nat.le_add_right _ _).trans (h.rounds w hw).delivered

theorem Kept.idle_task {c : Nat} {r : Reply Env} {host : Host} (h : Kept s)
    (hok : InTime (.host (.task c r)) s) (hst : s.host.step stack (.task c r) = some host) :
    ∀ id ∈ (s.calls (.task c r)).toList ++ s.stopped,
      ∃ t, host.memory.frame.task id = some t ∧ t.pending = 0 ∧ t.running = false := by
  obtain ⟨_, m, pc, hexec, rfl⟩ := Host.step_task hst
  have hfields := taskOp_fields hexec
  show ∀ id ∈ _, ∃ t, m.frame.task id = some t ∧ t.pending = 0 ∧ t.running = false
  intro id hid
  rcases List.mem_append.mp hid with hid | hid
  · have hid : (s.host.tasks c).stops s.host.memory.frame = some id := Option.mem_toList.mp hid
    obtain ⟨u, hu⟩ := TaskPc.exists_of_stops hid
    exact ⟨u.stop, by rw [task_of_stops hexec hid, hu]; rfl, hok.1 id hid u hu, rfl⟩
  · obtain ⟨u, hu, hpending, hrunning⟩ := h.idle id hid
    obtain ⟨u', hu'⟩ := hfields.exists_task ⟨u, hu⟩
    refine ⟨u', hu', ?_⟩
    rcases hfields.task hu' with rfl | ⟨v, hv, hcases⟩
    · exact ⟨rfl, rfl⟩
    · obtain rfl : u = v := Option.some.inj (hu.symm.trans hv)
      rcases hcases with rfl | ⟨hstart, _⟩ | ⟨_, rfl⟩
      · exact ⟨hpending, hrunning⟩
      · exact absurd hid (hok.2 id hstart)
      · exact ⟨hpending, rfl⟩

theorem Kept.idle_begins {l : Host.Label} {j : TaskId} {host : Host} (h : Kept s)
    (hl : l.begins = some j) (hst : s.host.step stack l = some host) :
    ∀ id ∈ s.stopped,
      ∃ t, host.memory.frame.task id = some t ∧ t.pending = 0 ∧ t.running = false := by
  obtain ⟨u, u', hu, hbegin, hall⟩ := Host.step_begins hst hl
  intro id hid
  obtain ⟨v, hv, hpending, hrunning⟩ := h.idle id hid
  have hne : id ≠ j := by
    rintro rfl
    obtain rfl : v = u := Option.some.inj (hv.symm.trans hu)
    rw [Task.begin, if_pos hpending] at hbegin
    cases hbegin
  exact ⟨v, by rw [hall, if_neg hne, hv], hpending, hrunning⟩

theorem Kept.step (h : Kept s) (hok : InTime l s) (hst : Stops.step stack l s = some t) :
    Kept t := by
  cases l with
  | worker n ok =>
    obtain ⟨w, w', hw, hw', hmem, hworkers, hstopped⟩ := step_worker hst
    refine ⟨?_, ?_⟩
    · rw [hstopped, hmem]
      exact h.idle
    · rw [hworkers, hstopped]
      intro v hv
      rcases List.mem_or_eq_of_mem_set hv with hv | rfl
      · exact h.rounds v hv
      · refine (h.rounds w (List.mem_of_getElem? hw)).step (fun hid => ?_) hw'
        exact h.quiet.running _ hid
  | host l =>
    obtain ⟨host, hhost, rfl⟩ := step_host hst
    refine ⟨?_, fun w hw => ?_⟩
    · by_cases htask : ∃ c r, l = .task c r
      · obtain ⟨c, r, rfl⟩ := htask
        exact h.idle_task hok hhost
      · have hcalls : s.calls l = none := by
          cases l with
          | task c r => exact absurd ⟨c, r, rfl⟩ htask
          | _ => rfl
        show ∀ id ∈ (s.calls l).toList ++ s.stopped, _
        rw [hcalls]
        cases hl : l.begins with
        | some j => exact h.idle_begins hl hhost
        | none =>
          intro id hid
          rw [Host.task_of_step hhost hl fun c r heq => htask ⟨c, r, heq⟩]
          exact h.idle id hid
    · rcases List.mem_append.mp hw with hw | hw
      · exact (h.rounds w hw).mono (List.subset_append_right _ _)
      · obtain ⟨task, _, rfl⟩ := List.mem_map.mp hw
        exact .of_zero task _

/-- A stopped task with a thread still to begin runs again when it does. -/
theorem exists_not_quiet {id : TaskId} {u : Task} (hid : id ∈ s.stopped)
    (h : s.host.memory.frame.task id = some u) (hu : u.pending ≠ 0) :
    ∃ l t, Stops.step stack l s = some t ∧ ¬ Quiet t := by
  obtain ⟨l, host, hl, hhost, hrunning⟩ := Host.exists_begin stack h hu
  have hne : ∀ i, l ≠ .updateFrame i := by
    rintro i rfl
    cases hl
  refine ⟨.host l, _, (step_host_eq hne s).trans (congrArg (Option.map _) hhost), fun hquiet => ?_⟩
  have hstopped := hquiet.running id (List.mem_append_right _ hid)
  rw [show FrameModule.running _ id = true from hrunning] at hstopped
  cases hstopped

/-- **A stop lasts in every run whose calls come in time**: the flag stays cleared, and each
thread at most ends the round it was in.  After a call that does not, some thread can begin
and undo it. -/
theorem stops_kept (h : Reach (step stack) InTime {} s) :
    Quiet s ∧ ∀ l t, step stack l s = some t → ¬ InTime l s →
      ∃ l' u, step stack l' t = some u ∧ ¬ Quiet u := by
  have hkept : Kept s := h.invariant ⟨nofun, nofun⟩ fun _ _ _ hk hok hst => hk.step hok hst
  refine ⟨hkept.quiet, fun l t hst hlate => ?_⟩
  cases l with
  | worker n ok => exact absurd trivial hlate
  | host l =>
    cases l with
    | task c r =>
      obtain ⟨host, hhost, rfl⟩ := step_host hst
      obtain ⟨_, m, pc, hexec, rfl⟩ := Host.step_task hhost
      rcases not_and_or.mp hlate with hstop | hstart
      · push Not at hstop
        obtain ⟨id, hid, u, hu, hpending⟩ := hstop
        have hafter : m.frame.task id = some u.stop := by
          rw [task_of_stops hexec hid, hu]
          rfl
        exact exists_not_quiet (List.mem_append_left _ (Option.mem_toList.mpr hid)) hafter hpending
      · push Not at hstart
        obtain ⟨id, hid, hstopped⟩ := hstart
        obtain ⟨u, hu⟩ := TaskPc.exists_of_starts hid
        have hafter : m.frame.task id = some u.start := by
          rw [task_of_starts hexec hid, hu]
          rfl
        exact exists_not_quiet (List.mem_append_right _ hstopped) hafter (Nat.succ_ne_zero _)
    | _ => exact absurd trivial hlate

/-- Both tasks of a session are started, and the stop `ACK` has been read. -/
def stopping : List Label :=
  (Host.streaming 0).map .host ++ [.host (.task 0 (.read (.byte ack)))]

/-- What `parse` then does. -/
def stopBoth : List Label :=
  [.host (.task 0 (.env Host.env)), .host (.task 0 (.env Host.env))]

/-- Both threads begin before the stop, and the frame task is in a round then. -/
theorem stops_kept_one : ∃ s : Stops, s.stopped = [.input 0, .frame 0] ∧
    s.workers.map (·.delivered) = [1, 0] ∧ Quiet s := by
  obtain ⟨s, hs, hk⟩ := Reach.exists_of_run (show
    (run (fun l s => if InTime l s then step 9 l s else none)
      (stopping ++ [.host (.beginFrameTask 0), .host (.beginInputTask 0), .worker 0 true] ++
        stopBoth ++ [.worker 0 true, .worker 0 true, .worker 0 true]) {}).map
      (fun s => (s.stopped, s.workers.map (·.delivered))) =
      some ([.input 0, .frame 0], [1, 0]) by decide +kernel)
  simp only [Prod.mk.injEq] at hk
  exact ⟨s, hk.1, hk.2, (stops_kept hs).1⟩

/-- **The frame task begins after it was stopped**, and runs. -/
theorem stop_lost : ¬ ∀ stack s, Reach (step stack) (fun _ _ => True) {} s → Quiet s := by
  intro hclaim
  obtain ⟨s, hs, hk⟩ := Reach.exists_of_run (show
    (run (fun l s => if True then step 9 l s else none)
      (stopping ++ stopBoth ++ [.host (.beginFrameTask 0)]) {}).map
      (fun s => (s.stopped, s.host.memory.frame.running (.frame 0))) =
      some ([.input 0, .frame 0], true) by decide +kernel)
  simp only [Prod.mk.injEq] at hk
  have hstopped := (hclaim 9 s hs).running (.frame 0) (by rw [hk.1]; decide)
  rw [hk.2] at hstopped
  cases hstopped

end Stops

end MikaAudio.Server
