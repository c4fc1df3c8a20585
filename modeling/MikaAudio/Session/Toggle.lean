import MikaAudio.Session.Handshake
import MikaAudio.Session.Safety

/-!
# The start and stop `ACK`s

After a frame handshake `FrameModule.start` and `FrameModule.stop` write the same
byte, and the server takes the first for a start and the second for a stop.  The
number of `ACK`s it has read is in its state (`serverStage`), the number written is in
the last call (`callsMade`), and the stream holds the difference (`Toggled`).

Of the tasks of either side only those count that the session made itself; they are
behind the ones that were there before.
-/

namespace MikaAudio.Session

open Thread Server Interleave

/-! ### Lists of tasks -/

section Tasks

variable {α : Type} {get : α → Task} {set : α → Task → α} {n : Nat} {ts ts' : List α}

/-- Which of the tasks run. -/
def runs (get : α → Task) (ts : List α) : List Bool := ts.map fun a => (get a).isRunning

theorem isRunning_eq_of_begin {t t' : Task} (h : t.begin = some t') :
    t'.isRunning = t.isRunning := by
  rw [Task.isRunning_begin h]
  unfold Task.begin at h
  split at h
  · cases h
  · rename_i hp
    simp [Task.isRunning, Nat.pos_of_ne_zero hp]

/-- A task that comes to `run()` was running before. -/
theorem runs_beginAt (hset : ∀ a t, get (set a t) = t) {i : Nat}
    (h : beginAt get set i ts = some ts') : runs get ts' = runs get ts := by
  simp only [beginAt, Option.bind_eq_bind, Option.bind_eq_some_iff, Option.pure_def,
    Option.some.injEq] at h
  obtain ⟨a, ha, t, ht, rfl⟩ := h
  refine List.ext_getElem? (fun j => ?_)
  rw [runs, runs, List.getElem?_map, List.getElem?_map, List.getElem?_modify]
  by_cases hij : i = j
  · rw [← hij, ha]
    simp [hset, isRunning_eq_of_begin ht]
  · simp [hij]

theorem drop_runs_append (hn : n ≤ ts.length) (h : (runs get ts).drop n = []) (a : α) :
    ts.length = n ∧ (runs get (ts ++ [a])).drop n = [(get a).isRunning] := by
  have hlen : ts.length = n := by
    rw [List.drop_eq_nil_iff, runs, List.length_map] at h
    exact Nat.le_antisymm h hn
  refine ⟨hlen, ?_⟩
  rw [runs, List.map_append, List.drop_left' (by rw [List.length_map, hlen])]
  rfl

theorem drop_runs_modify {b : Bool} (h : (runs get ts).drop n = [b]) (f : α → α) :
    ∃ a, ts[n]? = some a ∧ (runs get (ts.modify n f)).drop n = [(get (f a)).isRunning] := by
  rw [runs, ← List.map_drop, List.map_eq_singleton_iff] at h
  obtain ⟨a, ha, _⟩ := h
  have hget : ts[n]? = some a := by
    rw [← Nat.add_zero n, ← List.getElem?_drop, ha]
    rfl
  refine ⟨a, hget, ?_⟩
  rw [runs, ← List.map_drop, List.drop_modify_of_ge _ _ _ _ le_rfl, ha, Nat.sub_self]
  rfl

end Tasks

/-! ### The two `FrameModule`s -/

/-- The server's `FrameModule` in a session that found `n` `InputTask`s: whether its
`FrameTask` runs, and which `InputTask`s of its own run. -/
structure Serving (n : Nat) (frame : Bool) (inputs : List Bool) (fm : Server.FrameModule) :
    Prop where
  frameRuns : ∃ i, fm.frameTask = some i ∧ (runs FrameTask.task fm.frameTasks)[i]? = some frame
  old : n ≤ fm.inputTasks.length
  inputsRun : (runs InputTask.task fm.inputTasks).drop n = inputs
  inputTask : inputs ≠ [] → fm.inputTask = some n

/-- The client's `FrameModule` in a session that found `n` `FrameTask`s: which of its own
run. -/
structure Showing (n : Nat) (tasks : List Bool) (fm : Client.FrameModule) : Prop where
  old : n ≤ fm.tasks.length
  tasksRun : (runs id fm.tasks).drop n = tasks
  frameTask : tasks ≠ [] → fm.frameTask = some n

section FrameModules

variable {n : Nat} {b : Bool} {bs : List Bool} {fm : Server.FrameModule} {cm : Client.FrameModule}

theorem Serving.onFrameTask (h : Serving n b bs fm) (f : Task → Task) :
    ∃ t, fm.currentTask = some t ∧ Serving n (f t.task).isRunning bs (fm.onFrameTask f) := by
  obtain ⟨⟨i, hi, hrun⟩, hold, hin, hit⟩ := h
  rw [runs, List.getElem?_map, Option.map_eq_some_iff] at hrun
  obtain ⟨t, ht, _⟩ := hrun
  refine ⟨t, by rw [FrameModule.currentTask, hi]; exact ht, ?_⟩
  unfold FrameModule.onFrameTask
  rw [hi]
  refine ⟨⟨i, rfl, ?_⟩, hold, hin, hit⟩
  simp [runs, ht]

theorem Serving.newInputTask (h : Serving n b [] fm) {t : InputTask}
    (ht : t.task.isRunning = false) :
    Serving n b [false] { fm with
      inputTasks := fm.inputTasks ++ [t]
      inputTask := some fm.inputTasks.length } := by
  obtain ⟨hframe, hold, hin, _⟩ := h
  obtain ⟨hlen, hdrop⟩ := drop_runs_append hold hin t
  refine ⟨hframe, ?_, by rw [hdrop, ht], fun _ => by rw [hlen]⟩
  rw [List.length_append]
  omega

theorem Serving.onInputTask {i : Bool} (h : Serving n b [i] fm) (f : Task → Task) :
    ∃ t, fm.currentInput = some t ∧
      Serving n b [(f t.task).isRunning] (fm.onInputTask f) := by
  obtain ⟨hframe, hold, hin, hit⟩ := h
  have hit := hit (List.cons_ne_nil _ _)
  obtain ⟨t, ht, hdrop⟩ := drop_runs_modify hin fun t : InputTask => { t with task := f t.task }
  refine ⟨t, by rw [FrameModule.currentInput, hit]; exact ht, ?_⟩
  unfold FrameModule.onInputTask
  rw [hit]
  exact ⟨hframe, by rwa [List.length_modify], hdrop, fun _ => rfl⟩

theorem Serving.beginFrameTask {i : Nat} {ts : List FrameTask} (h : Serving n b bs fm)
    (hts : beginAt FrameTask.task (fun a t => { a with task := t }) i fm.frameTasks = some ts) :
    Serving n b bs { fm with frameTasks := ts } := by
  obtain ⟨⟨j, hj, hrun⟩, hold, hin, hit⟩ := h
  exact ⟨⟨j, hj, by rwa [runs_beginAt (fun _ _ => rfl) hts]⟩, hold, hin, hit⟩

theorem length_beginAt {α : Type} {get : α → Task} {set : α → Task → α} {i : Nat} {ts ts' : List α}
    (hset : ∀ a t, get (set a t) = t) (h : beginAt get set i ts = some ts') :
    ts'.length = ts.length := by
  have := congrArg List.length (runs_beginAt hset h)
  rwa [runs, runs, List.length_map, List.length_map] at this

theorem Serving.beginInputTask {i : Nat} {ts : List InputTask} (h : Serving n b bs fm)
    (hts : beginAt InputTask.task (fun a t => { a with task := t }) i fm.inputTasks = some ts) :
    Serving n b bs { fm with inputTasks := ts } := by
  obtain ⟨hframe, hold, hin, hit⟩ := h
  exact ⟨hframe, by rwa [length_beginAt (fun _ _ => rfl) hts],
    by rwa [runs_beginAt (fun _ _ => rfl) hts], hit⟩

theorem Showing.beginStart (h : Showing n [] cm) : Showing n [true] cm.beginStart := by
  obtain ⟨hlen, hdrop⟩ := drop_runs_append h.old h.tasksRun (Task.start {})
  refine ⟨?_, by rw [Client.FrameModule.beginStart, hdrop]; rfl, fun _ => ?_⟩
  · rw [Client.FrameModule.beginStart, List.length_append]
    omega
  · rw [Client.FrameModule.beginStart, hlen]

theorem Showing.endStop {i : Bool} (h : Showing n [i] cm)
    (hbegun : cm.currentTask.all fun t => t.pending = 0) :
    ∃ cm', cm.endStop = some cm' ∧ Showing n [false] cm' := by
  have hcur := h.frameTask (List.cons_ne_nil _ _)
  obtain ⟨t, ht, hdrop⟩ := drop_runs_modify h.tasksRun Task.stop
  rw [Client.FrameModule.currentTask, hcur, Option.bind_some, ht, Option.all_some,
    decide_eq_true_iff] at hbegun
  rw [id, Task.isRunning_stop, hbegun] at hdrop
  refine ⟨_, by rw [Client.FrameModule.endStop, hcur]; rfl, ?_⟩
  exact ⟨by rw [List.length_modify]; exact h.old, hdrop, fun _ => rfl⟩

theorem Showing.beginClientTask {i : Nat} {ts : List Task} (h : Showing n bs cm)
    (hts : beginAt id (fun _ t => t) i cm.tasks = some ts) :
    Showing n bs { cm with tasks := ts } :=
  ⟨by rw [length_beginAt (fun _ _ => rfl) hts]; exact h.old,
    by rw [runs_beginAt (fun _ _ => rfl) hts]; exact h.tasksRun, h.frameTask⟩

end FrameModules

/-! ### The `ACK`s written and read -/

/-- The `ACK`s the server has read since the handshake, whether its `FrameTask` runs,
and which `InputTask`s of the session run. -/
def serverStage : TaskPc → Option (Nat × Bool × List Bool)
  | .frame (.startWait _) => some (0, false, [])
  | .frame .startFrameTask => some (1, false, [])
  | .frame .newInputTask => some (1, true, [])
  | .frame .startInputTask => some (1, true, [false])
  | .frame .parse => some (1, true, [true])
  | .frame .stopFrameTask => some (2, true, [true])
  | .frame .stopInputTask => some (2, false, [true])
  | .loop => some (2, false, [false])
  | .module => some (2, false, [false])
  | _ => none

/-- The `ACK`s the client has written since the handshake. -/
def callsMade : Option Call → Nat
  | none => 0
  | some .start => 1
  | some .stop => 2

/-- Which `FrameTask`s of the client run. -/
def clientStage : Option Call → Bool → List Bool
  | none, _ => []
  | some .start, _ => [true]
  | some .stop, stopping => [stopping]

/-- The handshake has succeeded and neither `start` nor `stop` was called yet. -/
structure Handshaken (s : Session) : Prop where
  server : s.server = .frame (.startWait 0)
  task : s.memory.frame.currentTask.map FrameTask.task = some {}
  running : s.memory.running 0 = true
  c2s : s.c2s = []
  lastCall : s.lastCall = none
  uiStopping : s.uiStopping = false
  uiDead : s.uiDead = false

/-- **What is written and not yet read is in the stream.**  `n` and `m` are the numbers
of `InputTask`s and of the client's `FrameTask`s before the session. -/
structure Toggled (n m : Nat) (s : Session) : Prop where
  alive : s.uiDead = false
  running : s.memory.running 0 = true
  stopping : s.uiStopping = true → s.lastCall = some .stop
  showing : Showing m (clientStage s.lastCall s.uiStopping) s.client.frame
  serving : ∃ consumed frame inputs, serverStage s.server = some (consumed, frame, inputs) ∧
    Serving n frame inputs s.memory.frame ∧
    ∃ k, s.c2s.map Client.Sent.val = List.replicate k ack ∧ consumed + k = callsMade s.lastCall

theorem Handshaken.toggled {s : Session} (h : Handshaken s) :
    Toggled s.memory.frame.inputTasks.length s.client.frame.tasks.length s := by
  refine ⟨h.uiDead, h.running, by rw [h.uiStopping]; simp, ?_, 0, false, [], ?_, ?_, 0, ?_, ?_⟩
  · rw [h.lastCall]
    exact ⟨le_rfl, List.drop_eq_nil_iff.mpr (by rw [runs, List.length_map]),
      fun hne => absurd rfl hne⟩
  · rw [h.server]
    rfl
  · have htask := h.task
    rw [FrameModule.currentTask, Option.map_eq_some_iff] at htask
    obtain ⟨t, ht, ht0⟩ := htask
    obtain ⟨i, hi, ht⟩ := Option.bind_eq_some_iff.mp ht
    refine ⟨⟨i, hi, ?_⟩, le_rfl, by rw [List.drop_eq_nil_iff, runs, List.length_map],
      fun hne => absurd rfl hne⟩
    simp [runs, ht, ht0, Task.isRunning]
  · rw [h.c2s]
    rfl
  · rw [h.lastCall]
    rfl

/-- The UI calls `start` and `stop`, and the tasks that were started come to `run()`. -/
def ToggleLabel : Label → Prop
  | .uiMessage => True
  | .start => True
  | .stop => True
  | .stopReturn => True
  | .beginClientTask _ => True
  | .server _ => True
  | .beginFrameTask _ => True
  | .beginInputTask _ => True
  | _ => False

/-- `start` is the first call of the session; `stop`, where it does not return at once,
is the one after it. -/
def InTurn : Label → Session → Prop
  | .start, s => s.lastCall = none
  | .stop, s => s.client.frame.running = true → s.lastCall = some .start
  | _, _ => True

/-- A task that is stopped has come to `run()` before. -/
def Begun : Label → Session → Prop
  | .stopReturn, s => s.client.frame.currentTask.all fun t => t.pending = 0
  | .server _, s =>
    (s.server = .frame .stopFrameTask →
      s.memory.frame.currentTask.all fun t => t.task.pending = 0) ∧
    (s.server = .frame .stopInputTask →
      s.memory.frame.currentInput.all fun t => t.task.pending = 0)
  | _, _ => True

section Steps

variable {n m : Nat} {s t : Session}

theorem acks_read {b : Client.Sent} {rest cs : List Client.Sent} {k : Nat} (hc : cs = b :: rest)
    (h : cs.map Client.Sent.val = List.replicate k ack) :
    b.val = ack ∧ ∃ j, k = j + 1 ∧ rest.map Client.Sent.val = List.replicate j ack := by
  rw [hc, List.map_cons] at h
  cases k with
  | zero => cases h
  | succ j =>
    obtain ⟨hb, hrest⟩ := List.cons.inj h
    exact ⟨hb, j, rfl, hrest⟩

theorem Toggled.server {e : Env} (h : Toggled n m s) (hbegun : Begun (.server e) s)
    (hst : s.stepServer e = some t) : Toggled n m t := by
  obtain ⟨halive, hrun, hstop, hshow, consumed, frame, inputs, hstage, hserv, k, hc, hk⟩ := h
  have hread : ∀ pc, serverStage pc = some (consumed + 1, frame, inputs) →
      ∀ {b rest}, s.c2s = b :: rest → b.val = ack ∧
        Toggled n m { s with c2s := rest, server := pc } := by
    intro pc hpc b rest hcs
    obtain ⟨hb, j, rfl, hrest⟩ := acks_read hcs hc
    have hj : consumed + 1 + j = callsMade s.lastCall := by omega
    exact ⟨hb, halive, hrun, hstop, hshow, _, _, _, hpc, hserv, j, hrest, hj⟩
  have hact : ∀ {pc frame' inputs' fm}, serverStage pc = some (consumed, frame', inputs') →
      Serving n frame' inputs' fm →
      Toggled n m { s with memory := s.memory.onFrame fun _ => fm, server := pc } :=
    fun hpc hserv' => ⟨halive, hrun, hstop, hshow, _, _, _, hpc, hserv', k, hc, hk⟩
  cases hs : s.server with
  | frame pc =>
    rw [hs] at hstage
    cases pc with
    | startWait d =>
      cases hstage
      obtain ⟨b, rest, hcs, rfl⟩ := stepServer_read (by rw [hs]; rfl) hst
      obtain ⟨hb, ht⟩ := hread (.frame .startFrameTask) rfl hcs
      simpa only [hb, if_true] using ht
    | startFrameTask =>
      cases hstage
      obtain ⟨_, _, hserv⟩ := hserv.onFrameTask Task.start
      simp only [stepServer, taskOp, hs, startOp, Option.map_some, Option.some.injEq] at hst
      subst hst
      exact hact rfl (by simpa using hserv)
    | newInputTask =>
      cases hstage
      simp only [stepServer, taskOp, hs, startOp, Option.map_some, Option.some.injEq] at hst
      subst hst
      exact hact rfl (hserv.newInputTask rfl)
    | startInputTask =>
      cases hstage
      obtain ⟨_, _, hserv⟩ := hserv.onInputTask Task.start
      simp only [stepServer, taskOp, hs, startOp, Option.map_some, Option.some.injEq] at hst
      subst hst
      exact hact rfl (by simpa using hserv)
    | parse =>
      cases hstage
      obtain ⟨b, rest, hcs, rfl⟩ := stepServer_read (by rw [hs]; rfl) hst
      obtain ⟨hb, ht⟩ := hread (.frame .stopFrameTask) rfl hcs
      simpa only [hb, if_true] using ht
    | stopFrameTask =>
      cases hstage
      obtain ⟨task, htask, hserv⟩ := hserv.onFrameTask Task.stop
      have hpending := hbegun.1 hs
      rw [htask, Option.all_some, decide_eq_true_iff] at hpending
      rw [Task.isRunning_stop, hpending] at hserv
      simp only [stepServer, taskOp, hs, startOp, Option.map_some, Option.some.injEq] at hst
      subst hst
      exact hact rfl hserv
    | stopInputTask =>
      cases hstage
      obtain ⟨task, htask, hserv⟩ := hserv.onInputTask Task.stop
      have hpending := hbegun.2 hs
      rw [htask, Option.all_some, decide_eq_true_iff] at hpending
      rw [Task.isRunning_stop, hpending] at hserv
      simp only [stepServer, taskOp, hs, startOp, Option.map_some, Option.some.injEq] at hst
      subst hst
      exact hact rfl hserv
    | _ => cases hstage
  | loop =>
    rw [hs] at hstage
    cases hstage
    simp only [stepServer, taskOp, hs, hrun, if_true, Option.map_some, Option.some.injEq] at hst
    subst hst
    exact ⟨halive, hrun, hstop, hshow, _, _, _, rfl, hserv, k, hc, hk⟩
  | module =>
    -- both `ACK`s are read, and there is no third
    rw [hs] at hstage
    cases hstage
    obtain ⟨b, rest, hcs, rfl⟩ := stepServer_read (by rw [hs]; rfl) hst
    obtain ⟨_, j, rfl, _⟩ := acks_read hcs hc
    have : callsMade s.lastCall ≤ 2 := by
      rcases s.lastCall with _ | _ | _
      all_goals decide
    omega
  | _ => rw [hs] at hstage; cases hstage

theorem Toggled.step {l : Label} (h : Toggled n m s) (hl : ToggleLabel l) (hturn : InTurn l s)
    (hbegun : Begun l s) (hst : Session.step l s = some t) : Toggled n m t := by
  cases l with
  | uiMessage =>
    simp only [Session.step, stepUi] at hst
    repeat' split at hst
    all_goals cases hst
    exact ⟨h.alive, h.running, h.stopping, h.showing, h.serving⟩
  | start =>
    simp only [Session.step, stepUi] at hst
    repeat' split at hst
    all_goals cases hst
    rename_i hfree _
    have hstopping : s.uiStopping = false := by
      simp only [uiFree, Bool.and_eq_true, Bool.not_eq_true'] at hfree
      exact hfree.1
    have hcall : s.lastCall = none := hturn
    obtain ⟨consumed, frame, inputs, hstage, hserv, k, hc, hk⟩ := h.serving
    have hshow := h.showing
    rw [hcall] at hshow hk
    refine ⟨h.alive, h.running, by rw [hstopping]; simp, hshow.beginStart, consumed, frame, inputs,
      hstage, hserv, k + 1, ?_, ?_⟩
    · rw [List.map_append, hc, List.replicate_succ']
      rfl
    · rw [← Nat.add_assoc, hk]
      rfl
  | stop =>
    simp only [Session.step, stepUi] at hst
    repeat' split at hst
    all_goals cases hst
    · rename_i hrun
      have hcall : s.lastCall = some .start := hturn hrun
      obtain ⟨consumed, frame, inputs, hstage, hserv, k, hc, hk⟩ := h.serving
      have hshow := h.showing
      rw [hcall] at hshow hk
      refine ⟨h.alive, h.running, fun _ => rfl, hshow, consumed, frame, inputs,
        hstage, hserv, k + 1, ?_, ?_⟩
      · rw [List.map_append, hc, List.replicate_succ']
        rfl
      · rw [← Nat.add_assoc, hk]
        rfl
    · exact h
  | stopReturn =>
    simp only [Session.step, stepStopReturn] at hst
    rw [h.alive, if_neg Bool.false_ne_true] at hst
    split at hst
    · rename_i hstopping
      have hcall := h.stopping hstopping
      have hshow := h.showing
      rw [hcall, hstopping] at hshow
      obtain ⟨fm, hfm, hshow⟩ := hshow.endStop hbegun
      simp only [hfm, Option.some.injEq] at hst
      subst hst
      exact ⟨rfl, h.running, by simp, by rw [hcall]; exact hshow, h.serving⟩
    · cases hst
  | beginClientTask i =>
    simp only [Session.step] at hst
    rw [h.alive, if_neg Bool.false_ne_true, Option.map_eq_some_iff] at hst
    obtain ⟨ts, hts, rfl⟩ := hst
    exact ⟨rfl, h.running, h.stopping, h.showing.beginClientTask hts, h.serving⟩
  | server e => exact h.server hbegun hst
  | beginFrameTask i =>
    simp only [Session.step, Option.map_eq_some_iff] at hst
    obtain ⟨ts, hts, rfl⟩ := hst
    obtain ⟨consumed, frame, inputs, hstage, hserv, hrest⟩ := h.serving
    exact ⟨h.alive, h.running, h.stopping, h.showing, consumed, frame, inputs, hstage,
      hserv.beginFrameTask hts, hrest⟩
  | beginInputTask i =>
    simp only [Session.step, Option.map_eq_some_iff] at hst
    obtain ⟨ts, hts, rfl⟩ := hst
    obtain ⟨consumed, frame, inputs, hstage, hserv, hrest⟩ := h.serving
    exact ⟨h.alive, h.running, h.stopping, h.showing, consumed, frame, inputs, hstage,
      hserv.beginInputTask hts, hrest⟩
  | _ => exact hl.elim

end Steps

/-! ### Both sides run or neither does -/

instance : DecidablePred ToggleLabel := fun l => by
  induction l using Label.casesOn
  all_goals
    dsimp only [ToggleLabel]
    infer_instance

instance (l : Label) (s : Session) : Decidable (InTurn l s) := by
  induction l using Label.casesOn
  all_goals
    dsimp only [InTurn]
    infer_instance

instance (l : Label) (s : Session) : Decidable (Begun l s) := by
  induction l using Label.casesOn
  all_goals
    dsimp only [Begun]
    infer_instance

end MikaAudio.Session
