import MikaAudio.Lib.Interleave

/-!
# The calls of the client's frame classes

`FrameModule` has a `frameTask` that `start()` makes, and `FrameView` a `frameThread` that
its `start()` makes and `surfaceDestroyed` sets to `null`.  `FrameModule.stop` asks whether
`running` is set, which `init` does, and then takes `frameTask` for granted;
`surfaceDestroyed` and `ready` take `frameThread` for granted, `FrameView.stop` does not.

The calls are atomic steps here, and `frameThread.join()` returns.  A run is a list of
calls, and no field that is `null` is used exactly in those that keep an order (`InOrder`):
a `stop` after an `init` comes after a `start`, and nothing comes from the surface or the
network between a `surfaceDestroyed` and the next `start`.
-/

namespace MikaAudio.Client

open Interleave (run)

/-- Where a thread of a `FrameTask` stands. -/
inductive TaskPc
  /-- `running = true`. -/
  | begin
  /-- `while (running)`. -/
  | test
  /-- `socket.receive(packet)`. -/
  | receive
  /-- `run` has returned. -/
  | done
  deriving DecidableEq

/-- A `FrameTask` with its thread. -/
structure TaskThread where
  running : Bool := false
  pc : TaskPc := .begin
  deriving DecidableEq

/-- A `FrameThread`. -/
structure FrameThread where
  running : Bool := true
  deriving DecidableEq

/-- The fields of `FrameModule` and `FrameView`; `null` is `none`, and the tasks are numbered as
they are made.  `packet` says that `FrameModule.packet` was set, `callback` that the
surface has its callback, `nullPointer` that a field was used that is `null`, which ends the
program, and `leftRunning` that a `stop` has left `running` set. -/
structure FrameCalls where
  running : Bool := false
  packet : Bool := false
  frameTask : Option Nat := none
  tasks : List TaskThread := []
  frameThread : Option FrameThread := none
  callback : Bool := false
  nullPointer : Bool := false
  leftRunning : Bool := false
  deriving DecidableEq

namespace FrameCalls

/-- `FrameModule.init`, which succeeds unless the module runs already. -/
def init (s : FrameCalls) : FrameCalls :=
  if s.running then s else { s with running := true, packet := true }

/-- `FrameView.start`. -/
def startView (s : FrameCalls) : FrameCalls :=
  { s with callback := true, frameThread := some {} }

/-- `FrameModule.start`; without a packet the constructor of `FrameTask` throws an exception. -/
def start (s : FrameCalls) : FrameCalls :=
  let s := s.startView
  if s.packet then { s with frameTask := some s.tasks.length, tasks := s.tasks ++ [{}] } else s

/-- `FrameView.stop`. -/
def stopView (s : FrameCalls) : FrameCalls :=
  { s with frameThread := s.frameThread.map ({ · with running := false }) }

/-- `FrameModule.stop`. -/
def stop (s : FrameCalls) : FrameCalls :=
  if s.running then
    let s := s.stopView
    match s.frameTask with
    | some i =>
      { s with tasks := s.tasks.modify i ({ · with running := false }), running := false }
    | none => { s with nullPointer := true }
  else s

/-- The same, with a note of what it leaves. -/
def noteStop (s : FrameCalls) : FrameCalls :=
  { s.stop with leftRunning := s.leftRunning || s.stop.running }

/-- `FrameView.surfaceDestroyed`. -/
def surfaceDestroyed (s : FrameCalls) : FrameCalls :=
  match s.frameThread with
  | some _ => { s with frameThread := none }
  | none => { s with nullPointer := true }

/-- `frameView.ready(length)`. -/
def ready (s : FrameCalls) : FrameCalls :=
  match s.frameThread with
  | some _ => s
  | none => { s with nullPointer := true }

/-- What happens next. -/
inductive Label
  | init
  | start
  | stop
  | surfaceDestroyed
  /-- The thread of a task sets `running`, or tests it. -/
  | task (i : Nat)
  /-- It receives a datagram with the flag. -/
  | arrive (i : Nat)
  deriving DecidableEq

/-- The thread of a task goes on. -/
def TaskThread.next (t : TaskThread) : Option TaskThread :=
  match t.pc with
  | .begin => some { running := true, pc := .test }
  | .test => some { t with pc := if t.running then .receive else .done }
  | .receive => none
  | .done => none

/-- One call. -/
def step (l : Label) (s : FrameCalls) : Option FrameCalls :=
  if s.nullPointer then none
  else match l with
    | .init => some s.init
    | .start => some s.start
    | .stop => some s.noteStop
    | .surfaceDestroyed => if s.callback then some s.surfaceDestroyed else none
    | .task i => do
      let t ← s.tasks[i]?
      let t' ← TaskThread.next t
      return { s with tasks := s.tasks.set i t' }
    | .arrive i =>
      match s.tasks[i]? with
      | some ⟨running, .receive⟩ =>
        some { s with tasks := s.tasks.set i ⟨running, .test⟩ }.ready
      | _ => none

/-- No field that is `null` was used, and no `stop` has left the module running. -/
structure Safe (s : FrameCalls) : Prop where
  nullPointer : s.nullPointer = false
  leftRunning : s.leftRunning = false

/-! ### The order of the calls

The calls made so far are a list, the last one first. -/

/-- There was an `init` since the last `stop`. -/
def initialized : List Label → Bool
  | [] => false
  | .init :: _ => true
  | .stop :: _ => false
  | _ :: calls => initialized calls

/-- There was a `start` after the first `init`. -/
def started : List Label → Bool
  | [] => false
  | .start :: calls => decide (.init ∈ calls) || started calls
  | _ :: calls => started calls

/-- There was a `start` since the last `surfaceDestroyed`. -/
def shown : List Label → Bool
  | [] => false
  | .start :: _ => true
  | .surfaceDestroyed :: _ => false
  | _ :: calls => shown calls

/-- The call may come after these. -/
def Allowed (calls : List Label) : Label → Prop
  | .stop => initialized calls = true → started calls = true
  | .surfaceDestroyed => shown calls = true
  | .arrive _ => shown calls = true
  | _ => True

instance (calls : List Label) (l : Label) : Decidable (Allowed calls l) := by
  cases l with
  | _ =>
    unfold Allowed
    infer_instance

/-- Each call may come after those before it. -/
def InOrder (calls : List Label) : List Label → Prop
  | [] => True
  | l :: ls => Allowed calls l ∧ InOrder (l :: calls) ls

/-- The fields say which calls were made. -/
structure Tracks (calls : List Label) (s : FrameCalls) : Prop where
  running : s.running = initialized calls
  packet : s.packet = decide (.init ∈ calls)
  frameTask : s.frameTask.isSome = started calls
  frameThread : s.frameThread.isSome = shown calls
  safe : Safe s

variable {s t : FrameCalls} {l : Label} {calls : List Label}

theorem mem_of_initialized (h : initialized calls = true) : .init ∈ calls := by
  induction calls with
  | nil => cases h
  | cons l calls ih =>
    cases l with
    | init => exact List.mem_cons_self
    | stop => cases h
    | _ => exact List.mem_cons_of_mem _ (ih h)

theorem mem_init_cons (h : l ≠ .init) : decide (Label.init ∈ l :: calls) = decide (.init ∈ calls) :=
  decide_eq_decide.mpr (List.mem_cons.trans (or_iff_right h.symm))

/-! ### One call -/

theorem Tracks.init (h : Tracks calls s) : Tracks (.init :: calls) s.init := by
  have hmem : decide (Label.init ∈ Label.init :: calls) = true :=
    decide_eq_true List.mem_cons_self
  unfold FrameCalls.init
  split_ifs with hr
  · refine ⟨hr, ?_, h.frameTask, h.frameThread, h.safe⟩
    rw [hmem, h.packet]
    exact decide_eq_true (mem_of_initialized (h.running ▸ hr))
  · exact ⟨rfl, hmem.symm, h.frameTask, h.frameThread, ⟨h.safe.1, h.safe.2⟩⟩

theorem Tracks.start (h : Tracks calls s) : Tracks (.start :: calls) s.start := by
  have hpacket := h.packet.trans (mem_init_cons (l := .start) nofun).symm
  have hstarted : started (.start :: calls) = (s.packet || s.frameTask.isSome) := by
    rw [h.packet, h.frameTask]
    rfl
  unfold FrameCalls.start
  dsimp only
  split_ifs with hp
  · refine ⟨h.running, hpacket, ?_, rfl, ⟨h.safe.1, h.safe.2⟩⟩
    rw [hstarted, show s.packet = true from hp]
    rfl
  · refine ⟨h.running, hpacket, ?_, rfl, ⟨h.safe.1, h.safe.2⟩⟩
    rw [hstarted, Bool.eq_false_iff.mpr (show ¬ s.packet = true from hp)]
    rfl

theorem isSome_stopView (s : FrameCalls) :
    s.stopView.frameThread.isSome = s.frameThread.isSome :=
  Option.isSome_map

theorem Tracks.stop (h : Tracks calls s) :
    (Allowed calls .stop → Tracks (.stop :: calls) s.noteStop) ∧
      (¬ Allowed calls .stop → s.noteStop.nullPointer = true) := by
  have hpacket := h.packet.trans (mem_init_cons (l := .stop) nofun).symm
  rw [Allowed, ← h.running, ← h.frameTask]
  by_cases hr : s.running = true
  · cases hf : s.frameTask with
    | some i =>
      have hstop : s.noteStop = { s.stopView with
          tasks := s.tasks.modify i ({ · with running := false })
          running := false
          leftRunning := s.leftRunning || false } := by
        simp only [noteStop, FrameCalls.stop, hr, if_true, stopView, hf]
      rw [hstop]
      refine ⟨fun _ => ⟨rfl, hpacket, h.frameTask, ?_, ⟨h.safe.1, ?_⟩⟩, fun hnot => ?_⟩
      · exact (isSome_stopView s).trans h.frameThread
      · exact (Bool.or_false _).trans h.safe.2
      · exact absurd (fun _ => rfl) hnot
    | none =>
      refine ⟨fun hall => Bool.noConfusion (hall hr), fun _ => ?_⟩
      simp only [noteStop, FrameCalls.stop, hr, if_true, stopView, hf]
  · have hstop : s.stop = s := if_neg hr
    have hfalse := Bool.eq_false_iff.mpr hr
    rw [noteStop, hstop]
    refine ⟨fun _ => ⟨hfalse, hpacket, h.frameTask, h.frameThread, ⟨h.safe.1, ?_⟩⟩, fun hnot => ?_⟩
    · show (s.leftRunning || s.running) = false
      rw [h.safe.2, hfalse]
      rfl
    · exact absurd (fun hr' => absurd hr' hr) hnot

theorem Tracks.surfaceDestroyed (h : Tracks calls s) :
    (Allowed calls .surfaceDestroyed →
        Tracks (.surfaceDestroyed :: calls) s.surfaceDestroyed) ∧
      (¬ Allowed calls .surfaceDestroyed → s.surfaceDestroyed.nullPointer = true) := by
  have hpacket := h.packet.trans (mem_init_cons (l := .surfaceDestroyed) nofun).symm
  rw [Allowed, ← h.frameThread]
  unfold FrameCalls.surfaceDestroyed
  cases hf : s.frameThread with
  | some thread =>
    refine ⟨fun _ => ⟨h.running, hpacket, h.frameTask, rfl, ⟨h.safe.1, h.safe.2⟩⟩, ?_⟩
    exact fun hnot => absurd rfl hnot
  | none => exact ⟨fun hall => Bool.noConfusion hall, fun _ => rfl⟩

theorem Tracks.tasks (h : Tracks calls s) (hl : ∃ i, l = .task i ∨ l = .arrive i)
    (tasks : List TaskThread) : Tracks (l :: calls) { s with tasks } := by
  have hinit : l ≠ .init := by
    rintro rfl
    obtain ⟨_, hl | hl⟩ := hl
    · cases hl
    · cases hl
  have hpacket : s.packet = decide (.init ∈ l :: calls) := by
    rw [mem_init_cons hinit]
    exact h.packet
  obtain ⟨_, rfl | rfl⟩ := hl
  · exact ⟨h.running, hpacket, h.frameTask, h.frameThread, ⟨h.safe.1, h.safe.2⟩⟩
  · exact ⟨h.running, hpacket, h.frameTask, h.frameThread, ⟨h.safe.1, h.safe.2⟩⟩

/-- `ready` does nothing to the fields, or uses `frameThread`. -/
theorem ready_cases (s : FrameCalls) :
    s.frameThread.isSome = true ∧ s.ready = s ∨
      s.frameThread.isSome = false ∧ s.ready.nullPointer = true := by
  unfold ready
  cases hf : s.frameThread with
  | some thread => exact Or.inl ⟨rfl, rfl⟩
  | none => exact Or.inr ⟨rfl, rfl⟩

/-- **One call**: in order it keeps the fields as the calls say, out of order it uses one that is
`null`. -/
theorem Tracks.step (h : Tracks calls s) (hst : FrameCalls.step l s = some t) :
    (Allowed calls l → Tracks (l :: calls) t) ∧ (¬ Allowed calls l → t.nullPointer = true) := by
  unfold FrameCalls.step at hst
  rw [if_neg (by rw [h.safe.nullPointer]; decide)] at hst
  cases l with
  | init =>
    cases hst
    exact ⟨fun _ => h.init, fun hnot => absurd trivial hnot⟩
  | start =>
    cases hst
    exact ⟨fun _ => h.start, fun hnot => absurd trivial hnot⟩
  | stop =>
    cases hst
    exact h.stop
  | surfaceDestroyed =>
    dsimp only at hst
    split_ifs at hst
    cases hst
    exact h.surfaceDestroyed
  | task i =>
    obtain ⟨_, _, hnext⟩ := Option.bind_eq_some_iff.mp hst
    obtain ⟨_, _, hset⟩ := Option.bind_eq_some_iff.mp hnext
    cases hset
    exact ⟨fun _ => h.tasks ⟨i, Or.inl rfl⟩ _, fun hnot => absurd trivial hnot⟩
  | arrive i =>
    dsimp only at hst
    split at hst
    · cases hst
      rename_i running _
      have harrived := h.tasks ⟨i, Or.inr rfl⟩ (s.tasks.set i ⟨running, .test⟩)
      rw [Allowed, ← h.frameThread]
      rcases ready_cases { s with tasks := s.tasks.set i ⟨running, .test⟩ } with
        ⟨hsome, hready⟩ | ⟨hnone, hready⟩
      · rw [hready]
        exact ⟨fun _ => harrived, fun hnot => absurd hsome hnot⟩
      · exact ⟨fun hall => Bool.noConfusion (hnone.symm.trans hall), fun _ => hready⟩
    · cases hst

/-! ### Whole runs -/

/-- Nothing happens after a field was used that is `null`. -/
theorem nullPointer_run {ls : List Label} (h : s.nullPointer = true)
    (hrun : run FrameCalls.step ls s = some t) : t.nullPointer = true := by
  cases ls with
  | nil => exact Option.some.inj hrun ▸ h
  | cons l ls =>
    obtain ⟨u, hu, _⟩ := Option.bind_eq_some_iff.mp hrun
    rw [FrameCalls.step.eq_def, if_pos h] at hu
    cases hu

theorem Tracks.run (h : Tracks calls s) {ls : List Label}
    (hrun : Interleave.run FrameCalls.step ls s = some t) : Safe t ↔ InOrder calls ls := by
  induction ls generalizing s calls with
  | nil => exact iff_of_true (Option.some.inj hrun ▸ h.safe) trivial
  | cons l ls ih =>
    obtain ⟨u, hu, hrest⟩ := Option.bind_eq_some_iff.mp hrun
    obtain ⟨hin, hout⟩ := h.step hu
    by_cases hl : Allowed calls l
    · exact (ih (hin hl) hrest).trans (and_iff_right hl).symm
    · refine iff_of_false (fun hsafe => ?_) (fun hall => hl hall.1)
      exact Bool.noConfusion ((nullPointer_run (hout hl) hrest).symm.trans hsafe.nullPointer)

/-- **No field that is `null` is used, and every `stop` clears `running`, exactly in the runs that
are in order.** -/
theorem safe_iff_inOrder {ls : List Label} (h : run step ls {} = some s) :
    Safe s ↔ InOrder [] ls :=
  Tracks.run ⟨rfl, rfl, rfl, rfl, ⟨rfl, rfl⟩⟩ h

/-- The screen is shown, stopped and shown again. -/
def shownTwice : List Label :=
  [.init, .start, .task 0, .task 0, .arrive 0, .stop, .surfaceDestroyed, .init, .start, .stop]

/-- That is in order. -/
theorem safe_shownTwice : ∃ s, run step shownTwice {} = some s ∧ Safe s := by
  obtain ⟨s, hs⟩ := Option.isSome_iff_exists.mp
    (show (run step shownTwice {}).isSome = true by decide)
  refine ⟨s, hs, (safe_iff_inOrder hs).mpr ?_⟩
  refine ⟨trivial, trivial, trivial, trivial, rfl, fun _ => rfl, rfl, trivial, trivial,
    fun _ => rfl, trivial⟩

/-- **The activity is paused before the screen is shown.** -/
theorem stop_before_start : ¬ ∀ (ls : List Label) (s : FrameCalls), run step ls {} = some s →
    Safe s := by
  intro hclaim
  exact Bool.noConfusion (hclaim [.init, .stop] _ rfl).leftRunning

end FrameCalls

end MikaAudio.Client
