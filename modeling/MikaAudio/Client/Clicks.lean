import MikaAudio.Client.Attempts
import MikaAudio.Client.Buttons
import MikaAudio.Client.Connect

/-!
# What a click does

The listeners of `ClientActivity` go to the modules through the fields of `ModuleManager`, and so
does its `ModuleThread`.  `setSocket` sets these fields one after the other, on the thread of the
callbacks of `NsdManager`, and any of its statements before may throw; nothing but the order of
the messages keeps the others from a field that is `null`.  A call in the wrong module is an
`IllegalStateException`, which the listeners of the keys and the toggle ignore: that click is
lost.

`clicks_arrive`: no order of clicks, messages and callbacks comes to a field that is not set, and
no click on an enabled button is lost.
-/

namespace MikaAudio.Client

open Thread
open Interleave (Reach run)
open Buttons (UiMessage)

/-- The key code its listener sends; the keyboard has no listener. -/
def Key.code : Key → Option JInt
  | .click => some 23
  | .back => some 4
  | .home => some 3
  | .apps => some 187
  | .up => some 19
  | .down => some 20
  | .left => some 21
  | .right => some 22
  | .keyboard => none

/-- A `ModuleThread`. -/
structure ModuleThread where
  currModule : Module := .exit
  requests : List Module := []
  pc : ModulePc := .idle

/-- The `ModuleThread` is about to call a method of a field that is `null`. -/
def ModulePc.meetsNull (c : Control) : ModulePc → Bool
  | .stopTest => c.frameModule.isNone
  | .exit => c.inputModule.isNone
  | .init .testRunning => c.frameModule.isNone || c.socket.isNone
  | _ => false

/-- The client.  The objects made for a connection are named by the number of its socket.  `told`
says that `setSocket` has posted `HANDLER_CONNECTED` and not yet set `connected`, `crashed` that a
field was `null` and the exception has ended the process.  `posted` are the messages to the
`InputThread`s and `started` the `FrameModule`s whose `start` was called.  `pressed` are the codes
of the clicks on keys, with those of the key events while `currModule` was `MODULE_INPUT`, and
`toggled` counts the clicks on the toggle; the program keeps none of these four. -/
structure Clicks where
  control : Control := {}
  told : Bool := false
  threads : Nat → ModuleThread := fun _ => {}
  uiQueue : List UiMessage := []
  buttons : Buttons := {}
  crashed : Bool := false
  posted : List (Nat × InputMsg) := []
  started : List Nat := []
  pressed : List JInt := []
  toggled : Nat := 0

namespace Clicks

/-- What happens next. -/
inductive Label
  /-- `connect()`, `onDestroy()`, a callback of `NsdManager` or the next statement of one. -/
  | control (l : Control.Label)
  /-- `ModuleManager.onDestroy()`, which `onPause` calls. -/
  | onDestroy
  /-- The UI handler comes to its next message. -/
  | uiMessage
  /-- A click on one of the keys. -/
  | click (k : Key)
  /-- `onDispatchKeyEvent(keyEvent)`. -/
  | dispatchKeyEvent (actionUp : Bool) (keyCode : JInt)
  /-- A click on the toggle. -/
  | toggle
  /-- A click on one of the buttons that switch the module. -/
  | switch (m : Module)
  /-- A `ModuleThread` makes its next operation, on a `FrameModule` in any state. -/
  | module (k : Nat) (r : Reply Env) (frame : FrameModule)
  /-- Its next statement throws an `IOException`. -/
  | ioException (k : Nat)

/-- The next statement of `setSocket` posts `HANDLER_CONNECTED`. -/
def tells (l : Control.Label) (s : Clicks) : Bool :=
  match l, s.control.pc with
  | .next _, .setConnected _ => !s.told
  | _, _ => false

/-- A step of the `P2PManager`, with the calls of `setSocket` in it. -/
def stepControl (l : Control.Label) (s : Clicks) : Option Clicks :=
  if s.tells l then some { s with told := true, uiQueue := s.uiQueue ++ [.connected] }
  else
    match l with
    | .onModule _ => none
    | .next ok =>
      (Control.step (.next ok) s.control).map fun c => { s with control := c, told := false }
    | l => (Control.step l s.control).map fun c => { s with control := c }

/-- `handleMessage(msg)`. -/
def handleMessage (msg : UiMessage) (s : Clicks) : Clicks :=
  { s with
    buttons := s.buttons.handleMessage msg
    control :=
      match msg with
      | .module m =>
        { s.control with
          currModule := m
          connected := if m = .exit then false else s.control.connected }
      | _ => s.control }

/-- `getInputModule().sendInput(key)`, where the `IllegalStateException` is ignored. -/
def sendInput (key : JInt) (s : Clicks) : Clicks :=
  if s.control.currModule ≠ .input then s
  else match s.control.inputModule with
    | some i => { s with posted := s.posted ++ [(i, .key key)] }
    | none => { s with crashed := true }

/-- `getFrameModule().start()`, where the `IllegalStateException` is ignored. -/
def start (s : Clicks) : Clicks :=
  if s.control.currModule ≠ .frame then s
  else match s.control.frameModule with
    | some f => { s with started := s.started ++ [f] }
    | none => { s with crashed := true }

/-- `switchModule(module)`, whose `IllegalStateException` nobody catches. -/
def switchModule (m : Module) (s : Clicks) : Clicks :=
  match s.control.moduleThread with
  | some k =>
    { s with
      threads := Function.update s.threads k
        { s.threads k with requests := (s.threads k).requests ++ [m] } }
  | none => { s with crashed := true }

/-- The button that switches to a module can be clicked. -/
def switchable (b : Buttons) : Module → Bool
  | .input => b.input.clickable
  | .frame => b.frame.clickable
  | .exit => false

/-- The `ModuleThread`'s memory; what it sees of the `FrameModule` is given. -/
def view (th : ModuleThread) (frame : FrameModule) : Memory :=
  { currModule := th.currModule, requests := th.requests, frame := frame }

/-- The next operation of a `ModuleThread`. -/
def stepModule (k : Nat) (r : Reply Env) (frame : FrameModule) (s : Clicks) : Option Clicks :=
  if (s.threads k).pc.meetsNull s.control then some { s with crashed := true }
  else
    ((moduleOp frame.socketPort (s.threads k).pc).exec r (view (s.threads k) frame)).map
      fun next =>
        { s with
          threads := Function.update s.threads k
            { currModule := next.1.currModule, requests := next.1.requests, pc := next.2 }
          uiQueue := s.uiQueue ++ next.1.uiQueue.map .module
          posted := s.posted ++ next.1.posted.map fun msg => (s.control.inputModule.getD 0, msg) }

/-- One step; a process that was ended makes none. -/
def step (l : Label) (s : Clicks) : Option Clicks :=
  if s.crashed then none
  else match l with
    | .control l => s.stepControl l
    | .onDestroy =>
      if s.control.connected ∧ s.control.currModule = .frame ∧ s.control.frameModule = none then
        some { s with crashed := true }
      else some s
    | .uiMessage =>
      match s.uiQueue with
      | msg :: rest => some (handleMessage msg { s with uiQueue := rest })
      | [] => none
    | .click key =>
      if (s.buttons.keys key).clickable then
        match key.code with
        | some code => some (sendInput code { s with pressed := s.pressed ++ [code] })
        | none => some s
      else none
    | .dispatchKeyEvent actionUp keyCode =>
      if actionUp then
        if s.control.currModule = .input then
          some (sendInput keyCode { s with pressed := s.pressed ++ [keyCode] })
        else some (s.sendInput keyCode)
      else some s
    | .toggle =>
      if s.buttons.toggle then some (start { s with toggled := s.toggled + 1 }) else none
    | .switch m => if switchable s.buttons m then some (s.switchModule m) else none
    | .module k r frame => s.stepModule k r frame
    | .ioException k =>
      if (s.threads k).pc.throws then
        some { s with
          threads := Function.update s.threads k { s.threads k with pc := .init .failed } }
      else none

/-- Any order. -/
abbrev Any : Label → Clicks → Prop := fun _ _ => True

/-! ### The fields are set in their order -/

/-- What `setSocket` has come past is set, and the last field comes after the others. -/
structure Ordered (c : Control) : Prop where
  socket : c.pc.socket?.isSome = true → c.socket.isSome = true
  moduleThread : 2 ≤ c.pc.stage → c.moduleThread.isSome = true
  inputModule : 3 ≤ c.pc.stage → c.inputModule.isSome = true
  frameModule : 4 ≤ c.pc.stage → c.frameModule.isSome = true
  last : c.frameModule.isSome = true →
    c.socket.isSome = true ∧ c.moduleThread.isSome = true ∧ c.inputModule.isSome = true

section Ordered

variable {c d : Control} {ok : Bool}

/-- Outside of `setSocket` nothing is asked of the place. -/
theorem Ordered.outside (h : Ordered c) (connected discovering discovered : Bool)
    (resolving : Nat) {pc : ResolvedPc} (hpc : pc.socket? = none) (hstage : pc.stage = 0) :
    Ordered { c with
      connected := connected
      discovering := discovering
      discovered := discovered
      resolving := resolving
      pc := pc } := by
  refine ⟨fun hs => ?_, fun hs => ?_, fun hs => ?_, fun hs => ?_, h.last⟩
  · rw [hpc] at hs
    cases hs
  all_goals
    dsimp only at hs
    rw [hstage] at hs
    omega

theorem Ordered.resolvedStep (h : Ordered c) (hst : c.resolvedStep ok = some d) :
    Ordered d ∧ d.currModule = c.currModule ∧ (d.frameModule = none → c.frameModule = none) := by
  obtain ⟨hsocket, hthread, hinput, hframe, hlast⟩ := id h
  unfold Control.resolvedStep at hst
  cases hpc : c.pc with
  | idle => simp only [hpc] at hst; cases hst
  | newSocket =>
    simp only [hpc] at hst
    cases ok with
    | false =>
      cases hst
      exact ⟨h.outside _ _ _ _ rfl rfl, rfl, id⟩
    | true =>
      cases hst
      refine ⟨⟨fun _ => rfl, fun hs => ?_, fun hs => ?_, fun hs => ?_, fun hf => ?_⟩, rfl, id⟩
      · exact absurd hs (show ¬ 2 ≤ 1 by decide)
      · exact absurd hs (show ¬ 3 ≤ 1 by decide)
      · exact absurd hs (show ¬ 4 ≤ 1 by decide)
      · exact ⟨rfl, (hlast hf).2⟩
  | setSoTimeout k | getInputStream k | getOutputStream k =>
    rw [hpc] at hsocket
    simp only [hpc] at hst
    cases ok with
    | false =>
      cases hst
      exact ⟨h.outside _ _ _ _ rfl rfl, rfl, id⟩
    | true =>
      cases hst
      refine ⟨⟨fun _ => hsocket rfl, fun hs => ?_, fun hs => ?_, fun hs => ?_, hlast⟩, rfl, id⟩
      · exact absurd hs (show ¬ 2 ≤ 1 by decide)
      · exact absurd hs (show ¬ 3 ≤ 1 by decide)
      · exact absurd hs (show ¬ 4 ≤ 1 by decide)
  | newModuleThread k =>
    rw [hpc] at hsocket
    simp only [hpc] at hst
    cases hst
    refine ⟨⟨fun _ => hsocket rfl, fun _ => rfl, fun hs => ?_, fun hs => ?_, fun hf => ?_⟩, rfl, id⟩
    · exact absurd hs (show ¬ 3 ≤ 2 by decide)
    · exact absurd hs (show ¬ 4 ≤ 2 by decide)
    · exact ⟨(hlast hf).1, rfl, (hlast hf).2.2⟩
  | newInputModule k =>
    rw [hpc] at hsocket hthread
    simp only [hpc] at hst
    cases hst
    refine ⟨⟨fun _ => hsocket rfl, fun _ => hthread (Nat.le_refl 2), fun _ => rfl, fun hs => ?_,
      fun hf => ?_⟩, rfl, id⟩
    · exact absurd hs (show ¬ 4 ≤ 3 by decide)
    · exact ⟨(hlast hf).1, (hlast hf).2.1, rfl⟩
  | newFrameModule k =>
    -- the last field, and the others are set
    rw [hpc] at hsocket hthread hinput
    simp only [hpc] at hst
    cases hst
    have hset := hthread (show 2 ≤ 3 by decide)
    have hset' := hinput (Nat.le_refl 3)
    exact ⟨⟨fun _ => hsocket rfl, fun _ => hset, fun _ => hset', fun _ => rfl,
      fun _ => ⟨hsocket rfl, hset, hset'⟩⟩, rfl, nofun⟩
  | setConnected k | stopDiscovery =>
    simp only [hpc] at hst
    cases hst
    exact ⟨h.outside _ _ _ _ rfl rfl, rfl, id⟩
  | catchDestroy =>
    simp only [hpc, Control.onDestroy] at hst
    cases hst
    split_ifs
    · exact ⟨h.outside _ _ _ _ rfl rfl, rfl, id⟩
    · exact ⟨h.outside _ _ _ _ rfl rfl, rfl, id⟩
  | catchConnect =>
    simp only [hpc, Control.connect] at hst
    cases hst
    split_ifs
    · exact ⟨h.outside _ _ _ _ rfl rfl, rfl, id⟩
    · exact ⟨h.outside _ _ _ _ rfl rfl, rfl, id⟩

/-- **A step of the `P2PManager` sets the fields in their order**, and none of them to `null`. -/
theorem Ordered.step {l : Control.Label} (h : Ordered c) (hl : ∀ m, l ≠ .onModule m)
    (hst : Control.step l c = some d) :
    Ordered d ∧ d.currModule = c.currModule ∧ (d.frameModule = none → c.frameModule = none) := by
  obtain ⟨hsocket, hthread, hinput, hframe, hlast⟩ := id h
  cases l with
  | connect =>
    simp only [Control.step, Control.connect, Option.some.injEq] at hst
    rw [← hst]
    split_ifs
    · exact ⟨h, rfl, id⟩
    · exact ⟨⟨hsocket, hthread, hinput, hframe, hlast⟩, rfl, id⟩
  | onDestroy =>
    simp only [Control.step, Control.onDestroy, Option.some.injEq] at hst
    rw [← hst]
    split_ifs
    · exact ⟨⟨hsocket, hthread, hinput, hframe, hlast⟩, rfl, id⟩
    · exact ⟨h, rfl, id⟩
  | onServiceFound matching | onResolveFailed =>
    rw [Control.step] at hst
    split_ifs at hst
    all_goals
      cases hst
      exact ⟨⟨hsocket, hthread, hinput, hframe, hlast⟩, rfl, id⟩
  | onServiceResolved =>
    rw [Control.step] at hst
    split_ifs at hst
    cases hst
    exact ⟨h.outside _ _ _ _ rfl rfl, rfl, id⟩
  | next ok => exact h.resolvedStep hst
  | onModule m => exact absurd rfl (hl m)

end Ordered

/-! ### What a `ModuleThread` posts -/

/-- Only modules that were entered go to the UI handler, and only `MODE_EXIT` to the
`InputThread`. -/
structure Posts (m m' : Memory) : Prop where
  ui : ∀ x ∈ m'.uiQueue, x ∈ m.uiQueue ∨ x ≠ .exit
  input : ∀ x ∈ m'.posted, x ∈ m.posted ∨ x = .exit

section Posts

variable {port : JInt} {m m' : Memory} {pc pc' : ModulePc} {r : Reply Env}

theorem Posts.of_eq (hui : m'.uiQueue = m.uiQueue) (hposted : m'.posted = m.posted) :
    Posts m m' :=
  ⟨fun _ hx => .inl (hui ▸ hx), fun _ hx => .inl (hposted ▸ hx)⟩

theorem Posts.postModule {module : Module} (hm : module ≠ .exit) (c : Module) :
    Posts m ({ m with currModule := c }.postModule module) := by
  refine ⟨fun x hx => ?_, fun x hx => .inl hx⟩
  rcases List.mem_append.mp hx with hx | hx
  · exact .inl hx
  · exact .inr (List.mem_singleton.mp hx ▸ hm)

theorem initOp_posts {p : InitPc}
    (h : (moduleOp port (.init p)).exec r m = some (m', pc')) : Posts m m' := by
  cases p with
  | testRunning | initFrameInput inputPort =>
    cases r with
    | env =>
      simp only [moduleOp, initOp, Op.exec] at h
      split_ifs at h
      · cases h
        exact .of_eq rfl rfl
      · cases h
        exact .of_eq rfl rfl
    | _ => cases h
  | writePort bs =>
    cases bs with
    | nil =>
      obtain ⟨_, rfl, hf⟩ := Op.exec_act h
      cases hf
      exact .of_eq rfl rfl
    | cons =>
      obtain ⟨_, rfl, rfl, rfl⟩ := Op.exec_write h
      exact .of_eq rfl rfl
  | readPort bs | final =>
    obtain ⟨_, rfl, rfl, rfl⟩ := Op.exec_read h
    exact .of_eq rfl rfl
  | receive =>
    obtain ⟨_, rfl, rfl, rfl⟩ := Op.exec_receive h
    exact .of_eq rfl rfl
  | newSocket | setDimensions data | failed =>
    obtain ⟨_, rfl, hf⟩ := Op.exec_act h
    cases hf
    exact .of_eq rfl rfl

theorem moduleOp_posts (h : (moduleOp port pc).exec r m = some (m', pc')) : Posts m m' := by
  cases pc with
  | init p => exact initOp_posts h
  | idle =>
    cases r with
    | env =>
      simp only [moduleOp, Op.exec] at h
      split at h
      · cases h
        exact .of_eq rfl rfl
      · cases h
    | _ => cases h
  | stopTask =>
    cases r with
    | env =>
      simp only [moduleOp, Op.exec] at h
      split at h
      · cases h
        exact .of_eq rfl rfl
      · cases h
        exact .of_eq rfl rfl
    | _ => cases h
  | stopTest =>
    obtain ⟨_, rfl, hf⟩ := Op.exec_act h
    cases hf
    exact .of_eq rfl rfl
  | stopWrite | inputWrite | frameWrite =>
    obtain ⟨_, rfl, rfl, rfl⟩ := Op.exec_write h
    exact .of_eq rfl rfl
  | stopWait | inputWait | exitWait | frameWait =>
    obtain ⟨_, rfl, rfl, rfl⟩ := Op.exec_read h
    exact .of_eq rfl rfl
  | inputDone =>
    obtain ⟨_, rfl, hf⟩ := Op.exec_act h
    cases hf
    exact .postModule (by decide) .input
  | exit =>
    obtain ⟨_, rfl, hf⟩ := Op.exec_act h
    cases hf
    refine ⟨fun x hx => .inl hx, fun x hx => ?_⟩
    exact (List.mem_append.mp hx).imp_right List.mem_singleton.mp
  | initDone ok =>
    obtain ⟨_, rfl, hf⟩ := Op.exec_act h
    cases hf
    cases ok with
    | true => exact .postModule (by decide) m.currModule
    | false => exact .of_eq rfl rfl
  | dead => cases h

end Posts

/-! ### The invariant -/

/-- Nothing has been enabled yet. -/
structure Untouched (s : Clicks) : Prop where
  uiQueue : s.uiQueue = []
  buttons : s.buttons = {}
  threads : ∀ k, s.threads k = {}

/-- No field is `null` where it is used, and the buttons show `currModule`. -/
structure Inv (s : Clicks) : Prop where
  alive : s.crashed = false
  ordered : Ordered s.control
  untouched : s.control.frameModule = none → Untouched s
  currModule : s.control.currModule = s.buttons.currModule
  messages : .disconnected ∉ s.uiQueue ∧ .module .exit ∉ s.uiQueue
  keys : ∀ k, (s.buttons.keys k).clickable = true ↔ s.buttons.currModule = .input
  toggle : s.buttons.toggle = true ↔ s.buttons.currModule = .frame
  posted : s.posted.filterMap (·.2.key?) = s.pressed
  started : s.started.length = s.toggled

variable {s t : Clicks} {l : Label}

theorem Inv.touched (h : Inv s) (hm : s.control.currModule ≠ .exit) :
    s.control.inputModule.isSome = true ∧ s.control.frameModule.isSome = true := by
  have hframe : s.control.frameModule.isSome = true := by
    cases hf : s.control.frameModule with
    | some f => rfl
    | none =>
      refine absurd ?_ hm
      rw [h.currModule, (h.untouched hf).buttons]
  exact ⟨(h.ordered.last hframe).2.2, hframe⟩

theorem Inv.set (h : Inv s) (h' : s.uiQueue ≠ [] ∨ s.buttons ≠ {} ∨ ∃ k, s.threads k ≠ {}) :
    s.control.frameModule.isSome = true := by
  cases hf : s.control.frameModule with
  | some f => rfl
  | none =>
    obtain ⟨hqueue, hbuttons, hthreads⟩ := h.untouched hf
    rcases h' with hne | hne | ⟨k, hne⟩
    · exact absurd hqueue hne
    · exact absurd hbuttons hne
    · exact absurd (hthreads k) hne

theorem Inv.control {l : Control.Label} {c : Control} (h : Inv s) (hl : ∀ m, l ≠ .onModule m)
    (hst : Control.step l s.control = some c) (told : Bool) :
    Inv { s with control := c, told := told } := by
  obtain ⟨hordered, hmodule, hframe⟩ := h.ordered.step hl hst
  exact ⟨h.alive, hordered, fun hf => ⟨(h.untouched (hframe hf)).uiQueue,
    (h.untouched (hframe hf)).buttons, (h.untouched (hframe hf)).threads⟩,
    hmodule.trans h.currModule, h.messages, h.keys, h.toggle, h.posted, h.started⟩

theorem Inv.stepControl {l : Control.Label} (h : Inv s) (hst : s.stepControl l = some t) :
    Inv t := by
  unfold Clicks.stepControl at hst
  split_ifs at hst with htells
  · cases hst
    -- all four fields are set when the message is posted
    have hframe : s.control.frameModule.isSome = true := by
      unfold tells at htells
      split at htells
      · rename_i k hpc
        refine h.ordered.frameModule ?_
        rw [hpc]
        exact Nat.le_refl 4
      · cases htells
    refine ⟨h.alive, h.ordered, fun hf => ?_, h.currModule, ?_, h.keys, h.toggle, h.posted,
      h.started⟩
    · rw [hf] at hframe
      cases hframe
    · simpa using h.messages
  · cases l with
    | onModule m => cases hst
    | next ok =>
      obtain ⟨c, hc, rfl⟩ := Option.map_eq_some_iff.mp hst
      exact h.control (by rintro m ⟨⟩) hc false
    | connect | onDestroy | onServiceFound matching | onResolveFailed | onServiceResolved =>
      obtain ⟨c, hc, rfl⟩ := Option.map_eq_some_iff.mp hst
      exact h.control (by rintro m ⟨⟩) hc s.told

theorem Inv.uiMessage {msg : UiMessage} {rest : List UiMessage} (h : Inv s)
    (hqueue : s.uiQueue = msg :: rest) : Inv (handleMessage msg { s with uiQueue := rest }) := by
  have hframe := h.set (.inl (by rw [hqueue]; exact List.cons_ne_nil _ _))
  have htouched : s.control.frameModule ≠ none := Option.isSome_iff_ne_none.mp hframe
  obtain ⟨hlost, hexit⟩ := h.messages
  rw [hqueue, List.mem_cons, not_or] at hlost hexit
  have hordered := h.ordered
  cases msg with
  | connected =>
    exact ⟨h.alive, h.ordered, fun hf => absurd hf htouched, h.currModule, ⟨hlost.2, hexit.2⟩,
      h.keys, h.toggle, h.posted, h.started⟩
  | disconnected => exact absurd rfl hlost.1
  | module m =>
    have hfields : Ordered { s.control with
        currModule := m
        connected := if m = .exit then false else s.control.connected } :=
      ⟨hordered.socket, hordered.moduleThread, hordered.inputModule, hordered.frameModule,
        hordered.last⟩
    cases m with
    | exit => exact absurd rfl hexit.1
    | input =>
      have hchanged := Buttons.changed_input (s := s.buttons)
      refine ⟨h.alive, hfields, fun hf => absurd hf htouched, rfl, ⟨hlost.2, hexit.2⟩, fun k => ?_,
        iff_of_false Bool.false_ne_true (by rintro ⟨⟩), h.posted, h.started⟩
      exact iff_of_true (hchanged.keys k) rfl
    | frame =>
      have hchanged := Buttons.changed_frame (s := s.buttons)
      refine ⟨h.alive, hfields, fun hf => absurd hf htouched, rfl, ⟨hlost.2, hexit.2⟩, fun k => ?_,
        iff_of_true rfl rfl, h.posted, h.started⟩
      exact iff_of_false (Bool.eq_false_iff.mp (hchanged.keys k)) (by rintro ⟨⟩)

theorem Inv.sendInput (h : Inv s) (hm : s.control.currModule = .input) (key : JInt) :
    Inv (Clicks.sendInput key { s with pressed := s.pressed ++ [key] }) := by
  obtain ⟨hinput, hframe⟩ := h.touched (by rw [hm]; decide)
  obtain ⟨i, hi⟩ := Option.isSome_iff_exists.mp hinput
  unfold Clicks.sendInput
  rw [if_neg (not_not.mpr hm)]
  dsimp only
  rw [hi]
  refine ⟨h.alive, h.ordered, fun hf => ?_, h.currModule, h.messages, h.keys, h.toggle, ?_,
    h.started⟩
  · exact absurd hf (Option.isSome_iff_ne_none.mp hframe)
  · dsimp only
    rw [List.filterMap_append, h.posted]
    rfl

theorem Inv.start (h : Inv s) (hm : s.control.currModule = .frame) :
    Inv (Clicks.start { s with toggled := s.toggled + 1 }) := by
  obtain ⟨-, hframe⟩ := h.touched (by rw [hm]; decide)
  obtain ⟨f, hf⟩ := Option.isSome_iff_exists.mp hframe
  unfold Clicks.start
  rw [if_neg (not_not.mpr hm)]
  dsimp only
  rw [hf]
  refine ⟨h.alive, h.ordered, fun hnone => ?_, h.currModule, h.messages, h.keys, h.toggle,
    h.posted, ?_⟩
  · exact absurd hnone (Option.isSome_iff_ne_none.mp hframe)
  · dsimp only
    rw [List.length_append, h.started]
    rfl

theorem Inv.switchModule {m : Module} (h : Inv s) (hm : switchable s.buttons m = true) :
    Inv (s.switchModule m) := by
  have hframe := h.set (.inr (.inl fun hb => by
    rw [hb] at hm
    cases m with
    | _ => cases hm))
  obtain ⟨k, hk⟩ := Option.isSome_iff_exists.mp (h.ordered.last hframe).2.1
  unfold Clicks.switchModule
  rw [hk]
  exact ⟨h.alive, h.ordered, fun hf => absurd hf (Option.isSome_iff_ne_none.mp hframe),
    h.currModule, h.messages, h.keys, h.toggle, h.posted, h.started⟩

/-- A `ModuleThread` without requests stays where it is, and one with them has its fields. -/
theorem Inv.not_meetsNull (h : Inv s) (k : Nat) :
    (s.threads k).pc.meetsNull s.control = false := by
  cases hf : s.control.frameModule with
  | none =>
    rw [(h.untouched hf).threads k]
    rfl
  | some f =>
    have hlast := h.ordered.last (by rw [hf]; rfl)
    obtain ⟨a, ha⟩ := Option.isSome_iff_exists.mp hlast.1
    obtain ⟨i, hi⟩ := Option.isSome_iff_exists.mp hlast.2.2
    unfold ModulePc.meetsNull
    rw [hf, ha, hi]
    split
    all_goals rfl

theorem Inv.stepModule {k : Nat} {r : Reply Env} {frame : FrameModule} (h : Inv s)
    (hst : s.stepModule k r frame = some t) : Inv t := by
  rw [Clicks.stepModule, h.not_meetsNull k, if_neg Bool.false_ne_true] at hst
  obtain ⟨⟨m, pc⟩, hexec, rfl⟩ := Option.map_eq_some_iff.mp hst
  have hframe : s.control.frameModule.isSome = true := by
    refine h.set (.inr (.inr ⟨k, fun hk => ?_⟩))
    rw [hk] at hexec
    cases r with
    | _ => cases hexec
  obtain ⟨hui, hinput⟩ := moduleOp_posts hexec
  refine ⟨h.alive, h.ordered, fun hf => absurd hf (Option.isSome_iff_ne_none.mp hframe),
    h.currModule, ⟨?_, ?_⟩, h.keys, h.toggle, ?_, h.started⟩
  · intro hmem
    rcases List.mem_append.mp hmem with hmem | hmem
    · exact h.messages.1 hmem
    · obtain ⟨x, -, hx⟩ := List.mem_map.mp hmem
      cases hx
  · intro hmem
    rcases List.mem_append.mp hmem with hmem | hmem
    · exact h.messages.2 hmem
    · obtain ⟨x, hx, heq⟩ := List.mem_map.mp hmem
      cases heq
      exact ((hui _ hx).resolve_left List.not_mem_nil) rfl
  · -- `MODE_EXIT` is no key
    dsimp only
    rw [List.filterMap_append, h.posted, List.filterMap_map]
    have hnone : m.posted.filterMap ((·.2.key?) ∘ fun msg => (s.control.inputModule.getD 0, msg)) =
        [] := by
      refine List.filterMap_eq_nil_iff.mpr fun x hx => ?_
      rw [(hinput x hx).resolve_left List.not_mem_nil]
      rfl
    rw [hnone, List.append_nil]

theorem Inv.step (h : Inv s) (hst : step l s = some t) : Inv t := by
  unfold Clicks.step at hst
  rw [if_neg (Bool.eq_false_iff.mp h.alive)] at hst
  cases l with
  | control l => exact h.stepControl hst
  | onDestroy =>
    dsimp only at hst
    split_ifs at hst with hnull
    · obtain ⟨-, hframe⟩ := h.touched (by rw [hnull.2.1]; decide)
      rw [hnull.2.2] at hframe
      cases hframe
    · exact Option.some.inj hst ▸ h
  | uiMessage =>
    dsimp only at hst
    split at hst
    · cases hst
      exact h.uiMessage ‹_›
    · cases hst
  | click key =>
    dsimp only at hst
    rw [Option.ite_none_right_eq_some] at hst
    obtain ⟨hclickable, hst⟩ := hst
    have hm := h.currModule.trans ((h.keys key).mp hclickable)
    split at hst
    · cases hst
      exact h.sendInput hm _
    · cases hst
      exact h
  | dispatchKeyEvent actionUp keyCode =>
    dsimp only at hst
    split_ifs at hst with hup hm
    · exact Option.some.inj hst ▸ h.sendInput hm keyCode
    · rw [Clicks.sendInput, if_pos hm] at hst
      exact Option.some.inj hst ▸ h
    · exact Option.some.inj hst ▸ h
  | toggle =>
    dsimp only at hst
    rw [Option.ite_none_right_eq_some] at hst
    obtain ⟨htoggle, hst⟩ := hst
    exact Option.some.inj hst ▸ h.start (h.currModule.trans (h.toggle.mp htoggle))
  | switch m =>
    dsimp only at hst
    rw [Option.ite_none_right_eq_some] at hst
    exact Option.some.inj hst.2 ▸ h.switchModule hst.1
  | module k r frame => exact h.stepModule hst
  | ioException k =>
    dsimp only at hst
    rw [Option.ite_none_right_eq_some] at hst
    obtain ⟨hthrows, hst⟩ := hst
    have hframe := h.set (.inr (.inr ⟨k, fun hk => by rw [hk] at hthrows; cases hthrows⟩))
    cases hst
    exact ⟨h.alive, h.ordered, fun hf => absurd hf (Option.isSome_iff_ne_none.mp hframe),
      h.currModule, h.messages, h.keys, h.toggle, h.posted, h.started⟩

theorem Inv.init : Inv {} := by
  have hordered : Ordered {} := by
    constructor
    all_goals decide
  refine ⟨rfl, hordered, fun _ => ⟨rfl, rfl, fun _ => rfl⟩, rfl,
    ⟨List.not_mem_nil, List.not_mem_nil⟩, fun k => ?_, ?_, rfl, rfl⟩
  · exact iff_of_false Bool.false_ne_true (by decide)
  · exact iff_of_false Bool.false_ne_true (by decide)

/-- **No click is lost and none meets a field that is `null`**. -/
theorem clicks_arrive (h : Reach step Any {} s) :
    s.crashed = false ∧ s.posted.filterMap (·.2.key?) = s.pressed ∧
      s.started.length = s.toggled := by
  have hs : Inv s := h.invariant .init fun _ _ _ hs _ hst => hs.step hst
  exact ⟨hs.alive, hs.posted, hs.started⟩

/-- The first `new Socket` fails.  The second one does not, and the button is clicked before
`setSocket` has returned. -/
def firstClicks : List Label :=
  [.control .connect, .control (.onServiceFound true), .control .onServiceResolved,
    .control (.next false), .control (.next true), .control (.next true),
    .control (.onServiceFound true), .control .onServiceResolved] ++
  List.replicate 8 (.control (.next true)) ++
  [.uiMessage, .switch .input, .control (.next true), .module 0 (.env ⟨0⟩) {},
    .module 0 (.done true) {}, .module 0 (.read (.byte ack)) {}, .module 0 (.env ⟨0⟩) {},
    .uiMessage, .click .click, .dispatchKeyEvent true 66]

/-- A click and a key event. -/
theorem clicks_arrive_two : ∃ s : Clicks, s.pressed = [23, 66] ∧ s.crashed = false ∧
    s.posted.filterMap (·.2.key?) = [23, 66] := by
  obtain ⟨s, hs, hk⟩ := Reach.exists_of_run (show
    (run (fun l s => if Any l s then step l s else none) firstClicks {}).map (·.pressed) =
      some [23, 66] by decide)
  obtain ⟨halive, hposted, -⟩ := clicks_arrive hs
  exact ⟨s, hk, halive, hposted.trans hk⟩

end Clicks

end MikaAudio.Client
