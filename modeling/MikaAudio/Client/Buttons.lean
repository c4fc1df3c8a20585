import MikaAudio.Protocol
import MikaAudio.Lib.Interleave

/-!
# Which buttons can be pressed

The UI thread handles the messages of `ModuleManager`: `ModuleManager` sets its
`currModule`, and `ClientActivity` enables and disables the two buttons that switch the
module and the nine keys.  `onModuleChanged` disables the button of the new module, but
not one of its branches enables the other button again; and `HANDLER_DISCONNECTED` leaves
`currModule` as it is.

So the buttons fit `currModule` as long as a connection is used for one module only, and
not before a module is entered if the last connection was lost in one (`fits_iff`).
-/

namespace MikaAudio.Client

open Interleave (Reach run)

/-- A `ButtonView`; it is `transparent` when its alpha is `TRANSPARENCY`. -/
structure ButtonView where
  clickable : Bool := false
  transparent : Bool := true
  deriving DecidableEq

/-- `ButtonView.setClickable(clickable)`. -/
def ButtonView.setClickable (clickable : Bool) (_ : ButtonView) : ButtonView :=
  { clickable, transparent := !clickable }

/-- The buttons for the keys. -/
inductive Key
  | click
  | back
  | home
  | apps
  | up
  | down
  | left
  | right
  | keyboard
  deriving DecidableEq

/-- The order in which `ClientActivity.setClickable` comes to them. -/
def Key.all : List Key := [.click, .back, .home, .apps, .up, .down, .left, .right, .keyboard]

/-- `setClickable(clickable)` for one of the keys. -/
def Key.set (clickable : Bool) (keys : Key → ButtonView) (k : Key) : Key → ButtonView :=
  fun k' => if k' = k then (keys k).setClickable clickable else keys k'

/-- The fields of `ClientActivity` and `ModuleManager` that the UI handler changes, less
`ModuleManager.connected`, which nothing of this reads.  `entered` are the modules of this
connection, the last one first, and `lost` is what `currModule` was when it began; the program
keeps neither. -/
structure Buttons where
  input : ButtonView := {}
  frame : ButtonView := {}
  keys : Key → ButtonView := fun _ => {}
  toggle : Bool := false
  connected : Bool := false
  currModule : Module := .exit
  entered : List Module := []
  lost : Module := .exit

namespace Buttons

/-- `setClickable(clickable)`: one button after the other. -/
def setClickable (clickable : Bool) (s : Buttons) : Buttons :=
  { s with keys := Key.all.foldl (Key.set clickable) s.keys }

/-- `onConnect()`. -/
def onConnect (s : Buttons) : Buttons :=
  { s with
    input := s.input.setClickable true
    frame := s.frame.setClickable true
    connected := true }

/-- `onDisconnect()`. -/
def onDisconnect (s : Buttons) : Buttons :=
  { setClickable false { s with
      input := s.input.setClickable false
      frame := s.frame.setClickable false } with connected := false }

/-- `onModuleChanged(module)`. -/
def onModuleChanged (module : Module) (s : Buttons) : Buttons :=
  match module with
  | .input => setClickable true { s with input := s.input.setClickable false, toggle := false }
  | .frame => setClickable false { s with frame := s.frame.setClickable false, toggle := true }
  | .exit => s

/-- A message of the UI handler. -/
inductive UiMessage
  /-- `HANDLER_CONNECTED`. -/
  | connected
  /-- `HANDLER_DISCONNECTED`. -/
  | disconnected
  /-- `HANDLER_MODULE`. -/
  | module (module : Module)
  deriving DecidableEq

/-- `handleMessage(msg)`. -/
def handleMessage (msg : UiMessage) (s : Buttons) : Buttons :=
  match msg with
  | .connected => { s.onConnect with entered := [], lost := s.currModule }
  | .disconnected => s.onDisconnect
  | .module .exit => onDisconnect { s with currModule := .exit }
  | .module .input =>
    { onModuleChanged .input { s with currModule := .input } with entered := .input :: s.entered }
  | .module .frame =>
    { onModuleChanged .frame { s with currModule := .frame } with entered := .frame :: s.entered }

/-- A connection is made when there is none, and the other messages are for the one there
is. -/
def step (msg : UiMessage) (s : Buttons) : Option Buttons :=
  if msg = .connected ↔ s.connected = false then some (s.handleMessage msg) else none

/-- The buttons fit the module. -/
structure Fits (s : Buttons) : Prop where
  input : s.input.clickable = true ↔ s.currModule ≠ .input
  frame : s.frame.clickable = true ↔ s.currModule ≠ .frame
  keys : ∀ k, (s.keys k).clickable = true ↔ s.currModule = .input

/-- The connection was used for one module, or for none when the one before did not end in a
module. -/
def OneModule (s : Buttons) : Prop :=
  match s.entered with
  | [] => s.lost = .exit
  | m :: before => ∀ m' ∈ before, m' = m

variable {s t : Buttons} {msg : UiMessage}

/-! ### One message -/

theorem keys_setClickable (b : Bool) (k : Key) : ((setClickable b s).keys k).clickable = b := by
  cases k with
  | _ => rfl

theorem keys_onDisconnect (k : Key) : (s.onDisconnect.keys k).clickable = false := by
  simp only [onDisconnect, keys_setClickable]

/-- What `onModuleChanged` leaves as it is, and what it sets. -/
structure Changed (module : Module) (s t : Buttons) : Prop where
  currModule : t.currModule = module
  input : t.input.clickable = (decide (module ≠ .input) && s.input.clickable)
  frame : t.frame.clickable = (decide (module ≠ .frame) && s.frame.clickable)
  keys : ∀ k, (t.keys k).clickable = decide (module = .input)
  entered : t.entered = module :: s.entered
  connected : t.connected = s.connected

theorem changed_input : Changed .input s (s.handleMessage (.module .input)) where
  currModule := rfl
  input := rfl
  frame := rfl
  keys := fun k => by simp only [handleMessage, onModuleChanged, keys_setClickable]; rfl
  entered := rfl
  connected := rfl

theorem changed_frame : Changed .frame s (s.handleMessage (.module .frame)) where
  currModule := rfl
  input := rfl
  frame := rfl
  keys := fun k => by simp only [handleMessage, onModuleChanged, keys_setClickable]; rfl
  entered := rfl
  connected := rfl

theorem step_cases (h : step msg s = some t) :
    (msg = .connected ∧ s.connected = false ∧ t = s.handleMessage .connected) ∨
    (∃ m, m ≠ .exit ∧ s.connected = true ∧ Changed m s t) ∨
    (t.connected = false ∧ t.entered = s.entered ∧ ∀ k, (t.keys k).clickable = false) := by
  rw [step] at h
  split_ifs at h with hguard
  cases h
  cases msg with
  | connected => exact Or.inl ⟨rfl, hguard.mp rfl, rfl⟩
  | disconnected => exact Or.inr (Or.inr ⟨rfl, rfl, keys_onDisconnect⟩)
  | module m =>
    have hconnected : s.connected = true := by
      cases hc : s.connected with
      | true => rfl
      | false => cases hguard.mpr hc
    cases m with
    | exit => exact Or.inr (Or.inr ⟨rfl, rfl, keys_onDisconnect⟩)
    | input => exact Or.inr (Or.inl ⟨.input, nofun, hconnected, changed_input⟩)
    | frame => exact Or.inr (Or.inl ⟨.frame, nofun, hconnected, changed_frame⟩)

/-! ### Whole runs -/

/-- What the buttons show in a connection: a button is disabled from the first time on that its
module was entered. -/
structure Shows (s : Buttons) : Prop where
  idle : s.connected = false → ∀ k, (s.keys k).clickable = false
  input : s.connected = true → s.input.clickable = decide (.input ∉ s.entered)
  frame : s.connected = true → s.frame.clickable = decide (.frame ∉ s.entered)
  keys : s.connected = true → ∀ k, (s.keys k).clickable = decide (s.entered.head? = some .input)
  currModule : s.connected = true → s.currModule = s.entered.head?.getD s.lost
  entered : .exit ∉ s.entered

theorem Shows.step (h : Shows s) (hst : Buttons.step msg s = some t) : Shows t := by
  obtain ⟨rfl, hc, rfl⟩ | ⟨m, hm, hc, hchanged⟩ | ⟨hc, hentered, hkeys⟩ :=
    step_cases hst
  · refine ⟨nofun, fun _ => rfl, fun _ => rfl, fun _ k => ?_, fun _ => rfl, List.not_mem_nil⟩
    exact h.idle hc k
  · have hct := hchanged.connected.trans hc
    refine ⟨fun hf => absurd (hct.symm.trans hf) Bool.true_eq_false.mp, fun _ => ?_, fun _ => ?_,
      fun _ k => ?_, fun _ => ?_, ?_⟩
    · rw [hchanged.input, hchanged.entered, h.input hc]
      cases m with
      | _ => simp
    · rw [hchanged.frame, hchanged.entered, h.frame hc]
      cases m with
      | _ => simp
    · rw [hchanged.keys k, hchanged.entered]
      cases m with
      | _ => rfl
    · rw [hchanged.currModule, hchanged.entered]
      rfl
    · rw [hchanged.entered]
      exact List.not_mem_cons_of_ne_of_not_mem hm.symm h.entered
  · have hnot : ∀ {P : Prop}, t.connected = true → P := fun ht =>
      absurd (hc.symm.trans ht) Bool.false_ne_true
    exact ⟨fun _ => hkeys, hnot, hnot, hnot, hnot, hentered ▸ h.entered⟩

theorem eq_of_ne {m m' other : Module} (hm : m ≠ .exit) (hm' : m' ≠ .exit) (hother : other ≠ .exit)
    (hne : other ≠ m) (h : m' ≠ other) : m' = m := by
  cases m with
  | exit =>
    cases m' with
    | exit => rfl
    | _ => contradiction
  | input =>
    cases m' with
    | input => rfl
    | _ =>
      cases other with
      | _ => contradiction
  | frame =>
    cases m' with
    | frame => rfl
    | _ =>
      cases other with
      | _ => contradiction

theorem not_mem_iff {m other : Module} {before : List Module} (hexit : .exit ∉ m :: before)
    (hother : other ≠ .exit) (hne : other ≠ m) :
    other ∉ m :: before ↔ ∀ m' ∈ before, m' = m := by
  have hm : m ≠ .exit := fun heq => hexit (heq ▸ List.mem_cons_self)
  constructor
  · intro hnot m' hm'
    have hin : m' ∈ m :: before := List.mem_cons_of_mem m hm'
    exact eq_of_ne hm (fun heq => hexit (heq ▸ hin)) hother hne fun heq => hnot (heq ▸ hin)
  · intro hall hin
    rcases List.mem_cons.mp hin with heq | hin
    · exact hne heq
    · exact hne (hall other hin)

theorem Shows.fits_iff_lost (h : Shows s) (hc : s.connected = true) (he : s.entered = []) :
    Fits s ↔ s.lost = .exit := by
  have hmodule : s.currModule = s.lost := by
    rw [h.currModule hc, he]
    rfl
  have hinput : s.input.clickable = true := by
    rw [h.input hc, he]
    rfl
  have hframe : s.frame.clickable = true := by
    rw [h.frame hc, he]
    rfl
  have hkeys : ∀ k, (s.keys k).clickable = false := fun k => by
    rw [h.keys hc k, he]
    rfl
  constructor
  · intro hfits
    have hnotInput := hfits.input.mp hinput
    have hnotFrame := hfits.frame.mp hframe
    rw [hmodule] at hnotInput hnotFrame
    cases hlost : s.lost with
    | exit => rfl
    | input => exact absurd hlost hnotInput
    | frame => exact absurd hlost hnotFrame
  · intro hlost
    have hexit : s.currModule = .exit := hmodule.trans hlost
    exact ⟨by simp [hinput, hexit], by simp [hframe, hexit], fun k => by simp [hkeys k, hexit]⟩

theorem Shows.fits_iff_oneModule (h : Shows s) (hc : s.connected = true) :
    Fits s ↔ OneModule s := by
  unfold OneModule
  cases he : s.entered with
  | nil => exact h.fits_iff_lost hc he
  | cons m before =>
    have hinput := h.input hc
    have hframe := h.frame hc
    have hkeys := h.keys hc
    have hmodule := h.currModule hc
    have hexit := h.entered
    simp only [he, List.head?_cons, Option.getD_some] at hinput hframe hkeys hmodule hexit
    -- the button that is not of the last module shows whether that was entered before
    cases m with
    | exit => exact absurd List.mem_cons_self hexit
    | input =>
      refine Iff.trans ?_ (not_mem_iff hexit (show Module.frame ≠ .exit from nofun) nofun)
      have hne : s.currModule ≠ .frame := by
        rw [hmodule]
        nofun
      constructor
      · intro hfits
        exact of_decide_eq_true (hframe.symm.trans (hfits.frame.mpr hne))
      · intro hnot
        exact ⟨by simp [hinput, hmodule], by rw [hframe, hmodule]; simp [hnot],
          fun k => by simp [hkeys k, hmodule]⟩
    | frame =>
      refine Iff.trans ?_ (not_mem_iff hexit (show Module.input ≠ .exit from nofun) nofun)
      have hne : s.currModule ≠ .input := by
        rw [hmodule]
        nofun
      constructor
      · intro hfits
        exact of_decide_eq_true (hinput.symm.trans (hfits.input.mpr hne))
      · intro hnot
        exact ⟨by rw [hinput, hmodule]; simp [hnot], by simp [hframe, hmodule],
          fun k => by simp [hkeys k, hmodule]⟩

theorem Shows.reach (h : Reach Buttons.step (fun _ _ => True) {} s) : Shows s := by
  refine h.invariant ?_ fun _ _ _ hs _ hst => hs.step hst
  exact ⟨fun _ _ => rfl, nofun, nofun, nofun, nofun, List.not_mem_nil⟩

/-- **The buttons fit the module exactly in a connection used for one module**, or for none
when the one before did not end in a module. -/
theorem fits_iff (h : Reach step (fun _ _ => True) {} s) (hc : s.connected = true) :
    Fits s ↔ OneModule s :=
  (Shows.reach h).fits_iff_oneModule hc

/-- The screen of the server is left by ending the connection, and the next one is for the
keys. -/
theorem fits_reconnected : ∃ s : Buttons, s.connected = true ∧ s.currModule = .input ∧ Fits s := by
  obtain ⟨s, hs, hk⟩ := Reach.exists_of_run (show
    (run (fun l s => if True then step l s else none)
      [.connected, .module .frame, .module .exit, .connected, .module .input] {}).map
      (fun s => (s.connected, s.currModule, s.entered)) = some (true, .input, [.input]) by decide)
  simp only [Prod.mk.injEq] at hk
  refine ⟨s, hk.1, hk.2.1, (fits_iff hs hk.1).mpr ?_⟩
  rw [OneModule, hk.2.2]
  exact fun _ hm => absurd hm List.not_mem_nil

/-- **After the screen the keys**: the button for the screen stays disabled. -/
theorem frame_disabled : ¬ ∀ s : Buttons, Reach step (fun _ _ => True) {} s →
    s.connected = true → Fits s := by
  intro hclaim
  obtain ⟨s, hs, hk⟩ := Reach.exists_of_run (show
    (run (fun l s => if True then step l s else none)
      [.connected, .module .frame, .module .input] {}).map
      (fun s => (s.connected, s.currModule, s.frame.clickable)) = some (true, .input, false)
    by decide)
  simp only [Prod.mk.injEq] at hk
  have hframe := (hclaim s hs hk.1).frame.mpr (hk.2.1 ▸ nofun)
  rw [hk.2.2] at hframe
  cases hframe

end Buttons

end MikaAudio.Client
