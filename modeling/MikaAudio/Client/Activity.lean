import MikaAudio.Client.Discovery
import MikaAudio.Client.Buttons

/-!
# The activity and its discovery

`ClientActivity` asks for a discovery when it is created and when it is resumed without a
connection, and `onPause` stops the one there is.  In between the callbacks of `NsdManager` come,
and `setSocket` posts a `HANDLER_CONNECTED` that the UI thread handles later.  Methods and
callbacks are atomic steps, as in `Discovery`.

As long as `NsdManager` reports no failure of a start or a stop (`Working`):

* `searching_or_connected`: no call of `stopServiceDiscovery` is rejected; an activity in the
  foreground is connected, or about to be told so, or it is searching; and there is one discovery
  at most.
* `quiet_in_background`: none is left in the background, if `setSocket` does not fail there.
-/

namespace MikaAudio.Client

open Interleave (Reach run)
open Buttons (UiMessage)

/-- Which of its methods the activity has come to last. -/
inductive Lifecycle
  | launched
  | created
  | resumed
  | paused
  deriving DecidableEq

/-- The activity, its `P2PManager` and the queue of its `ModuleManager`'s handler. -/
structure Activity where
  lifecycle : Lifecycle := .launched
  discovery : Discovery := {}
  moduleThread : Bool := false
  uiQueue : List UiMessage := []
  buttons : Buttons := {}

namespace Activity

/-- What happens next. -/
inductive Label
  | onCreate
  | onResume
  | onPause
  /-- A callback of `NsdManager`. -/
  | callback (l : Discovery.Label)
  /-- The `ModuleThread` has entered a module, and posts `HANDLER_MODULE`. -/
  | moduleEntered (frame : Bool)
  /-- The UI handler comes to its next message. -/
  | uiMessage

/-- The others are called by the activity. -/
def isCallback : Discovery.Label → Bool
  | .connect => false
  | .onDestroy => false
  | _ => true

/-- No exception of `stopServiceDiscovery` has ended the process. -/
def Alive (s : Activity) : Prop := s.discovery.rejected = false

instance (s : Activity) : Decidable s.Alive := inferInstanceAs (Decidable (_ = _))

/-- One method, one callback or one message. -/
def step (l : Label) (s : Activity) : Option Activity :=
  if ¬ s.Alive then none
  else match l with
    | .onCreate =>
      if s.lifecycle = .launched then
        some { s with lifecycle := .created, discovery := s.discovery.connect }
      else none
    | .onResume =>
      if s.lifecycle = .created ∨ s.lifecycle = .paused then
        some { s with
          lifecycle := .resumed
          discovery := if s.buttons.connected then s.discovery else s.discovery.connect }
      else none
    | .onPause =>
      if s.lifecycle = .resumed then
        some { s with lifecycle := .paused, discovery := s.discovery.onDestroy.1 }
      else none
    | .callback l =>
      if isCallback l then
        (Discovery.step l s.discovery).map fun discovery =>
          { s with
            discovery := discovery
            moduleThread := s.moduleThread || decide (l = .onServiceResolved true)
            uiQueue :=
              if l = .onServiceResolved true then s.uiQueue ++ [.connected] else s.uiQueue }
      else none
    | .moduleEntered frame =>
      if s.moduleThread then
        some { s with uiQueue := s.uiQueue ++ [.module (if frame then .frame else .input)] }
      else none
    | .uiMessage =>
      match s.uiQueue with
      | msg :: rest => some { s with uiQueue := rest, buttons := s.buttons.handleMessage msg }
      | [] => none

/-- `NsdManager` does not report that a discovery failed to start or to stop. -/
def Working : Label → Activity → Prop
  | .callback l, _ => l.failure = false
  | _, _ => True

instance (l : Label) (s : Activity) : Decidable (Working l s) := by
  unfold Working
  split
  · infer_instance
  · infer_instance

/-- `setSocket` does not fail in the background. -/
def Calm : Label → Activity → Prop
  | .callback (.onServiceResolved false), s => s.lifecycle ≠ .paused
  | _, _ => True

instance (l : Label) (s : Activity) : Decidable (Calm l s) := by
  unfold Calm
  split
  · infer_instance
  · infer_instance

end Activity

/-! ### One discovery at a time -/

namespace Discovery

/-- No discovery is outstanding but the one of the current listener. -/
def Single (s : Discovery) : Prop := ∀ i, s.Outstanding i → s.discoveryListener = some i

variable {s t : Discovery} {i : Nat} {f : Request → Request}

theorem outstanding_of_note (hf : ∀ r, (f r).outstanding = true → r.outstanding = true) {j : Nat}
    (h : (s.note i f).Outstanding j) : s.Outstanding j := by
  by_cases hij : i = j
  · subst hij
    obtain ⟨r, hr, hout⟩ := h
    rw [note, List.getElem?_modify_eq] at hr
    obtain ⟨r', hr', rfl⟩ := Option.map_eq_some_iff.mp hr
    exact ⟨r', hr', hf r' hout⟩
  · exact (outstanding_note_ne hij).mp h

theorem Single.note (h : Single s) (hf : ∀ r, (f r).outstanding = true → r.outstanding = true) :
    Single (s.note i f) := fun j hj => h j (outstanding_of_note hf hj)

theorem asked_outstanding (r : Request) (h : ({ r with asked := true } : Request).outstanding) :
    r.outstanding = true := by
  simp [Request.outstanding] at h

theorem Single.connect (h : Single s) (htruthful : Truthful s) : Single s.connect := by
  unfold Discovery.connect
  split_ifs with hd
  · exact h
  · rintro j ⟨r, hr, hout⟩
    rcases Nat.lt_or_ge j s.requests.length with hlt | hge
    · -- an earlier one would be the current one, and the flag would tell
      have hj : s.Outstanding j := ⟨r, (List.getElem?_append_left hlt).symm.trans hr, hout⟩
      exact absurd (htruthful.flag.mpr ⟨j, h j hj, hj⟩) hd
    · have hlt : j < s.requests.length + 1 := by
        have := (List.getElem?_eq_some_iff.mp hr).1
        rwa [List.length_append] at this
      rw [Nat.le_antisymm (Nat.le_of_lt_succ hlt) hge]

theorem Single.stop (h : Single s) (listener : Option Nat) :
    Single (stopServiceDiscovery listener s).1 := by
  unfold stopServiceDiscovery
  cases listener with
  | none => exact h
  | some i =>
    dsimp only
    split_ifs
    · exact h.note asked_outstanding
    · exact h

theorem Single.onDestroy (h : Single s) : Single s.onDestroy.1 := by
  unfold Discovery.onDestroy
  split_ifs
  · exact Single.stop (s := { s with discovering := false }) h _
  · exact h

theorem Single.onServiceResolved (h : Single s) (htruthful : Truthful s) (ok : Bool) :
    Single (onServiceResolved ok s) := by
  cases ok with
  | true =>
    rw [Discovery.onServiceResolved, if_pos rfl]
    split_ifs
    · have hstop := h.stop s.discoveryListener
      dsimp only
      split_ifs
      · exact hstop
      · exact hstop
    · exact h
  | false =>
    obtain ⟨hdestroyed, -⟩ := htruthful.onDestroy
    rw [Discovery.onServiceResolved, if_neg Bool.false_ne_true]
    dsimp only
    split_ifs
    · exact h.onDestroy.connect hdestroyed
    · exact h.onDestroy

theorem Single.step (h : Single s) (htruthful : Truthful s) {l : Label}
    (hst : Discovery.step l s = some t) : Single t := by
  cases l with
  | connect =>
    cases hst
    exact h.connect htruthful
  | onDestroy =>
    cases hst
    exact h.onDestroy
  | onDiscoveryStarted i =>
    rw [Discovery.step] at hst
    split_ifs at hst with hun
    cases hst
    intro j hj
    refine h j ((outstanding_note (fun r hr => ?_) j).mp hj)
    rw [Unstarted, hr, Option.map_some, Option.some.injEq] at hun
    simp [Request.outstanding, hun]
  | onDiscoveryStopped i =>
    rw [Discovery.step] at hst
    split_ifs at hst
    cases hst
    exact h.note fun _ => id
  | onStartDiscoveryFailed i =>
    rw [Discovery.step] at hst
    split_ifs at hst
    cases hst
    refine Single.stop (h.note fun r hr => ?_) _
    simp [Request.outstanding] at hr
  | onStopDiscoveryFailed i =>
    rw [Discovery.step] at hst
    split_ifs at hst
    cases hst
    refine Single.stop (h.note fun r hr => ?_) _
    exact hr
  | onServiceFound matching =>
    simp only [Discovery.step] at hst
    split at hst
    · cases hst
    · cases hst
      exact h
  | onResolveFailed =>
    rw [Discovery.step] at hst
    split_ifs at hst
    cases hst
    exact h
  | onServiceResolved ok =>
    rw [Discovery.step] at hst
    split_ifs at hst
    cases hst
    exact Single.onServiceResolved (s := { s with resolving := s.resolving - 1 }) h
      (htruthful.congr rfl Iff.rfl rfl) ok

theorem discovering_connect : s.connect.discovering = true := by
  unfold Discovery.connect
  split_ifs with hd
  · exact hd
  · rfl

theorem discovering_onDestroy : s.onDestroy.1.discovering = false := by
  unfold Discovery.onDestroy
  split_ifs with hd
  · unfold stopServiceDiscovery
    cases s.discoveryListener with
    | none => rfl
    | some i =>
      dsimp only
      split_ifs
      · rfl
      · rfl
  · exact Bool.eq_false_iff.mpr hd

theorem discovering_step {l : Label} (hl : Activity.isCallback l = true)
    (hfailure : l.failure = false) (hresolved : ∀ ok, l ≠ .onServiceResolved ok)
    (hst : Discovery.step l s = some t) : t.discovering = s.discovering := by
  cases l with
  | connect | onDestroy => cases hl
  | onStartDiscoveryFailed i | onStopDiscoveryFailed i => cases hfailure
  | onServiceResolved ok => exact absurd rfl (hresolved ok)
  | onDiscoveryStarted i | onDiscoveryStopped i | onResolveFailed =>
    rw [Discovery.step] at hst
    split_ifs at hst
    cases hst
    rfl
  | onServiceFound matching =>
    simp only [Discovery.step] at hst
    split at hst
    · cases hst
    · cases hst
      rfl

/-- A `setSocket` that fails begins a new discovery, and one that succeeds ends it. -/
theorem discovering_onServiceResolved (h : Truthful s) (ok : Bool) :
    (onServiceResolved ok s).discovering = !ok := by
  cases ok with
  | false =>
    rw [Discovery.onServiceResolved, if_neg Bool.false_ne_true]
    dsimp only
    rw [if_pos h.onDestroy.2]
    exact discovering_connect
  | true =>
    rw [Discovery.onServiceResolved, if_pos rfl]
    split_ifs with hd
    · obtain ⟨i, -, hstop⟩ := stopServiceDiscovery_searching (h.flag.mp hd)
      rw [hstop]
      rfl
    · rfl

end Discovery

namespace Activity

/-! ### The invariant -/

/-- The activity is connected, or about to be told so. -/
def Connected (s : Activity) : Prop := s.buttons.connected = true ∨ .connected ∈ s.uiQueue

/-- The discovery is as the flag tells, in the foreground it goes on until there is a connection,
and nobody posts that a connection is lost. -/
structure Inv (s : Activity) : Prop where
  truthful : s.discovery.Truthful
  single : s.discovery.Single
  searching : s.lifecycle = .resumed → s.Connected ∨ s.discovery.discovering = true
  messages : .disconnected ∉ s.uiQueue ∧ .module .exit ∉ s.uiQueue

variable {s t : Activity} {l : Label}

/-- A message but these two leaves the activity connected, and `HANDLER_CONNECTED` makes it so. -/
theorem connected_handleMessage {msg : UiMessage} (b : Buttons)
    (hmsg : msg ≠ .disconnected ∧ msg ≠ .module .exit) :
    (b.handleMessage msg).connected = true ↔ b.connected = true ∨ msg = .connected := by
  cases msg with
  | connected => exact iff_of_true rfl (.inr rfl)
  | disconnected => exact absurd rfl hmsg.1
  | module m =>
    cases m with
    | exit => exact absurd rfl hmsg.2
    | input =>
      rw [(Buttons.changed_input (s := b)).connected]
      exact (or_iff_left nofun).symm
    | frame =>
      rw [(Buttons.changed_frame (s := b)).connected]
      exact (or_iff_left nofun).symm

theorem Inv.uiMessage {msg : UiMessage} {rest : List UiMessage} (h : Inv s)
    (hqueue : s.uiQueue = msg :: rest) :
    Inv { s with uiQueue := rest, buttons := s.buttons.handleMessage msg } := by
  obtain ⟨hlost, hexit⟩ := h.messages
  rw [hqueue, List.mem_cons, not_or] at hlost hexit
  have hiff := connected_handleMessage s.buttons ⟨Ne.symm hlost.1, Ne.symm hexit.1⟩
  refine ⟨h.truthful, h.single, fun hresumed => ?_, hlost.2, hexit.2⟩
  refine (h.searching hresumed).imp_left fun hconnected => ?_
  rcases hconnected with hconnected | hmem
  · exact .inl (hiff.mpr (.inl hconnected))
  · rw [hqueue, List.mem_cons] at hmem
    rcases hmem with heq | hmem
    · exact .inl (hiff.mpr (.inr heq.symm))
    · exact .inr hmem

theorem Inv.moduleEntered (h : Inv s) (frame : Bool) :
    Inv { s with uiQueue := s.uiQueue ++ [.module (if frame then .frame else .input)] } := by
  refine ⟨h.truthful, h.single, fun hresumed => ?_, ?_, ?_⟩
  · refine (h.searching hresumed).imp_left fun hconnected => ?_
    exact hconnected.imp_right fun hmem => List.mem_append_left _ hmem
  · rw [List.mem_append, not_or]
    refine ⟨h.messages.1, ?_⟩
    cases frame
    · decide
    · decide
  · rw [List.mem_append, not_or]
    refine ⟨h.messages.2, ?_⟩
    cases frame
    · decide
    · decide

theorem Inv.callback {d : Discovery} {l : Discovery.Label} (h : Inv s)
    (hl : isCallback l = true) (hfailure : l.failure = false)
    (hst : Discovery.step l s.discovery = some d) :
    Inv { s with
      discovery := d
      moduleThread := s.moduleThread || decide (l = .onServiceResolved true)
      uiQueue :=
        if l = .onServiceResolved true then s.uiQueue ++ [.connected] else s.uiQueue } := by
  refine ⟨h.truthful.step hfailure hst, h.single.step h.truthful hst, fun hresumed => ?_, ?_⟩
  · unfold Connected
    by_cases hresolved : ∃ ok, l = .onServiceResolved ok
    · obtain ⟨ok, rfl⟩ := hresolved
      rw [Discovery.step] at hst
      split_ifs at hst
      cases hst
      have hflag := Discovery.discovering_onServiceResolved (h.truthful.congr
        (t := { s.discovery with resolving := s.discovery.resolving - 1 }) rfl Iff.rfl rfl) ok
      cases ok with
      | true => exact .inl (.inr (List.mem_append_right _ List.mem_cons_self))
      | false => exact .inr hflag
    · have hnot : ∀ ok, l ≠ .onServiceResolved ok := not_exists.mp hresolved
      dsimp only
      rw [if_neg (hnot true), Discovery.discovering_step hl hfailure hnot hst]
      exact h.searching hresumed
  · dsimp only
    split_ifs
    · rw [List.mem_append, not_or, List.mem_append, not_or]
      exact ⟨⟨h.messages.1, by decide⟩, h.messages.2, by decide⟩
    · exact h.messages

/-- **Each step keeps the invariant**, if it reports no failure. -/
theorem Inv.step (h : Inv s) (hl : Working l s) (hst : step l s = some t) : Inv t := by
  have hsalive : s.Alive := h.truthful.accepted
  unfold Activity.step at hst
  rw [if_neg (not_not.mpr hsalive)] at hst
  cases l with
  | onCreate =>
    dsimp only at hst
    split_ifs at hst
    cases hst
    exact ⟨h.truthful.connect, h.single.connect h.truthful, nofun, h.messages⟩
  | onResume =>
    dsimp only at hst
    split_ifs at hst with hlifecycle hconnected
    · cases hst
      exact ⟨h.truthful, h.single, fun _ => .inl (.inl hconnected), h.messages⟩
    · cases hst
      exact ⟨h.truthful.connect, h.single.connect h.truthful,
        fun _ => .inr Discovery.discovering_connect, h.messages⟩
  | onPause =>
    dsimp only at hst
    split_ifs at hst
    cases hst
    exact ⟨h.truthful.onDestroy.1, h.single.onDestroy, nofun, h.messages⟩
  | callback l =>
    dsimp only at hst
    rw [Option.ite_none_right_eq_some] at hst
    obtain ⟨hcallback, hst⟩ := hst
    obtain ⟨d, hd, rfl⟩ := Option.map_eq_some_iff.mp hst
    exact h.callback hcallback hl hd
  | moduleEntered frame =>
    dsimp only at hst
    rw [Option.ite_none_right_eq_some, Option.some.injEq] at hst
    obtain ⟨-, rfl⟩ := hst
    exact h.moduleEntered frame
  | uiMessage =>
    dsimp only at hst
    split at hst
    · cases hst
      exact h.uiMessage ‹_›
    · cases hst

theorem Inv.init : Inv {} := by
  refine ⟨⟨iff_of_false Bool.false_ne_true ?_, rfl⟩, ?_, nofun, List.not_mem_nil, List.not_mem_nil⟩
  · rintro ⟨_, hnone, _⟩
    cases hnone
  · rintro i ⟨r, hr, -⟩
    cases hr

theorem Inv.of_reach (h : Reach Activity.step Working {} s) : Inv s :=
  h.invariant .init fun _ _ _ hs hl hst => hs.step hl hst

/-- **In the foreground the client is connected or it is searching**, with one discovery at a
time, and no call of `stopServiceDiscovery` is rejected. -/
theorem searching_or_connected (h : Reach step Working {} s) :
    s.Alive ∧ (s.lifecycle = .resumed → s.Connected ∨ s.discovery.Searching) ∧
      ∀ i j, s.discovery.Outstanding i → s.discovery.Outstanding j → i = j := by
  have hinv := Inv.of_reach h
  refine ⟨hinv.truthful.accepted,
    fun hresumed => (hinv.searching hresumed).imp_right hinv.truthful.flag.mp, ?_⟩
  intro i j hi hj
  exact Option.some.inj ((hinv.single i hi).symm.trans (hinv.single j hj))

/-- The activity is resumed before the service is found, and resolved. -/
def found : List Label :=
  [.onCreate, .onResume, .callback (.onDiscoveryStarted 0), .callback (.onServiceFound true)]

/-- `setSocket` fails once. -/
theorem searching_or_connected_retried : ∃ s : Activity, s.buttons.connected = false ∧
    s.uiQueue = [] ∧ (s.Connected ∨ s.discovery.Searching) := by
  obtain ⟨s, hs, hk⟩ := Reach.exists_of_run (show
    (run (fun l s => if Working l s then step l s else none)
      (found ++ [.callback (.onServiceResolved false)]) {}).map
      (fun s => (s.buttons.connected, s.uiQueue, s.lifecycle)) = some (false, [], .resumed)
    by decide)
  obtain ⟨hconnected, hrest⟩ := Prod.mk.inj hk
  obtain ⟨hqueue, hresumed⟩ := Prod.mk.inj hrest
  exact ⟨s, hconnected, hqueue, (searching_or_connected hs).2.1 hresumed⟩

/-! ### In the background -/

/-- No discovery is wanted. -/
def Resting (s : Activity) : Prop := s.lifecycle = .paused → s.discovery.discovering = false

/-- **A calm step starts no discovery in the background.** -/
theorem Resting.step (h : Resting s) (hinv : Inv s) (hl : Working l s ∧ Calm l s)
    (hst : Activity.step l s = some t) : Resting t := by
  intro hpaused
  have halive : s.Alive := hinv.truthful.accepted
  unfold Activity.step at hst
  rw [if_neg (not_not.mpr halive)] at hst
  cases l with
  | onCreate | onResume =>
    dsimp only at hst
    rw [Option.ite_none_right_eq_some, Option.some.injEq] at hst
    obtain ⟨-, rfl⟩ := hst
    cases hpaused
  | onPause =>
    dsimp only at hst
    split_ifs at hst
    cases hst
    exact Discovery.discovering_onDestroy
  | callback l =>
    dsimp only at hst
    rw [Option.ite_none_right_eq_some] at hst
    obtain ⟨hcallback, hst⟩ := hst
    obtain ⟨d, hd, rfl⟩ := Option.map_eq_some_iff.mp hst
    have hold := h hpaused
    by_cases hresolved : ∃ ok, l = .onServiceResolved ok
    · obtain ⟨ok, rfl⟩ := hresolved
      rw [Discovery.step] at hd
      split_ifs at hd
      cases hd
      have hflag := Discovery.discovering_onServiceResolved (hinv.truthful.congr
        (t := { s.discovery with resolving := s.discovery.resolving - 1 }) rfl Iff.rfl rfl) ok
      cases ok with
      | true => exact hflag
      | false => exact absurd hpaused hl.2
    · exact (Discovery.discovering_step hcallback hl.1 (not_exists.mp hresolved) hd).trans hold
  | moduleEntered frame =>
    dsimp only at hst
    rw [Option.ite_none_right_eq_some, Option.some.injEq] at hst
    obtain ⟨-, rfl⟩ := hst
    exact h hpaused
  | uiMessage =>
    dsimp only at hst
    split at hst
    · cases hst
      exact h hpaused
    · cases hst

/-- **No discovery is left in the background.** -/
theorem quiet_in_background (h : Reach step (fun l s => Working l s ∧ Calm l s) {} s)
    (hpaused : s.lifecycle = .paused) (i : Nat) : ¬ s.discovery.Outstanding i := by
  intro hout
  obtain ⟨hinv, hresting⟩ : Inv s ∧ Resting s :=
    h.invariant (I := fun s => Inv s ∧ Resting s) ⟨.init, nofun⟩ fun _ _ _ hs hl hst =>
      ⟨hs.1.step hl.1 hst, hs.2.step hs.1 hl hst⟩
  have hflag := hinv.truthful.flag.mpr ⟨i, hinv.single i hout, hout⟩
  exact Bool.noConfusion (hflag.symm.trans (hresting hpaused))

/-- The service is resolved when the activity is paused already. -/
theorem quiet_in_background_resolved : ∃ s : Activity, s.uiQueue = [.connected] ∧
    ¬ s.discovery.Outstanding 0 := by
  obtain ⟨s, hs, hk⟩ := Reach.exists_of_run (show
    (run (fun l s => if Working l s ∧ Calm l s then step l s else none)
      (found ++ [.onPause, .callback (.onServiceResolved true)]) {}).map
      (fun s => (s.uiQueue, s.lifecycle)) = some ([.connected], .paused) by decide)
  obtain ⟨hqueue, hpaused⟩ := Prod.mk.inj hk
  exact ⟨s, hqueue, quiet_in_background hs hpaused 0⟩

end Activity

end MikaAudio.Client
