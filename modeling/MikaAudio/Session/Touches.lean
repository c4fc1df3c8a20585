import MikaAudio.Client.TouchBytes
import MikaAudio.Server.Memory
import MikaAudio.Server.Motion

/-!
# The way of a touch

A touch goes from `sendInput` on the client's UI thread through the packet and the
`InputThread` of the client, a datagram, the `InputTask` of the server with the array of its
own packet, and the `InputThread` of the server, which dispatches it.  The network may lose a
datagram, repeat it, and deliver it after later ones.  The `InputTask` has begun and is not
stopped.

* `no_phantom_touch`: whatever the network does, spaced calls give no event but those of
  the calls.
* `touches_dispatched`: in the order of the calls and each once, if the network keeps
  datagrams and their order.
* `last_touch_dispatched`: on such a network the last event is right for any calls.
-/

namespace MikaAudio

open Thread (Byte)
open Interleave (Reach run)
open Client (InputThread Message Touch TouchBytes)
open Server (InputEvent Motion.MotionEvent)

/-- What an event shows of the call it is from. -/
def Client.Touch.content (t : Touch) : JInt × JFloat × JFloat × JInt :=
  (t.action, floatToIntBits t.x, floatToIntBits t.y, t.metaState)

/-- A message of the server's `InputThread`: `MODE_EVENT`, or `MODE_KEY` and `MODE_TEXT`. -/
inductive InputMessage
  | motion (ev : Motion.MotionEvent)
  | input (ev : InputEvent)
  deriving DecidableEq

/-- The event of a `MODE_EVENT`. -/
def InputMessage.motion? : InputMessage → Option Motion.MotionEvent
  | .motion ev => some ev
  | .input _ => none

/-- The client's threads, the datagrams in flight and in the buffer of the server's socket, the
`InputTask`, and the handler of the server's `InputThread`.  `received` are the datagrams that
came to the `InputTask`; the program does not keep them. -/
structure Touches where
  client : TouchBytes
  wire : List (List Byte) := []
  task : Server.Motion.State
  queue : List InputMessage := []
  dispatched : List InputMessage := []
  received : List (List Byte) := []
  deriving DecidableEq

namespace Touches

/-- Who moves. -/
inductive Label
  /-- A thread of the client. -/
  | client (l : TouchBytes.Label)
  /-- The datagram at `i` is lost. -/
  | lose (i : Nat)
  /-- The datagram at `i` is repeated. -/
  | duplicate (i : Nat)
  /-- The `InputTask` receives the datagram at `i`, and posts its event. -/
  | receive (i : Nat)
  /-- A `listen` of the server posts a key or a text. -/
  | post (ev : InputEvent)
  /-- The `InputThread` of the server handles a message. -/
  | dispatch

section

variable (clock : Nat → Int) (screenWidth screenHeight : JInt)

/-- One step. -/
def step (l : Label) (s : Touches) : Option Touches :=
  match l with
  | .client l =>
    (s.client.step l).map fun client =>
      { s with client := client, wire := s.wire ++ client.sent.drop s.client.sent.length }
  | .lose i =>
    if i < s.wire.length then some { s with wire := s.wire.eraseIdx i } else none
  | .duplicate i => s.wire[i]?.map fun d => { s with wire := s.wire ++ [d] }
  | .receive i =>
    s.wire[i]?.map fun d =>
      let task := Server.Motion.handle clock screenWidth screenHeight s.task d
      { s with
        wire := s.wire.eraseIdx i
        task := task
        queue := s.queue ++ (task.events.drop s.task.events.length).map .motion
        received := s.received ++ [d] }
  | .post ev => some { s with queue := s.queue ++ [.input ev] }
  | .dispatch =>
    match s.queue with
    | msg :: queue => some { s with queue := queue, dispatched := s.dispatched ++ [msg] }
    | [] => none

end

/-- The events that have been dispatched. -/
def events (s : Touches) : List Motion.MotionEvent := s.dispatched.filterMap InputMessage.motion?

/-- The events that wait for it. -/
def waiting (s : Touches) : List Motion.MotionEvent := s.queue.filterMap InputMessage.motion?

/-- The packets were just made, and the `InputTask` is in front of its loop. -/
structure Fresh (clock : Nat → Int) (s : Touches) : Prop where
  client : s.client.Fresh
  wire : s.wire = []
  task : s.task = Server.Motion.start clock
  queue : s.waiting = []
  dispatched : s.events = []
  received : s.received = []

/-- A call is made only when no event waits or is being sent. -/
def Spaced : Label → Touches → Prop
  | .client l, s => s.client.Spaced l
  | _, _ => True

/-- The network keeps the datagrams and their order. -/
def InOrder : Label → Touches → Prop
  | .lose _, _ => False
  | .duplicate _, _ => False
  | .receive i, _ => i = 0
  | _, _ => True

/-- Nothing is left to do for the calls that were made. -/
structure Drained (s : Touches) : Prop where
  client : s.client.Settled
  wire : s.wire = []
  queue : s.waiting = []

variable {clock : Nat → Int} {w h : JInt} {s t : Touches} {l : Label}

/-! ### One step -/

/-- What each of the moves does. -/
def Moves (clock : Nat → Int) (w h : JInt) (l : Label) (s t : Touches) : Prop :=
  match l with
  | .client l => ∃ client, s.client.step l = some client ∧
      t = { s with client := client, wire := s.wire ++ client.sent.drop s.client.sent.length }
  | .lose i => t = { s with wire := s.wire.eraseIdx i }
  | .duplicate i => ∃ d, s.wire[i]? = some d ∧ t = { s with wire := s.wire ++ [d] }
  | .receive i => ∃ d ev, s.wire[i]? = some d ∧
      (Server.Motion.handle clock w h s.task d).events = s.task.events ++ [ev] ∧
      t = { s with
        wire := s.wire.eraseIdx i
        task := Server.Motion.handle clock w h s.task d
        queue := s.queue ++ [.motion ev]
        received := s.received ++ [d] }
  | .post ev => t = { s with queue := s.queue ++ [.input ev] }
  | .dispatch => ∃ msg queue, s.queue = msg :: queue ∧
      t = { s with queue := queue, dispatched := s.dispatched ++ [msg] }

theorem step_cases (hst : step clock w h l s = some t) : Moves clock w h l s t := by
  cases l with
  | client l =>
    obtain ⟨client, hclient, rfl⟩ := Option.map_eq_some_iff.mp hst
    exact ⟨client, hclient, rfl⟩
  | lose i =>
    simp only [step] at hst
    split_ifs at hst
    exact (Option.some.inj hst).symm
  | duplicate i =>
    obtain ⟨d, hd, rfl⟩ := Option.map_eq_some_iff.mp hst
    exact ⟨d, hd, rfl⟩
  | receive i =>
    obtain ⟨d, hd, rfl⟩ := Option.map_eq_some_iff.mp hst
    obtain ⟨ev, hev, -⟩ := @Server.Motion.handle_cases clock w h s.task d
    refine ⟨d, ev, hd, hev, ?_⟩
    dsimp only
    rw [hev, List.drop_left]
    rfl
  | post ev => exact (Option.some.inj hst).symm
  | dispatch =>
    simp only [step] at hst
    split at hst
    · rename_i msg queue hq
      exact ⟨msg, queue, hq, (Option.some.inj hst).symm⟩
    · cases hst

/-- The client's threads take no notice of the rest. -/
theorem reach_client {ok : Label → Touches → Prop} {ok' : TouchBytes.Label → TouchBytes → Prop}
    (hok : ∀ l s, ok (.client l) s → ok' l s.client) {s₀ : Touches}
    (hr : Reach (step clock w h) ok s₀ s) : Reach TouchBytes.step ok' s₀.client s.client := by
  have hproject : ∃ a, Reach TouchBytes.step ok' s₀.client a ∧ a = s.client := by
    refine hr.simulation (R := fun s a => a = s.client) rfl ?_
    rintro s t l _ rfl hl hst
    have hmove := step_cases hst
    cases l with
    | client l =>
      obtain ⟨client, hclient, rfl⟩ := hmove
      exact ⟨client, .single (hok l s hl) hclient, rfl⟩
    | lose i =>
      obtain rfl := hmove
      exact ⟨_, .refl, rfl⟩
    | duplicate i =>
      obtain ⟨d, -, rfl⟩ := hmove
      exact ⟨_, .refl, rfl⟩
    | receive i =>
      obtain ⟨d, ev, -, -, rfl⟩ := hmove
      exact ⟨_, .refl, rfl⟩
    | post ev =>
      obtain rfl := hmove
      exact ⟨_, .refl, rfl⟩
    | dispatch =>
      obtain ⟨msg, queue, -, rfl⟩ := hmove
      exact ⟨_, .refl, rfl⟩
  obtain ⟨a, ha, rfl⟩ := hproject
  exact ha

/-! ### Any network -/

/-- What is on its way was sent, and what was dispatched or waits for it is what the loop of the
`InputTask` made of the datagrams it received. -/
structure Carries (clock : Nat → Int) (w h : JInt) (s : Touches) : Prop where
  sized : s.client.Sized
  wire : ∀ d ∈ s.wire, d ∈ s.client.sent
  received : ∀ d ∈ s.received, d ∈ s.client.sent
  task : s.task = Server.Motion.run clock w h s.received
  events : s.events ++ s.waiting = s.task.events

theorem Fresh.carries (hs : Fresh clock s) : Carries clock w h s where
  sized := hs.client.sized
  wire d hd := by
    rw [hs.wire] at hd
    cases hd
  received d hd := by
    rw [hs.received] at hd
    cases hd
  task := by
    rw [hs.task, hs.received]
    rfl
  events := by
    rw [hs.dispatched, hs.queue, hs.task]
    rfl

theorem Carries.step (hs : Carries clock w h s) (hst : step clock w h l s = some t) :
    Carries clock w h t := by
  have hmove := step_cases hst
  obtain ⟨hsized, hwire, hreceived, htask, hevents⟩ := hs
  cases l with
  | client l =>
    obtain ⟨client, hclient, rfl⟩ := hmove
    obtain ⟨hsized', hsame | ⟨d, hsent⟩⟩ := hsized.step hclient
    · refine ⟨hsized', fun d hd => ?_, fun d hd => ?_, htask, hevents⟩
      · dsimp only at hd ⊢
        rw [hsame, List.drop_length, List.append_nil] at hd
        exact hsame ▸ hwire d hd
      · exact hsame ▸ hreceived d hd
    · refine ⟨hsized', fun d' hd' => ?_, fun d' hd' => ?_, htask, hevents⟩
      · dsimp only at hd' ⊢
        rw [hsent, List.drop_left] at hd'
        rw [hsent]
        rcases List.mem_append.mp hd' with hd' | hd'
        · exact List.mem_append_left _ (hwire d' hd')
        · exact List.mem_append_right _ hd'
      · exact hsent ▸ List.mem_append_left _ (hreceived d' hd')
  | lose i =>
    obtain rfl := hmove
    exact ⟨hsized, fun d hd => hwire d (List.mem_of_mem_eraseIdx hd), hreceived, htask, hevents⟩
  | duplicate i =>
    obtain ⟨d, hd, rfl⟩ := hmove
    refine ⟨hsized, fun d' hd' => ?_, hreceived, htask, hevents⟩
    rcases List.mem_append.mp hd' with hd' | hd'
    · exact hwire d' hd'
    · exact List.mem_singleton.mp hd' ▸ hwire d (List.mem_of_getElem? hd)
  | receive i =>
    obtain ⟨d, ev, hd, hev, rfl⟩ := hmove
    refine ⟨hsized, fun d' hd' => hwire d' (List.mem_of_mem_eraseIdx hd'), fun d' hd' => ?_, ?_,
      ?_⟩
    · rcases List.mem_append.mp hd' with hd' | hd'
      · exact hreceived d' hd'
      · exact List.mem_singleton.mp hd' ▸ hwire d (List.mem_of_getElem? hd)
    · dsimp only
      rw [htask, Server.Motion.run, Server.Motion.run, List.foldl_append]
      rfl
    · dsimp only
      rw [hev, ← hevents, waiting, List.filterMap_append, ← List.append_assoc]
      rfl
  | post ev =>
    obtain rfl := hmove
    refine ⟨hsized, hwire, hreceived, htask, ?_⟩
    rw [waiting, List.filterMap_append]
    exact (congrArg (s.events ++ ·) (List.append_nil _)).trans hevents
  | dispatch =>
    obtain ⟨msg, queue, hq, rfl⟩ := hmove
    refine ⟨hsized, hwire, hreceived, htask, ?_⟩
    rw [waiting, hq, ← List.singleton_append, List.filterMap_append, ← List.append_assoc] at hevents
    rw [← hevents, Touches.events, List.filterMap_append]
    rfl

theorem content_run {ds : List (List Byte)}
    (hds : ∀ d ∈ ds, d.length = Server.Motion.sizeInputPacket) :
    (Server.Motion.run clock w h ds).events.map (·.content) = ds.map Server.Motion.content := by
  induction ds using List.reverseRecOn with
  | nil => rfl
  | append_singleton ds d ih =>
    have hd := hds d (List.mem_append_right _ (List.mem_singleton_self d))
    have hlen := @Server.Motion.length_data_run clock w h ds
    obtain ⟨ev, hev, -⟩ :=
      @Server.Motion.handle_cases clock w h (Server.Motion.run clock w h ds) d
    have hrun : (Server.Motion.run clock w h (ds ++ [d])).events =
        (Server.Motion.run clock w h ds).events ++ [ev] := by
      rw [← hev, Server.Motion.run, Server.Motion.run, List.foldl_append]
      rfl
    have hcontent : ev.content = Server.Motion.content d := by
      have hlast : (Server.Motion.run clock w h (ds ++ [d])).events.getLast? = some ev := by
        rw [hrun, List.getLast?_concat]
      rw [Server.Motion.content_getLast hlast, Server.Motion.receive_of_le (by omega), hlen,
        List.take_of_length_le (Nat.le_of_eq hd)]
    rw [hrun, List.map_append, List.map_append,
      ih fun d' hd' => hds d' (List.mem_append_left _ hd')]
    exact congrArg (_ ++ [·]) hcontent

theorem Carries.content (hs : Carries clock w h s) :
    (s.events ++ s.waiting).map (·.content) = s.received.map Server.Motion.content := by
  rw [hs.events, hs.task]
  exact content_run fun d hd => hs.sized.sent d (hs.received d hd)

/-- **No phantom touch**: whatever is lost, repeated or overtaken, a dispatched event is the one
of a call, scaled to the screen. -/
theorem no_phantom_touch {s₀ : Touches} (h₀ : Fresh clock s₀)
    (hr : Reach (step clock w h) Spaced s₀ s) :
    ∀ ev ∈ s.events, (∃ t ∈ s.client.calls, ev.content = t.content) ∧
      ev.x.int = w ∧ ev.y.int = h := by
  intro ev hev
  have hs : Carries clock w h s := hr.invariant h₀.carries fun _ _ _ hs _ hst => hs.step hst
  have hsent := TouchBytes.sent_spaced h₀.client (reach_client (fun _ _ hl => hl) hr)
  have hmem : ev.content ∈ s.received.map Server.Motion.content :=
    hs.content ▸ List.mem_map_of_mem (List.mem_append_left _ hev)
  have hrun : ev ∈ (Server.Motion.run clock w h s.received).events :=
    hs.task ▸ hs.events ▸ List.mem_append_left _ hev
  obtain ⟨d, hd, hdev⟩ := List.mem_map.mp hmem
  obtain ⟨t, ht, rfl⟩ := List.mem_map.mp (hsent.subset (hs.received d hd))
  exact ⟨⟨t, ht, hdev.symm.trans (Server.Motion.content_encode t)⟩,
    Server.Motion.scaled_run s.received hrun⟩

instance (l : Label) (s : Touches) : Decidable (Spaced l s) := by
  induction l using Label.casesOn
  all_goals
    dsimp only [Spaced]
    infer_instance

instance (l : Label) (s : Touches) : Decidable (InOrder l s) := by
  induction l using Label.casesOn
  all_goals
    dsimp only [InOrder]
    infer_instance

/-- Both ends before the first touch; the screen is `2` by `4`. -/
def fresh : Touches := { client := TouchBytes.fresh, task := Server.Motion.start fun _ => 0 }

theorem fresh_fresh : Fresh (fun _ => 0) fresh := ⟨TouchBytes.fresh_fresh, rfl, rfl, rfl, rfl, rfl⟩

/-- A finger goes down and up. -/
def tap : List Label :=
  (TouchBytes.wholeCall InputThread.down ++ TouchBytes.wholeCall InputThread.up).map .client

/-- The first datagram is repeated and the second comes before it. -/
theorem no_phantom_touch_three : ∃ s : Touches, s.events.length = 3 ∧
    ∀ ev ∈ s.events, (∃ t ∈ s.client.calls, ev.content = t.content) ∧
      ev.x.int = 2 ∧ ev.y.int = 4 := by
  obtain ⟨s, hs, hk⟩ := Reach.exists_of_run (show
    (run (fun l s => if Spaced l s then step (fun _ => 0) 2 4 l s else none)
      (tap ++ [.duplicate 0, .receive 1, .receive 0, .receive 0, .dispatch, .dispatch, .dispatch])
      fresh).map (·.events.length) = some 3 by decide +kernel)
  exact ⟨s, hk, no_phantom_touch fresh_fresh hs⟩

/-! ### A network that keeps datagrams and their order -/

theorem inOrder_step (hs : s.received ++ s.wire = s.client.sent) (hsized : s.client.Sized)
    (hl : InOrder l s) (hst : step clock w h l s = some t) :
    t.received ++ t.wire = t.client.sent := by
  have hmove := step_cases hst
  cases l with
  | client l =>
    obtain ⟨client, hclient, rfl⟩ := hmove
    dsimp only
    rw [← List.append_assoc, hs]
    obtain ⟨-, hsame | ⟨d, hsent⟩⟩ := hsized.step hclient
    · rw [hsame, List.drop_length, List.append_nil]
    · rw [hsent, List.drop_left]
  | lose i => exact hl.elim
  | duplicate i => exact hl.elim
  | receive i =>
    obtain rfl : i = 0 := hl
    obtain ⟨d, ev, hd, -, rfl⟩ := hmove
    cases hwire : s.wire with
    | nil =>
      rw [hwire] at hd
      cases hd
    | cons d' wire =>
      rw [hwire, List.getElem?_cons_zero, Option.some.injEq] at hd
      rw [← hs, hwire, ← hd, List.append_assoc]
      rfl
  | post ev =>
    obtain rfl := hmove
    exact hs
  | dispatch =>
    obtain ⟨msg, queue, -, rfl⟩ := hmove
    exact hs

theorem content_inOrder {ok : Label → Touches → Prop} (hok : ∀ l s, ok l s → InOrder l s)
    {s₀ : Touches} (h₀ : Fresh clock s₀) (hr : Reach (step clock w h) ok s₀ s) :
    (s.events ++ s.waiting).map (·.content) ++ s.wire.map Server.Motion.content =
      s.client.sent.map Server.Motion.content := by
  have hinv : Carries clock w h s ∧ s.received ++ s.wire = s.client.sent := by
    refine hr.invariant (I := fun s => Carries clock w h s ∧ s.received ++ s.wire = s.client.sent)
      ⟨h₀.carries, ?_⟩ fun s t l hs hl hst =>
        ⟨hs.1.step hst, inOrder_step hs.2 hs.1.sized (hok l s hl) hst⟩
    rw [h₀.received, h₀.wire, h₀.client.sent]
    rfl
  rw [hinv.1.content, ← List.map_append, hinv.2]

theorem content_drained {ok : Label → Touches → Prop} (hok : ∀ l s, ok l s → InOrder l s)
    {s₀ : Touches} (h₀ : Fresh clock s₀) (hr : Reach (step clock w h) ok s₀ s)
    (hdrained : Drained s) :
    s.events.map (·.content) = s.client.sent.map Server.Motion.content := by
  have hall := content_inOrder hok h₀ hr
  rwa [hdrained.queue, hdrained.wire, List.append_nil, List.map_nil, List.append_nil] at hall

/-- **Touches are dispatched in the order of the calls, and each once**, and when nothing is left
to do all of them have been. -/
theorem touches_dispatched {s₀ : Touches} (h₀ : Fresh clock s₀)
    (hr : Reach (step clock w h) (fun l s => Spaced l s ∧ InOrder l s) s₀ s) :
    s.events.map (·.content) <+: s.client.calls.map Touch.content ∧
      (Drained s → s.events.map (·.content) = s.client.calls.map Touch.content) := by
  have hclient : Reach TouchBytes.step TouchBytes.Spaced s₀.client s.client :=
    reach_client (fun _ _ hl => hl.1) hr
  have hsent := TouchBytes.sent_spaced h₀.client hclient
  have hcontent : (s.client.calls.map Touch.encode).map Server.Motion.content =
      s.client.calls.map Touch.content := by
    rw [List.map_map]
    exact List.map_congr_left fun t _ => Server.Motion.content_encode t
  constructor
  · have hall := content_inOrder (fun _ _ hl => hl.2) h₀ hr
    rw [List.map_append, List.append_assoc] at hall
    have hprefix : s.events.map (·.content) <+: s.client.sent.map Server.Motion.content :=
      ⟨_, hall⟩
    rw [← hcontent]
    exact hprefix.trans (hsent.map _)
  · intro hdrained
    obtain ⟨hlength, -⟩ := TouchBytes.last_touch_sent h₀.client hclient hdrained.client
    rw [content_drained (fun _ _ hl => hl.2) h₀ hr hdrained, ← hcontent,
      hsent.eq_of_length (hlength.trans (List.length_map _).symm)]

instance (s : Touches) : Decidable (Drained s) :=
  decidable_of_iff ((s.client.call = none ∧ Message.event ∉ s.client.queue ∧
    s.client.copy = none) ∧ s.wire = [] ∧ s.waiting = [])
    ⟨fun ⟨⟨hc, hq, hp⟩, hw, hm⟩ => ⟨⟨hc, hq, hp⟩, hw, hm⟩,
      fun ⟨⟨hc, hq, hp⟩, hw, hm⟩ => ⟨⟨hc, hq, hp⟩, hw, hm⟩⟩

/-- A tap goes through. -/
theorem touches_dispatched_two : ∃ s : Touches, s.events.length = 2 ∧
    s.events.map (·.content) = s.client.calls.map Touch.content := by
  obtain ⟨s, hs, hk⟩ := Reach.exists_of_run (show
    (run (fun l s => if Spaced l s ∧ InOrder l s then step (fun _ => 0) 2 4 l s else none)
      (tap ++ [.receive 0, .receive 0, .dispatch, .dispatch]) fresh).map
      (fun s => (s.events.length, decide (Drained s))) = some (2, true) by decide +kernel)
  obtain ⟨htwo, hdrained⟩ := Prod.mk.inj hk
  exact ⟨s, htwo, (touches_dispatched fresh_fresh hs).2 (of_decide_eq_true hdrained)⟩

/-- **The last touch is dispatched last**, however fast the calls come, and there is an event
for each call. -/
theorem last_touch_dispatched {s₀ : Touches} (h₀ : Fresh clock s₀)
    (hr : Reach (step clock w h) InOrder s₀ s) (hdrained : Drained s) :
    s.events.length = s.client.calls.length ∧
      s.events.getLast?.map (·.content) = s.client.calls.getLast?.map Touch.content := by
  have hclient : Reach TouchBytes.step (fun _ _ => True) s₀.client s.client :=
    reach_client (fun _ _ _ => trivial) hr
  obtain ⟨hlength, hlast⟩ := TouchBytes.last_touch_sent h₀.client hclient hdrained.client
  have hevents := content_drained (fun _ _ hl => hl) h₀ hr hdrained
  constructor
  · have heq := congrArg List.length hevents
    rw [List.length_map, List.length_map] at heq
    exact heq.trans hlength
  · have heq := congrArg List.getLast? hevents
    rw [List.getLast?_map, List.getLast?_map, hlast, Option.map_map] at heq
    rw [heq]
    exact congrFun (congrArg Option.map (funext Server.Motion.content_encode)) _

/-- The second call is made while the first datagram is being copied. -/
def tornTap : List TouchBytes.Label :=
  .sendInput InputThread.down :: (List.replicate 16 .write ++ [.sendToTarget, .handle] ++
    (List.range 2).map .copyByte ++ [.sendInput InputThread.up] ++ List.replicate 16 .write ++
    (List.range' 2 14).map .copyByte ++ [.sendToTarget, .send, .handle] ++
    (List.range 16).map .copyByte ++ [.send])

/-- The event of the second call is the last. -/
theorem last_touch_dispatched_torn : ∃ s : Touches, s.client.calls.length = 2 ∧
    s.events.getLast?.map (·.content) = s.client.calls.getLast?.map Touch.content := by
  obtain ⟨s, hs, hk⟩ := Reach.exists_of_run (show
    (run (fun l s => if InOrder l s then step (fun _ => 0) 2 4 l s else none)
      (tornTap.map .client ++ [.receive 0, .receive 0, .dispatch, .dispatch]) fresh).map
      (fun s => (s.client.calls.length, decide (Drained s))) = some (2, true) by decide +kernel)
  obtain ⟨htwo, hdrained⟩ := Prod.mk.inj hk
  exact ⟨s, htwo, (last_touch_dispatched fresh_fresh hs (of_decide_eq_true hdrained)).2⟩

end Touches

end MikaAudio
