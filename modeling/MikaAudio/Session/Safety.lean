import MikaAudio.Session.Presses

/-!
# What a session of key presses never does

The three safety properties of the input mode: no key is dispatched that was not
pressed (`no_phantom_input`), the server does not hang up by itself (`stays_connected`),
and a key on its way is never taken for a module or for a port
(`press_not_module`).  Each holds of the runs in which the steps that go wrong are
left out, and of no more: for each a run with such a step breaks it.
-/

namespace MikaAudio.Session

open Thread Server Interleave
open Client (ModulePc InputMsg Sent)

/-! ### The steps of a run -/

/-- The UI calls `switchModule` and `sendInput(int)` only; everything else is the
programs, the network and the timeouts of both ends. -/
def InputLabel : Label → Prop
  | .switchModule _ => True
  | .sendInput _ => True
  | .uiMessage => True
  | .module _ => True
  | .moduleEof => True
  | .moduleTimeout => True
  | .input => True
  | .server _ => True
  | .serverTimeout => True
  | .lose => True
  | _ => False

instance : DecidablePred InputLabel := fun l => by
  cases l with
  | _ =>
    unfold InputLabel
    infer_instance

/-- Key codes are bytes. -/
def KeyCode : Label → Prop
  | .sendInput k => k.toNat < 256
  | _ => True

instance : DecidablePred KeyCode := fun l => by
  cases l with
  | _ =>
    unfold KeyCode
    infer_instance

/-- No read of the `ModuleThread` times out. -/
def Answered : Label → Prop
  | .moduleTimeout => False
  | _ => True

instance : DecidablePred Answered := fun l => by
  cases l with
  | _ =>
    unfold Answered
    infer_instance

/-- No read times out, at either end. -/
def NoTimeout : Label → Prop
  | .serverTimeout => False
  | .moduleTimeout => False
  | _ => True

instance : DecidablePred NoTimeout := fun l => by
  cases l with
  | _ =>
    unfold NoTimeout
    infer_instance

theorem answered_of_noTimeout {l : Label} (h : NoTimeout l) : Answered l := by
  cases l with
  | moduleTimeout => exact h.elim
  | _ => trivial

/-- The sockets and the bitmap of the server's `init` can be made, and the client's
port is one. -/
def NoFailure : Label → Prop
  | .module e => validPort e.port = true
  | .server e => (e.sockets && e.bitmap) = true
  | _ => True

instance : DecidablePred NoFailure := fun l => by
  cases l with
  | _ =>
    unfold NoFailure
    infer_instance

/-- No timeout is read as an answer. -/
def TimeoutSkipped : Label → Session → Prop
  | .module _, s => s.TimeoutUnread
  | _, _ => True

instance (l : Label) (s : Session) : Decidable (TimeoutSkipped l s) := by
  cases l with
  | _ =>
    unfold TimeoutSkipped
    infer_instance

/-- Keys are pressed before the `ModuleThread` calls `inputModule.exit()`. -/
def PressBeforeExit : Label → Session → Prop
  | .sendInput _, s => .exit ∉ s.client.posted
  | _, _ => True

instance (l : Label) (s : Session) : Decidable (PressBeforeExit l s) := by
  cases l with
  | _ =>
    unfold PressBeforeExit
    infer_instance

/-- The `ModuleThread` does not come to `inputModule.exit()` a second time. -/
def FirstExit : Label → Session → Prop
  | .module _, s => ¬ s.RepeatedExit
  | _, _ => True

instance (l : Label) (s : Session) : Decidable (FirstExit l s) := by
  cases l with
  | _ =>
    unfold FirstExit RepeatedExit
    infer_instance

theorem Allowed.of_input {strict good : Prop} {l : Label} {s : Session} (hl : InputLabel l)
    (hanswered : Answered l) (htimeout : TimeoutSkipped l s) (hpress : PressBeforeExit l s)
    (hexit : strict → FirstExit l s) (hgood : good → NoFailure l) : Allowed strict good l s := by
  cases l with
  | module e => exact ⟨htimeout, hexit, hgood⟩
  | sendInput k => exact hpress
  | server e => exact hgood
  | moduleTimeout => exact hanswered
  | start => exact hl
  | stop => exact hl
  | stopReturn => exact hl
  | beginClientTask i => exact hl
  | beginFrameTask i => exact hl
  | beginInputTask i => exact hl
  | _ => trivial

theorem Inv.of_reach {strict good : Prop} {ok : Label → Session → Prop} {s : Session}
    (hok : ∀ l s, ok l s → Allowed strict good l s) (h : Reach Session.step ok {} s) :
    Inv strict good s :=
  h.invariant (Inv.init strict good) (fun _ _ l hi hl hs => hi.step (hok l _ hl) hs)

/-- What the environment answers in the runs below. -/
def clientEnv : Client.Env := ⟨40000⟩

/-- What the environment answers in the runs below. -/
def serverEnv : Env := ⟨40001, true, 1080, 1920, 7, true⟩

/-- The client asks for the input mode, and the server's `ACK` is on its way. -/
def enterInput : List Label :=
  [.server serverEnv, .switchModule .input, .module clientEnv, .module clientEnv,
    .server serverEnv, .server serverEnv]

/-- The client reads the `ACK`, and the UI thread gets to know. -/
def inputEntered : List Label :=
  enterInput ++ [.module clientEnv, .module clientEnv, .uiMessage]

/-! ### No phantom input -/

theorem Phase.keys_prefix {strict good : Prop} {s : Session} (h : Phase strict good s) :
    s.memory.keys <+: s.client.keys.map wireKey := by
  cases h with
  | before _ _ _ _ _ hk => rw [hk]; exact List.nil_prefix
  | window ks _ _ _ _ hk => exact ⟨ks.map wireKey, hk⟩
  | exiting ks _ _ _ _ _ _ _ hk => exact ⟨ks.map wireKey, hk⟩
  | leaving _ _ _ _ _ _ hk => exact hk ▸ List.prefix_rfl
  | after _ _ _ hk => exact hk ▸ List.prefix_rfl
  | again _ _ _ _ hk => exact hk ▸ List.prefix_rfl
  | closed _ hk => exact hk

theorem step_keys {s t : Session} {l : Label} (hl : InputLabel l) (h : step l s = some t) :
    t.client.keys = s.client.keys ∨
      ∃ k, l = .sendInput k ∧ t.client.keys = s.client.keys ++ [k] := by
  cases l with
  | switchModule m =>
    simp only [step] at h
    split at h
    · cases h
      exact Or.inl rfl
    · cases h
  | sendInput k =>
    simp only [step, stepUi] at h
    split at h
    · split at h
      · cases h
        exact Or.inr ⟨k, rfl, by simp [Client.Memory.keys, Client.Memory.postInput, InputMsg.key?]⟩
      · cases h
    · cases h
  | uiMessage =>
    simp only [step, stepUi] at h
    split at h
    · split at h
      · cases h
        exact Or.inl rfl
      · cases h
    · cases h
  | module e =>
    simp only [step] at h
    split at h
    · cases h
    · exact Or.inl (stepModule_keys h)
  | moduleEof =>
    simp only [step, stepModuleEof] at h
    repeat' split at h
    all_goals cases h
    exact Or.inl rfl
  | moduleTimeout =>
    simp only [step, stepModuleTimeout] at h
    repeat' split at h
    all_goals cases h
    exact Or.inl rfl
  | input =>
    simp only [step, stepInput] at h
    repeat' split at h
    all_goals cases h
    all_goals exact Or.inl rfl
  | server e => exact Or.inl (by rw [(stepServer_client h).client])
  | serverTimeout =>
    simp only [step, stepServerTimeout] at h
    split at h
    · cases h
      exact Or.inl rfl
    · cases h
      exact Or.inl rfl
    · cases h
  | lose =>
    simp only [step] at h
    split at h
    · cases h
      exact Or.inl rfl
    · cases h
  | _ => exact hl.elim

/-- **No phantom input.**  The keys dispatched are a prefix of the keys sent, if no
read of the `ModuleThread` times out, no `0x00` of a timeout is read as an answer and
no key is sent after `exit()`. -/
theorem no_phantom_input {s : Session}
    (h : Reach step (fun l s => (InputLabel l ∧ KeyCode l) ∧ Answered l ∧ TimeoutSkipped l s ∧
      PressBeforeExit l s) {} s) :
    s.memory.keys <+: s.client.keys := by
  have hinv : Inv False False s := .of_reach (fun l s hl =>
    .of_input hl.1.1 hl.2.1 hl.2.2.1 hl.2.2.2 False.elim False.elim) h
  have hcodes : ∀ k ∈ s.client.keys, k.toNat < 256 := by
    refine Reach.invariant (I := fun s => ∀ k ∈ s.client.keys, k.toNat < 256)
      (by intro k hk; cases hk) ?_ h
    intro s t l hs hl hst k hk
    rcases step_keys hl.1.1 hst with heq | ⟨j, rfl, heq⟩
    · exact hs k (by rwa [heq] at hk)
    · rw [heq] at hk
      rcases List.mem_append.mp hk with hk | hk
      · exact hs k hk
      · rw [List.mem_singleton.mp hk]
        exact hl.1.2
  have hwire : s.client.keys.map wireKey = s.client.keys := by
    rw [List.map_congr_left (fun k hk => wireKey_of_lt (hcodes k hk)), List.map_id']
  rw [← hwire]
  exact hinv.phase.keys_prefix

/-- One key is pressed and dispatched. -/
theorem no_phantom_input_pressed :
    ∃ s : Session, s.memory.keys = [23] ∧ s.memory.keys <+: s.client.keys := by
  obtain ⟨s, hs, hk⟩ := Reach.exists_of_run (show
    (run (fun l s => if (InputLabel l ∧ KeyCode l) ∧ Answered l ∧ TimeoutSkipped l s ∧
      PressBeforeExit l s then step l s else none) (inputEntered ++ [.sendInput 23, .input,
        .input, .input, .server serverEnv, .server serverEnv, .server serverEnv]) {}).map
      (·.memory.keys) = some [23] by decide)
  exact ⟨s, hk, no_phantom_input hs⟩

/-- The server times out before the client asks for the input mode.  The client
reads the `0x00`, asks a second time, and its second `MODULE_INPUT` is the
`MODE_KEY` before the mode byte of the first key. -/
def phantomRun : List Label :=
  [.server serverEnv, .serverTimeout, .server serverEnv] ++ enterInput ++
    [.module clientEnv, .module clientEnv, .module clientEnv, .module clientEnv, .uiMessage,
      .sendInput 23, .input, .input, .input,
      .server serverEnv, .server serverEnv, .server serverEnv]

/-- **Key 23 is pressed and key 1 dispatched.** -/
theorem phantom_input : ¬ ∀ s,
    Reach step (fun l _ => (InputLabel l ∧ KeyCode l) ∧ Answered l) {} s →
      s.memory.keys <+: s.client.keys := by
  intro hclaim
  obtain ⟨s, hs, hk⟩ := Reach.exists_of_run (show
    (run (fun l s => if (InputLabel l ∧ KeyCode l) ∧ Answered l then step l s else none)
      phantomRun {}).map (fun s => (s.memory.keys, s.client.keys)) = some ([1], [23])
    by decide)
  rw [Prod.mk.injEq] at hk
  have := hclaim s hs
  rw [hk.1, hk.2] at this
  exact absurd this (by decide)

/-- The client gives up its request for the input mode after `SOCKET_TIMEOUT`, and asks
again: the second `MODULE_INPUT` comes to `listen`, and the first `ACK` answers it. -/
def lateRun : List Label :=
  [.server serverEnv, .switchModule .input, .module clientEnv, .module clientEnv,
    .moduleTimeout, .switchModule .input, .module clientEnv, .module clientEnv,
    .server serverEnv, .server serverEnv, .module clientEnv, .module clientEnv, .uiMessage,
    .sendInput 23, .input, .input, .input,
    .server serverEnv, .server serverEnv, .server serverEnv]

example : (run step lateRun {}).map (fun s => (s.memory.keys, s.client.keys)) =
    some ([1], [23]) := by decide

/-! ### No unrequested disconnect -/

theorem zone_of_left {pc : TaskPc} (h : pc.left = true) : pc.zone = .closed := by
  cases pc with
  | closeStreams | closeSocket | remove | done | dead => rfl
  | _ => cases h

/-- **The server does not hang up.**  It never takes a byte for `MODULE_EXIT`, and
where nothing fails it never leaves its loop, if no read of the `ModuleThread` times
out, no `0x00` of a timeout is read as an answer, no key is sent after `exit()`, and
`exit()` is called once. -/
theorem stays_connected (s : Session) :
    (Reach step (fun l s => (InputLabel l ∧ Answered l) ∧ TimeoutSkipped l s ∧
      PressBeforeExit l s ∧ FirstExit l s) {} s → s.server ≠ .exitAck) ∧
    (Reach step (fun l s => (InputLabel l ∧ Answered l) ∧ TimeoutSkipped l s ∧
      PressBeforeExit l s ∧ FirstExit l s ∧ NoFailure l) {} s → s.server.left = false) := by
  constructor
  · intro h hexit
    have hinv : Inv True False s := .of_reach (fun l s hl =>
      .of_input hl.1.1 hl.1.2 hl.2.1 hl.2.2.1 (fun _ => hl.2.2.2) False.elim) h
    have hz : s.zone = .exitAck := by rw [zone, hexit]; rfl
    rcases (hinv.phase.of_not_reading (Or.inr hz)).1 with ⟨_, hns⟩ | ⟨hz', _⟩
    · exact hns trivial
    · rw [hz] at hz'
      cases hz'
  · intro h
    have hinv : Inv True True s := .of_reach (fun l s hl =>
      .of_input hl.1.1 hl.1.2 hl.2.1 hl.2.2.1 (fun _ => hl.2.2.2.1) (fun _ => hl.2.2.2.2)) h
    by_contra hleft
    have hz : s.zone = .closed := zone_of_left (by simpa using hleft)
    rcases (hinv.phase.of_not_reading (Or.inl hz)).1 with ⟨_, hns⟩ | ⟨_, hns | hng⟩
    · exact hns trivial
    · exact hns trivial
    · exact hng trivial

/-- The input mode is entered and left, and the frame module is asked for. -/
theorem stays_connected_left : ∃ s : Session, s.server = .frame .ack ∧ s.server ≠ .exitAck := by
  obtain ⟨s, hs, hk⟩ := Reach.exists_of_run (show
    (run (fun l s => if (InputLabel l ∧ Answered l) ∧ TimeoutSkipped l s ∧ PressBeforeExit l s ∧
      FirstExit l s then step l s else none) (inputEntered ++ [.switchModule .frame,
        .module clientEnv, .module clientEnv, .input, .input, .server serverEnv, .server serverEnv,
        .module clientEnv, .module clientEnv, .server serverEnv, .server serverEnv,
        .server serverEnv, .server serverEnv]) {}).map (·.server) =
      some (.frame .ack) by decide)
  exact ⟨s, hk, (stays_connected s).1 hs⟩

/-- The server times out in the input mode while the client leaves it.  The client
reads the `0x00` for an answer to `exit()` and calls it again; the second exit byte
comes to the module loop. -/
def disconnectRun : List Label :=
  inputEntered ++ [.serverTimeout, .server serverEnv, .switchModule .frame, .module clientEnv,
    .module clientEnv, .module clientEnv, .module clientEnv, .input, .input, .input, .input,
    .server serverEnv, .server serverEnv, .server serverEnv, .server serverEnv]

/-- **The server takes an exit byte of the input mode for `MODULE_EXIT`.** -/
theorem disconnects : ¬ ∀ s,
    (Reach step (fun l _ => InputLabel l ∧ Answered l) {} s → s.server ≠ .exitAck) ∧
    (Reach step (fun l _ => (InputLabel l ∧ Answered l) ∧ NoFailure l) {} s →
      s.server.left = false) := by
  intro hclaim
  obtain ⟨s, hs, hk⟩ := Reach.exists_of_run (show
    (run (fun l s => if InputLabel l ∧ Answered l then step l s else none) disconnectRun {}).map
      (·.server) = some .exitAck by decide)
  exact (hclaim s).1 hs hk

/-! ### A press in flight never selects a module -/

/-- No `0x00` of a timeout is under way or about to be written. -/
structure Prompt (s : Session) : Prop where
  s2c : .timeout ∉ s.s2c
  server : s.server.isTimeout = false

theorem Prompt.step {s t : Session} {l : Label} (h : Prompt s)
    (hl : InputLabel l ∧ NoTimeout l) (hst : Session.step l s = some t) : Prompt t := by
  cases l with
  | switchModule m =>
    simp only [Session.step] at hst
    split at hst
    · cases hst
      exact ⟨h.s2c, h.server⟩
    · cases hst
  | sendInput k =>
    simp only [Session.step, stepUi] at hst
    repeat' split at hst
    all_goals cases hst
    exact ⟨h.s2c, h.server⟩
  | uiMessage =>
    simp only [Session.step, stepUi] at hst
    repeat' split at hst
    all_goals cases hst
    exact ⟨h.s2c, h.server⟩
  | module e =>
    simp only [Session.step] at hst
    split at hst
    · cases hst
    · refine ⟨?_, by rw [(stepModule_server hst).server]; exact h.server⟩
      exact fun hmem => h.s2c (stepModule_s2c hst _ hmem)
  | moduleEof =>
    simp only [Session.step, stepModuleEof] at hst
    repeat' split at hst
    all_goals cases hst
    exact ⟨h.s2c, h.server⟩
  | input =>
    simp only [Session.step, stepInput] at hst
    repeat' split at hst
    all_goals cases hst
    all_goals exact ⟨h.s2c, h.server⟩
  | server e =>
    obtain ⟨hserver, bs, hs⟩ := stepServer_replies h.server hst
    refine ⟨fun hmem => ?_, hserver⟩
    rw [hs] at hmem
    rcases List.mem_append.mp hmem with hmem | hmem
    · exact h.s2c hmem
    · obtain ⟨b, _, hb⟩ := List.mem_map.mp hmem
      cases hb
  | serverTimeout => exact hl.2.elim
  | moduleTimeout => exact hl.2.elim
  | lose =>
    simp only [Session.step] at hst
    split at hst
    · cases hst
      exact ⟨h.s2c, h.server⟩
    · cases hst
  | _ => exact hl.1.elim

theorem Prompt.timeoutUnread {s : Session} (h : Prompt s) : s.TimeoutUnread := by
  intro _ hhead
  exact absurd (List.mem_of_mem_head? hhead) h.s2c

/-- Where the server reads a module byte or a byte of a port, no key is next. -/
theorem Phase.no_press {strict good : Prop} {s : Session} (h : Phase strict good s)
    (hz : s.zone = .loop ∨ ∃ bs, s.zone = .port bs) : ∀ b ∈ s.c2s.head?, b.origin ≠ .key := by
  intro b hb
  have hmem : b ∈ s.c2s := List.mem_of_mem_head? hb
  have htalk : Talk good s → b.origin ≠ .key := fun ht => by rw [ht.origin b hmem]; decide
  have hdecodes : ∀ bs ks, ¬ Decodes s.zone bs ks := by
    intro bs ks hd
    rcases hz with hz | ⟨_, hz⟩
    · rw [hz] at hd
      exact hd.elim
    · rw [hz] at hd
      exact hd.elim
  have htransit : b ∈ s.transit := by simp [transit, hmem]
  cases h with
  | before _ _ _ _ _ _ ht => exact htalk ht
  | window ks _ _ _ hd => exact absurd hd (hdecodes _ ks)
  | exiting ks bs _ _ _ _ _ hd => exact absurd hd (hdecodes bs ks)
  | leaving _ _ _ _ hc =>
    rw [hc] at hmem
    cases hmem
  | after _ _ _ _ ht => exact htalk ht
  | again _ _ _ _ _ hm =>
    rcases hm with ⟨_, ht, _⟩ | ⟨_, ⟨ht, _⟩ | ⟨ht, _⟩⟩
    · rw [ht] at htransit
      cases htransit
    · rw [ht] at htransit
      rw [List.mem_singleton.mp htransit]
      decide
    · rw [ht] at htransit
      cases htransit
  | closed hz' =>
    rcases hz with hz | ⟨_, hz⟩
    · rcases hz' with ⟨hz', _⟩ | ⟨hz', _⟩
      · rw [hz] at hz'
        cases hz'
      · rw [hz] at hz'
        cases hz'
    · rcases hz' with ⟨hz', _⟩ | ⟨hz', _⟩
      · rw [hz] at hz'
        cases hz'
      · rw [hz] at hz'
        cases hz'

/-- **A press in flight never selects a module.**  Without timeouts, and with no key
sent after `exit()`, what is read as a module byte or as a byte of the frame port was
not written for a key. -/
theorem press_not_module {s : Session}
    (h : Reach step (fun l s => (InputLabel l ∧ NoTimeout l) ∧ PressBeforeExit l s) {} s)
    (hread : s.server = .module ∨ ∃ bs, s.server = .frame (.port bs)) :
    ∀ b ∈ s.c2s.head?, b.origin ≠ .key := by
  have hreach : Reach step (Allowed False False) {} s := by
    refine Reach.strengthen (I := Prompt) ⟨List.not_mem_nil, rfl⟩
      (fun _ _ _ hs hl hst => hs.step hl.1 hst) (fun _ l hs hl => ?_) h
    refine .of_input hl.1.1 (answered_of_noTimeout hl.1.2) ?_ hl.2 False.elim False.elim
    cases l with
    | module e => exact hs.timeoutUnread
    | _ => trivial
  have hinv : Inv False False s := .of_reach (fun _ _ hl => hl) hreach
  refine hinv.phase.no_press ?_
  rcases hread with hread | ⟨bs, hread⟩
  · exact Or.inl (by rw [zone, hread]; rfl)
  · exact Or.inr ⟨bs, by rw [zone, hread]; rfl⟩

/-- A key is pressed, the input mode is left, and `MODULE_FRAME` is about to be
read. -/
theorem press_not_module_frame : ∃ s : Session, s.server = .module ∧ s.c2s ≠ [] ∧
    ∀ b ∈ s.c2s.head?, b.origin ≠ .key := by
  obtain ⟨s, hs, hk⟩ := Reach.exists_of_run (show
    (run (fun l s => if (InputLabel l ∧ NoTimeout l) ∧ PressBeforeExit l s
      then step l s else none) (inputEntered ++ [.sendInput 23, .input, .input, .input,
        .server serverEnv, .server serverEnv, .server serverEnv, .switchModule .frame,
        .module clientEnv, .module clientEnv, .input, .input, .server serverEnv,
        .server serverEnv, .server serverEnv, .module clientEnv, .module clientEnv]) {}).map
      (fun s => (s.server, s.c2s)) = some (.module, [⟨moduleFrame, .module⟩]) by decide)
  rw [Prod.mk.injEq] at hk
  exact ⟨s, hk.1, by rw [hk.2]; decide, press_not_module hs (Or.inl hk.1)⟩

/-- Key 1 is pressed after `exit()`, while the UI's `currModule` is still
`MODULE_INPUT`. -/
def latePressRun : List Label :=
  inputEntered ++ [.switchModule .frame, .module clientEnv, .module clientEnv, .sendInput 1,
    .input, .input, .server serverEnv, .server serverEnv, .server serverEnv, .input, .input]

/-- **The `MODE_KEY` byte is read as a module byte.** -/
theorem press_selects_module :
    ¬ ∀ s, Reach step (fun l _ => InputLabel l ∧ NoTimeout l) {} s →
      (s.server = .module ∨ ∃ bs, s.server = .frame (.port bs)) →
      ∀ b ∈ s.c2s.head?, b.origin ≠ .key := by
  intro hclaim
  obtain ⟨s, hs, hk⟩ := Reach.exists_of_run (show
    (run (fun l s => if InputLabel l ∧ NoTimeout l then step l s else none) latePressRun {}).map
      (fun s => (s.server, s.c2s)) = some (.module, [⟨modeKey, .key⟩]) by decide)
  rw [Prod.mk.injEq] at hk
  refine hclaim s hs (Or.inl hk.1) ⟨modeKey, .key⟩ ?_ rfl
  rw [hk.2]
  rfl

end MikaAudio.Session
