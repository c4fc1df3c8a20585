import MikaAudio.Session.Handshake
import MikaAudio.Session.Safety

/-!
# Mode agreement

When a request of the client is handled and nothing is under way, the `ModuleThread`
and the server should be in the same mode.  `Settled` is that state of rest.  From
any state that a run reaches, the two threads come to one and the same state of
rest (`Settles`), whatever the user interface does meanwhile: its moves commute with
theirs, and a request that is taken at rest is followed through to the next rest.

This holds as long as every `MODULE_FRAME` request is rejected and comes from a client
that has not been in the frame or the input mode before.  `ModuleThread.currModule`
is never set to `MODULE_FRAME`, nor back to `MODULE_EXIT`, and `FrameModule.running`
is not reset by a failed `init`, so after any other `MODULE_FRAME` request the modes
differ.
-/

namespace MikaAudio.Session

open Thread Server Interleave
open Client (ModulePc InitPc moduleOp initOp)

/-! ### Modes -/

/-- The mode the server is in for the connection, where it is in one. -/
def serverMode : TaskPc → Option Module
  | .module => some .exit
  | .listen _ _ => some .input
  | .frame _ => some .frame
  | _ => none

/-- The server's `init` failed for the request handled last, and it answered
`REJECT`. -/
def Rejected (s : Session) : Prop :=
  s.client.handled = some .frame ∧ s.memory.frame.instancePtr = -1

/-- Both ends are in the same mode, and it is the one asked for unless the server
answered `REJECT`, when both are in the exit mode. -/
def ModesAgree (s : Session) : Prop :=
  serverMode s.server = some s.client.currModule ∧
    ∀ request, s.client.handled = some request →
      s.client.currModule = request ∨ s.Rejected ∧ s.client.currModule = .exit

/-! ### The user interface does not disturb the threads -/

/-- Inside a request the `ModuleThread` looks neither at the requests nor at what the UI
thread has been told. -/
theorem moduleOp_ui {port : JInt} {pc pc' : ModulePc} {e : Client.Env}
    {f : Client.Env → Client.Memory → Option (Client.Memory × ModulePc)}
    {m m' : Client.Memory} (hpc : pc ≠ .idle) (h : moduleOp port pc = .act f)
    (hf : f e m = some (m', pc')) :
    m'.requests = m.requests ∧ ∃ told, m'.uiQueue = m.uiQueue ++ told ∧ ∀ requests uiModule uiQueue,
      f e { m with requests := requests, uiModule := uiModule, uiQueue := uiQueue } =
        some ({ m' with
          requests := requests
          uiModule := uiModule
          uiQueue := uiQueue ++ told }, pc') := by
  cases pc with
  | idle => exact absurd rfl hpc
  | stopTask =>
    cases h
    cases hend : m.frame.endStop with
    | _ =>
      simp only [hend, Option.some.injEq, Prod.mk.injEq] at hf
      obtain ⟨rfl, rfl⟩ := hf
      exact ⟨rfl, [], by simp, by simp [hend]⟩
  | inputDone =>
    cases h; cases hf
    exact ⟨rfl, [.input], rfl, fun _ _ _ => rfl⟩
  | init pc =>
    cases pc with
    | testRunning =>
      cases h
      by_cases hrun : m.frame.running = true
      · simp only [hrun] at hf
        cases hf
        exact ⟨rfl, [], by simp, by simp [hrun]⟩
      · simp only [hrun] at hf
        cases hf
        exact ⟨rfl, [], by simp [Client.Memory.onFrame], by simp [hrun, Client.Memory.onFrame]⟩
    | initFrameInput p =>
      cases h
      by_cases hp : validPort p = true
      · simp only [hp] at hf
        cases hf
        exact ⟨rfl, [], by simp [Client.Memory.onFrame], by simp [hp, Client.Memory.onFrame]⟩
      · simp only [hp] at hf
        cases hf
        exact ⟨rfl, [], by simp, by simp [hp]⟩
    | writePort bs =>
      cases bs with
      | nil => cases h; cases hf; exact ⟨rfl, [], by simp, by simp⟩
      | cons b bs => cases h
    | readPort | receive | final => cases h
    | _ =>
      cases h
      cases hf
      exact ⟨rfl, [], by simp [Client.Memory.onFrame], by simp [Client.Memory.onFrame]⟩
  | initDone ok =>
    cases h; cases hf
    cases ok with
    | true => exact ⟨rfl, [.frame], rfl, fun _ _ _ => rfl⟩
    | false => exact ⟨rfl, [], by simp, by simp⟩
  | stopTest | exit =>
    cases h
    cases hf
    exact ⟨rfl, [], by simp [Client.Memory.postInput], by simp [Client.Memory.postInput]⟩
  | _ => cases h

/-- The same session with other requests and another state of the UI thread. -/
def withUi (requests : List Module) (uiModule : Module) (uiQueue : List Module) (s : Session) :
    Session :=
  { s with client := { s.client with
      requests := requests
      uiModule := uiModule
      uiQueue := uiQueue } }

theorem handle_ui {ec : Client.Env} {s t : Session} (h : handle ec s = some t) :
    t.client.requests = s.client.requests ∧ ∃ told, t.client.uiQueue = s.client.uiQueue ++ told ∧
      ∀ requests uiModule uiQueue, handle ec (s.withUi requests uiModule uiQueue) =
        some (t.withUi requests uiModule (uiQueue ++ told)) := by
  obtain ⟨hidle, h⟩ := handle_stepModule h
  rcases stepModule_cases h with ⟨k, a, rest, hop, hr, rfl⟩ | ⟨b, k, hop, rfl⟩ |
    ⟨port, k, d, ds, hop, hd, rfl⟩ | ⟨f, m, pc, hop, hf, rfl⟩
  · exact ⟨rfl, [], by simp, by simp [handle, stepModule, withUi, hidle, hop, hr]⟩
  · exact ⟨rfl, [], by simp, by simp [handle, stepModule, withUi, hidle, hop]⟩
  · exact ⟨rfl, [], by simp, by simp [handle, stepModule, withUi, hidle, hop, hd]⟩
  · obtain ⟨hreq, told, hq, hall⟩ := moduleOp_ui hidle hop hf
    refine ⟨hreq, told, hq, fun requests uiModule uiQueue => ?_⟩
    simp [handle, stepModule, withUi, hidle, hop, hall requests uiModule uiQueue]

theorem stepServer_ui {es : Env} {s t : Session} (h : s.stepServer es = some t)
    (requests : List Module) (uiModule : Module) (uiQueue : List Module) :
    stepServer es (s.withUi requests uiModule uiQueue) =
      some (t.withUi requests uiModule uiQueue) := by
  rcases stepServer_cases h with ⟨k, b, rest, hop, hc, rfl⟩ | ⟨len, k, b, rest, hop, hc, rfl⟩ |
    ⟨b, k, hop, rfl⟩ | ⟨port, data, k, hop, rfl⟩ | ⟨f, m, pc, hop, hf, rfl⟩
  · simp [stepServer, withUi, hop, hc]
  · simp [stepServer, withUi, hop, hc]
  · simp only [stepServer, withUi, hop]
    rfl
  · simp [stepServer, withUi, hop]
  · simp [stepServer, withUi, hop, hf]

/-- The UI calls `switchModule(module)`. -/
def askModule (module : Module) (s : Session) : Option Session :=
  some (s.withUi (s.client.requests ++ [module]) s.client.uiModule s.client.uiQueue)

/-- The UI thread handles a `HANDLER_MODULE` message. -/
def tellUi (s : Session) : Option Session :=
  match s.client.uiQueue with
  | m :: rest => some (s.withUi s.client.requests m rest)
  | [] => none

theorem askModule_handle (ec : Client.Env) (module : Module) :
    Commutes (askModule module) (handle ec) := by
  intro s a b ha hb
  obtain ⟨hreq, told, hq, hall⟩ := handle_ui hb
  cases ha
  refine ⟨_, hall _ _ _, ?_⟩
  have hui := (stepModule_client (handle_stepModule hb).2).uiModule
  rw [askModule, hreq, hq, hui]

theorem askModule_server (es : Env) (module : Module) :
    Commutes (askModule module) (stepServer es) := by
  intro s a b ha hb
  cases ha
  refine ⟨_, stepServer_ui hb _ _ _, ?_⟩
  rw [askModule, (stepServer_client hb).client]

theorem tellUi_handle (ec : Client.Env) : Commutes tellUi (handle ec) := by
  intro s a b ha hb
  obtain ⟨hreq, told, hq, hall⟩ := handle_ui hb
  unfold tellUi at ha
  split at ha
  · rename_i m rest hs
    cases ha
    refine ⟨_, hall _ _ _, ?_⟩
    rw [tellUi, hq, hs, List.cons_append, hreq]
  · cases ha

theorem tellUi_server (es : Env) : Commutes tellUi (stepServer es) := by
  intro s a b ha hb
  have hcl := (stepServer_client hb).client
  unfold tellUi at ha
  split at ha
  · rename_i m rest hs
    cases ha
    refine ⟨_, stepServer_ui hb _ _ _, ?_⟩
    rw [tellUi, hcl, hs]
  · cases ha

/-! ### Taking a request -/

/-- The `ModuleThread` takes a request. -/
def take (ec : Client.Env) (s : Session) : Option Session :=
  if s.module = .idle then s.stepModule ec else none

theorem take_handle (ec : Client.Env) : Commutes (take ec) (handle ec) := by
  intro s a b ha hb
  obtain ⟨hidle, _⟩ := handle_stepModule hb
  rw [take, if_neg hidle] at ha
  cases ha

theorem take_server (ec : Client.Env) (es : Env) : Commutes (take ec) (stepServer es) := by
  have htake : take ec = fun s => if decide (s.module = .idle) then stepModule ec s else none := by
    funext s
    unfold take
    by_cases hm : s.module = .idle
    · simp [hm]
    · simp [hm]
  rw [htake]
  exact guarded_commutes ec es fun pc => decide (pc = .idle)

/-! ### States of rest -/

/-- Both threads wait in the same mode and nothing is under way; the UI has not been
told of the frame module. -/
structure Settled (s : Session) : Prop where
  module : s.module = .idle
  c2s : s.c2s = []
  s2c : s.s2c = []
  net : s.net = []
  input : s.input = []
  inputQueue : s.client.inputQueue = []
  requests : .exit ∉ s.client.requests
  uiModule : s.client.uiModule ≠ .frame
  uiQueue : .frame ∉ s.client.uiQueue
  running : s.memory.running 0 = true
  connected : s.memory.frame.connected = false
  opened : 0 ∉ s.memory.closed
  waits : s.client.currModule = .exit ∧ s.server = .module ∨
    s.client.currModule = .input ∧ ∃ inString, s.server = .listen .mode inString
  agree : s.ModesAgree

/-- The two threads, left to themselves, come to a state of rest. -/
def Settles (ec : Client.Env) (es : Env) (s : Session) : Prop :=
  ∃ n t, Path (Exchange ec es) n s t ∧ Settled t

section Settle

variable {ec : Client.Env} {es : Env} {s t : Session}

theorem Settled.reads (h : Settled s) : s.ServerReads := by
  unfold ServerReads
  rcases h.waits with ⟨_, hs⟩ | ⟨_, inString, hs⟩
  · rw [hs]
    trivial
  · rw [hs]
    trivial

theorem Settled.stuck (h : Settled s) : Stuck (Exchange ec es) s := by
  rintro t (ht | ht)
  · exact (handle_stepModule ht).1 h.module
  · rcases h.waits with ⟨_, hs⟩ | ⟨_, inString, hs⟩
    · simp [stepServer, hs, taskOp, h.c2s] at ht
    · simp [stepServer, hs, taskOp, listenOp, h.c2s] at ht

theorem idle_path {n : Nat} (h : Path (Exchange ec es) n s t) :
    s.module = .idle → t.module = .idle ∧ t.client = s.client ∧
      Path (fun a b => stepServer es a = some b) n s t := by
  induction h with
  | nil s => exact fun hm => ⟨hm, rfl, .nil s⟩
  | @cons n s u t hsu _ ih =>
    intro hm
    rcases hsu with hsu | hsu
    · exact absurd hm (handle_stepModule hsu).1
    · have hcl := stepServer_client hsu
      obtain ⟨ht, hclient, hp⟩ := ih (hcl.module.trans hm)
      exact ⟨ht, hclient.trans hcl.client, .cons hsu hp⟩

theorem exchange_told {n : Nat} (h : Path (Exchange ec es) n s t) :
    s.client.uiModule = t.client.uiModule ∧ s.client.uiQueue <+: t.client.uiQueue ∧
      s.client.inputQueue <+: t.client.inputQueue ∧ s.input = t.input ∧
      s.client.requests = t.client.requests := by
  induction h with
  | nil s => exact ⟨rfl, List.prefix_rfl, List.prefix_rfl, rfl, rfl⟩
  | cons hsu _ ih =>
    obtain ⟨h1, h2, h3, h4, h5⟩ := ih
    rcases hsu with hsu | hsu
    · have hreq := (handle_ui hsu).1
      have hmod := (handle_stepModule hsu).2
      have hcl := stepModule_client hmod
      refine ⟨hcl.uiModule ▸ h1, hcl.uiQueue.trans h2, ?_,
        (stepModule_server hmod).input ▸ h4, hreq ▸ h5⟩
      rcases hcl.input with ⟨_, hq⟩ | ⟨_, hq⟩
      · rwa [← hq]
      · exact (List.prefix_append _ _).trans (hq ▸ h3)
    · have hcl := stepServer_client hsu
      rw [hcl.client, hcl.input] at *
      exact ⟨h1, h2, h3, h4, h5⟩

theorem Settles.exchange (h : Settles ec es s) (hst : Exchange ec es s t) :
    Settles ec es t := by
  obtain ⟨n, u, hp, hu⟩ := h
  obtain ⟨m, _, hp⟩ := (exchange_diamond ec es).descend hp hu.stuck hst
  exact ⟨m, u, hp, hu⟩

/-- A move that disturbs neither thread may be made at rest instead. -/
theorem Settles.commutes {f : Session → Option Session} (hf : Commutes f (handle ec))
    (hg : Commutes f (stepServer es))
    (hrest : ∀ u v, Settled u → f u = some v → Settles ec es v) (h : Settles ec es s)
    (hst : f s = some t) : Settles ec es t := by
  obtain ⟨n, u, hp, hu⟩ := h
  obtain ⟨v, hv, hq⟩ := hf.path hg hp hst
  obtain ⟨m, w, hw, hsettled⟩ := hrest u v hu hv
  exact ⟨n + m, w, hq.trans hw, hsettled⟩

theorem Settled.settles (h : Settled s) : Settles ec es s := ⟨0, s, .nil s, h⟩

theorem Settled.askModule {module : Module} (h : Settled s) (hm : module ≠ .exit)
    (hst : askModule module s = some t) : Settled t := by
  cases hst
  obtain ⟨_, _, _, _, _, _, hreq, _, _, _, _, _, _, _⟩ := h
  refine ⟨‹_›, ‹_›, ‹_›, ‹_›, ‹_›, ‹_›, ?_, ‹_›, ‹_›, ‹_›, ‹_›, ‹_›, ‹_›, ‹_›⟩
  simp only [withUi, List.mem_append, List.mem_singleton, not_or]
  exact ⟨hreq, Ne.symm hm⟩

theorem Settled.tellUi (h : Settled s) (hst : tellUi s = some t) : Settled t := by
  unfold Session.tellUi at hst
  split at hst
  · rename_i m rest hs
    cases hst
    obtain ⟨_, _, _, _, _, _, _, _, hq, _, _, _, _, _⟩ := h
    rw [hs, List.mem_cons, not_or] at hq
    exact ⟨‹_›, ‹_›, ‹_›, ‹_›, ‹_›, ‹_›, ‹_›, Ne.symm hq.1, hq.2, ‹_›, ‹_›, ‹_›, ‹_›, ‹_›⟩
  · cases hst

end Settle

/-! ### A request at rest -/

/-- A `MODULE_FRAME` request is taken only if the server will reject it, and by a
client that is in the exit mode and has never called `FrameModule.init`. -/
def FrameRefused (es : Env) (s : Session) : Prop :=
  s.module = .idle → s.client.requests.head? = some .frame →
    s.client.currModule = .exit ∧ s.client.frame.running = false ∧ es.screen = -1

section Rest

variable {ec : Client.Env} {es : Env} {s t : Session}

theorem take_cases (h : take ec s = some t) :
    s.module = .idle ∧ ∃ request rest, s.client.requests = request :: rest ∧
      t = { s with
        client := { s.client with requests := rest, handled := some request }
        module := .ofRequest request s.client.currModule } := by
  unfold take at h
  split at h
  · rename_i hm
    obtain ⟨m, pc, hf, rfl⟩ := stepModule_act (by rw [hm]; rfl) h
    cases hreq : s.client.requests with
    | nil => simp [hreq] at hf
    | cons request rest =>
      simp only [hreq, Option.some.injEq, Prod.mk.injEq] at hf
      obtain ⟨rfl, rfl⟩ := hf
      exact ⟨hm, request, rest, rfl, rfl⟩
  · cases h

theorem run_enter (hm : s.module = .inputWrite) (hs : s.server = .module) (hc : s.c2s = [])
    (hr : s.s2c = []) :
    run (thread ec es) [true, false, false, true, true] s = some
      { s with
        module := .idle
        server := .listen .mode []
        client := { s.client with currModule := .input }.postModule .input } := by
  simp [thread, handle, stepModule, moduleOp, hm, stepServer, taskOp, hs, hc, hr, TaskPc.ofModule,
    listenOp, moduleExit, moduleInput, TaskPc.isTimeout, Answer.val]

/-- **A request taken at rest is followed through to the next rest.** -/
theorem Settled.take (he : Serves ec es) (h : Settled s) (hok : FrameRefused es s)
    (hst : take ec s = some t) : Settles ec es t := by
  obtain ⟨hm, request, rest, hreq, rfl⟩ := take_cases hst
  have hrest : Module.exit ∉ rest := fun hmem => h.requests (hreq ▸ List.mem_cons_of_mem _ hmem)
  have hserver : ∀ {m}, s.client.currModule = m → serverMode s.server = some m := by
    intro m hcur
    rw [h.agree.1, hcur]
  cases request with
  | exit => exact absurd (hreq ▸ List.mem_cons_self) h.requests
  | input =>
    rcases h.waits with ⟨hcur, hs⟩ | ⟨hcur, inString, hs⟩
    · have hp : Path (Exchange ec es) 5 _ _ := path_of_run (run_enter
        (s := { s with
          client := { s.client with requests := rest, handled := some .input }
          module := .ofRequest .input s.client.currModule })
        (by rw [hcur]; rfl) hs h.c2s h.s2c)
      refine ⟨5, _, hp, ?_⟩
      refine ⟨rfl, h.c2s, h.s2c, h.net, h.input, h.inputQueue, hrest, h.uiModule, ?_, h.running,
        h.connected, h.opened, Or.inr ⟨rfl, [], rfl⟩, rfl, ?_⟩
      · simp only [Client.Memory.postModule, List.mem_append, List.mem_singleton, not_or]
        exact ⟨h.uiQueue, by decide⟩
      · intro request hreq
        cases hreq
        exact Or.inl rfl
    · refine Settled.settles ?_
      refine ⟨by rw [hcur]; rfl, h.c2s, h.s2c, h.net, h.input, h.inputQueue, hrest, h.uiModule,
        h.uiQueue, h.running, h.connected, h.opened, h.waits, hserver rfl, ?_⟩
      intro request hreq
      cases hreq
      exact Or.inl hcur
  | frame =>
    obtain ⟨hcur, hrun, hscreen⟩ := hok hm (by rw [hreq]; rfl)
    have hs : s.server = .module := by
      rcases h.waits with ⟨_, hs⟩ | ⟨hcur', _⟩
      · exact hs
      · rw [hcur] at hcur'
        cases hcur'
    obtain ⟨n, hp⟩ := handshake_path (k := 0)
      (s := { s with
        client := { s.client with requests := rest, handled := some .frame }
        module := .ofRequest .frame s.client.currModule })
      ⟨by rw [hcur]; rfl, hrun, h.c2s, h.s2c, h.net, hs, h.running, h.connected, h.opened⟩ he
    refine ⟨n, _, hp, ?_⟩
    refine ⟨rfl, h.c2s, rfl, rfl, h.input, h.inputQueue, hrest, h.uiModule, ?_, h.running, rfl,
      h.opened, Or.inl ⟨hcur, ?_⟩, ?_, ?_⟩
    · simp only [shaken, hscreen, if_true, List.append_nil]
      exact h.uiQueue
    · simp only [shaken, hscreen, if_true]
    · simp only [shaken, hscreen, if_true, serverMode, hcur]
    · intro request hreq
      cases hreq
      exact Or.inr ⟨⟨rfl, hscreen⟩, hcur⟩

/-! ### Whole runs -/

/-- The UI calls `switchModule(MODULE_INPUT)`, `switchModule(MODULE_FRAME)` and the
start button; the network is ideal.  The answers of the environment are the same all
along: the handshake, which is what asks for them, takes place only once. -/
def ModeLabel (ec : Client.Env) (es : Env) : Label → Prop
  | .switchModule m => m ≠ .exit
  | .uiMessage => True
  | .start => True
  | .module e => e = ec
  | .input => True
  | .server e => e = es
  | _ => False

/-- The condition on a step of the `ModuleThread`. -/
def Refused (es : Env) : Label → Session → Prop
  | .module _, s => s.FrameRefused es
  | _, _ => True

/-- **The two threads can still come to a state of rest, whatever step is made.** -/
theorem Settles.step (he : Serves ec es) {l : Label} (h : Settles ec es s)
    (hl : ModeLabel ec es l) (hok : Refused es l s) (hst : Session.step l s = some t) :
    Settles ec es t := by
  cases l with
  | switchModule m =>
    have hask : askModule m s = some t := by
      simp only [Session.step, stepUi] at hst
      split at hst
      · exact hst
      · cases hst
    exact h.commutes (askModule_handle ec m) (askModule_server es m)
      (fun u v hu hv => (hu.askModule hl hv).settles) hask
  | uiMessage =>
    have htell : tellUi s = some t := by
      simp only [Session.step, stepUi] at hst
      split at hst
      · exact hst
      · cases hst
    exact h.commutes (tellUi_handle ec) (tellUi_server es)
      (fun u v hu hv => (hu.tellUi hv).settles) htell
  | start =>
    obtain ⟨n, u, hp, hu⟩ := h
    obtain ⟨hui, _⟩ := exchange_told hp
    have hne : s.client.uiModule ≠ .frame := hui ▸ hu.uiModule
    simp [Session.step, stepUi, hne] at hst
  | input =>
    obtain ⟨n, u, hp, hu⟩ := h
    obtain ⟨_, _, hqueue, hinput, _⟩ := exchange_told hp
    rw [hu.inputQueue, List.prefix_nil] at hqueue
    rw [hu.input] at hinput
    simp [Session.step, stepInput, hinput, hqueue] at hst
  | module e =>
    obtain rfl : e = ec := hl
    have hmod : stepModule e s = some t := by
      simp only [Session.step] at hst
      split at hst
      · cases hst
      · exact hst
    by_cases hm : s.module = .idle
    · obtain ⟨n, u, hp, hu⟩ := h
      obtain ⟨hidle, hclient, _⟩ := idle_path hp hm
      obtain ⟨v, hv, hq⟩ := (take_handle e).path (take_server e es) hp
        (show take e s = some t by rw [take, if_pos hm]; exact hmod)
      have hrefused : u.FrameRefused es := fun _ hhead => by
        rw [hclient] at hhead ⊢
        exact hok hm hhead
      obtain ⟨m, w, hw, hsettled⟩ := hu.take he hrefused hv
      exact ⟨n + m, w, hq.trans hw, hsettled⟩
    · exact h.exchange (Or.inl (by rw [handle, if_neg hm]; exact hmod))
  | server e =>
    obtain rfl : e = es := hl
    exact h.exchange (Or.inr hst)
  | _ => exact hl.elim

end Rest

/-! ### The modes agree -/

instance (ec : Client.Env) (es : Env) : DecidablePred (ModeLabel ec es) := fun l => by
  induction l using Label.casesOn
  all_goals
    dsimp only [ModeLabel]
    infer_instance

instance (es : Env) (l : Label) (s : Session) : Decidable (Refused es l s) := by
  induction l using Label.casesOn
  all_goals
    dsimp only [Refused, FrameRefused]
    infer_instance

section Agree

variable {ec : Client.Env} {es : Env} {s : Session}

/-- At the start the server has still to come to its first read. -/
theorem settles_init : Settles ec es {} :=
  ⟨1, { server := .module }, .single (Or.inr rfl),
    ⟨rfl, rfl, rfl, rfl, rfl, rfl, by simp, by decide, by simp, rfl, rfl, by simp,
      Or.inl ⟨rfl, rfl⟩, rfl, fun _ h => by cases h⟩⟩

/-- The request is handled to its end, and where that leaves nothing to read, the server
comes to a read by itself and both ends are in the same mode. -/
def Agreed (ec : Client.Env) (es : Env) (s : Session) : Prop :=
  Inevitable (Exchange ec es) (fun t => t.module = .idle) s ∧
    (s.module = .idle → s.c2s = [] → s.s2c = [] →
      Inevitable (fun a b => stepServer es a = some b) (fun t => t.ServerReads ∧ t.ModesAgree) s)

/-- **Mode agreement.**  In a run in which every `MODULE_FRAME` request is rejected, and
is made in the exit mode by a client that has not called `FrameModule.init` before, every
request is handled to its end, and then `currModule` names the mode the server is in. -/
theorem modes_agree (he : Serves ec es)
    (h : Reach Session.step (fun l s => ModeLabel ec es l ∧ Refused es l s) {} s) :
    Agreed ec es s := by
  obtain ⟨n, t, hp, ht⟩ := h.invariant (I := Settles ec es) settles_init
    (fun _ _ _ hs hl hst => hs.step he hl.1 hl.2 hst)
  constructor
  · refine ((exchange_diamond ec es).inevitable ht.stuck hp).mono ?_
    rintro u rfl
    exact ht.module
  · intro hm _ _
    obtain ⟨_, _, hp⟩ := idle_path hp hm
    have hstuck : Stuck (Exchange ec es) t := ht.stuck
    refine ((Diamond.of_fun (stepServer es)).inevitable (fun u hu => ?_) hp).mono ?_
    · exact hstuck u (Or.inr hu)
    · rintro u rfl
      exact ⟨ht.reads, ht.agree⟩

end Agree

/-- A server whose native `init` fails. -/
def refusingEnv : Env := { serverEnv with screen := -1 }

/-- A `MODULE_FRAME` request that is rejected, and the input mode after it. -/
theorem modes_agree_rejected : ∃ s : Session, s.client.currModule = .input ∧
    s.server = .listen .mode [] ∧ Agreed clientEnv refusingEnv s := by
  obtain ⟨s, hs, hk⟩ := Reach.exists_of_run (show
    (run (fun l s => if ModeLabel clientEnv refusingEnv l ∧ Refused refusingEnv l s
      then step l s else none)
      ([.server refusingEnv, .switchModule .frame, .switchModule .input]
        ++ List.replicate 2 (.module clientEnv) ++ List.replicate 4 (.server refusingEnv)
        ++ List.replicate 8 (.module clientEnv) ++ List.replicate 21 (.server refusingEnv)
        ++ List.replicate 11 (.module clientEnv) ++ List.replicate 2 (.server refusingEnv)
        ++ List.replicate 2 (.module clientEnv)) {}).map
      (fun s => (s.client.currModule, s.server)) = some (.input, .listen .mode []) by
        decide +kernel)
  rw [Prod.mk.injEq] at hk
  exact ⟨s, hk.1, hk.2, modes_agree ⟨by decide, by decide, rfl, rfl⟩ hs⟩

/-- A `MODULE_FRAME` request that succeeds. -/
def frameRun : List Label :=
  [.server serverEnv, .switchModule .frame] ++ List.replicate 2 (.module clientEnv)
    ++ List.replicate 4 (.server serverEnv) ++ List.replicate 8 (.module clientEnv)
    ++ List.replicate 19 (.server serverEnv) ++ List.replicate 9 (.module clientEnv)

/-- **The server is in the frame mode and the client thinks it is in none.** -/
theorem modes_differ : ¬ ∀ ec es s, Serves ec es →
    Reach Session.step (fun l _ => ModeLabel ec es l) {} s → Agreed ec es s := by
  intro hclaim
  obtain ⟨s, hs, hk⟩ := Reach.exists_of_run (show
    (run (fun l s => if ModeLabel clientEnv serverEnv l then step l s else none) frameRun {}).map
      (fun s => (s.module, s.c2s, s.s2c, s.client.currModule, s.server)) =
      some (.idle, [], [], .exit, .frame (.startWait 0)) by decide +kernel)
  simp only [Prod.mk.injEq] at hk
  obtain ⟨hm, hc, hr, hcur, hserver⟩ := hk
  have hagree := (hclaim _ _ s ⟨by decide, by decide, rfl, rfl⟩ hs).2 hm hc hr
  cases hagree with
  | now h =>
    have hmode := h.2.1
    rw [hserver, hcur] at hmode
    cases hmode
  | later h _ =>
    obtain ⟨t, ht⟩ := h
    simp [stepServer, hserver, taskOp, startOp, hc] at ht

end MikaAudio.Session
