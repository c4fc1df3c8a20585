import MikaAudio.Session.Talk
import MikaAudio.Server.Host

/-!
# The frame handshake

From the `MODULE_FRAME` request to the result of `init`, the `ModuleThread` and the
server run at the same time and share nothing but two streams and a datagram.
Their steps commute (`handle_commutes`), so it is enough to follow one schedule:
`handshake_path` lets the server wait until the client has written its port, and
the client until the server has written its own and the result.  Every other
schedule ends in the same state.

Where `Bitmap.createBitmap` throws, as it does for dimensions that are not positive,
no answer is written at all: the server's thread dies (`handshake_fails`).
-/

namespace MikaAudio.Session

open Thread Server Interleave
open Client (ModulePc InitPc moduleOp initOp packetData)

/-! ### The two threads -/

/-- The `ModuleThread` goes on with the request it handles. -/
def handle (ec : Client.Env) (s : Session) : Option Session :=
  if s.module = .idle then none else s.stepModule ec

/-- One of the two threads of an exchange moves. -/
abbrev Exchange (ec : Client.Env) (es : Env) : Session → Session → Prop :=
  Either (handle ec) (stepServer es)

theorem handle_stepModule {ec : Client.Env} {s t : Session} (h : handle ec s = some t) :
    s.module ≠ .idle ∧ s.stepModule ec = some t := by
  unfold handle at h
  split at h
  · cases h
  · exact ⟨‹_›, h⟩

/-- A datagram that is taken is taken before those sent later. -/
theorem takeDatagram_append {port : JInt} {d : List Byte} :
    ∀ {ds rest : List Datagram} (more : List Datagram), takeDatagram port ds = some (d, rest) →
      takeDatagram port (ds ++ more) = some (d, rest ++ more) := by
  intro ds
  induction ds with
  | nil => intro rest more h; cases h
  | cons x ds ih =>
    intro rest more h
    by_cases hx : x.port = port
    · simp only [takeDatagram, hx, List.cons_append, if_true, Option.some.injEq,
        Prod.mk.injEq] at h ⊢
      obtain ⟨rfl, rfl⟩ := h
      exact ⟨rfl, rfl⟩
    · simp only [takeDatagram, hx, if_false, List.cons_append, Option.map_eq_some_iff] at h ⊢
      obtain ⟨⟨d', r⟩, hr, hd⟩ := h
      cases hd
      exact ⟨_, ih more hr, rfl⟩

/-- **The two threads do not disturb each other.** -/
theorem stepModule_commutes (ec : Client.Env) (es : Env) :
    Commutes (stepModule ec) (stepServer es) := by
  intro s a b ha hb
  rcases stepModule_cases ha with ⟨k, x, rest, hop, hr, rfl⟩ | ⟨x, k, hop, rfl⟩ |
    ⟨port, k, d, ds, hop, hd, rfl⟩ | ⟨f, m, pc, hop, hf, rfl⟩
  all_goals rcases stepServer_cases hb with ⟨k', b', rest', hop', hc, rfl⟩ |
    ⟨len, k', b', rest', hop', hc, rfl⟩ | ⟨b', k', hop', rfl⟩ | ⟨port', data, k', hop', rfl⟩ |
    ⟨f', m', pc', hop', hf', rfl⟩
  -- a datagram is taken while another one is sent
  case inr.inr.inl.inr.inr.inr.inl =>
    simp [stepServer, stepModule, *, takeDatagram_append _ hd]
  all_goals simp [stepServer, stepModule, *]

/-- A move of the `ModuleThread` that is made in some of its states only still commutes
with the server. -/
theorem guarded_commutes (ec : Client.Env) (es : Env) (guard : ModulePc → Bool) :
    Commutes (fun s => if guard s.module then stepModule ec s else none) (stepServer es) := by
  intro s a b ha hb
  simp only at ha ⊢
  split at ha
  · rename_i hguard
    obtain ⟨c, hc, hc'⟩ := stepModule_commutes ec es s a b ha hb
    exact ⟨c, hc, by rw [(stepServer_client hb).module, if_pos hguard]; exact hc'⟩
  · cases ha

theorem handle_commutes (ec : Client.Env) (es : Env) :
    Commutes (handle ec) (stepServer es) := by
  have hhandle : handle ec = fun s =>
      if (decide (s.module ≠ .idle)) then stepModule ec s else none := by
    funext s
    unfold handle
    by_cases hm : s.module = .idle
    · simp [hm]
    · simp [hm]
  rw [hhandle]
  exact guarded_commutes ec es fun pc => decide (pc ≠ .idle)

theorem exchange_diamond (ec : Client.Env) (es : Env) : Diamond (Exchange ec es) :=
  (handle_commutes ec es).diamond

/-! ### One schedule -/

/-- `true` is the `ModuleThread`, `false` the server. -/
def thread (ec : Client.Env) (es : Env) : Bool → Session → Option Session
  | true => handle ec
  | false => stepServer es

section Run

variable {ec : Client.Env} {es : Env} {s t : Session}

theorem path_of_run {ls : List Bool} (h : run (thread ec es) ls s = some t) :
    Path (Exchange ec es) ls.length s t := by
  refine Path.of_run (fun l _ a b hab => ?_) h
  cases l
  · exact Or.inr hab
  · exact Or.inl hab

theorem run_open (hm : s.module = .frameWrite) (hs : s.server = .module) (hc : s.c2s = [])
    (hcon : s.memory.frame.connected = false) :
    run (thread ec es) [true, false, false, false, false] s = some
      { s with
        module := .frameWait
        server := .frame (.port [])
        s2c := s.s2c ++ [.reply ack]
        memory := s.memory.onFrame ({ · with inputModule := some 0 }) } := by
  simp [thread, handle, stepModule, moduleOp, hm, stepServer, taskOp, hs, hc, TaskPc.ofModule,
    startOp, moduleExit, moduleInput, moduleFrame, hcon, Memory.onFrame, TaskPc.isTimeout]

/-- **The client passes over the timeouts**, however many there are. -/
theorem run_skip (k : Nat) {rest : List Answer} :
    ∀ {s : Session}, s.module = .frameWait →
      s.s2c = List.replicate k .timeout ++ .reply ack :: rest →
      run (thread ec es) (List.replicate (k + 1) true) s =
        some { s with module := .init .testRunning, s2c := rest } := by
  induction k with
  | zero =>
    intro s hm hr
    simp [thread, handle, stepModule, moduleOp, hm, hr, Answer.val]
  | succ k ih =>
    intro s hm hr
    have hstep : thread ec es true s =
        some { s with s2c := List.replicate k .timeout ++ .reply ack :: rest } := by
      simp [thread, handle, stepModule, moduleOp, hm, hr, Answer.val, List.replicate_succ, ack,
        reject]
    rw [List.replicate_succ, run_cons, hstep, Option.bind_some]
    exact ih hm rfl

theorem run_port (hm : s.module = .init .testRunning) (hc : s.c2s = [])
    (hrun : s.client.frame.running = false) :
    run (thread ec es) (List.replicate 7 true) s = some
      { s with
        module := .init (.readPort [])
        c2s := (intBytes ec.port).map (⟨·, .module⟩)
        client := s.client.onFrame ({ · with running := true, socketPort := ec.port }) } := by
  simp [thread, handle, stepModule, moduleOp, initOp, hm, hc, hrun, Client.Memory.onFrame, intBytes,
    List.replicate]

theorem run_readPort {p : JInt} (hs : s.server = .frame (.port []))
    (hc : s.c2s = (intBytes p).map (⟨·, .module⟩)) :
    run (thread ec es) (List.replicate 4 false) s = some
      { s with server := .frame (.newFramePacket p), c2s := [] } := by
  have hport := readIntOf_intBytes p
  simp only [intBytes, List.map_cons, List.map_nil] at hport
  simp [thread, stepServer, taskOp, hs, hc, startOp, FramePc.ofPortBytes, intBytes, hport,
    List.replicate]

/-- What the server's `init` leaves in the fields of the `FrameModule`. -/
def served (es : Env) (framePort : JInt) (fm : FrameModule) : FrameModule :=
  { fm with
    inputSocket := some ⟨0, es.port⟩
    inputPacket := some 0
    screenWidth := es.width
    screenHeight := es.height
    instancePtr := es.screen
    frameTasks := fm.frameTasks ++ [⟨0, es.screen, framePort, es.width, es.height, {}⟩]
    frameTask := some fm.frameTasks.length }

theorem run_listen {p : JInt} (hs : s.server = .frame (.newFramePacket p))
    (hp : validPort p = true) (hsock : es.sockets = true) :
    run (thread ec es) (List.replicate 8 false) s = some
      { s with
        server := .frame (.metrics p)
        s2c := s.s2c ++ (intBytes es.port).map .reply
        memory := s.memory.onFrame
          ({ · with inputSocket := some ⟨0, es.port⟩, inputPacket := some 0 }) } := by
  simp [thread, stepServer, taskOp, hs, startOp, hp, hsock, intBytes, Memory.onFrame,
    List.replicate, TaskPc.isTimeout]

theorem run_serve {p : JInt} (hs : s.server = .frame (.metrics p)) (hbm : es.bitmap = true) :
    run (thread ec es) (List.replicate 6 false) s = some
      { s with
        server := .frame (if es.screen = -1 then .initReject else .initAck)
        net := s.net ++ [⟨p, dimensionsPacket es.width es.height⟩]
        memory := s.memory.onFrame fun fm => { fm with
          screenWidth := es.width
          screenHeight := es.height
          instancePtr := es.screen
          frameTasks := fm.frameTasks ++ [⟨0, es.screen, p, es.width, es.height, {}⟩]
          frameTask := some fm.frameTasks.length } } := by
  simp [thread, stepServer, taskOp, hs, startOp, hbm, Memory.onFrame, List.replicate]

theorem run_throw {p : JInt} (hs : s.server = .frame (.metrics p)) (hbm : es.bitmap = false) :
    run (thread ec es) (List.replicate 6 false) s = some
      { s with
        server := .dead
        net := s.net ++ [⟨p, dimensionsPacket es.width es.height⟩]
        memory := { s.memory with
          frame := { s.memory.frame with
            screenWidth := es.width
            screenHeight := es.height
            instancePtr := es.screen }
          closed := 0 :: s.memory.closed } } := by
  simp [thread, stepServer, taskOp, hs, startOp, hbm, Memory.onFrame, List.replicate]

theorem run_accept (hs : s.server = .frame .initAck) :
    run (thread ec es) [false] s = some
      { s with server := .frame (.startWait 0), s2c := s.s2c ++ [.reply ack] } := by
  simp [thread, stepServer, taskOp, hs, startOp, TaskPc.isTimeout]

theorem run_refuse (hs : s.server = .frame .initReject) (hrun : s.memory.running 0 = true) :
    run (thread ec es) [false, false, false] s = some
      { s with
        server := .module
        s2c := s.s2c ++ [.reply reject]
        memory := s.memory.onFrame ({ · with connected := false }) } := by
  simp [thread, stepServer, taskOp, hs, startOp, TaskPc.isTimeout, Memory.onFrame, hrun]

theorem readInt_dimensions (w h : JInt) :
    readInt (packetData (dimensionsPacket w h)) 0 = w ∧
      readInt (packetData (dimensionsPacket w h)) 4 = h := by
  have hlen : (dimensionsPacket w h).length = sizeFrameHeader + sizeData := by
    simp [dimensionsPacket]
  have hdata : packetData (dimensionsPacket w h) = dimensionsPacket w h := by
    rw [packetData, List.take_of_length_le (Nat.le_of_eq hlen), hlen, Nat.sub_self,
      List.replicate_zero, List.append_nil]
  rw [hdata, dimensionsPacket]
  constructor
  · rw [readInt_writeInt_of_disjoint _ _ (by omega),
      readInt_writeInt _ _ _ (by rw [List.length_replicate]; decide)]
  · exact readInt_writeInt _ _ _ (by rw [length_writeInt, List.length_replicate]; decide)

theorem run_dimensions {p q w h : JInt} {rest : List Answer}
    (hm : s.module = .init (.readPort [])) (hr : s.s2c = (intBytes q).map .reply ++ rest)
    (hq : validPort q = true) (hn : s.net = [⟨p, dimensionsPacket w h⟩])
    (hp : s.client.frame.socketPort = p) :
    run (thread ec es) (List.replicate 7 true) s = some
      { s with
        module := .init .final
        s2c := rest
        net := []
        client := { s.client with
          frame := { s.client.frame with inputPort := q, width := w, height := h } } } := by
  have hport := readIntOf_intBytes q
  simp only [intBytes, List.map_cons, List.map_nil] at hport
  obtain ⟨hw, hh⟩ := readInt_dimensions w h
  simp [thread, handle, stepModule, moduleOp, initOp, hm, hr, intBytes, InitPc.ofPortBytes,
    Answer.val, hport, hq, hn, takeDatagram, hp, Client.Memory.onFrame, hw, hh, List.replicate]

theorem run_final {r : Byte} (hm : s.module = .init .final) (hr : s.s2c = [.reply r]) :
    run (thread ec es) [true, true] s = some
      { s with
        module := .idle
        s2c := []
        client := { s.client with
          uiQueue := s.client.uiQueue ++ if r = ack then [.frame] else [] } } := by
  by_cases hack : r = ack
  · simp [thread, handle, stepModule, moduleOp, initOp, hm, hr, Answer.val, hack,
      Client.Memory.postModule]
  · simp [thread, handle, stepModule, moduleOp, initOp, hm, hr, Answer.val, hack,
      ]

/-! ### The whole exchange -/

/-- Before the exchange: the request is taken, the server waits for a module byte and
has left `k` timeout bytes in the stream. -/
structure Asking (k : Nat) (s : Session) : Prop where
  module : s.module = .frameWrite
  fresh : s.client.frame.running = false
  c2s : s.c2s = []
  s2c : s.s2c = List.replicate k .timeout
  net : s.net = []
  server : s.server = .module
  running : s.memory.running 0 = true
  connected : s.memory.frame.connected = false
  opened : 0 ∉ s.memory.closed

/-- The environment lets both `init`s come to their end. -/
structure Serves (ec : Client.Env) (es : Env) : Prop where
  clientPort : validPort ec.port = true
  serverPort : validPort es.port = true
  sockets : es.sockets = true
  bitmap : es.bitmap = true

/-- What the exchange comes to. -/
def shaken (ec : Client.Env) (es : Env) (s : Session) : Session :=
  { s with
    module := .idle
    server := if es.screen = -1 then .module else .frame (.startWait 0)
    s2c := []
    net := []
    client := { s.client with
      frame := { s.client.frame with
        running := true
        socketPort := ec.port
        inputPort := es.port
        width := es.width
        height := es.height }
      uiQueue := s.client.uiQueue ++ if es.screen = -1 then [] else [.frame] }
    memory := s.memory.onFrame fun fm =>
      { served es ec.port { fm with inputModule := some 0 } with connected := false } }

/-- Both ends know the ports, and the client waits for the dimensions. -/
def exchanged (ec : Client.Env) (es : Env) (s : Session) : Session :=
  { s with
    module := .init (.readPort [])
    server := .frame (.metrics ec.port)
    c2s := []
    s2c := (intBytes es.port).map .reply
    client := s.client.onFrame ({ · with running := true, socketPort := ec.port })
    memory := s.memory.onFrame ({ · with
      inputModule := some 0, inputSocket := some ⟨0, es.port⟩, inputPacket := some 0 }) }

theorem exchanged_path {k : Nat} (h : Asking k s) (hport : validPort ec.port = true)
    (hsockets : es.sockets = true) : ∃ n, Path (Exchange ec es) n s (exchanged ec es s) := by
  have hopen : Path (Exchange ec es) _ s _ :=
    path_of_run (run_open h.module h.server h.c2s h.connected)
  rw [h.s2c] at hopen
  have hskip : Path (Exchange ec es) _ s
      { s with
        module := .init .testRunning
        server := .frame (.port [])
        s2c := []
        memory := s.memory.onFrame ({ · with inputModule := some 0 }) } :=
    hopen.trans (path_of_run (run_skip k rfl rfl))
  have hread : Path (Exchange ec es) _ s
      { s with
        module := .init (.readPort [])
        server := .frame (.newFramePacket ec.port)
        c2s := []
        s2c := []
        client := s.client.onFrame ({ · with running := true, socketPort := ec.port })
        memory := s.memory.onFrame ({ · with inputModule := some 0 }) } :=
    (hskip.trans (path_of_run (run_port rfl h.c2s h.fresh))).trans
      (path_of_run (run_readPort rfl rfl))
  exact ⟨_, hread.trans (path_of_run (run_listen rfl hport hsockets))⟩

theorem handshake_path {k : Nat} (h : Asking k s) (he : Serves ec es) :
    ∃ n, Path (Exchange ec es) n s (shaken ec es s) := by
  obtain ⟨n, hexchanged⟩ := exchanged_path h he.clientPort he.sockets
  have hserve := hexchanged.trans (path_of_run (run_serve rfl he.bitmap))
  by_cases hscreen : es.screen = -1
  · simp only [if_pos hscreen] at hserve
    have hanswer := hserve.trans (path_of_run (run_refuse rfl h.running))
    have hread := hanswer.trans (path_of_run
      (run_dimensions rfl rfl he.serverPort (by rw [exchanged, h.net]; rfl) rfl))
    have hfinal := hread.trans (path_of_run (run_final rfl rfl))
    refine ⟨_, cast (congrArg _ ?_) hfinal⟩
    simp [exchanged, shaken, hscreen, reject, ack, Memory.onFrame, Client.Memory.onFrame, served,
      h.c2s]
  · simp only [if_neg hscreen] at hserve
    have hanswer := hserve.trans (path_of_run (run_accept rfl))
    have hread := hanswer.trans (path_of_run
      (run_dimensions rfl rfl he.serverPort (by rw [exchanged, h.net]; rfl) rfl))
    have hfinal := hread.trans (path_of_run (run_final rfl rfl))
    refine ⟨_, cast (congrArg _ ?_) hfinal⟩
    simp [exchanged, shaken, hscreen, Memory.onFrame, Client.Memory.onFrame, served, h.connected,
      h.c2s]

theorem shaken_stuck {k : Nat} (h : Asking k s) : Stuck (Exchange ec es) (shaken ec es s) := by
  rintro t (ht | ht)
  · cases ht
  · by_cases hscreen : es.screen = -1
    · simp [stepServer, shaken, hscreen, taskOp, h.c2s] at ht
    · simp [stepServer, shaken, hscreen, taskOp, startOp, h.c2s] at ht

/-- **Where no bitmap can be made** the server's thread dies and closes its socket, whatever
the native `init` has returned, and the client comes to its last read without an
answer. -/
theorem handshake_fails {k : Nat} (h : Asking k s) (hclient : validPort ec.port = true)
    (hserver : validPort es.port = true) (hsockets : es.sockets = true)
    (hbitmap : es.bitmap = false) :
    Inevitable (Exchange ec es) (fun t => t.server = .dead ∧ 0 ∈ t.memory.closed ∧
      t.module = .init .final ∧ t.s2c = []) s := by
  obtain ⟨n, hexchanged⟩ := exchanged_path h hclient hsockets
  have hthrow := hexchanged.trans (path_of_run (run_throw rfl hbitmap))
  have hread := hthrow.trans (path_of_run (run_dimensions rfl
    (List.append_nil (α := Answer) _).symm hserver (by rw [exchanged, h.net]; rfl) rfl))
  refine ((exchange_diamond ec es).inevitable ?_ hread).mono ?_
  · rintro t (ht | ht)
    · cases ht
    · cases ht
  · rintro t rfl
    exact ⟨rfl, List.mem_cons_self, rfl, rfl⟩

end Run

/-! ### What holds during the exchange -/

/-- The states of the `ModuleThread` while it handles a `MODULE_FRAME` request from the
exit mode. -/
def Framing : ModulePc → Prop
  | .idle => True
  | .frameWrite => True
  | .frameWait => True
  | .init _ => True
  | .initDone _ => True
  | .dead => True
  | _ => False

/-- The invariant of the exchange that began in `s₀`: the timeouts are in front, and
are read only where they are passed over. -/
structure During (s₀ s : Session) : Prop where
  sound : s.Sound
  talk : Talk True s
  framing : Framing s.module
  s2c : ∃ (k : Nat) (rs : List Byte), s.s2c = List.replicate k .timeout ++ rs.map .reply ∧
    (k = 0 ∨ s.module = .frameWrite ∨ s.module = .frameWait)
  server : s.server.isTimeout = false
  uiQueue : s.module ≠ .idle → s.client.uiQueue = s₀.client.uiQueue

theorem Asking.during {k : Nat} {s : Session} (h : Asking k s) : During s s where
  sound := ⟨h.running, h.connected, by rw [h.server]; simp, Or.inr h.opened⟩
  talk := .rest (Or.inr (Or.inl h.module)) h.c2s
    (by rw [h.s2c]; simp [replies]) (Or.inl (by rw [zone, h.server]; rfl))
  framing := by rw [h.module]; trivial
  s2c := ⟨k, [], by simp [h.s2c], Or.inr (Or.inl h.module)⟩
  server := by rw [h.server]; rfl
  uiQueue := fun _ => rfl

section During

variable {ec : Client.Env} {es : Env} {s₀ s t : Session}

theorem During.timeoutUnread (h : During s₀ s) : s.TimeoutUnread := by
  intro hreads hhead
  obtain ⟨k, rs, hs, hk⟩ := h.s2c
  rcases hk with rfl | hm | hm
  · rw [hs] at hhead
    cases rs
    · cases hhead
    · cases hhead
  · rw [Reads, hm] at hreads
    exact hreads.elim
  · exact hm

/-- The `ModuleThread` stays at its request, and tells the UI nothing before its
end. -/
theorem handle_framing (hpc : Framing s.module) (h : handle ec s = some t) :
    Framing t.module ∧ (t.client.uiQueue = s.client.uiQueue ∨ t.module = .idle) := by
  obtain ⟨hidle, h⟩ := handle_stepModule h
  cases hm : s.module with
  | idle => exact absurd hm hidle
  | frameWrite =>
    obtain rfl := stepModule_write (by rw [hm]; rfl) h
    exact ⟨trivial, Or.inl rfl⟩
  | frameWait =>
    obtain ⟨a, rest, _, rfl⟩ := stepModule_read (by rw [hm]; rfl) h
    refine ⟨?_, Or.inl rfl⟩
    simp only
    split_ifs
    all_goals trivial
  | init pc =>
    cases pc with
    | testRunning =>
      obtain ⟨m, pc, hf, rfl⟩ := stepModule_act (by rw [hm]; rfl) h
      by_cases hrun : s.client.frame.running = true
      · simp only [hrun] at hf
        cases hf
        exact ⟨trivial, Or.inl rfl⟩
      · simp only [hrun] at hf
        cases hf
        exact ⟨trivial, Or.inl rfl⟩
    | newSocket =>
      obtain ⟨m, pc, hf, rfl⟩ := stepModule_act (by rw [hm]; rfl) h
      cases hf
      exact ⟨trivial, Or.inl rfl⟩
    | writePort bs =>
      cases bs with
      | nil =>
        obtain ⟨m, pc, hf, rfl⟩ := stepModule_act (by rw [hm]; rfl) h
        cases hf
        exact ⟨trivial, Or.inl rfl⟩
      | cons b bs =>
        obtain rfl := stepModule_write (by rw [hm]; rfl) h
        exact ⟨trivial, Or.inl rfl⟩
    | readPort bs =>
      obtain ⟨a, rest, _, rfl⟩ := stepModule_read (by rw [hm]; rfl) h
      exact ⟨trivial, Or.inl rfl⟩
    | initFrameInput p =>
      obtain ⟨m, pc, hf, rfl⟩ := stepModule_act (by rw [hm]; rfl) h
      by_cases hp : validPort p = true
      · simp only [hp] at hf
        cases hf
        exact ⟨trivial, Or.inl rfl⟩
      · simp only [hp] at hf
        cases hf
        exact ⟨trivial, Or.inl rfl⟩
    | receive =>
      obtain ⟨d, ds, _, rfl⟩ := stepModule_receive (by rw [hm]; rfl) h
      exact ⟨trivial, Or.inl rfl⟩
    | setDimensions d =>
      obtain ⟨m, pc, hf, rfl⟩ := stepModule_act (by rw [hm]; rfl) h
      cases hf
      exact ⟨trivial, Or.inl rfl⟩
    | final =>
      obtain ⟨a, rest, _, rfl⟩ := stepModule_read (by rw [hm]; rfl) h
      exact ⟨trivial, Or.inl rfl⟩
    | failed =>
      obtain ⟨m, pc, hf, rfl⟩ := stepModule_act (by rw [hm]; rfl) h
      cases hf
      exact ⟨trivial, Or.inl rfl⟩
  | initDone ok =>
    obtain ⟨m, pc, hf, rfl⟩ := stepModule_act (by rw [hm]; rfl) h
    cases hf
    exact ⟨trivial, Or.inr rfl⟩
  | dead => simp [stepModule, moduleOp, hm] at h
  | _ => rw [hm] at hpc; exact hpc.elim

theorem During.s2c_handle (h : During s₀ s) (hst : handle ec s = some t) :
    ∃ (k : Nat) (rs : List Byte), t.s2c = List.replicate k .timeout ++ rs.map .reply ∧
      (k = 0 ∨ t.module = .frameWrite ∨ t.module = .frameWait) := by
  obtain ⟨hidle, hst⟩ := handle_stepModule hst
  obtain ⟨k, rs, hs, hk⟩ := h.s2c
  rcases hk with rfl | hm | hm
  · rcases stepModule_cases hst with ⟨_, a, rest, _, hr, rfl⟩ | ⟨_, _, _, rfl⟩ |
      ⟨_, _, _, _, _, _, rfl⟩ | ⟨_, _, _, _, _, rfl⟩
    · cases rs with
      | nil => rw [hs] at hr; cases hr
      | cons b rs =>
        rw [hs] at hr
        exact ⟨0, rs, (List.cons.inj hr).2.symm, Or.inl rfl⟩
    · exact ⟨0, rs, hs, Or.inl rfl⟩
    · exact ⟨0, rs, hs, Or.inl rfl⟩
    · exact ⟨0, rs, hs, Or.inl rfl⟩
  · obtain rfl := stepModule_write (by rw [hm]; rfl) hst
    exact ⟨k, rs, hs, Or.inr (Or.inr rfl)⟩
  · obtain ⟨a, rest, hr, rfl⟩ := stepModule_read (by rw [hm]; rfl) hst
    rw [hs] at hr
    cases k with
    | zero =>
      cases rs with
      | nil => cases hr
      | cons b rs => exact ⟨0, rs, (List.cons.inj hr).2.symm, Or.inl rfl⟩
    | succ k =>
      obtain ⟨rfl, rfl⟩ := List.cons.inj hr
      exact ⟨k, rs, rfl, Or.inr (Or.inr rfl)⟩

theorem During.step (he : Serves ec es) (h : During s₀ s) (hst : Exchange ec es s t) :
    During s₀ t := by
  rcases hst with hst | hst
  · obtain ⟨hidle, hmod⟩ := handle_stepModule hst
    obtain ⟨hserver, hmemory, hinput⟩ := stepModule_server hmod
    obtain ⟨hframing, hui⟩ := handle_framing h.framing hst
    obtain ⟨hsi, ht | ⟨hm, _⟩⟩ := h.talk.module (fun _ => he.clientPort) hidle h.timeoutUnread hmod
    · refine ⟨?_, ht, hframing, h.s2c_handle hst, by rw [hserver]; exact h.server, ?_⟩
      · rw [Sound, hserver, hmemory]
        exact h.sound
      · intro hne
        rw [hui.resolve_right hne]
        exact h.uiQueue hidle
    · rw [hm] at hframing
      exact hframing.elim
  · obtain ⟨hsound, hzone⟩ := stepServer_zone h.sound hst
    have hcl := stepServer_client hst
    have hgood : True → (es.sockets && es.bitmap) = true := by
      simp [he.sockets, he.bitmap]
    obtain ⟨ht | ⟨_, hng⟩, _⟩ := h.talk.server hgood hzone hcl
    · obtain ⟨hserver, bs, hs⟩ := stepServer_replies h.server hst
      obtain ⟨k, rs, hs', hk⟩ := h.s2c
      refine ⟨hsound, ht, by rw [hcl.module]; exact h.framing, ⟨k, rs ++ bs, ?_, ?_⟩, hserver, ?_⟩
      · rw [hs, hs', List.append_assoc, List.map_append]
      · rw [hcl.module]
        exact hk
      · rw [hcl.module, hcl.client]
        exact h.uiQueue
    · exact absurd trivial hng

end During

/-! ### The handshake agrees -/

/-- The client's `init` is over: it returned `ok`, or `handleMessage` has come to its
end as well. -/
def ClientOver (s : Session) : Prop := s.module = .idle ∨ ∃ ok, s.module = .initDone ok

/-- The server's `init` is over. -/
def ServerOver (s : Session) : Prop :=
  s.server = .frame .initAck ∨ s.server = .frame .initReject ∨
    s.server = .frame .clearConnected ∨ (∃ depth, s.server = .frame (.startWait depth)) ∨
    s.server = .loop ∨ s.server = .module

/-- Both ends know the same ports and dimensions and the same result, and nothing is
left in the streams. -/
structure Agrees (ec : Client.Env) (es : Env) (s₀ s : Session) : Prop where
  clientPort : s.client.frame.socketPort = ec.port
  framePort : s.memory.frame.currentTask.map Server.FrameTask.framePort = some ec.port
  serverPort : s.memory.frame.inputSocket.map Socket.port = some es.port
  inputPort : s.client.frame.inputPort = es.port
  width : s.client.frame.width = es.width ∧ s.memory.frame.screenWidth = es.width
  height : s.client.frame.height = es.height ∧ s.memory.frame.screenHeight = es.height
  returned : ∀ ok, s.module = .initDone ok → (ok = true ↔ es.screen ≠ -1)
  told : s.module = .idle →
    s.client.uiQueue = s₀.client.uiQueue ++ if es.screen = -1 then [] else [.frame]
  streams : s.c2s = [] ∧ s.s2c = []

section Agree

variable {ec : Client.Env} {es : Env} {s₀ s t : Session}

variable (ec es) in
theorem shaken_agrees {k : Nat} (h : Asking k s) :
    ClientOver (shaken ec es s) ∧ ServerOver (shaken ec es s) ∧
      Agrees ec es s (shaken ec es s) := by
  refine ⟨Or.inl rfl, ?_, rfl, ?_, rfl, rfl, ⟨rfl, rfl⟩, ⟨rfl, rfl⟩, ?_, fun _ => rfl, h.c2s, rfl⟩
  · unfold ServerOver shaken
    by_cases hscreen : es.screen = -1
    · simp [hscreen]
    · simp [hscreen]
  · simp [shaken, Memory.onFrame, served, FrameModule.currentTask]
  · intro ok hok
    cases hok

/-- Both `init`s are over and nothing is to be read: what is left is to say so to the UI
and to get back to the module loop. -/
structure Settling (s : Session) : Prop where
  module : ClientOver s
  server : s.server = .frame .clearConnected ∨ (∃ depth, s.server = .frame (.startWait depth)) ∨
    s.server = .loop ∨ s.server = .module
  running : s.memory.running 0 = true
  streams : s.c2s = [] ∧ s.s2c = []

theorem During.settling (h : During s₀ s) (hc : ClientOver s) (hs : ServerOver s) :
    Settling s := by
  obtain ⟨hnil, hreplies, hquiet⟩ := h.talk.of_resting hc
  obtain ⟨k, rs, hs2c, hk⟩ := h.s2c
  have hk : k = 0 := by
    rcases hk with hk | hk | hk
    · exact hk
    · rcases hc with hc | ⟨ok, hc⟩
      · rw [hc] at hk
        cases hk
      · rw [hc] at hk
        cases hk
    · rcases hc with hc | ⟨ok, hc⟩
      · rw [hc] at hk
        cases hk
      · rw [hc] at hk
        cases hk
  have hrs : rs = [] := by
    rw [hs2c, hk] at hreplies
    cases rs with
    | nil => rfl
    | cons b rs => cases hreplies
  refine ⟨hc, ?_, h.sound.running, hnil, by rw [hs2c, hk, hrs]; rfl⟩
  rcases hs with hs | hs | hs
  · have hz : s.zone = .serving 0 := by rw [zone, hs]; rfl
    rcases hquiet with hq | ⟨_, hq | hq⟩
    all_goals
      rw [hz] at hq
      cases hq
  · have hz : s.zone = .serving 0 := by rw [zone, hs]; rfl
    rcases hquiet with hq | ⟨_, hq | hq⟩
    all_goals
      rw [hz] at hq
      cases hq
  · exact hs

/-- What `init` has left is not touched any more. -/
structure Kept (s t : Session) : Prop where
  client : t.client.frame = s.client.frame
  task : t.memory.frame.currentTask = s.memory.frame.currentTask
  socket : t.memory.frame.inputSocket = s.memory.frame.inputSocket
  width : t.memory.frame.screenWidth = s.memory.frame.screenWidth
  height : t.memory.frame.screenHeight = s.memory.frame.screenHeight

theorem Settling.step (h : Settling s) (hst : Exchange ec es s t) :
    Settling t ∧ Kept s t ∧
      (t.module = s.module ∧ t.client = s.client ∨
        ∃ ok, s.module = .initDone ok ∧ t.module = .idle ∧
          t.client.uiQueue = s.client.uiQueue ++ if ok then [.frame] else []) := by
  obtain ⟨hmodule, hserver, hrun, hc, hr⟩ := h
  rcases hst with hst | hst
  · obtain ⟨hidle, hst⟩ := handle_stepModule hst
    obtain ⟨ok, hm⟩ := hmodule.resolve_left hidle
    obtain ⟨m, pc, hf, rfl⟩ := stepModule_act (by rw [hm]; rfl) hst
    cases hf
    cases ok with
    | true =>
      exact ⟨⟨Or.inl rfl, hserver, hrun, hc, hr⟩, ⟨rfl, rfl, rfl, rfl, rfl⟩,
        Or.inr ⟨true, hm, rfl, rfl⟩⟩
    | false =>
      exact ⟨⟨Or.inl rfl, hserver, hrun, hc, hr⟩, ⟨rfl, rfl, rfl, rfl, rfl⟩,
        Or.inr ⟨false, hm, rfl, (List.append_nil _).symm⟩⟩
  · rcases hserver with hs | ⟨d, hs⟩ | hs | hs
    · simp only [stepServer, hs, taskOp, startOp, Option.map_some, Option.some.injEq] at hst
      subst hst
      exact ⟨⟨hmodule, Or.inr (Or.inr (Or.inl rfl)), hrun, hc, hr⟩, ⟨rfl, rfl, rfl, rfl, rfl⟩,
        Or.inl ⟨rfl, rfl⟩⟩
    · simp [stepServer, hs, taskOp, startOp, hc] at hst
    · simp only [stepServer, hs, taskOp, hrun, if_true, Option.map_some, Option.some.injEq] at hst
      subst hst
      exact ⟨⟨hmodule, Or.inr (Or.inr (Or.inr rfl)), hrun, hc, hr⟩, ⟨rfl, rfl, rfl, rfl, rfl⟩,
        Or.inl ⟨rfl, rfl⟩⟩
    · simp [stepServer, hs, taskOp, hc] at hst

/-- What both ends agree on in the end, they agree on as soon as both `init`s are
over. -/
theorem Settling.agrees {n : Nat} (hp : Path (Exchange ec es) n s t) (h : Settling s)
    (hui : s.module ≠ .idle → s.client.uiQueue = s₀.client.uiQueue) (hm : t.module = .idle)
    (ht : Agrees ec es s₀ t) : Agrees ec es s₀ s := by
  induction hp with
  | nil s => exact ht
  | cons hst _ ih =>
    obtain ⟨hset, hkept, hlast⟩ := h.step hst
    have hagree := ih hset ?_ hm ht
    · refine ⟨?_, ?_, ?_, ?_, ?_, ?_, ?_, ?_, h.streams⟩
      · rw [← hkept.client]; exact hagree.clientPort
      · rw [← hkept.task]; exact hagree.framePort
      · rw [← hkept.socket]; exact hagree.serverPort
      · rw [← hkept.client]; exact hagree.inputPort
      · rw [← hkept.client, ← hkept.width]; exact hagree.width
      · rw [← hkept.client, ← hkept.height]; exact hagree.height
      · intro ok hok
        rcases hlast with ⟨hm', _⟩ | ⟨ok', hok', hidle, hq⟩
        · exact hagree.returned ok (hm'.trans hok)
        · rw [hok] at hok'
          cases hok'
          have htold := hagree.told hidle
          rw [hq, hui (by rw [hok]; simp), List.append_cancel_left_eq] at htold
          by_cases hscreen : es.screen = -1
          · simp_all
          · simp_all
      · intro hidle
        rcases hlast with ⟨hm', hcl⟩ | ⟨ok', hok', _⟩
        · rw [← hcl]
          exact hagree.told (hm'.trans hidle)
        · rw [hidle] at hok'
          cases hok'
    · intro hne
      rcases hlast with ⟨hm', hcl⟩ | ⟨_, _, hidle, _⟩
      · rw [hcl]
        exact hui (by rwa [← hm'])
      · exact absurd hidle hne

/-- **The frame handshake agrees** where a bitmap is made.  Whatever the ports, the dimensions
and the number of timeout bytes left in the stream, and in whatever order the two threads
move: they never get stuck before both `init`s are over, and when both are over both ends know
the same ports and dimensions, the client's `init` returned `true` exactly when the
server's native `init` did not return `-1`, and both streams are empty. -/
theorem handshake_agrees {k : Nat} (h : Asking k s) (he : Serves ec es) :
    Inevitable (Exchange ec es) (fun t => ClientOver t ∧ ServerOver t ∧ Agrees ec es s t) s ∧
      ∀ n t, Path (Exchange ec es) n s t → ClientOver t → ServerOver t → Agrees ec es s t := by
  obtain ⟨n, hpath⟩ := handshake_path h he
  have hstuck : Stuck (Exchange ec es) (shaken ec es s) := shaken_stuck h
  obtain ⟨hclient, hserver, hagree⟩ := shaken_agrees ec es h
  constructor
  · refine ((exchange_diamond ec es).inevitable hstuck hpath).mono ?_
    rintro t rfl
    exact ⟨hclient, hserver, hagree⟩
  · intro m t ht hc hs
    have hduring : During s t :=
      ht.invariant (fun _ _ hst hd => hd.step he hst) h.during
    obtain ⟨r, hrest⟩ := (exchange_diamond ec es).path_tail hstuck ht hpath
    exact (hduring.settling hc hs).agrees hrest hduring.uiQueue rfl hagree

end Agree

/-- With two timeout bytes in the stream the exchange comes to its end and agrees. -/
theorem handshake_agrees_timeouts :
    let s : Session := ⟨{}, .frameWrite, [], false, false, none, [], [.timeout, .timeout], [],
      .module, { connections := [0] }⟩
    let ec : Client.Env := ⟨40000⟩
    let es : Env := ⟨40001, true, 1080, 1920, 7, true⟩
    ∃ t, ClientOver t ∧ ServerOver t ∧ Agrees ec es s t := by
  intro s ec es
  have hask : Asking 2 s := ⟨rfl, rfl, rfl, rfl, rfl, rfl, rfl, rfl, List.not_mem_nil⟩
  have hserve : Serves ec es := ⟨by decide, by decide, rfl, rfl⟩
  obtain ⟨t, ht, _⟩ := (handshake_agrees hask hserve).1.exists_of_invariant (I := fun _ => True)
    (fun _ _ _ _ => trivial) trivial
  exact ⟨t, ht⟩

/-! ### Where no bitmap can be made -/

/-- The ports are ports, the sockets can be made, and a bitmap is made of positive
dimensions. -/
structure Answers (ec : Client.Env) (es : Env) : Prop where
  clientPort : validPort ec.port = true
  serverPort : validPort es.port = true
  sockets : es.sockets = true
  bitmap : es.bitmap = true ↔ 0 < es.width.toInt ∧ 0 < es.height.toInt

/-- A frame task comes only with its bitmap. -/
theorem taskOp_act_frameTask {pc pc' : TaskPc} {m m' : Memory} {es : Env}
    {f : Env → Memory → Option (Memory × TaskPc)} (hbitmap : es.bitmap = false)
    (h : taskOp 0 pc = .act f) (hf : f es m = some (m', pc')) :
    m'.frame.frameTask = m.frame.frameTask := by
  cases pc with
  | listen pc str =>
    cases pc with
    | dispatchKey | dispatchText =>
      cases h
      cases hf
      rfl
    | _ => cases h
  | frame pc =>
    cases pc with
    | newFrameTask p =>
      cases h
      simp only [hbitmap] at hf
      cases hf
      rfl
    | newFramePacket p | newInputSocket p =>
      cases h
      simp only at hf
      split_ifs at hf
      all_goals
        cases hf
        rfl
    | writeInputPort p bs =>
      cases bs with
      | nil => cases h; cases hf; rfl
      | cons b bs => cases h
    | startFrameTask | stopFrameTask | catchFrameTask =>
      cases h
      cases hf
      exact FrameModule.onFrameTask_frameTask _ _
    | startInputTask | stopInputTask | catchInputTask =>
      cases h
      cases hf
      exact FrameModule.onInputTask_frameTask _ _
    | setInputModule | testConnected | getInputPort | metrics | fillPacket | nativeInit |
      testInstance | clearConnected | newInputTask =>
      cases h
      cases hf
      rfl
    | _ => cases h
  | loop | closeStreams | closeSocket | remove =>
    cases h
    cases hf
    rfl
  | _ => cases h

theorem Exchange.frameTask {ec : Client.Env} {es : Env} {s t : Session}
    (hbitmap : es.bitmap = false) (hst : Exchange ec es s t) :
    t.memory.frame.frameTask = s.memory.frame.frameTask := by
  rcases hst with hst | hst
  · rw [(stepModule_server (handle_stepModule hst).2).memory]
  · rcases stepServer_cases hst with ⟨_, _, _, _, _, rfl⟩ | ⟨_, _, _, _, _, _, rfl⟩ |
      ⟨_, _, _, rfl⟩ | ⟨_, _, _, _, rfl⟩ | ⟨f, m, pc, hop, hf, rfl⟩
    · rfl
    · rfl
    · rfl
    · rfl
    · exact taskOp_act_frameTask hbitmap hop hf

/-- **On a screen of width 0 the two ends come to no agreement**, though the native `init`
has returned 7. -/
theorem handshake_disagrees : ¬ ∀ k s ec es, Asking k s → Answers ec es →
    Inevitable (Exchange ec es) (fun t => ClientOver t ∧ ServerOver t ∧ Agrees ec es s t) s ∧
      ∀ n t, Path (Exchange ec es) n s t → ClientOver t → ServerOver t → Agrees ec es s t := by
  intro hclaim
  let s : Session := { module := .frameWrite, server := .module }
  let ec : Client.Env := ⟨40000⟩
  let es : Env := ⟨40001, true, 0, 1920, 7, false⟩
  have hask : Asking 0 s := ⟨rfl, rfl, rfl, rfl, rfl, rfl, rfl, rfl, List.not_mem_nil⟩
  have hanswers : Answers ec es := ⟨by decide, by decide, rfl, by decide⟩
  obtain ⟨t, ⟨-, -, hagrees⟩, hnone⟩ := (hclaim 0 s ec es hask hanswers).1.exists_of_invariant
    (I := fun t => t.memory.frame.frameTask = none)
    (fun _ _ hst hi => (Exchange.frameTask rfl hst).trans hi) rfl
  have hport := hagrees.framePort
  rw [FrameModule.currentTask, hnone] at hport
  cases hport

end MikaAudio.Session
