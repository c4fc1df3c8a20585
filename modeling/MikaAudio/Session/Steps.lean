import MikaAudio.Session
import MikaAudio.Server.Zone

/-!
# What one step of a session does

One inversion lemma for each thread.  `stepServer_zone` tells a step of the
`CommunicationTask` by its zone: it takes one byte, writes one reply, or moves by
itself.  The `0x00` bytes of timeouts are in `s2c` but not among the `replies`,
so for the server they are moves like any other.
-/

namespace MikaAudio.Session

open Thread Server

/-- What the server takes the next byte for. -/
def zone (s : Session) : Zone := s.server.zone

/-- The memory is as `start` and `run` expect it. -/
def Sound (s : Session) : Prop := Server.Sound 0 s.memory s.server

/-! ### The server -/

/-- The server waits for a byte. -/
def ServerReads (s : Session) : Prop :=
  match taskOp 0 s.server with
  | .read _ => True
  | .readBuf _ _ => True
  | _ => False

/-- A step of the server leaves the client's side alone. -/
structure SameClient (s t : Session) : Prop where
  client : t.client = s.client
  module : t.module = s.module
  input : t.input = s.input

/-- A step of the server, seen from the streams. -/
inductive ServerStep (e : Env) (s t : Session) : Prop
  | read (b : Client.Sent) (hc : s.c2s = b :: t.c2s) (hz : s.zone.next b.val = some t.zone)
      (hr : replies t.s2c = replies s.s2c) (hk : t.memory.keys = s.memory.keys)
  | reply (b : Byte) (hz : Zone.Replies s.zone b t.zone) (hc : t.c2s = s.c2s)
      (hr : replies t.s2c = replies s.s2c ++ [b]) (hk : t.memory.keys = s.memory.keys)
  | move (ks : List JInt) (hz : Zone.Moves e s.zone ks t.zone) (hc : t.c2s = s.c2s)
      (hr : replies t.s2c = replies s.s2c) (hk : t.memory.keys = s.memory.keys ++ ks)

theorem stepServer_read {e : Env} {s t : Session} {k : Read → TaskPc}
    (hop : taskOp 0 s.server = .read k) (h : s.stepServer e = some t) :
    ∃ b rest, s.c2s = b :: rest ∧ t = { s with c2s := rest, server := k (.byte b.val) } := by
  unfold stepServer at h
  rw [hop] at h
  cases hc : s.c2s with
  | nil => simp [hc] at h
  | cons b rest =>
    simp only [hc, Option.some.injEq] at h
    exact ⟨b, rest, rfl, h.symm⟩

theorem stepServer_cases {e : Env} {s t : Session} (h : s.stepServer e = some t) :
    (∃ k b rest, taskOp 0 s.server = .read k ∧ s.c2s = b :: rest ∧
      t = { s with c2s := rest, server := k (.byte b.val) }) ∨
    (∃ len k b rest, taskOp 0 s.server = .readBuf len k ∧ s.c2s = b :: rest ∧
      t = { s with c2s := rest, server := k (.bytes [b.val]) }) ∨
    (∃ b k, taskOp 0 s.server = .write b k ∧
      t = { s with
        s2c := s.s2c ++ [if s.server.isTimeout then .timeout else .reply b]
        server := k true }) ∨
    (∃ port data k, taskOp 0 s.server = .send port data k ∧
      t = { s with net := s.net ++ [⟨port, data⟩], server := k true }) ∨
    (∃ f m pc, taskOp 0 s.server = .act f ∧ f e s.memory = some (m, pc) ∧
      t = { s with memory := m, server := pc }) := by
  cases hop : taskOp 0 s.server with
  | read k =>
    obtain ⟨b, rest, hc, rfl⟩ := stepServer_read hop h
    exact Or.inl ⟨k, b, rest, rfl, hc, rfl⟩
  | readBuf len k =>
    rw [stepServer, hop] at h
    cases hc : s.c2s with
    | nil => simp [hc] at h
    | cons b rest =>
      simp only [hc, Option.some.injEq] at h
      exact Or.inr (Or.inl ⟨len, k, b, rest, rfl, rfl, h.symm⟩)
  | write b k =>
    rw [stepServer, hop] at h
    exact Or.inr (Or.inr (Or.inl ⟨b, k, rfl, (Option.some.inj h).symm⟩))
  | send port data k =>
    rw [stepServer, hop] at h
    exact Or.inr (Or.inr (Or.inr (Or.inl ⟨port, data, k, rfl, (Option.some.inj h).symm⟩)))
  | receive port k => simp [stepServer, hop] at h
  | act f =>
    simp only [stepServer, hop, Option.map_eq_some_iff] at h
    obtain ⟨⟨m, pc⟩, hf, rfl⟩ := h
    exact Or.inr (Or.inr (Or.inr (Or.inr ⟨f, m, pc, rfl, hf, rfl⟩)))
  | halt => simp [stepServer, hop] at h

theorem stepServer_client {e : Env} {s t : Session} (h : s.stepServer e = some t) :
    SameClient s t := by
  rcases stepServer_cases h with ⟨_, _, _, _, _, rfl⟩ | ⟨_, _, _, _, _, _, rfl⟩ |
    ⟨_, _, _, rfl⟩ | ⟨_, _, _, _, rfl⟩ | ⟨_, _, _, _, _, rfl⟩
  all_goals exact ⟨rfl, rfl, rfl⟩

theorem stepServer_zone {e : Env} {s t : Session} (hs : s.Sound) (h : s.stepServer e = some t) :
    t.Sound ∧ ServerStep e s t := by
  rcases stepServer_cases h with ⟨k, b, rest, hop, hc, rfl⟩ | ⟨len, k, b, rest, hop, hc, rfl⟩ |
    ⟨b, k, hop, rfl⟩ | ⟨port, data, k, hop, rfl⟩ | ⟨f, m, pc, hop, hf, rfl⟩
  · exact ⟨Server.Sound.read hs hop _, .read b hc ((taskOp_read hop).1 b.val) rfl rfl⟩
  · obtain ⟨hz, hz', _⟩ := taskOp_readBuf hop
    refine ⟨Server.Sound.readBuf hs hop _, .read b hc ?_ rfl rfl⟩
    rw [zone, hz, zone, hz']
    rfl
  · refine ⟨Server.Sound.write hs hop _, ?_⟩
    have hw := taskOp_write hop
    cases ht : s.server.isTimeout with
    | false =>
      rw [ht] at hw
      exact .reply b hw rfl (by simp) rfl
    | true =>
      rw [ht] at hw
      refine .move [] ?_ rfl (by simp) (List.append_nil _).symm
      rcases hw with hw | ⟨hw, hw'⟩
      · rw [zone, zone, hw]
        exact .stay _
      · rw [zone, zone, hw, hw']
        exact Or.inr ⟨rfl, rfl⟩
  · refine ⟨Server.Sound.send hs hop _, .move [] ?_ rfl rfl (List.append_nil _).symm⟩
    rw [zone, zone, taskOp_send hop]
    exact .stay _
  · obtain ⟨hs', ks, hm, hk⟩ := taskOp_act hop hf hs
    exact ⟨hs', .move ks hm rfl rfl hk⟩

theorem stepServer_replies {e : Env} {s t : Session} (hs : s.server.isTimeout = false)
    (h : s.stepServer e = some t) :
    t.server.isTimeout = false ∧ ∃ bs : List Byte, t.s2c = s.s2c ++ bs.map .reply := by
  rcases stepServer_cases h with ⟨k, b, rest, hop, _, rfl⟩ | ⟨len, k, b, rest, hop, _, rfl⟩ |
    ⟨b, k, hop, rfl⟩ | ⟨port, data, k, hop, rfl⟩ | ⟨f, m, pc, hop, hf, rfl⟩
  · exact ⟨isTimeout_read hop _, [], (List.append_nil _).symm⟩
  · exact ⟨isTimeout_readBuf hop _, [], (List.append_nil _).symm⟩
  · exact ⟨isTimeout_write hop, [b], by simp [hs]⟩
  · exact ⟨isTimeout_send hop, [], (List.append_nil _).symm⟩
  · exact ⟨isTimeout_act hop hf, [], (List.append_nil _).symm⟩

/-- A read timeout of the server, seen from the streams. -/
structure TimeoutStep (s t : Session) : Prop where
  zone : t.zone = s.zone.timeout
  c2s : t.c2s = s.c2s
  s2c : t.s2c = s.s2c
  memory : t.memory = s.memory

theorem stepServerTimeout_zone {s t : Session} (hs : s.Sound)
    (h : s.stepServerTimeout = some t) : t.Sound ∧ TimeoutStep s t ∧ SameClient s t := by
  unfold stepServerTimeout at h
  cases hop : taskOp 0 s.server with
  | read k =>
    rw [hop] at h
    obtain rfl := Option.some.inj h
    exact ⟨Server.Sound.read hs hop _, ⟨(taskOp_read hop).2, rfl, rfl, rfl⟩, rfl, rfl, rfl⟩
  | readBuf len k =>
    rw [hop] at h
    obtain rfl := Option.some.inj h
    obtain ⟨hz, _, hz'⟩ := taskOp_readBuf hop
    refine ⟨Server.Sound.readBuf hs hop _, ⟨?_, rfl, rfl, rfl⟩, rfl, rfl, rfl⟩
    rw [zone, hz', zone, hz]
    rfl
  | _ => simp [hop] at h

/-! ### The client -/

section Module

variable {e : Client.Env} {s t : Session}

theorem stepModule_read {k : Read → Client.ModulePc}
    (hop : Client.moduleOp s.client.frame.socketPort s.module = .read k)
    (h : s.stepModule e = some t) :
    ∃ a rest, s.s2c = a :: rest ∧ t = { s with s2c := rest, module := k (.byte a.val) } := by
  unfold stepModule at h
  rw [hop] at h
  cases hr : s.s2c with
  | nil => simp [hr] at h
  | cons a rest =>
    simp only [hr, Option.some.injEq] at h
    exact ⟨a, rest, rfl, h.symm⟩

theorem stepModule_write {b : Byte} {k : Bool → Client.ModulePc}
    (hop : Client.moduleOp s.client.frame.socketPort s.module = .write b k)
    (h : s.stepModule e = some t) :
    t = { s with c2s := s.c2s ++ [⟨b, .module⟩], module := k true } := by
  unfold stepModule at h
  rw [hop] at h
  exact (Option.some.inj h).symm

theorem stepModule_receive {port : JInt} {k : List Byte → Client.ModulePc}
    (hop : Client.moduleOp s.client.frame.socketPort s.module = .receive port k)
    (h : s.stepModule e = some t) :
    ∃ d ds, takeDatagram port s.net = some (d, ds) ∧ t = { s with net := ds, module := k d } := by
  simp only [stepModule, hop, Option.map_eq_some_iff] at h
  obtain ⟨⟨d, ds⟩, hd, rfl⟩ := h
  exact ⟨d, ds, hd, rfl⟩

theorem stepModule_act {f : Client.Env → Client.Memory → Option (Client.Memory × Client.ModulePc)}
    (hop : Client.moduleOp s.client.frame.socketPort s.module = .act f)
    (h : s.stepModule e = some t) :
    ∃ m pc, f e s.client = some (m, pc) ∧ t = { s with client := m, module := pc } := by
  simp only [stepModule, hop, Option.map_eq_some_iff] at h
  obtain ⟨⟨m, pc⟩, hf, rfl⟩ := h
  exact ⟨m, pc, hf, rfl⟩

/-- A step of the `ModuleThread` leaves the server and the `InputThread` alone. -/
structure SameServer (s t : Session) : Prop where
  server : t.server = s.server
  memory : t.memory = s.memory
  input : t.input = s.input

theorem stepModule_cases (h : s.stepModule e = some t) :
    (∃ k a rest, Client.moduleOp s.client.frame.socketPort s.module = .read k ∧
      s.s2c = a :: rest ∧ t = { s with s2c := rest, module := k (.byte a.val) }) ∨
    (∃ b k, Client.moduleOp s.client.frame.socketPort s.module = .write b k ∧
      t = { s with c2s := s.c2s ++ [⟨b, .module⟩], module := k true }) ∨
    (∃ port k d ds, Client.moduleOp s.client.frame.socketPort s.module = .receive port k ∧
      takeDatagram port s.net = some (d, ds) ∧ t = { s with net := ds, module := k d }) ∨
    (∃ f m pc, Client.moduleOp s.client.frame.socketPort s.module = .act f ∧
      f e s.client = some (m, pc) ∧ t = { s with client := m, module := pc }) := by
  cases hop : Client.moduleOp s.client.frame.socketPort s.module with
  | read k =>
    obtain ⟨a, rest, hr, rfl⟩ := stepModule_read hop h
    exact Or.inl ⟨k, a, rest, rfl, hr, rfl⟩
  | write b k => exact Or.inr (Or.inl ⟨b, k, rfl, stepModule_write hop h⟩)
  | receive port k =>
    obtain ⟨d, ds, hd, rfl⟩ := stepModule_receive hop h
    exact Or.inr (Or.inr (Or.inl ⟨port, k, d, ds, rfl, hd, rfl⟩))
  | act f =>
    obtain ⟨m, pc, hf, rfl⟩ := stepModule_act hop h
    exact Or.inr (Or.inr (Or.inr ⟨f, m, pc, rfl, hf, rfl⟩))
  | _ => simp [stepModule, hop] at h

theorem stepModule_server (h : s.stepModule e = some t) : SameServer s t := by
  rcases stepModule_cases h with ⟨_, _, _, _, _, rfl⟩ | ⟨_, _, _, rfl⟩ |
    ⟨_, _, _, _, _, _, rfl⟩ | ⟨_, _, _, _, _, rfl⟩
  all_goals exact ⟨rfl, rfl, rfl⟩

theorem stepModule_s2c (h : s.stepModule e = some t) : ∀ a ∈ t.s2c, a ∈ s.s2c := by
  rcases stepModule_cases h with ⟨_, a, _, _, hr, rfl⟩ | ⟨_, _, _, rfl⟩ |
    ⟨_, _, _, _, _, _, rfl⟩ | ⟨_, _, _, _, _, rfl⟩
  · rw [hr]
    exact fun b hb => List.mem_cons_of_mem a hb
  · exact fun _ h => h
  · exact fun _ h => h
  · exact fun _ h => h

/-- The `ModuleThread` is at a read. -/
def Reads (s : Session) : Prop :=
  match Client.moduleOp s.client.frame.socketPort s.module with
  | .read _ => True
  | _ => False

instance (s : Session) : Decidable s.Reads := by
  unfold Reads
  split
  · infer_instance
  · infer_instance

/-- The `ModuleThread` reads the `0x00` of a timeout only where it waits for the
response to `MODULE_FRAME` and passes over it. -/
def TimeoutUnread (s : Session) : Prop :=
  s.Reads → s.s2c.head? = some .timeout → s.module = .frameWait

instance (s : Session) : Decidable s.TimeoutUnread :=
  inferInstanceAs (Decidable (s.Reads → s.s2c.head? = some .timeout → s.module = .frameWait))

theorem stepModule_reply {k : Read → Client.ModulePc}
    (hop : Client.moduleOp s.client.frame.socketPort s.module = .read k)
    (hu : s.TimeoutUnread) (hm : s.module ≠ .frameWait) (h : s.stepModule e = some t) :
    ∃ b rest, replies s.s2c = b :: replies rest ∧
      t = { s with s2c := rest, module := k (.byte b) } := by
  obtain ⟨a, rest, hr, rfl⟩ := stepModule_read hop h
  cases a with
  | reply b => exact ⟨b, rest, by rw [hr, replies_reply], rfl⟩
  | timeout => exact absurd (hu (by rw [Reads, hop]; trivial) (by rw [hr]; rfl)) hm

/-- The response to `MODULE_FRAME`: a timeout is passed over. -/
theorem stepModule_frameWait (hm : s.module = .frameWait) (h : s.stepModule e = some t) :
    ∃ rest, replies rest = replies s.s2c ∧ t = { s with s2c := rest } ∨
      ∃ b, replies s.s2c = b :: replies rest ∧
        t = { s with
          s2c := rest
          module := if b = ack then .init .testRunning
            else if b = reject then .idle else .frameWait } := by
  obtain ⟨a, rest, hr, rfl⟩ := stepModule_read (by rw [hm]; rfl) h
  refine ⟨rest, ?_⟩
  cases a with
  | reply b => exact Or.inr ⟨b, by rw [hr, replies_reply], rfl⟩
  | timeout =>
    refine Or.inl ⟨by rw [hr, replies_timeout], ?_⟩
    rw [hm]
    rfl

end Module

/-- To the `InputThread` the `ModuleThread` posts nothing but `exit()`, and what it
posts to the UI thread comes last. -/
structure ClientStep (m m' : Client.Memory) : Prop where
  input : m'.posted = m.posted ∧ m'.inputQueue = m.inputQueue ∨
    m'.posted = m.posted ++ [.exit] ∧ m'.inputQueue = m.inputQueue ++ [.exit]
  uiModule : m'.uiModule = m.uiModule
  uiQueue : m.uiQueue <+: m'.uiQueue

theorem moduleOp_client {port : JInt} {pc pc' : Client.ModulePc} {e : Client.Env}
    {f : Client.Env → Client.Memory → Option (Client.Memory × Client.ModulePc)}
    {m m' : Client.Memory} (h : Client.moduleOp port pc = .act f) (hf : f e m = some (m', pc')) :
    ClientStep m m' := by
  cases pc with
  | idle =>
    cases h
    cases hreq : m.requests with
    | nil => simp [hreq] at hf
    | cons request requests =>
      simp only [hreq, Option.some.injEq, Prod.mk.injEq] at hf
      obtain ⟨rfl, _⟩ := hf
      exact ⟨Or.inl ⟨rfl, rfl⟩, rfl, List.prefix_rfl⟩
  | stopTask =>
    cases h
    cases hend : m.frame.endStop with
    | _ =>
      simp only [hend, Option.some.injEq, Prod.mk.injEq] at hf
      obtain ⟨rfl, _⟩ := hf
      exact ⟨Or.inl ⟨rfl, rfl⟩, rfl, List.prefix_rfl⟩
  | inputDone => cases h; cases hf; exact ⟨Or.inl ⟨rfl, rfl⟩, rfl, List.prefix_append _ _⟩
  | exit => cases h; cases hf; exact ⟨Or.inr ⟨rfl, rfl⟩, rfl, List.prefix_rfl⟩
  | init pc =>
    cases pc with
    | testRunning =>
      cases h
      by_cases hrun : m.frame.running = true
      · simp only [hrun] at hf
        cases hf
        exact ⟨Or.inl ⟨rfl, rfl⟩, rfl, List.prefix_rfl⟩
      · simp only [hrun] at hf
        cases hf
        exact ⟨Or.inl ⟨rfl, rfl⟩, rfl, List.prefix_rfl⟩
    | initFrameInput p =>
      cases h
      by_cases hp : validPort p = true
      · simp only [hp] at hf
        cases hf
        exact ⟨Or.inl ⟨rfl, rfl⟩, rfl, List.prefix_rfl⟩
      · simp only [hp] at hf
        cases hf
        exact ⟨Or.inl ⟨rfl, rfl⟩, rfl, List.prefix_rfl⟩
    | writePort bs =>
      cases bs with
      | nil => cases h; cases hf; exact ⟨Or.inl ⟨rfl, rfl⟩, rfl, List.prefix_rfl⟩
      | cons b bs => cases h
    | readPort | receive | final => cases h
    | _ =>
      cases h
      cases hf
      exact ⟨Or.inl ⟨rfl, rfl⟩, rfl, List.prefix_rfl⟩
  | initDone ok =>
    cases h; cases hf
    cases ok with
    | true => exact ⟨Or.inl ⟨rfl, rfl⟩, rfl, List.prefix_append _ _⟩
    | false => exact ⟨Or.inl ⟨rfl, rfl⟩, rfl, List.prefix_rfl⟩
  | stopTest =>
    cases h
    cases hf
    exact ⟨Or.inl ⟨rfl, rfl⟩, rfl, List.prefix_rfl⟩
  | _ => cases h

theorem stepModule_client {e : Client.Env} {s t : Session} (h : s.stepModule e = some t) :
    ClientStep s.client t.client := by
  rcases stepModule_cases h with ⟨_, _, _, _, _, rfl⟩ | ⟨_, _, _, rfl⟩ |
    ⟨_, _, _, _, _, _, rfl⟩ | ⟨_, _, _, hop, hf, rfl⟩
  · exact ⟨Or.inl ⟨rfl, rfl⟩, rfl, List.prefix_rfl⟩
  · exact ⟨Or.inl ⟨rfl, rfl⟩, rfl, List.prefix_rfl⟩
  · exact ⟨Or.inl ⟨rfl, rfl⟩, rfl, List.prefix_rfl⟩
  · exact moduleOp_client hop hf

theorem stepModule_keys {e : Client.Env} {s t : Session} (h : s.stepModule e = some t) :
    t.client.keys = s.client.keys := by
  rcases (stepModule_client h).input with ⟨hp, _⟩ | ⟨hp, _⟩
  · simp [Client.Memory.keys, hp, Client.InputMsg.key?]
  · simp [Client.Memory.keys, hp, Client.InputMsg.key?]

/-- The bookkeeping of the input module is left alone; the UI may be told that
the frame module is on. -/
structure SameInput (s t : Session) : Prop where
  posted : t.client.posted = s.client.posted
  inputQueue : t.client.inputQueue = s.client.inputQueue
  currModule : t.client.currModule = s.client.currModule
  uiModule : t.client.uiModule = s.client.uiModule
  uiQueue : t.client.uiQueue = s.client.uiQueue ∨ t.client.uiQueue = s.client.uiQueue ++ [.frame]

end MikaAudio.Session
