import MikaAudio.Session.Handshake

/-!
# The ports, and timeouts between them

The client writes its UDP port as four bytes, and the server answers with its own.  A read
of the server that times out there writes `0x00` into the stream the client is about to
read four bytes from, and the four reads begin anew, whatever they have read so far.  So
one timeout is enough: what the client then reads as the port begins with a zero that does
not belong to it (`readIntOf_zeros`).
-/

namespace MikaAudio.Session

open Thread Server Interleave
open Client (InitPc ModulePc)

/-! ### The exchange of the ports -/

/-- The client, up to the point where it has the server's port. -/
def portClient (ec : Client.Env) (s : Session) : Option Session :=
  match s.module with
  | .idle => none
  | .init (.initFrameInput _) => none
  | _ => s.stepModule ec

/-- The server, up to the point where it has written its port. -/
def portServer (es : Env) (s : Session) : Option Session :=
  match s.server with
  | .frame (.metrics _) => none
  | _ => s.stepServer es

/-- A read of the client's port times out. -/
def portTimeout (s : Session) : Option Session :=
  match s.server with
  | .frame (.port _) => s.stepServerTimeout
  | _ => none

/-- One of the two moves, and no read times out. -/
abbrev PortExchange (ec : Client.Env) (es : Env) : Session → Session → Prop :=
  Either (portClient ec) (portServer es)

/-- Who moves. -/
inductive Mover
  | client
  | server
  | timeout

/-- One step, and the number of timeouts so far. -/
def portStep (ec : Client.Env) (es : Env) : Mover → Session × Nat → Option (Session × Nat)
  | .client, (s, n) => (portClient ec s).map (·, n)
  | .server, (s, n) => (portServer es s).map (·, n)
  | .timeout, (s, n) => (portTimeout s).map (·, n + 1)

/-- The server has answered the request and is about to read the client's port; `k` timeouts
from before the request are still to be read. -/
structure Opened (k : Nat) (s : Session) : Prop where
  module : s.module = .frameWait
  fresh : s.client.frame.running = false
  c2s : s.c2s = []
  s2c : s.s2c = List.replicate k .timeout ++ [.reply ack]
  server : s.server = .frame (.port [])

/-- Both have the port of the other, and the four bytes of the client's are all that was
written and read. -/
structure Exchanged (ec : Client.Env) (es : Env) (s : Session) : Prop where
  framePort : s.server = .frame (.metrics ec.port)
  consumed : s.c2s = []
  inputPort : s.module = .init (.initFrameInput es.port)

section Exchange

variable {ec : Client.Env} {es : Env} {s t : Session}

theorem portClient_step (h : portClient ec s = some t) : s.stepModule ec = some t := by
  unfold portClient at h
  split at h
  · cases h
  · cases h
  · exact h

theorem portServer_step (h : portServer es s = some t) : s.stepServer es = some t := by
  unfold portServer at h
  split at h
  · cases h
  · exact h

/-- **The two do not disturb each other.** -/
theorem port_commutes (ec : Client.Env) (es : Env) :
    Commutes (portClient ec) (portServer es) := by
  intro s a b ha hb
  obtain ⟨c, hac, hbc⟩ := stepModule_commutes ec es s a b (portClient_step ha) (portServer_step hb)
  have hserver : a.server = s.server := (stepModule_server (portClient_step ha)).server
  have hmodule : b.module = s.module := (stepServer_client (portServer_step hb)).module
  refine ⟨c, ?_, ?_⟩
  · unfold portServer at hb ⊢
    rw [hserver]
    split at hb
    · cases hb
    · exact hac
  · unfold portClient at ha ⊢
    rw [hmodule]
    split at ha
    · cases ha
    · cases ha
    · exact hbc

/-- `true` is the client, `false` the server. -/
def portThread (ec : Client.Env) (es : Env) : Bool → Session → Option Session
  | true => portClient ec
  | false => portServer es

theorem port_path {ls : List Bool} (h : run (portThread ec es) ls s = some t) :
    Path (PortExchange ec es) ls.length s t := by
  refine Path.of_run (fun l _ a b hab => ?_) h
  cases l
  · exact Or.inr hab
  · exact Or.inl hab

theorem port_skip (k : Nat) {rest : List Answer} : ∀ {s : Session}, s.module = .frameWait →
    s.s2c = List.replicate k .timeout ++ .reply ack :: rest →
    run (portThread ec es) (List.replicate (k + 1) true) s =
      some { s with module := .init .testRunning, s2c := rest } := by
  induction k with
  | zero =>
    intro s hm hr
    simp [portThread, portClient, stepModule, Client.moduleOp, hm, hr, Answer.val]
  | succ k ih =>
    intro s hm hr
    have hstep : portThread ec es true s =
        some { s with s2c := List.replicate k .timeout ++ .reply ack :: rest } := by
      simp [portThread, portClient, stepModule, Client.moduleOp, hm, hr, Answer.val,
        List.replicate_succ, ack, reject]
    rw [List.replicate_succ, run_cons, hstep, Option.bind_some]
    exact ih hm rfl

theorem port_write (hm : s.module = .init .testRunning) (hc : s.c2s = [])
    (hrun : s.client.frame.running = false) :
    run (portThread ec es) (List.replicate 7 true) s = some
      { s with
        module := .init (.readPort [])
        c2s := (intBytes ec.port).map (⟨·, .module⟩)
        client := s.client.onFrame ({ · with running := true, socketPort := ec.port }) } := by
  simp [portThread, portClient, stepModule, Client.moduleOp, Client.initOp, hm, hc, hrun,
    Client.Memory.onFrame, intBytes, List.replicate]

theorem port_read {p : JInt} (hs : s.server = .frame (.port []))
    (hc : s.c2s = (intBytes p).map (⟨·, .module⟩)) :
    run (portThread ec es) (List.replicate 4 false) s = some
      { s with server := .frame (.newFramePacket p), c2s := [] } := by
  have hport := readIntOf_intBytes p
  simp only [intBytes, List.map_cons, List.map_nil] at hport
  simp [portThread, portServer, stepServer, taskOp, hs, hc, startOp, FramePc.ofPortBytes, intBytes,
    hport, List.replicate]

theorem port_answer {p : JInt} (hs : s.server = .frame (.newFramePacket p))
    (hp : validPort p = true) (hsock : es.sockets = true) :
    run (portThread ec es) (List.replicate 8 false) s = some
      { s with
        server := .frame (.metrics p)
        s2c := s.s2c ++ (intBytes es.port).map .reply
        memory := s.memory.onFrame
          ({ · with inputSocket := some ⟨0, es.port⟩, inputPacket := some 0 }) } := by
  simp [portThread, portServer, stepServer, taskOp, hs, startOp, hp, hsock, intBytes,
    Memory.onFrame, List.replicate, TaskPc.isTimeout]

theorem port_done {q : JInt} (hm : s.module = .init (.readPort []))
    (hr : s.s2c = (intBytes q).map .reply) :
    run (portThread ec es) (List.replicate 4 true) s = some
      { s with module := .init (.initFrameInput q), s2c := [] } := by
  have hport := readIntOf_intBytes q
  simp only [intBytes, List.map_cons, List.map_nil] at hport
  simp [portThread, portClient, stepModule, Client.moduleOp, Client.initOp, hm, hr, intBytes,
    InitPc.ofPortBytes, Answer.val, hport, List.replicate]

theorem exchange_path {k : Nat} (h : Opened k s) (hp : validPort ec.port = true)
    (hsock : es.sockets = true) :
    ∃ n t, Path (PortExchange ec es) n s t ∧ Exchanged ec es t := by
  have hskip : Path (PortExchange ec es) _ s { s with module := .init .testRunning, s2c := [] } :=
    port_path (port_skip k h.module h.s2c)
  have hwrite : Path (PortExchange ec es) _ s
      { s with
        module := .init (.readPort [])
        s2c := []
        c2s := (intBytes ec.port).map (⟨·, .module⟩)
        client := s.client.onFrame ({ · with running := true, socketPort := ec.port }) } :=
    hskip.trans (port_path (port_write rfl h.c2s h.fresh))
  have hread : Path (PortExchange ec es) _ s
      { s with
        module := .init (.readPort [])
        s2c := []
        c2s := []
        server := .frame (.newFramePacket ec.port)
        client := s.client.onFrame ({ · with running := true, socketPort := ec.port }) } :=
    hwrite.trans (port_path (port_read h.server rfl))
  have hanswer := hread.trans (port_path (port_answer rfl hp hsock))
  exact ⟨_, _, hanswer.trans (port_path (port_done rfl rfl)), rfl, rfl, rfl⟩

theorem Exchanged.stuck (h : Exchanged ec es s) : Stuck (PortExchange ec es) s := by
  rintro t (ht | ht)
  · rw [portClient, h.inputPort] at ht
    cases ht
  · rw [portServer, h.framePort] at ht
    cases ht

/-- **Without a timeout the ports are exchanged**, in every schedule. -/
theorem exchange_inevitable {k n : Nat} (h : Opened k s) (hp : validPort ec.port = true)
    (hsock : es.sockets = true) (ht : Path (PortExchange ec es) n s t) :
    Inevitable (PortExchange ec es) (Exchanged ec es) t := by
  obtain ⟨m, u, hpath, hu⟩ := exchange_path h hp hsock
  obtain ⟨r, hrest⟩ := (port_commutes ec es).diamond.path_tail hu.stuck ht hpath
  refine ((port_commutes ec es).diamond.inevitable hu.stuck hrest).mono ?_
  rintro _ rfl
  exact hu

end Exchange

/-! ### After a timeout -/

/-- Four reads of bytes. -/
def readsOf (bs : List Byte) : List JInt := bs.map fun b => inRead (some b)

theorem setWidth_shift_eq_zero {v : JInt} {k : Nat} (h : v.toNat < 2 ^ k) :
    (v >>> k).setWidth 8 = (0 : Byte) := by
  apply BitVec.eq_of_toNat_eq
  rw [BitVec.toNat_setWidth, BitVec.toNat_ushiftRight, Nat.shiftRight_eq_div_pow,
    Nat.div_eq_of_lt h]
  rfl

theorem readIntOf_byte (b : Byte) : (readIntOf (readsOf [0, 0, 0, b])).toNat = b.toNat := by
  have hb : (b.setWidth 32).toNat = b.toNat := by
    rw [BitVec.toNat_setWidth]
    omega
  have hbytes : intBytes (b.setWidth 32) = [0, 0, 0, b] := by
    rw [intBytes, setWidth_shift_eq_zero (by omega), setWidth_shift_eq_zero (by omega),
      setWidth_shift_eq_zero (by omega), BitVec.setWidth_setWidth_of_le b (by decide),
      BitVec.setWidth_eq]
  rw [← hbytes, readsOf, readIntOf_intBytes, hb]

/-- **A port that is read behind a zero that does not belong to it is another one.** -/
theorem readIntOf_zeros {q : JInt} (hpos : 0 < q.toNat) (hq : q.toNat ≤ 65535) {n : Nat}
    (hn : 0 < n) {bs rest : List Byte} (hlen : bs.length = 4)
    (h : bs ++ rest = List.replicate n 0 ++ intBytes q) : readIntOf (readsOf bs) ≠ q := by
  obtain ⟨n, rfl⟩ := Nat.exists_eq_succ_of_ne_zero (Nat.ne_of_gt hn)
  have hbytes : intBytes q = [(0 : Byte), 0, (q >>> 8).setWidth 8, q.setWidth 8] := by
    rw [intBytes, setWidth_shift_eq_zero (by omega), setWidth_shift_eq_zero (by omega)]
  -- the low byte of the port is not among the four that are read
  have htake : bs = (List.replicate (n + 1) 0 ++ intBytes q).take 4 := by
    rw [← h, List.take_left' hlen]
  rw [hbytes] at htake
  intro heq
  have hnat := congrArg BitVec.toNat heq
  rw [htake] at hnat
  rcases n with _ | _ | _ | n
  · have := hnat.symm.trans (readIntOf_byte ((q >>> 8).setWidth 8))
    rw [BitVec.toNat_setWidth, BitVec.toNat_ushiftRight, Nat.shiftRight_eq_div_pow] at this
    omega
  -- behind two zeros or more the four bytes are zero
  all_goals
    have := hnat.symm.trans (readIntOf_byte 0)
    rw [this] at hpos
    exact absurd hpos (by decide)

/-! ### What has been written and read -/

/-- What the server has written since its `ACK`, with `n` timeouts so far. -/
def PortSent (q : JInt) (n : Nat) (v : List Byte) (m : Server.Memory) : TaskPc → Prop
  | .frame (.port _) | .frame (.newFramePacket _) | .frame (.newInputSocket _) =>
    v = List.replicate n 0
  | .frame .portTimeout => 0 < n ∧ v = List.replicate (n - 1) 0
  | .frame (.getInputPort _) => v = List.replicate n 0 ∧ m.frame.inputSocket = some ⟨0, q⟩
  | .frame (.writeInputPort _ bs) =>
    ∃ done, done ++ bs = intBytes q ∧ v = List.replicate n 0 ++ done
  | .frame (.metrics _) => v = List.replicate n 0 ++ intBytes q
  | .closeStreams true | .dead => True
  | _ => False

/-- What the client has read of it, and what is still in the stream. -/
def PortGot (s : Session) (v : List Byte) : Prop :=
  match s.module with
  | .frameWait =>
    s.client.frame.running = false ∧
      ∃ k, s.s2c.map Answer.val = List.replicate k 0 ++ ack :: v
  | .init .testRunning => s.client.frame.running = false ∧ s.s2c.map Answer.val = v
  | .init .newSocket | .init (.writePort _) => s.s2c.map Answer.val = v
  | .init (.readPort bs) =>
    ∃ read, bs = readsOf read ∧ read.length < 4 ∧ v = read ++ s.s2c.map Answer.val
  | .init (.initFrameInput p) =>
    ∃ read, p = readIntOf (readsOf read) ∧ read.length = 4 ∧ v = read ++ s.s2c.map Answer.val
  | _ => False

section Spoiled

variable {ec : Client.Env} {es : Env} {s t : Session} {n : Nat} {v : List Byte}

theorem PortGot.client (h : PortGot s v) (hs : portClient ec s = some t) : PortGot t v := by
  have hstep := portClient_step hs
  unfold PortGot at h
  cases hm : s.module with
  | frameWait =>
    rw [hm] at h
    obtain ⟨hrun, k, hk⟩ := h
    obtain ⟨a, rest, hr, rfl⟩ := stepModule_read (by rw [hm]; rfl) hstep
    rw [hr, List.map_cons] at hk
    cases k with
    | zero =>
      obtain ⟨ha, hrest⟩ := List.cons.inj hk
      simp only [PortGot, ha, if_true]
      exact ⟨hrun, hrest⟩
    | succ k =>
      obtain ⟨ha, hrest⟩ := List.cons.inj hk
      simp only [PortGot, ha]
      exact ⟨hrun, k, hrest⟩
  | init pc =>
    cases pc with
    | testRunning =>
      rw [hm] at h
      obtain ⟨m, pc, hf, rfl⟩ := stepModule_act (by rw [hm]; rfl) hstep
      rw [h.1] at hf
      cases hf
      exact h.2
    | newSocket =>
      rw [hm] at h
      obtain ⟨m, pc, hf, rfl⟩ := stepModule_act (by rw [hm]; rfl) hstep
      cases hf
      exact h
    | writePort bs =>
      rw [hm] at h
      cases bs with
      | nil =>
        obtain ⟨m, pc, hf, rfl⟩ := stepModule_act (by rw [hm]; rfl) hstep
        cases hf
        exact ⟨[], rfl, by decide, h.symm⟩
      | cons b bs =>
        obtain rfl := stepModule_write (by rw [hm]; rfl) hstep
        exact h
    | readPort bs =>
      rw [hm] at h
      obtain ⟨read, rfl, hlen, hv⟩ := h
      obtain ⟨a, rest, hr, rfl⟩ := stepModule_read (by rw [hm]; rfl) hstep
      rw [hr, List.map_cons] at hv
      have hv' : v = (read ++ [a.val]) ++ rest.map Answer.val := by
        rw [hv, List.append_assoc]
        rfl
      have hreads : readsOf read ++ [inRead (some a.val)] = readsOf (read ++ [a.val]) := by
        rw [readsOf, readsOf, List.map_append]
        rfl
      show PortGot { s with s2c := rest, module := .init (InitPc.ofPortBytes _) } v
      rw [hreads]
      unfold InitPc.ofPortBytes
      split_ifs with hfour
      · exact ⟨read ++ [a.val], rfl, by rwa [readsOf, List.length_map] at hfour, hv'⟩
      · refine ⟨read ++ [a.val], rfl, ?_, hv'⟩
        rw [readsOf, List.length_map, List.length_append, List.length_singleton] at hfour
        rw [List.length_append, List.length_singleton]
        omega
    | initFrameInput p =>
      rw [portClient, hm] at hs
      cases hs
    | _ => rw [hm] at h; exact h.elim
  | _ => rw [hm] at h; exact h.elim

theorem PortGot.append (h : PortGot s v) {new : List Answer} (hmodule : t.module = s.module)
    (hclient : t.client = s.client) (hs2c : t.s2c = s.s2c ++ new) :
    PortGot t (v ++ new.map Answer.val) := by
  unfold PortGot at h ⊢
  rw [hmodule, hclient, hs2c, List.map_append]
  cases hm : s.module with
  | frameWait =>
    rw [hm] at h
    obtain ⟨hrun, k, hk⟩ := h
    exact ⟨hrun, k, by rw [hk, List.append_assoc]; rfl⟩
  | init pc =>
    rw [hm] at h
    cases pc with
    | testRunning => exact ⟨h.1, by rw [h.2]⟩
    | newSocket => exact congrArg (· ++ _) h
    | writePort bs => exact congrArg (· ++ _) h
    | readPort bs =>
      obtain ⟨read, hbs, hlen, hv⟩ := h
      exact ⟨read, hbs, hlen, by rw [hv, List.append_assoc]⟩
    | initFrameInput p =>
      obtain ⟨read, hp, hlen, hv⟩ := h
      exact ⟨read, hp, hlen, by rw [hv, List.append_assoc]⟩
    | _ => exact h.elim
  | _ => rw [hm] at h; exact h.elim

theorem PortSent.server (h : PortSent es.port n v s.memory s.server) (hsock : es.sockets = true)
    (hs : portServer es s = some t) :
    ∃ new : List Answer, t.s2c = s.s2c ++ new ∧
      PortSent es.port n (v ++ new.map Answer.val) t.memory t.server := by
  have hstep := portServer_step hs
  cases hserver : s.server with
  | frame pc =>
    rw [hserver] at h
    cases pc with
    | port bs =>
      obtain ⟨b, rest, _, rfl⟩ := stepServer_read (by rw [hserver]; rfl) hstep
      refine ⟨[], (List.append_nil _).symm, ?_⟩
      rw [List.map_nil, List.append_nil]
      show PortSent es.port n v s.memory (.frame (FramePc.ofPortBytes _))
      unfold FramePc.ofPortBytes
      split_ifs
      · exact h
      · exact h
    | portTimeout =>
      simp only [stepServer, hserver, taskOp, startOp, Option.some.injEq] at hstep
      subst hstep
      refine ⟨[.timeout], rfl, ?_⟩
      obtain ⟨hpos, rfl⟩ := h
      obtain ⟨n, rfl⟩ := Nat.exists_eq_succ_of_ne_zero (Nat.ne_of_gt hpos)
      exact List.replicate_succ'.symm
    | newFramePacket framePort =>
      simp only [stepServer, hserver, taskOp, startOp, hsock, if_true, Option.map_some,
        Option.some.injEq] at hstep
      subst hstep
      refine ⟨[], (List.append_nil _).symm, ?_⟩
      rw [List.map_nil, List.append_nil]
      dsimp only
      split_ifs
      · exact h
      · trivial
    | newInputSocket framePort =>
      simp only [stepServer, hserver, taskOp, startOp, hsock, if_true, Option.map_some,
        Option.some.injEq] at hstep
      subst hstep
      refine ⟨[], (List.append_nil _).symm, ?_⟩
      rw [List.map_nil, List.append_nil]
      exact ⟨h, rfl⟩
    | getInputPort framePort =>
      obtain ⟨hv, hsocket⟩ := h
      simp only [stepServer, hserver, taskOp, startOp, hsocket, Option.map_some,
        Option.some.injEq] at hstep
      subst hstep
      refine ⟨[], (List.append_nil _).symm, [], rfl, ?_⟩
      rw [List.map_nil, List.append_nil, List.append_nil]
      exact hv
    | writeInputPort framePort bs =>
      obtain ⟨done, hdone, hv⟩ := h
      cases bs with
      | nil =>
        simp only [stepServer, hserver, taskOp, startOp, Option.map_some,
          Option.some.injEq] at hstep
        subst hstep
        refine ⟨[], (List.append_nil _).symm, ?_⟩
        rw [List.append_nil] at hdone
        rw [hdone] at hv
        rw [List.map_nil, List.append_nil]
        exact hv
      | cons b bs =>
        simp only [stepServer, hserver, taskOp, startOp, Option.some.injEq] at hstep
        subst hstep
        refine ⟨[.reply b], rfl, done ++ [b], ?_, ?_⟩
        · rw [List.append_assoc]
          exact hdone
        · rw [hv, List.append_assoc]
          rfl
    | metrics framePort =>
      rw [portServer, hserver] at hs
      cases hs
    | _ => exact h.elim
  | closeStreams escaping =>
    rw [hserver] at h
    cases escaping with
    | true =>
      simp only [stepServer, hserver, taskOp, Option.map_some, Option.some.injEq] at hstep
      subst hstep
      exact ⟨[], (List.append_nil _).symm, trivial⟩
    | false => exact h.elim
  | dead => simp [stepServer, hserver, taskOp] at hstep
  | _ => rw [hserver] at h; exact h.elim

theorem PortSent.timeout {q : JInt} (h : PortSent q n v s.memory s.server)
    (hs : portTimeout s = some t) :
    PortSent q (n + 1) v t.memory t.server ∧ t.module = s.module ∧ t.client = s.client ∧
      t.s2c = s.s2c := by
  unfold portTimeout at hs
  cases hserver : s.server with
  | frame pc =>
    rw [hserver] at h hs
    cases pc with
    | port bs =>
      simp only [stepServerTimeout, hserver, taskOp, startOp, Option.some.injEq] at hs
      subst hs
      exact ⟨⟨Nat.succ_pos n, h⟩, rfl, rfl, rfl⟩
    | _ => cases hs
  | _ => rw [hserver] at hs; cases hs

/-- Both together. -/
def Wire (q : JInt) (s : Session) (n : Nat) : Prop :=
  ∃ v, PortSent q n v s.memory s.server ∧ PortGot s v

theorem Wire.client (h : Wire es.port s n) (hs : portClient ec s = some t) :
    Wire es.port t n := by
  obtain ⟨v, hsent, hgot⟩ := h
  obtain ⟨hserver, hmemory, _⟩ := stepModule_server (portClient_step hs)
  exact ⟨v, by rw [hserver, hmemory]; exact hsent, hgot.client hs⟩

theorem Wire.server (h : Wire es.port s n) (hsock : es.sockets = true)
    (hs : portServer es s = some t) : Wire es.port t n := by
  obtain ⟨v, hsent, hgot⟩ := h
  obtain ⟨new, hs2c, hsent'⟩ := hsent.server hsock hs
  have hcl := stepServer_client (portServer_step hs)
  exact ⟨_, hsent', hgot.append hcl.module hcl.client hs2c⟩

theorem Wire.timeout {q : JInt} (h : Wire q s n) (hs : portTimeout s = some t) :
    Wire q t (n + 1) := by
  obtain ⟨v, hsent, hgot⟩ := h
  obtain ⟨hsent', hmodule, hclient, hs2c⟩ := hsent.timeout hs
  have hs2c' : t.s2c = s.s2c ++ [] := by rw [hs2c, List.append_nil]
  have hgot' := hgot.append hmodule hclient hs2c'
  rw [List.map_nil, List.append_nil] at hgot'
  exact ⟨v, hsent', hgot'⟩

/-- **After a timeout the client reads another port.** -/
theorem Wire.not_exchanged (h : Wire es.port s n) (hpos : 0 < es.port.toNat)
    (hport : es.port.toNat ≤ 65535) (hn : 0 < n) : ¬ Exchanged ec es s := by
  intro hex
  obtain ⟨v, hsent, hgot⟩ := h
  rw [hex.framePort] at hsent
  rw [PortGot, hex.inputPort] at hgot
  obtain ⟨read, hread, hlen, hv⟩ := hgot
  exact readIntOf_zeros hpos hport hn hlen (hv.symm.trans hsent) hread.symm

theorem Opened.wire {k : Nat} (h : Opened k s) (q : JInt) : Wire q s 0 := by
  refine ⟨[], ?_, ?_⟩
  · rw [h.server]
    rfl
  · rw [PortGot, h.module]
    refine ⟨h.fresh, k, ?_⟩
    rw [h.s2c, List.map_append, List.map_replicate]
    rfl

/-! ### Ports and timeouts -/

/-- **The ports are exchanged exactly if no read times out there**: from any state that is
reached, with any number of timeouts anywhere between the reads. -/
theorem ports_iff {k : Nat} (h : Opened k s) (hclient : validPort ec.port = true)
    (hpos : 0 < es.port.toNat) (hport : es.port.toNat ≤ 65535) (hsock : es.sockets = true)
    (hreach : Reach (portStep ec es) (fun _ _ => True) (s, 0) (t, n)) :
    Inevitable (PortExchange ec es) (Exchanged ec es) t ↔ n = 0 := by
  obtain ⟨hwire, hpath⟩ := hreach.invariant
    (I := fun x => Wire es.port x.1 x.2 ∧ (x.2 = 0 → ∃ m, Path (PortExchange ec es) m s x.1))
    ⟨h.wire es.port, fun _ => ⟨0, .nil s⟩⟩ (by
      rintro ⟨a, i⟩ ⟨b, j⟩ l ⟨hwire, hpath⟩ _ hs
      cases l with
      | client =>
        obtain ⟨b', hb, heq⟩ := Option.map_eq_some_iff.mp hs
        obtain ⟨rfl, rfl⟩ := Prod.mk.inj heq
        refine ⟨hwire.client hb, fun hi => ?_⟩
        obtain ⟨m, hm⟩ := hpath hi
        exact ⟨_, hm.trans (.single (Or.inl hb))⟩
      | server =>
        obtain ⟨b', hb, heq⟩ := Option.map_eq_some_iff.mp hs
        obtain ⟨rfl, rfl⟩ := Prod.mk.inj heq
        refine ⟨hwire.server hsock hb, fun hi => ?_⟩
        obtain ⟨m, hm⟩ := hpath hi
        exact ⟨_, hm.trans (.single (Or.inr hb))⟩
      | timeout =>
        obtain ⟨b', hb, heq⟩ := Option.map_eq_some_iff.mp hs
        obtain ⟨rfl, rfl⟩ := Prod.mk.inj heq
        exact ⟨hwire.timeout hb, fun hi => absurd hi (Nat.succ_ne_zero i)⟩)
  constructor
  · intro hin
    by_contra hn
    obtain ⟨u, hu, hwire'⟩ := hin.exists_of_invariant (I := fun u => Wire es.port u n)
      (fun a b hab hw => hab.elim hw.client (hw.server hsock)) hwire
    exact hwire'.not_exchanged hpos hport (Nat.pos_of_ne_zero hn) hu
  · intro hn
    obtain ⟨m, hm⟩ := hpath hn
    exact exchange_inevitable h hclient hsock hm

end Spoiled

/-- The client waits for the answer, and the server is about to read the port. -/
def openedStart : Session :=
  { module := .frameWait, s2c := [.reply ack], server := .frame (.port []) }

theorem openedStart_opened : Opened 0 openedStart := ⟨rfl, rfl, rfl, rfl, rfl⟩

/-- The ports `40000` and `40001`, without a timeout. -/
theorem ports_iff_quiet :
    Inevitable (PortExchange ⟨40000⟩ ⟨40001, true, 1080, 1920, 7, true⟩)
      (Exchanged ⟨40000⟩ ⟨40001, true, 1080, 1920, 7, true⟩) openedStart :=
  (ports_iff openedStart_opened (by decide) (by decide) (by decide) rfl .refl).mpr rfl

/-- **One timeout before the first byte, and the client reads another port.** -/
theorem ports_timeout : ¬ ∀ (ec : Client.Env) (es : Env) (k n : Nat) (s t : Session),
    Opened k s → validPort ec.port = true → 0 < es.port.toNat → es.port.toNat ≤ 65535 →
    es.sockets = true → Reach (portStep ec es) (fun _ _ => True) (s, 0) (t, n) →
    Inevitable (PortExchange ec es) (Exchanged ec es) t := by
  intro hclaim
  let es : Env := ⟨40001, true, 1080, 1920, 7, true⟩
  have hs : portTimeout openedStart = some { openedStart with server := .frame .portTimeout } := rfl
  have hwire := (openedStart_opened.wire es.port).timeout hs
  obtain ⟨u, hu, hwire'⟩ := (hclaim ⟨40000⟩ es 0 1 openedStart _ openedStart_opened (by decide)
    (by decide) (by decide) rfl (.tail (l := .timeout) .refl trivial
      (congrArg (Option.map (·, 1)) hs))).exists_of_invariant (I := fun u => Wire es.port u 1)
    (fun a b hab hw => hab.elim hw.client (hw.server rfl)) hwire
  exact hwire'.not_exchanged (by decide) (by decide) Nat.one_pos hu

end MikaAudio.Session
