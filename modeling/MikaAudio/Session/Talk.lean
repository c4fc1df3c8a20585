import MikaAudio.Session.Steps

/-!
# The exchanges of the `ModuleThread` with the server

Between two of its requests, and while a request is handled, the `ModuleThread`
and the server are in one of the stages of `Talk`: who has to move, what is in
the two streams, and in which zone the server is.  Timeouts of the server may
come at any stage; they put a `0x00` into the stream to the client, which is not
among the `replies`, and lose the bytes of a port read so far.

What keeps the exchange together is that the `ModuleThread` writes a request
only when the server is `Quiet`, and writes nothing more until it has an answer.
It holds as long as no `0x00` of a timeout is read as an answer
(`TimeoutUnread`).
-/

namespace MikaAudio.Session

open Thread Server
open Client (ModulePc InitPc moduleOp)

/-- Nothing is asked of the server: it waits for a module byte, or an earlier
`MODULE_FRAME` request left it waiting for a start `ACK` or for a port. -/
def Quiet (s : Session) : Prop :=
  s.zone = .loop ∨ s.client.frame.running = true ∧ (s.zone = .busy ∨ s.zone = .port [])

/-- The server has taken a request for something else, or may yet do so. -/
def Deaf (s : Session) : Prop :=
  s.zone = .loop ∨ s.zone = .busy ∨ ∃ bs, bs.length ≤ 1 ∧ s.zone = .port bs

/-- Inside `FrameModule.init`, with the port written: the number of bytes of the
server's answer that are read. -/
def Reader : ModulePc → Nat → Prop
  | .init (.writePort []), n => n = 0
  | .init (.readPort bs), n => n = bs.length ∧ n < 4
  | .init (.initFrameInput _), n => n = 4
  | .init .receive, n => n = 4
  | .init (.setDimensions _), n => n = 4
  | .init .final, n => n = 4
  | _, _ => False

/-- The stages of the exchange; `good` says that the environment lets every
`init` of the server come to its end. -/
inductive Talk (good : Prop) (s : Session) : Prop
  /-- No request is under way. -/
  | rest (hm : s.module = .idle ∨ s.module = .frameWrite ∨
        s.module = .inputWrite ∧ s.client.currModule = .exit ∨ ∃ ok, s.module = .initDone ok)
      (hc : s.c2s = []) (hr : replies s.s2c = []) (hz : s.Quiet)
  /-- The request is written. -/
  | asked (b : Byte) (hm : s.module = .inputWait ∧ s.client.currModule = .exit ∧ b = moduleInput ∨
        s.module = .frameWait ∧ b = moduleFrame)
      (hc : s.c2s = [⟨b, .module⟩]) (hr : replies s.s2c = []) (hz : s.Quiet)
  /-- The request was taken for something else. -/
  | swallowed (hm : s.module = .inputWait ∧ s.client.currModule = .exit ∨ s.module = .frameWait)
      (hc : s.c2s = []) (hr : replies s.s2c = []) (hz : s.Deaf)
  | inputOpen (hm : s.module = .inputWait ∧ s.client.currModule = .exit) (hc : s.c2s = [])
      (hr : replies s.s2c = []) (hz : s.zone = .inputAck)
  | inputAcked (hm : s.module = .inputWait ∧ s.client.currModule = .exit) (hc : s.c2s = [])
      (hr : replies s.s2c = [ack]) (hz : s.zone = .mode)
  | frameOpen (hm : s.module = .frameWait) (hc : s.c2s = []) (hr : replies s.s2c = [])
      (hz : s.zone = .frameAck)
  | frameAcked (hm : s.module = .frameWait) (hc : s.c2s = []) (hr : replies s.s2c = [ack])
      (hz : s.zone = .port [])
  /-- The client is in `init`, the server waits for the port. -/
  | initTest (hm : s.module = .init .testRunning) (hc : s.c2s = []) (hr : replies s.s2c = [])
      (hz : s.zone = .port [])
  | initSocket (hm : s.module = .init .newSocket) (hrun : s.client.frame.running = true)
      (hc : s.c2s = []) (hr : replies s.s2c = []) (hz : s.zone = .port [])
  /-- The port is on its way; timeouts may have lost some of it. -/
  | portOut (p : JInt) (lost got todo : List Byte) (hp : good → validPort p = true)
      (hm : s.module = .init (.writePort todo) ∨ todo = [] ∧ s.module = .init (.readPort []))
      (hrun : s.client.frame.running = true)
      (hbs : lost ++ got ++ s.c2s.map Client.Sent.val ++ todo = intBytes p)
      (ho : ∀ b ∈ s.c2s, b.origin = .module) (hr : replies s.s2c = [])
      (hz : s.zone = .port (got.map fun b => inRead (some b))) (hgot : got.length < 4)
  | ported (p : JInt) (hp : good → validPort p = true) (hm : Reader s.module 0)
      (hrun : s.client.frame.running = true) (hc : s.c2s = []) (hr : replies s.s2c = [])
      (hz : s.zone = .ported p)
  /-- The server writes its port and then the result of `init`. -/
  | serving (n todo : Nat) (hm : Reader s.module n) (hrun : s.client.frame.running = true)
      (hc : s.c2s = []) (hr : n + (replies s.s2c).length + todo = 4) (hz : s.zone = .serving todo)
  | served (n : Nat) (hm : Reader s.module n) (hrun : s.client.frame.running = true)
      (hc : s.c2s = []) (hr : n + (replies s.s2c).length = 5)
      (hz : s.zone = .busy ∨ s.zone = .loop)
  /-- The `ModuleThread` died of the port it read. -/
  | dead (hm : s.module = .dead) (hc : s.c2s = [])
      (hz : s.zone = .loop ∨ s.zone = .busy ∨ ∃ todo, s.zone = .serving todo)

/-- What is under way was written by the `ModuleThread`. -/
theorem Talk.origin {good : Prop} {s : Session} (h : Talk good s) :
    ∀ b ∈ s.c2s, b.origin = .module := by
  have hnil : s.c2s = [] → ∀ b ∈ s.c2s, b.origin = .module := by
    intro hc b hb
    rw [hc] at hb
    cases hb
  cases h with
  | asked b _ hc =>
    intro b' hb
    rw [hc] at hb
    rw [List.mem_singleton.mp hb]
  | portOut _ _ _ _ _ _ _ _ ho => exact ho
  | _ => exact hnil ‹_›

/-! ### The server moves -/

/-- Nothing but the zone has changed. -/
structure Same (s t : Session) : Prop where
  c2s : t.c2s = s.c2s
  replies : replies t.s2c = replies s.s2c
  keys : t.memory.keys = s.memory.keys

theorem ServerStep.of_waiting {e : Env} {s t : Session} (h : ServerStep e s t)
    (hz : s.zone.waits = true) :
    (Same s t ∧ (t.zone = s.zone ∨ s.zone = .busy ∧ t.zone = .loop)) ∨
    (∃ b, s.c2s = b :: t.c2s ∧ s.zone.next b.val = some t.zone ∧
      replies t.s2c = replies s.s2c ∧ t.memory.keys = s.memory.keys) := by
  rcases h with ⟨b, hc, hz', hr, hk⟩ | ⟨b, hz', hc, hr, hk⟩ | ⟨ks, hz', hc, hr, hk⟩
  · exact Or.inr ⟨b, hc, hz', hr, hk⟩
  · exact absurd hz' (Zone.not_replies_of_waits hz)
  · obtain ⟨rfl, hwait⟩ := hz'.of_waits hz
    exact Or.inl ⟨⟨hc, hr, by simpa using hk⟩, hwait⟩

theorem ServerStep.of_waiting_nil {e : Env} {s t : Session} (h : ServerStep e s t)
    (hz : s.zone.waits = true) (hc : s.c2s = []) :
    Same s t ∧ (t.zone = s.zone ∨ s.zone = .busy ∧ t.zone = .loop) := by
  rcases h.of_waiting hz with h | ⟨b, hc', _⟩
  · exact h
  · rw [hc] at hc'
    cases hc'

theorem ServerStep.of_waiting_same {e : Env} {s t : Session} (h : ServerStep e s t)
    (hz : s.zone.waits = true) (hb : s.zone ≠ .busy) (hc : s.c2s = []) :
    Same s t ∧ t.zone = s.zone := by
  obtain ⟨hsame, hz' | ⟨hz', _⟩⟩ := h.of_waiting_nil hz hc
  · exact ⟨hsame, hz'⟩
  · exact absurd hz' hb

theorem ServerStep.of_ack {e : Env} {s t : Session} (h : ServerStep e s t)
    (hz : s.zone = .inputAck ∨ s.zone = .inputLeave ∨ s.zone = .frameAck) :
    (Same s t ∧ t.zone = s.zone) ∨
    (t.c2s = s.c2s ∧ Zone.Replies s.zone ack t.zone ∧ replies t.s2c = replies s.s2c ++ [ack] ∧
      t.memory.keys = s.memory.keys) := by
  rcases h with ⟨b, hc, hz', hr, hk⟩ | ⟨b, hz', hc, hr, hk⟩ | ⟨ks, hz', hc, hr, hk⟩
  · rcases hz with hz | hz | hz
    all_goals
      rw [hz] at hz'
      cases hz'
  · refine Or.inr ⟨hc, ?_⟩
    rcases hz with hz | hz | hz
    all_goals
      rw [hz] at hz' ⊢
      obtain ⟨rfl, hz'⟩ := hz'
      exact ⟨⟨rfl, hz'⟩, hr, hk⟩
  · refine Or.inl ?_
    rcases hz with hz | hz | hz
    all_goals
      rw [hz] at hz' ⊢
      rcases hz' with ⟨rfl, hz'⟩ | hz'
      · exact ⟨⟨hc, hr, by simpa using hk⟩, hz'⟩
      · exact hz'.elim

theorem ServerStep.of_serving {e : Env} {s t : Session} (h : ServerStep e s t) {todo : Nat}
    (hz : s.zone = .serving todo) :
    (Same s t ∧ (t.zone = s.zone ∨ t.zone = .closed ∧ (e.sockets && e.bitmap) = false)) ∨
    (t.c2s = s.c2s ∧ (∃ b, replies t.s2c = replies s.s2c ++ [b]) ∧
      t.memory.keys = s.memory.keys ∧
      (∃ n, todo = n + 1 ∧ t.zone = .serving n ∨ todo = 0 ∧ t.zone = .busy)) := by
  rcases h with ⟨b, hc, hz', hr, hk⟩ | ⟨b, hz', hc, hr, hk⟩ | ⟨ks, hz', hc, hr, hk⟩
  · rw [hz] at hz'
    cases hz'
  · refine Or.inr ⟨hc, ⟨b, hr⟩, hk, ?_⟩
    rw [hz] at hz'
    cases todo with
    | zero => exact ⟨0, Or.inr ⟨rfl, hz'⟩⟩
    | succ n => exact ⟨n, Or.inl ⟨rfl, hz'⟩⟩
  · refine Or.inl ?_
    rw [hz] at hz' ⊢
    rcases hz' with ⟨rfl, hz'⟩ | ⟨rfl, hz'⟩
    · exact ⟨⟨hc, hr, by simpa using hk⟩, Or.inl hz'⟩
    · exact ⟨⟨hc, hr, by simpa using hk⟩, Or.inr hz'⟩

theorem Quiet.waits {s : Session} (h : s.Quiet) : s.zone.waits = true := by
  rcases h with h | ⟨_, h | h⟩
  all_goals
    rw [h]
    rfl

theorem Deaf.waits {s : Session} (h : s.Deaf) : s.zone.waits = true := by
  rcases h with h | h | ⟨bs, _, h⟩
  all_goals
    rw [h]
    rfl

theorem Quiet.of_zone {s t : Session} (h : s.Quiet) (hrun : t.client.frame = s.client.frame)
    (hz : t.zone = s.zone ∨ s.zone = .busy ∧ t.zone = .loop) : t.Quiet := by
  rcases hz with hz | ⟨_, hz⟩
  · unfold Quiet
    rw [hz, hrun]
    exact h
  · exact Or.inl hz

theorem Deaf.of_zone {s t : Session} (h : s.Deaf)
    (hz : t.zone = s.zone ∨ s.zone = .busy ∧ t.zone = .loop) : t.Deaf := by
  rcases hz with hz | ⟨_, hz⟩
  · unfold Deaf
    rw [hz]
    exact h
  · exact Or.inl hz

/-- The stage depends on the two streams, the zone, and three fields of the client
only. -/
theorem Talk.congr {good : Prop} {s t : Session} (h : Talk good s) (hmodule : t.module = s.module)
    (hcurr : t.client.currModule = s.client.currModule)
    (hframe : t.client.frame = s.client.frame) (hc2s : t.c2s = s.c2s)
    (hreplies : replies t.s2c = replies s.s2c) (hzone : t.zone = s.zone) : Talk good t := by
  have hquiet : s.Quiet → t.Quiet := fun h => h.of_zone hframe (Or.inl hzone)
  have hdeaf : s.Deaf → t.Deaf := fun h => h.of_zone (Or.inl hzone)
  cases h with
  | rest hm hc hr hz =>
    exact .rest (by rwa [hmodule, hcurr]) (by rwa [hc2s]) (by rwa [hreplies]) (hquiet hz)
  | asked b hm hc hr hz =>
    exact .asked b (by rwa [hmodule, hcurr]) (by rwa [hc2s]) (by rwa [hreplies]) (hquiet hz)
  | swallowed hm hc hr hz =>
    exact .swallowed (by rwa [hmodule, hcurr]) (by rwa [hc2s]) (by rwa [hreplies]) (hdeaf hz)
  | inputOpen hm hc hr hz =>
    exact .inputOpen (by rwa [hmodule, hcurr]) (by rwa [hc2s]) (by rwa [hreplies]) (by rwa [hzone])
  | inputAcked hm hc hr hz =>
    exact .inputAcked (by rwa [hmodule, hcurr]) (by rwa [hc2s]) (by rwa [hreplies])
      (by rwa [hzone])
  | frameOpen hm hc hr hz =>
    exact .frameOpen (by rwa [hmodule]) (by rwa [hc2s]) (by rwa [hreplies]) (by rwa [hzone])
  | frameAcked hm hc hr hz =>
    exact .frameAcked (by rwa [hmodule]) (by rwa [hc2s]) (by rwa [hreplies]) (by rwa [hzone])
  | initTest hm hc hr hz =>
    exact .initTest (by rwa [hmodule]) (by rwa [hc2s]) (by rwa [hreplies]) (by rwa [hzone])
  | initSocket hm hrun hc hr hz =>
    exact .initSocket (by rwa [hmodule]) (by rwa [hframe]) (by rwa [hc2s]) (by rwa [hreplies])
      (by rwa [hzone])
  | portOut p lost got todo hp hm hrun hbs ho hr hz hgot =>
    exact .portOut p lost got todo hp (by rwa [hmodule]) (by rwa [hframe]) (by rwa [hc2s])
      (by rwa [hc2s]) (by rwa [hreplies]) (by rwa [hzone]) hgot
  | ported p hp hm hrun hc hr hz =>
    exact .ported p hp (by rwa [hmodule]) (by rwa [hframe]) (by rwa [hc2s]) (by rwa [hreplies])
      (by rwa [hzone])
  | serving n todo hm hrun hc hr hz =>
    exact .serving n todo (by rwa [hmodule]) (by rwa [hframe]) (by rwa [hc2s]) (by rwa [hreplies])
      (by rwa [hzone])
  | served n hm hrun hc hr hz =>
    exact .served n (by rwa [hmodule]) (by rwa [hframe]) (by rwa [hc2s]) (by rwa [hreplies])
      (by rwa [hzone])
  | dead hm hc hz => exact .dead (by rwa [hmodule]) (by rwa [hc2s]) (by rwa [hzone])

section Server

variable {good : Prop} {e : Env} {s t : Session}

theorem Talk.of_asked {b : Byte}
    (hm : t.module = .inputWait ∧ t.client.currModule = .exit ∧ b = moduleInput ∨
      t.module = .frameWait ∧ b = moduleFrame)
    (hc : t.c2s = []) (hr : replies t.s2c = []) (hq : s.Quiet)
    (hz : s.zone.next b = some t.zone) : Talk good t := by
  have hwait : t.module = .inputWait ∧ t.client.currModule = .exit ∨ t.module = .frameWait := by
    rcases hm with ⟨hm, hcm, _⟩ | ⟨hm, _⟩
    · exact Or.inl ⟨hm, hcm⟩
    · exact Or.inr hm
  rcases hq with hq | ⟨_, hq | hq⟩
  · rw [hq] at hz
    simp only [Zone.next, Option.some.injEq] at hz
    rcases hm with ⟨hm, hcm, rfl⟩ | ⟨hm, rfl⟩
    · exact .inputOpen ⟨hm, hcm⟩ hc hr hz.symm
    · exact .frameOpen hm hc hr hz.symm
  · rw [hq] at hz
    simp only [Zone.next, Option.some.injEq] at hz
    refine .swallowed hwait hc hr (Or.inr (Or.inl ?_))
    rcases hm with ⟨_, _, rfl⟩ | ⟨_, rfl⟩
    · exact hz.symm
    · exact hz.symm
  · rw [hq] at hz
    simp only [Zone.next, Option.some.injEq] at hz
    exact .swallowed hwait hc hr (Or.inr (Or.inr ⟨_, by simp, hz.symm⟩))

theorem Talk.of_portByte {p : JInt} {lost got todo : List Byte} {b : Byte}
    (hp : good → validPort p = true)
    (hm : t.module = .init (.writePort todo) ∨ todo = [] ∧ t.module = .init (.readPort []))
    (hrun : t.client.frame.running = true)
    (hbs : lost ++ (got ++ [b]) ++ t.c2s.map Client.Sent.val ++ todo = intBytes p)
    (ho : ∀ b ∈ t.c2s, b.origin = .module) (hr : replies t.s2c = []) (hgot : got.length < 4)
    (hz : Zone.next (.port (got.map fun b => inRead (some b))) b = some t.zone) :
    Talk good t := by
  have hz : t.zone = .ofPortBytes ((got ++ [b]).map fun b => inRead (some b)) := by
    rw [List.map_append]
    exact (Option.some.inj hz).symm
  unfold Zone.ofPortBytes at hz
  by_cases hlen : (got ++ [b]).length = 4
  · have hall := congrArg List.length hbs
    simp only [List.length_append, List.length_map, length_intBytes] at hall hlen
    obtain rfl : lost = [] := List.eq_nil_of_length_eq_zero (by omega)
    obtain rfl : todo = [] := List.eq_nil_of_length_eq_zero (by omega)
    have hc : t.c2s = [] := List.eq_nil_of_length_eq_zero (by omega)
    rw [hc] at hbs
    simp only [List.nil_append, List.map_nil, List.append_nil] at hbs
    rw [if_pos (by simpa using hlen), hbs, readIntOf_intBytes] at hz
    refine .ported p hp ?_ hrun hc hr hz
    rcases hm with hm | ⟨_, hm⟩
    · rw [hm]
      rfl
    · rw [hm]
      exact ⟨rfl, by decide⟩
  · rw [if_neg (by simpa using hlen)] at hz
    have hlen' : (got ++ [b]).length ≤ 4 := by
      rw [List.length_append]
      exact hgot
    exact .portOut p lost (got ++ [b]) todo hp hm hrun hbs ho hr hz (by omega)

/-- **The server keeps to the exchange**, or `init` failed and it hangs up; no key
is dispatched. -/
theorem Talk.server (hgood : good → (e.sockets && e.bitmap) = true) (h : Talk good s)
    (hst : ServerStep e s t) (hcl : SameClient s t) :
    (Talk good t ∨ t.zone = .closed ∧ ¬ good) ∧ t.memory.keys = s.memory.keys := by
  obtain ⟨hclient, hmodule, hinput⟩ := hcl
  have hframe : t.client.frame = s.client.frame := by rw [hclient]
  have hstay : Same s t → t.zone = s.zone →
      (Talk good t ∨ t.zone = .closed ∧ ¬ good) ∧ t.memory.keys = s.memory.keys := by
    intro hsame hz
    have hcurr : t.client.currModule = s.client.currModule := by rw [hclient]
    exact ⟨Or.inl (h.congr hmodule hcurr hframe hsame.c2s hsame.replies hz), hsame.keys⟩
  have hwait : s.zone.waits = true → s.zone ≠ .busy → s.c2s = [] →
      (Talk good t ∨ t.zone = .closed ∧ ¬ good) ∧ t.memory.keys = s.memory.keys := by
    intro hz hbusy hc
    obtain ⟨hsame, hz'⟩ := hst.of_waiting_same hz hbusy hc
    exact hstay hsame hz'
  cases h with
  | rest hm hc hr hz =>
    obtain ⟨hsame, hz'⟩ := hst.of_waiting_nil hz.waits hc
    refine ⟨Or.inl (.rest (by rwa [hmodule, hclient]) (by rw [hsame.c2s, hc])
      (by rw [hsame.replies, hr]) (hz.of_zone hframe hz')), hsame.keys⟩
  | asked b hm hc hr hz =>
    rcases hst.of_waiting hz.waits with ⟨hsame, hz'⟩ | ⟨b', hc', hz', hr', hk⟩
    · exact ⟨Or.inl (.asked b (by rwa [hmodule, hclient]) (by rw [hsame.c2s, hc])
        (by rw [hsame.replies, hr]) (hz.of_zone hframe hz')), hsame.keys⟩
    · rw [hc, List.cons.injEq] at hc'
      obtain ⟨rfl, hc'⟩ := hc'
      exact ⟨Or.inl (.of_asked (by rwa [hmodule, hclient]) hc'.symm (by rw [hr', hr]) hz hz'), hk⟩
  | swallowed hm hc hr hz =>
    obtain ⟨hsame, hz'⟩ := hst.of_waiting_nil hz.waits hc
    exact ⟨Or.inl (.swallowed (by rwa [hmodule, hclient]) (by rw [hsame.c2s, hc])
      (by rw [hsame.replies, hr]) (hz.of_zone hz')), hsame.keys⟩
  | inputOpen hm hc hr hz =>
    rw [← hmodule, ← hclient] at hm
    rcases hst.of_ack (Or.inl hz) with ⟨hsame, hz'⟩ | ⟨hc', hz', hr', hk⟩
    · exact hstay hsame hz'
    · rw [hz] at hz'
      exact ⟨Or.inl (.inputAcked hm (by rw [hc', hc]) (by rw [hr', hr]; rfl) hz'.2), hk⟩
  | inputAcked hm hc hr hz => exact hwait (by rw [hz]; rfl) (by simp [hz]) hc
  | frameOpen hm hc hr hz =>
    rw [← hmodule] at hm
    rcases hst.of_ack (Or.inr (Or.inr hz)) with ⟨hsame, hz'⟩ | ⟨hc', hz', hr', hk⟩
    · exact hstay hsame hz'
    · rw [hz] at hz'
      exact ⟨Or.inl (.frameAcked hm (by rw [hc', hc]) (by rw [hr', hr]; rfl) hz'.2), hk⟩
  | frameAcked hm hc hr hz => exact hwait (by rw [hz]; rfl) (by simp [hz]) hc
  | initTest hm hc hr hz => exact hwait (by rw [hz]; rfl) (by simp [hz]) hc
  | initSocket hm hrun hc hr hz => exact hwait (by rw [hz]; rfl) (by simp [hz]) hc
  | portOut p lost got todo hp hm hrun hbs ho hr hz hgot =>
    rw [← hmodule] at hm
    rw [← hframe] at hrun
    rcases hst.of_waiting (by rw [hz]; rfl) with ⟨hsame, hz'⟩ | ⟨b, hc', hz', hr', hk⟩
    · exact hstay hsame (hz'.resolve_right (by simp [hz]))
    · refine ⟨Or.inl ?_, hk⟩
      rw [hc'] at hbs ho
      have hbs' : lost ++ (got ++ [b.val]) ++ t.c2s.map Client.Sent.val ++ todo = intBytes p := by
        simpa using hbs
      have ho' : ∀ b ∈ t.c2s, b.origin = .module := fun c hc => ho c (List.mem_cons_of_mem b hc)
      exact .of_portByte hp hm hrun hbs' ho' (by rw [hr', hr]) hgot (by rw [← hz', hz])
  | ported p hp hm hrun hc hr hz =>
    rw [← hmodule] at hm
    rw [← hframe] at hrun
    rcases hst with ⟨b, hc', _⟩ | ⟨b, hz', _⟩ | ⟨ks, hz', hc', hr', hk⟩
    · rw [hc] at hc'; cases hc'
    · rw [hz] at hz'; exact hz'.elim
    · rw [hz] at hz'
      have hks : ks = [] := by
        rcases hz' with ⟨h, _⟩ | ⟨h, _⟩
        · exact h
        · exact h
      refine ⟨?_, by rw [hk, hks, List.append_nil]⟩
      rcases hz' with ⟨_, hz'⟩ | ⟨_, hz' | ⟨hz', hfail⟩⟩
      · exact Or.inl (.ported p hp hm hrun (by rw [hc', hc]) (by rw [hr', hr]) hz')
      · exact Or.inl (.serving 0 4 hm hrun (by rw [hc', hc]) (by rw [hr', hr]; rfl) hz')
      · refine Or.inr ⟨hz', fun hg => ?_⟩
        have := hgood hg
        simp_all
  | serving n todo hm hrun hc hr hz =>
    rw [← hmodule] at hm
    rw [← hframe] at hrun
    rcases hst.of_serving hz with ⟨hsame, hz' | ⟨hz', hfail⟩⟩ | ⟨hc', ⟨b, hr'⟩, hk, hz'⟩
    · exact hstay hsame hz'
    · exact ⟨Or.inr ⟨hz', fun hg => by rw [hgood hg] at hfail; cases hfail⟩, hsame.keys⟩
    · refine ⟨Or.inl ?_, hk⟩
      have hlen : (replies t.s2c).length = (replies s.s2c).length + 1 := by simp [hr']
      obtain ⟨m, ⟨rfl, hz'⟩ | ⟨rfl, hz'⟩⟩ := hz'
      · exact .serving n m hm hrun (by rw [hc', hc]) (by omega) hz'
      · exact .served n hm hrun (by rw [hc', hc]) (by omega) (Or.inl hz')
  | served n hm hrun hc hr hz =>
    rw [← hmodule] at hm
    rw [← hframe] at hrun
    have hwaiting : s.zone.waits = true := by
      rcases hz with hz | hz
      · rw [hz]
        rfl
      · rw [hz]
        rfl
    obtain ⟨hsame, hz'⟩ := hst.of_waiting_nil hwaiting hc
    refine ⟨Or.inl (.served n hm hrun (by rw [hsame.c2s, hc]) (by rwa [hsame.replies]) ?_),
      hsame.keys⟩
    rcases hz' with hz' | ⟨_, hz'⟩
    · rwa [hz']
    · exact Or.inr hz'
  | dead hm hc hz =>
    rw [← hmodule] at hm
    by_cases hserving : ∃ todo, s.zone = .serving todo
    · obtain ⟨todo, hz⟩ := hserving
      rcases hst.of_serving hz with ⟨hsame, hz' | ⟨hz', hfail⟩⟩ | ⟨hc', _, hk, hz'⟩
      · exact hstay hsame hz'
      · exact ⟨Or.inr ⟨hz', fun hg => by rw [hgood hg] at hfail; cases hfail⟩, hsame.keys⟩
      · refine ⟨Or.inl (.dead hm (by rw [hc', hc]) ?_), hk⟩
        obtain ⟨m, ⟨_, hz'⟩ | ⟨_, hz'⟩⟩ := hz'
        · exact Or.inr (Or.inr ⟨m, hz'⟩)
        · exact Or.inr (Or.inl hz')
    · have hz : s.zone = .loop ∨ s.zone = .busy := by
        rcases hz with hz | hz | hz
        · exact Or.inl hz
        · exact Or.inr hz
        · exact absurd hz hserving
      have hwaiting : s.zone.waits = true := by
        rcases hz with hz | hz
        · rw [hz]
          rfl
        · rw [hz]
          rfl
      obtain ⟨hsame, hz'⟩ := hst.of_waiting_nil hwaiting hc
      refine ⟨Or.inl (.dead hm (by rw [hsame.c2s, hc]) ?_), hsame.keys⟩
      rcases hz' with hz' | ⟨_, hz'⟩
      · rw [hz']
        rcases hz with hz | hz
        · exact Or.inl hz
        · exact Or.inr (Or.inl hz)
      · exact Or.inl hz'

end Server

/-! ### A read of the server times out, and moves that do not matter -/

/-- **A read timeout keeps the stage**, though it may lose bytes of the port. -/
theorem Talk.serverTimeout {good : Prop} {s t : Session} (h : Talk good s)
    (hst : TimeoutStep s t) (hcl : SameClient s t) : Talk good t := by
  obtain ⟨hclient, hmodule, _⟩ := hcl
  have hreplies : replies t.s2c = replies s.s2c := by rw [hst.s2c]
  by_cases hz : s.zone.timeout = s.zone
  · exact h.congr hmodule (by rw [hclient]) (by rw [hclient]) hst.c2s hreplies
      (hst.zone.trans hz)
  · cases h with
    | swallowed hm hc hr hz' =>
      refine .swallowed (by rwa [hmodule, hclient]) (by rwa [hst.c2s]) (by rwa [hreplies]) ?_
      rcases hz' with hz' | hz' | ⟨bs, _, hz'⟩
      · exact absurd (by rw [hz']; rfl) hz
      · exact absurd (by rw [hz']; rfl) hz
      · refine Or.inr (Or.inr ⟨[], Nat.zero_le 1, ?_⟩)
        rw [hst.zone, hz']
        rfl
    | portOut p lost got todo hp hm hrun hbs ho hr hz' hgot =>
      refine .portOut p (lost ++ got) [] todo hp (by rwa [hmodule]) (by rwa [hclient])
        (by rw [hst.c2s, List.append_nil]; exact hbs) (by rwa [hst.c2s]) (by rwa [hreplies]) ?_
        (by decide)
      rw [hst.zone, hz']
      rfl
    | rest hm hc hr hz' =>
      rcases hz' with hz' | ⟨_, hz' | hz'⟩
      all_goals exact absurd (by rw [hz']; rfl) hz
    | asked b hm hc hr hz' =>
      rcases hz' with hz' | ⟨_, hz' | hz'⟩
      all_goals exact absurd (by rw [hz']; rfl) hz
    | served n hm hrun hc hr hz' =>
      rcases hz' with hz' | hz'
      · exact absurd (by rw [hz']; rfl) hz
      · exact absurd (by rw [hz']; rfl) hz
    | dead hm hc hz' =>
      rcases hz' with hz' | hz' | ⟨_, hz'⟩
      all_goals exact absurd (by rw [hz']; rfl) hz
    | inputOpen hm hc hr hz' => exact absurd (by rw [hz']; rfl) hz
    | inputAcked hm hc hr hz' => exact absurd (by rw [hz']; rfl) hz
    | frameOpen hm hc hr hz' => exact absurd (by rw [hz']; rfl) hz
    | frameAcked hm hc hr hz' => exact absurd (by rw [hz']; rfl) hz
    | initTest hm hc hr hz' => exact absurd (by rw [hz']; rfl) hz
    | initSocket hm hrun hc hr hz' => exact absurd (by rw [hz']; rfl) hz
    | ported p hp hm hrun hc hr hz' => exact absurd (by rw [hz']; rfl) hz
    | serving n todo hm hrun hc hr hz' => exact absurd (by rw [hz']; rfl) hz

/-! ### The `ModuleThread` moves -/

section Module

variable {good : Prop} {e : Client.Env} {s t : Session}

theorem Talk.of_resting (h : Talk good s) (hm : s.module = .idle ∨ ∃ ok, s.module = .initDone ok) :
    s.c2s = [] ∧ replies s.s2c = [] ∧ s.Quiet := by
  have hreader : ∀ n, ¬ Reader s.module n := by
    rcases hm with hm | ⟨ok, hm⟩
    · rw [hm]
      exact fun _ h => h
    · rw [hm]
      exact fun _ h => h
  have hother : ∀ pc, pc ≠ .idle → (∀ ok, pc ≠ .initDone ok) → s.module ≠ pc := by
    rintro pc h1 h2 rfl
    rcases hm with hm | ⟨ok, hm⟩
    · exact h1 hm
    · exact h2 ok hm
  cases h with
  | rest _ hc hr hz => exact ⟨hc, hr, hz⟩
  | asked _ hm' =>
    rcases hm' with ⟨hm', _⟩ | ⟨hm', _⟩
    · exact absurd hm' (hother _ (by simp) (by simp))
    · exact absurd hm' (hother _ (by simp) (by simp))
  | swallowed hm' =>
    rcases hm' with ⟨hm', _⟩ | hm'
    · exact absurd hm' (hother _ (by simp) (by simp))
    · exact absurd hm' (hother _ (by simp) (by simp))
  | inputOpen hm' => exact absurd hm'.1 (hother _ (by simp) (by simp))
  | inputAcked hm' => exact absurd hm'.1 (hother _ (by simp) (by simp))
  | frameOpen hm' => exact absurd hm' (hother _ (by simp) (by simp))
  | frameAcked hm' => exact absurd hm' (hother _ (by simp) (by simp))
  | initTest hm' => exact absurd hm' (hother _ (by simp) (by simp))
  | initSocket hm' => exact absurd hm' (hother _ (by simp) (by simp))
  | portOut _ _ _ _ _ hm' =>
    rcases hm' with hm' | ⟨_, hm'⟩
    · exact absurd hm' (hother _ (by simp) (by simp))
    · exact absurd hm' (hother _ (by simp) (by simp))
  | ported _ _ hm' => exact absurd hm' (hreader 0)
  | serving n _ hm' => exact absurd hm' (hreader n)
  | served n hm' => exact absurd hm' (hreader n)
  | dead hm' => exact absurd hm' (hother _ (by simp) (by simp))

/-- **A request is taken.**  Where the client has not left the exit mode, and
where nothing is to be done, the stage is kept; a `MODULE_FRAME` request in the
input mode goes to `exit()`. -/
theorem Talk.request (h : Talk good s) (hm : s.module = .idle)
    (hcurr : s.client.currModule ≠ .frame) (hst : s.stepModule e = some t) :
    SameInput s t ∧ t.c2s = s.c2s ∧ t.s2c = s.s2c ∧ t.client.frame = s.client.frame ∧
      (Talk good t ∨ t.module = .exit ∧ s.client.currModule = .input ∧
        .frame ∈ s.client.requests.head?) := by
  obtain ⟨hc, hr, hz⟩ := h.of_resting (Or.inl hm)
  obtain ⟨m, pc, hf, rfl⟩ := stepModule_act (by rw [hm]; rfl) hst
  cases hreq : s.client.requests with
  | nil => simp [hreq] at hf
  | cons request requests =>
    simp only [hreq, Option.some.injEq, Prod.mk.injEq] at hf
    obtain ⟨rfl, rfl⟩ := hf
    refine ⟨⟨rfl, rfl, rfl, rfl, Or.inl rfl⟩, rfl, rfl, rfl, ?_⟩
    cases request with
    | exit => exact Or.inl (.rest (Or.inl rfl) hc hr hz)
    | input =>
      cases hcm : s.client.currModule with
      | exit => exact Or.inl (.rest (Or.inr (Or.inr (Or.inl ⟨rfl, rfl⟩))) hc hr hz)
      | input => exact Or.inl (.rest (Or.inl rfl) hc hr hz)
      | frame => exact absurd hcm hcurr
    | frame =>
      cases hcm : s.client.currModule with
      | exit => exact Or.inl (.rest (Or.inr (Or.inl rfl)) hc hr hz)
      | input => exact Or.inr ⟨rfl, rfl, rfl⟩
      | frame => exact absurd hcm hcurr

theorem Reader.step {n : Nat} (hm : Reader s.module n)
    (hu : s.TimeoutUnread) (hst : s.stepModule e = some t) :
    SameInput s t ∧ t.c2s = s.c2s ∧ t.client.frame.running = s.client.frame.running ∧
      (t.s2c = s.s2c ∧ (Reader t.module n ∨ n = 4 ∧ t.module = .dead) ∨
        ∃ b, replies s.s2c = b :: replies t.s2c ∧
          (Reader t.module (n + 1) ∨ n = 4 ∧ ∃ ok, t.module = .initDone ok)) := by
  cases hpc : s.module with
  | init pc =>
    rw [hpc] at hm
    cases pc with
    | writePort bs =>
      cases bs with
      | cons b bs => exact hm.elim
      | nil =>
        obtain rfl : n = 0 := hm
        obtain ⟨m, pc, hf, rfl⟩ := stepModule_act (by rw [hpc]; rfl) hst
        cases hf
        exact ⟨⟨rfl, rfl, rfl, rfl, Or.inl rfl⟩, rfl, rfl, Or.inl ⟨rfl, Or.inl ⟨rfl, by decide⟩⟩⟩
    | readPort bs =>
      obtain ⟨rfl, hlt⟩ : n = bs.length ∧ n < 4 := hm
      obtain ⟨b, rest, hr, rfl⟩ := stepModule_reply (by rw [hpc]; rfl) hu (by simp [hpc]) hst
      refine ⟨⟨rfl, rfl, rfl, rfl, Or.inl rfl⟩, rfl, rfl, Or.inr ⟨b, hr, Or.inl ?_⟩⟩
      show Reader (.init (.ofPortBytes (bs ++ [inRead (some b)]))) (bs.length + 1)
      unfold InitPc.ofPortBytes
      by_cases hlen : (bs ++ [inRead (some b)]).length = 4
      · rw [if_pos hlen]
        show bs.length + 1 = 4
        rwa [List.length_append] at hlen
      · rw [if_neg hlen]
        rw [List.length_append, List.length_singleton] at hlen
        exact ⟨by simp, by omega⟩
    | initFrameInput p =>
      obtain rfl : n = 4 := hm
      obtain ⟨m, pc, hf, rfl⟩ := stepModule_act (by rw [hpc]; rfl) hst
      by_cases hp : validPort p = true
      · simp only [hp] at hf
        cases hf
        exact ⟨⟨rfl, rfl, rfl, rfl, Or.inl rfl⟩, rfl, rfl, Or.inl ⟨rfl, Or.inl rfl⟩⟩
      · simp only [hp] at hf
        cases hf
        exact ⟨⟨rfl, rfl, rfl, rfl, Or.inl rfl⟩, rfl, rfl, Or.inl ⟨rfl, Or.inr ⟨rfl, rfl⟩⟩⟩
    | receive =>
      obtain rfl : n = 4 := hm
      obtain ⟨d, ds, _, rfl⟩ := stepModule_receive (by rw [hpc]; rfl) hst
      exact ⟨⟨rfl, rfl, rfl, rfl, Or.inl rfl⟩, rfl, rfl, Or.inl ⟨rfl, Or.inl rfl⟩⟩
    | setDimensions d =>
      obtain rfl : n = 4 := hm
      obtain ⟨m, pc, hf, rfl⟩ := stepModule_act (by rw [hpc]; rfl) hst
      cases hf
      exact ⟨⟨rfl, rfl, rfl, rfl, Or.inl rfl⟩, rfl, rfl, Or.inl ⟨rfl, Or.inl rfl⟩⟩
    | final =>
      obtain rfl : n = 4 := hm
      obtain ⟨b, rest, hr, rfl⟩ := stepModule_reply (by rw [hpc]; rfl) hu (by simp [hpc]) hst
      exact ⟨⟨rfl, rfl, rfl, rfl, Or.inl rfl⟩, rfl, rfl, Or.inr ⟨b, hr, Or.inr ⟨rfl, _, rfl⟩⟩⟩
    | _ => exact hm.elim
  | _ => rw [hpc] at hm; exact hm.elim

/-- Where nothing but timeouts is in the stream, the `ModuleThread` gets no answer. -/
theorem no_reply (hr : replies s.s2c = []) (hwait : s.module = .inputWait ∨ s.module = .frameWait)
    (hu : s.TimeoutUnread) (hst : s.stepModule e = some t) :
    t.client = s.client ∧ t.module = s.module ∧ t.c2s = s.c2s ∧ replies t.s2c = replies s.s2c := by
  rcases hwait with hm | hm
  · obtain ⟨b, rest, hr', _⟩ := stepModule_reply (by rw [hm]; rfl) hu (by simp [hm]) hst
    rw [hr] at hr'
    cases hr'
  · obtain ⟨rest, ⟨hr', rfl⟩ | ⟨b, hr', _⟩⟩ := stepModule_frameWait hm hst
    · exact ⟨rfl, rfl, rfl, hr'⟩
    · rw [hr] at hr'
      cases hr'

/-- **The `ModuleThread` keeps to the exchange**, until the request for the input
mode is acknowledged. -/
theorem Talk.module (h : Talk good s) (hgood : good → validPort e.port = true)
    (hidle : s.module ≠ .idle) (hu : s.TimeoutUnread) (hst : s.stepModule e = some t) :
    SameInput s t ∧ (Talk good t ∨ t.module = .inputDone ∧ s.client.currModule = .exit ∧
      t.c2s = [] ∧ replies t.s2c = [] ∧ t.zone = .mode) := by
  have hzone : t.zone = s.zone := by rw [zone, (stepModule_server hst).server]; rfl
  have hsame : t.client = s.client → SameInput s t :=
    fun h => ⟨by rw [h], by rw [h], by rw [h], by rw [h], Or.inl (by rw [h])⟩
  have hstay : replies s.s2c = [] → s.module = .inputWait ∨ s.module = .frameWait →
      SameInput s t ∧ (Talk good t ∨ t.module = .inputDone ∧ s.client.currModule = .exit ∧
        t.c2s = [] ∧ replies t.s2c = [] ∧ t.zone = .mode) := by
    intro hr hwait
    obtain ⟨hcl, hm, hc, hr⟩ := no_reply hr hwait hu hst
    exact ⟨hsame hcl, Or.inl (h.congr hm (by rw [hcl]) (by rw [hcl]) hc hr hzone)⟩
  cases h with
  | rest hm hc hr hz =>
    rcases hm with hm | hm | ⟨hm, hcm⟩ | ⟨ok, hm⟩
    · exact absurd hm hidle
    · obtain rfl := stepModule_write (by rw [hm]; rfl) hst
      exact ⟨hsame rfl, Or.inl (.asked moduleFrame (Or.inr ⟨rfl, rfl⟩) (by simp [hc]) hr hz)⟩
    · obtain rfl := stepModule_write (by rw [hm]; rfl) hst
      exact ⟨hsame rfl, Or.inl (.asked moduleInput (Or.inl ⟨rfl, hcm, rfl⟩) (by simp [hc]) hr hz)⟩
    · obtain ⟨m, pc, hf, rfl⟩ := stepModule_act (by rw [hm]; rfl) hst
      cases hf
      cases ok with
      | true => exact ⟨⟨rfl, rfl, rfl, rfl, Or.inr rfl⟩, Or.inl (.rest (Or.inl rfl) hc hr hz)⟩
      | false => exact ⟨hsame rfl, Or.inl (.rest (Or.inl rfl) hc hr hz)⟩
  | asked b hm hc hr hz => exact hstay hr (hm.imp (fun h => h.1) (fun h => h.1))
  | swallowed hm hc hr hz => exact hstay hr (hm.imp (fun h => h.1) id)
  | inputOpen hm hc hr hz => exact hstay hr (Or.inl hm.1)
  | inputAcked hm hc hr hz =>
    obtain ⟨b, rest, hr', rfl⟩ := stepModule_reply (by rw [hm.1]; rfl) hu (by simp [hm.1]) hst
    rw [hr, List.cons.injEq] at hr'
    obtain ⟨rfl, hr'⟩ := hr'
    exact ⟨hsame rfl, Or.inr ⟨rfl, hm.2, hc, hr'.symm, hz⟩⟩
  | frameOpen hm hc hr hz => exact hstay hr (Or.inr hm)
  | frameAcked hm hc hr hz =>
    obtain ⟨rest, ⟨hr', rfl⟩ | ⟨b, hr', rfl⟩⟩ := stepModule_frameWait hm hst
    · exact ⟨hsame rfl, Or.inl (.frameAcked hm hc (hr'.trans hr) hz)⟩
    · rw [hr, List.cons.injEq] at hr'
      obtain ⟨rfl, hr'⟩ := hr'
      exact ⟨hsame rfl, Or.inl (.initTest (by simp) hc hr'.symm hz)⟩
  | initTest hm hc hr hz =>
    obtain ⟨m, pc, hf, rfl⟩ := stepModule_act (by rw [hm]; rfl) hst
    by_cases hrun : s.client.frame.running = true
    · simp only [hrun] at hf
      cases hf
      exact ⟨hsame rfl, Or.inl (.rest (Or.inr (Or.inr (Or.inr ⟨false, rfl⟩))) hc hr
        (Or.inr ⟨hrun, Or.inr hz⟩))⟩
    · simp only [hrun] at hf
      cases hf
      exact ⟨⟨rfl, rfl, rfl, rfl, Or.inl rfl⟩, Or.inl (.initSocket rfl rfl hc hr hz)⟩
  | initSocket hm hrun hc hr hz =>
    obtain ⟨m, pc, hf, rfl⟩ := stepModule_act (by rw [hm]; rfl) hst
    cases hf
    exact ⟨⟨rfl, rfl, rfl, rfl, Or.inl rfl⟩, Or.inl (.portOut e.port [] [] (intBytes e.port) hgood
      (Or.inl rfl) hrun (by simp [hc]) (by simp [hc]) hr hz (by decide))⟩
  | portOut p lost got todo hp hm hrun hbs ho hr hz hgot =>
    rcases hm with hm | ⟨_, hm⟩
    · cases todo with
      | nil =>
        obtain ⟨m, pc, hf, rfl⟩ := stepModule_act (by rw [hm]; rfl) hst
        cases hf
        exact ⟨hsame rfl, Or.inl (.portOut p lost got [] hp (Or.inr ⟨rfl, rfl⟩) hrun hbs ho hr hz
          hgot)⟩
      | cons b bs =>
        obtain rfl := stepModule_write (by rw [hm]; rfl) hst
        refine ⟨hsame rfl, Or.inl (.portOut p lost got bs hp (Or.inl rfl) hrun ?_ ?_ hr hz hgot)⟩
        · simpa using hbs
        · intro c hc
          rcases List.mem_append.mp hc with hc | hc
          · exact ho c hc
          · rw [List.mem_singleton.mp hc]
    · obtain ⟨b, rest, hr', _⟩ := stepModule_reply (by rw [hm]; rfl) hu (by simp [hm]) hst
      rw [hr] at hr'
      cases hr'
  | ported p hp hm hrun hc hr hz =>
    obtain ⟨hsi, hc', hrun', ⟨hs, hm' | ⟨hn, _⟩⟩ | ⟨b, hr', _⟩⟩ := hm.step hu hst
    · exact ⟨hsi, Or.inl (.ported p hp hm' (hrun'.trans hrun) (hc'.trans hc) (by rw [hs, hr])
        (hzone.trans hz))⟩
    · omega
    · rw [hr] at hr'
      cases hr'
  | serving n todo hm hrun hc hr hz =>
    obtain ⟨hsi, hc', hrun', ⟨hs, hm' | ⟨hn, hm'⟩⟩ | ⟨b, hr', hm' | ⟨hn, _⟩⟩⟩ := hm.step hu hst
    · exact ⟨hsi, Or.inl (.serving n todo hm' (hrun'.trans hrun) (hc'.trans hc) (by rwa [hs])
        (hzone.trans hz))⟩
    · exact ⟨hsi, Or.inl (.dead hm' (hc'.trans hc) (Or.inr (Or.inr ⟨todo, hzone.trans hz⟩)))⟩
    · rw [hr', List.length_cons] at hr
      exact ⟨hsi, Or.inl (.serving (n + 1) todo hm' (hrun'.trans hrun) (hc'.trans hc) (by omega)
        (hzone.trans hz))⟩
    · rw [hr', List.length_cons] at hr
      omega
  | served n hm hrun hc hr hz =>
    rw [← hzone] at hz
    obtain ⟨hsi, hc', hrun', ⟨hs, hm' | ⟨hn, hm'⟩⟩ | ⟨b, hr', hm' | ⟨hn, ok, hm'⟩⟩⟩ :=
      hm.step hu hst
    · exact ⟨hsi, Or.inl (.served n hm' (hrun'.trans hrun) (hc'.trans hc) (by rwa [hs]) hz)⟩
    · exact ⟨hsi, Or.inl (.dead hm' (hc'.trans hc) (hz.elim (fun h => Or.inr (Or.inl h)) Or.inl))⟩
    · rw [hr', List.length_cons] at hr
      exact ⟨hsi, Or.inl (.served (n + 1) hm' (hrun'.trans hrun) (hc'.trans hc) (by omega) hz)⟩
    · rw [hr', List.length_cons] at hr
      have hr0 : replies t.s2c = [] := List.eq_nil_of_length_eq_zero (by omega)
      refine ⟨hsi, Or.inl (.rest (Or.inr (Or.inr (Or.inr ⟨ok, hm'⟩))) (hc'.trans hc) hr0 ?_)⟩
      rcases hz with hz | hz
      · exact Or.inr ⟨hrun'.trans hrun, Or.inl hz⟩
      · exact Or.inl hz
  | dead hm hc hz => simp [stepModule, hm, moduleOp] at hst

end Module

end MikaAudio.Session
