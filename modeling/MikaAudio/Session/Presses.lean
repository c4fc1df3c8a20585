import MikaAudio.Session.Talk

/-!
# Key presses on the unframed stream

The `InputThread` writes two bytes for a key and nothing around them, so a key
arrives as a key only while the server is inside `listen`.  `Phase` follows a
session: before the input mode, in it (`window`: the bytes on their way decode to
the keys still to be dispatched), from `inputModule.exit()` to the server's
`ACK`, and after it, when nothing of the `InputThread` is under way any more.

Three things break it, and all are left out by a condition on the steps
(`Allowed`): the `0x00` of a timeout read as an answer makes the `ModuleThread`
repeat a request, a read of its own that times out leaves the late answer to the
next request, and a key pressed after `exit()` is behind the exit byte.  A
second `exit()` (the client's `currModule` stays `MODULE_INPUT` for ever) can
make the server hang up, but dispatches nothing; `strict` leaves it out as well.
-/

namespace MikaAudio.Session

open Thread Server
open Client (ModulePc InputMsg Sent moduleOp)

/-! ### The stream of keys -/

/-- The key the server dispatches for a key: the wire carries its low byte. -/
def wireKey (k : JInt) : JInt := inRead (some (k.setWidth 8))

theorem wireKey_of_lt {k : JInt} (h : k.toNat < 256) : wireKey k = k :=
  inRead_setWidth h

/-- What the `InputThread` writes for a list of keys. -/
def keyBytes (ks : List JInt) : List Sent := ks.flatMap fun k => (InputMsg.key k).bytes

theorem keyBytes_append (ks ls : List JInt) : keyBytes (ks ++ ls) = keyBytes ks ++ keyBytes ls :=
  List.flatMap_append

/-- Inside `listen`, the bytes still to be read make the server dispatch the keys
`ks`. -/
def Decodes : Zone → List Sent → List JInt → Prop
  | .mode, bs, ks => bs = keyBytes ks
  | .key, bs, ks => ∃ k ls, ks = k :: ls ∧ bs = ⟨k.setWidth 8, .key⟩ :: keyBytes ls
  | .press j, bs, ks => ∃ k ls, ks = k :: ls ∧ j = wireKey k ∧ bs = keyBytes ls
  | _, _, _ => False

theorem Decodes.append {z : Zone} {bs : List Sent} {ks : List JInt} (h : Decodes z bs ks)
    (ls : List JInt) : Decodes z (bs ++ keyBytes ls) (ks ++ ls) := by
  cases z with
  | mode => rw [show bs = keyBytes ks from h, ← keyBytes_append]; exact rfl
  | key =>
    obtain ⟨k, ks, rfl, rfl⟩ := h
    exact ⟨k, ks ++ ls, rfl, by rw [keyBytes_append]; rfl⟩
  | press j =>
    obtain ⟨k, ks, rfl, hj, rfl⟩ := h
    exact ⟨k, ks ++ ls, rfl, hj, (keyBytes_append ks ls).symm⟩
  | _ => exact h.elim

theorem Decodes.next {z z' : Zone} {b : Sent} {bs : List Sent} {ks : List JInt}
    (h : Decodes z (b :: bs) ks) (hz : z.next b.val = some z') : Decodes z' bs ks := by
  cases z with
  | mode =>
    cases ks with
    | nil => cases h
    | cons k ls =>
      obtain ⟨rfl, rfl⟩ := List.cons.inj h
      cases hz
      exact ⟨k, ls, rfl, rfl⟩
  | key =>
    obtain ⟨k, ls, rfl, hb⟩ := h
    obtain ⟨rfl, rfl⟩ := List.cons.inj hb
    cases hz
    exact ⟨k, ls, rfl, rfl, rfl⟩
  | press j => cases hz
  | _ => exact h.elim

/-- At the end of the keys the server waits for a mode or dispatches the last. -/
theorem Decodes.of_nil {z : Zone} {ks : List JInt} (h : Decodes z [] ks) :
    z = .mode ∧ ks = [] ∨ ∃ j, z = .press j := by
  cases z with
  | mode =>
    cases ks with
    | nil => exact Or.inl ⟨rfl, rfl⟩
    | cons k ls => cases h
  | key => obtain ⟨_, _, _, h⟩ := h; cases h
  | press j => exact Or.inr ⟨j, rfl⟩
  | _ => exact h.elim

theorem Decodes.server {e : Env} {s t : Session} {bs : List Sent} {ks : List JInt}
    (h : Decodes s.zone bs ks) (hst : ServerStep e s t) :
    (∃ b, s.c2s = b :: t.c2s ∧ s.zone.next b.val = some t.zone ∧
      replies t.s2c = replies s.s2c ∧ t.memory.keys = s.memory.keys) ∨
    (t.c2s = s.c2s ∧ replies t.s2c = replies s.s2c ∧ ∃ ls,
      Decodes t.zone bs ls ∧
        t.memory.keys ++ ls.map wireKey = s.memory.keys ++ ks.map wireKey) := by
  rcases hst with ⟨b, hc, hz, hr, hk⟩ | ⟨b, hz, hc, hr, hk⟩ | ⟨js, hz, hc, hr, hk⟩
  · exact Or.inl ⟨b, hc, hz, hr, hk⟩
  · cases hs : s.zone with
    | mode | key | press =>
      rw [hs] at h hz
      exact hz.elim
    | _ =>
      rw [hs] at h hz
      exact h.elim
  · refine Or.inr ⟨hc, hr, ?_⟩
    rcases hz with ⟨rfl, hz⟩ | hz
    · exact ⟨ks, by rwa [hz], by rw [hk, List.append_nil]⟩
    · cases hs : s.zone with
      | press j =>
        rw [hs] at h hz
        obtain ⟨k, ls, rfl, rfl, rfl⟩ := h
        obtain ⟨rfl, hz⟩ := hz
        exact ⟨ls, by rw [hz]; exact rfl, by simp [hk]⟩
      | mode => rw [hs] at hz; exact hz.elim
      | key => rw [hs] at hz; exact hz.elim
      | _ => rw [hs] at h; exact h.elim

/-! ### The phases of a session -/

/-- What is on its way to the server, the queue of the `InputThread` included. -/
def transit (s : Session) : List Sent :=
  s.c2s ++ s.input ++ s.client.inputQueue.flatMap InputMsg.bytes

theorem stepInput_transit {s t : Session} (h : s.stepInput = some t) :
    t.transit = s.transit := by
  unfold stepInput at h
  cases hi : s.input with
  | cons b bs =>
    simp only [hi, Option.some.injEq] at h
    subst h
    simp [transit, hi]
  | nil =>
    cases hq : s.client.inputQueue with
    | nil => simp [hi, hq] at h
    | cons msg msgs =>
      simp only [hi, hq, Option.some.injEq] at h
      subst h
      simp [transit, hi, hq]

theorem transit_post (s : Session) {t : Session} (msg : InputMsg)
    (hcl : t.client = s.client.postInput msg) (hi : t.input = s.input) (hc : t.c2s = s.c2s) :
    t.transit = s.transit ++ msg.bytes := by
  simp [transit, hcl, hi, hc, Client.Memory.postInput]

/-- The `InputThread` has nothing to write. -/
structure InputIdle (s : Session) : Prop where
  input : s.input = []
  inputQueue : s.client.inputQueue = []

theorem InputMsg.bytes_ne_nil (msg : InputMsg) : msg.bytes ≠ [] := by
  cases msg with
  | _ => simp [Client.InputMsg.bytes]

theorem transit_eq_nil {s : Session} (h : s.transit = []) : s.c2s = [] ∧ s.InputIdle := by
  simp only [transit, List.append_eq_nil_iff, List.flatMap_eq_nil_iff] at h
  obtain ⟨⟨hc, hi⟩, hq⟩ := h
  exact ⟨hc, hi, List.eq_nil_iff_forall_not_mem.mpr
    (fun msg hmsg => InputMsg.bytes_ne_nil msg (hq msg hmsg))⟩

theorem InputIdle.transit {s : Session} (h : s.InputIdle) : s.transit = s.c2s := by
  simp [Session.transit, h.input, h.inputQueue]

/-- The message `exit()` posts, on the wire. -/
def exitByte : Sent := ⟨modeExit, .exit⟩

/-- Where a session stands. -/
inductive Phase (strict good : Prop) (s : Session) : Prop
  /-- Not yet in the input mode. -/
  | before (hcm : s.client.currModule = .exit) (hposted : s.client.posted = [])
      (hin : s.InputIdle) (hui : s.client.uiModule ≠ .input)
      (huq : .input ∉ s.client.uiQueue) (hk : s.memory.keys = []) (ht : Talk good s)
  /-- In the input mode, before `exit()`. -/
  | window (ks : List JInt)
      (hm : s.module = .inputDone ∨ (s.module = .idle ∨ s.module = .exit) ∧
        s.client.currModule = .input)
      (hposted : .exit ∉ s.client.posted) (hr : replies s.s2c = [])
      (hd : Decodes s.zone s.transit ks)
      (hk : s.memory.keys ++ ks.map wireKey = s.client.keys.map wireKey)
  /-- `exit()` is posted, the exit byte not yet read. -/
  | exiting (ks : List JInt) (bs : List Sent) (hm : s.module = .exitWait)
      (hcm : s.client.currModule = .input) (hposted : .exit ∈ s.client.posted)
      (hr : replies s.s2c = []) (hb : s.transit = bs ++ [exitByte]) (hd : Decodes s.zone bs ks)
      (hk : s.memory.keys ++ ks.map wireKey = s.client.keys.map wireKey)
  /-- The exit byte is read, its `ACK` not yet. -/
  | leaving (hm : s.module = .exitWait) (hcm : s.client.currModule = .input)
      (hposted : .exit ∈ s.client.posted) (hin : s.InputIdle) (hc : s.c2s = [])
      (hz : s.zone = .inputLeave ∧ replies s.s2c = [] ∨ s.zone = .loop ∧ replies s.s2c = [ack])
      (hk : s.memory.keys = s.client.keys.map wireKey)
  /-- The input mode is left. -/
  | after (hcm : s.client.currModule = .input) (hposted : .exit ∈ s.client.posted)
      (hin : s.InputIdle) (hk : s.memory.keys = s.client.keys.map wireKey) (ht : Talk good s)
  /-- A second `exit()`, to a server that is not in the input mode. -/
  | again (hstrict : ¬ strict) (hcm : s.client.currModule = .input)
      (hposted : .exit ∈ s.client.posted) (hr : replies s.s2c = [])
      (hk : s.memory.keys = s.client.keys.map wireKey)
      (hm : s.module = .exit ∧ s.transit = [] ∧ s.Quiet ∨
        s.module = .exitWait ∧ (s.transit = [exitByte] ∧ s.Quiet ∨ s.transit = [] ∧ s.Deaf))
  /-- The server hangs up. -/
  | closed (hz : s.zone = .exitAck ∧ ¬ strict ∨ s.zone = .closed ∧ (¬ strict ∨ ¬ good))
      (hk : s.memory.keys <+: s.client.keys.map wireKey)

/-- **The invariant of a session.** -/
structure Inv (strict good : Prop) (s : Session) : Prop where
  sound : s.Sound
  phase : Phase strict good s

theorem Inv.init (strict good : Prop) : Inv strict good {} :=
  ⟨⟨rfl, rfl, (fun p h => by cases h), Or.inr List.not_mem_nil⟩,
    .before rfl rfl ⟨rfl, rfl⟩ (by decide) (by decide) rfl
      (.rest (Or.inl rfl) rfl rfl (Or.inl rfl))⟩

section Phase

variable {strict good : Prop} {s t : Session}

/-! ### The server -/

theorem transit_of_take {b : Sent} (hc : s.c2s = b :: t.c2s) (hcl : SameClient s t) :
    s.transit = b :: t.transit := by
  simp [transit, hc, hcl.input, hcl.client]

theorem transit_of_same (hc : t.c2s = s.c2s) (hcl : SameClient s t) : t.transit = s.transit := by
  simp [transit, hc, hcl.input, hcl.client]

theorem InputIdle.of_client (h : s.InputIdle) (hcl : SameClient s t) : t.InputIdle :=
  ⟨hcl.input.trans h.input, by rw [hcl.client]; exact h.inputQueue⟩

theorem Phase.server {e : Env} (hgood : good → (e.sockets && e.bitmap) = true)
    (h : Phase strict good s) (hst : ServerStep e s t) (hcl : SameClient s t) :
    Phase strict good t := by
  obtain ⟨hclient, hmodule, hinput⟩ := id hcl
  cases h with
  | before hcm hposted hin hui huq hk ht =>
    rw [← hclient] at hcm hposted hui huq
    obtain ⟨ht' | ⟨hz, hng⟩, hk'⟩ := ht.server hgood hst hcl
    · exact .before hcm hposted (hin.of_client hcl) hui huq (hk'.trans hk) ht'
    · exact .closed (Or.inr ⟨hz, Or.inr hng⟩) (by rw [hk', hk]; exact List.nil_prefix)
  | window ks hm hposted hr hd hk =>
    rw [← hclient] at hm hposted hk
    rw [← hmodule] at hm
    rcases hd.server hst with ⟨b, hc, hz, hr', hk'⟩ | ⟨hc, hr', ls, hd', hk'⟩
    · rw [transit_of_take hc hcl] at hd
      exact .window ks hm hposted (hr'.trans hr) (hd.next hz) (by rwa [hk'])
    · rw [← transit_of_same hc hcl] at hd'
      exact .window ls hm hposted (hr'.trans hr) hd' (hk'.trans hk)
  | exiting ks bs hm hcm hposted hr hb hd hk =>
    rw [← hclient] at hcm hposted hk
    rw [← hmodule] at hm
    rcases hd.server hst with ⟨b, hc, hz, hr', hk'⟩ | ⟨hc, hr', ls, hd', hk'⟩
    · rw [transit_of_take hc hcl] at hb
      cases bs with
      | cons b' bs =>
        rw [List.cons_append, List.cons.injEq] at hb
        obtain ⟨rfl, hb⟩ := hb
        exact .exiting ks bs hm hcm hposted (hr'.trans hr) hb (hd.next hz) (by rwa [hk'])
      | nil =>
        -- the exit byte itself: the server has dispatched every key
        rw [List.nil_append, List.cons.injEq] at hb
        obtain ⟨rfl, hb⟩ := hb
        obtain ⟨hc', hin⟩ := transit_eq_nil hb
        rcases hd.of_nil with ⟨hz', rfl⟩ | ⟨j, hz'⟩
        · rw [hz'] at hz
          rw [List.map_nil, List.append_nil] at hk
          exact .leaving hm hcm hposted hin hc' (Or.inl ⟨(Option.some.inj hz).symm, hr'.trans hr⟩)
            (hk'.trans hk)
        · rw [hz'] at hz
          cases hz
    · rw [← transit_of_same hc hcl] at hb
      exact .exiting ls bs hm hcm hposted (hr'.trans hr) hb hd' (hk'.trans hk)
  | leaving hm hcm hposted hin hc hz hk =>
    rw [← hclient] at hcm hposted hk
    rw [← hmodule] at hm
    have hin' := hin.of_client hcl
    rcases hz with ⟨hz, hr⟩ | ⟨hz, hr⟩
    · rcases hst.of_ack (Or.inr (Or.inl hz)) with ⟨hsame, hz'⟩ | ⟨hc', hz', hr', hk'⟩
      · exact .leaving hm hcm hposted hin' (hsame.c2s.trans hc)
          (Or.inl ⟨hz'.trans hz, hsame.replies.trans hr⟩) (hsame.keys.trans hk)
      · rw [hz] at hz'
        exact .leaving hm hcm hposted hin' (hc'.trans hc) (Or.inr ⟨hz'.2, by rw [hr', hr]; rfl⟩)
          (hk'.trans hk)
    · obtain ⟨hsame, hz'⟩ := hst.of_waiting_same (by rw [hz]; rfl) (by simp [hz]) hc
      exact .leaving hm hcm hposted hin' (hsame.c2s.trans hc)
        (Or.inr ⟨hz'.trans hz, hsame.replies.trans hr⟩) (hsame.keys.trans hk)
  | after hcm hposted hin hk ht =>
    rw [← hclient] at hcm hposted hk
    obtain ⟨ht' | ⟨hz, hng⟩, hk'⟩ := ht.server hgood hst hcl
    · exact .after hcm hposted (hin.of_client hcl) (hk'.trans hk) ht'
    · exact .closed (Or.inr ⟨hz, Or.inr hng⟩) (hk'.trans hk ▸ List.prefix_rfl)
  | again hstrict hcm hposted hr hk hm =>
    rw [← hclient] at hcm hposted hk
    rw [← hmodule] at hm
    have hframe : t.client.frame = s.client.frame := by rw [hclient]
    rcases hm with ⟨hm, ht, hq⟩ | ⟨hm, ⟨ht, hq⟩ | ⟨ht, hq⟩⟩
    · obtain ⟨hsame, hz'⟩ := hst.of_waiting_nil hq.waits (transit_eq_nil ht).1
      exact .again hstrict hcm hposted (hsame.replies.trans hr) (hsame.keys.trans hk)
        (Or.inl ⟨hm, (transit_of_same hsame.c2s hcl).trans ht, hq.of_zone hframe hz'⟩)
    · rcases hst.of_waiting hq.waits with ⟨hsame, hz'⟩ | ⟨b, hc, hz', hr', hk'⟩
      · exact .again hstrict hcm hposted (hsame.replies.trans hr) (hsame.keys.trans hk)
          (Or.inr ⟨hm, Or.inl ⟨(transit_of_same hsame.c2s hcl).trans ht, hq.of_zone hframe hz'⟩⟩)
      · rw [transit_of_take hc hcl, List.cons.injEq] at ht
        obtain ⟨rfl, ht⟩ := ht
        have hdeaf : t.Deaf → Phase strict good t := fun hd =>
          .again hstrict hcm hposted (hr'.trans hr) (hk'.trans hk) (Or.inr ⟨hm, Or.inr ⟨ht, hd⟩⟩)
        rcases hq with hq | ⟨_, hq | hq⟩
        · rw [hq] at hz'
          exact .closed (Or.inl ⟨(Option.some.inj hz').symm, hstrict⟩)
            (hk'.trans hk ▸ List.prefix_rfl)
        · rw [hq] at hz'
          exact hdeaf (Or.inr (Or.inl (Option.some.inj hz').symm))
        · rw [hq] at hz'
          exact hdeaf (Or.inr (Or.inr ⟨_, by simp, (Option.some.inj hz').symm⟩))
    · obtain ⟨hsame, hz'⟩ := hst.of_waiting_nil hq.waits (transit_eq_nil ht).1
      exact .again hstrict hcm hposted (hsame.replies.trans hr) (hsame.keys.trans hk)
        (Or.inr ⟨hm, Or.inr ⟨(transit_of_same hsame.c2s hcl).trans ht, hq.of_zone hz'⟩⟩)
  | closed hz hk =>
    rw [← hclient] at hk
    rcases hst with ⟨b, hc, hz', hr', hk'⟩ | ⟨b, hz', hc, hr', hk'⟩ | ⟨js, hz', hc, hr', hk'⟩
    · rcases hz with ⟨hz, _⟩ | ⟨hz, _⟩
      · rw [hz] at hz'
        cases hz'
      · rw [hz] at hz'
        cases hz'
    · rcases hz with ⟨hz, hs⟩ | ⟨hz, _⟩
      · rw [hz] at hz'
        exact .closed (Or.inr ⟨hz'.2, Or.inl hs⟩) (by rwa [hk'])
      · rw [hz] at hz'
        exact hz'.elim
    · have hstay : js = [] ∧ t.zone = s.zone := by
        rcases hz' with hz' | hz'
        · exact hz'
        · rcases hz with ⟨hz, _⟩ | ⟨hz, _⟩
          · rw [hz] at hz'
            exact hz'.elim
          · rw [hz] at hz'
            exact hz'.elim
      exact .closed (by rwa [hstay.2]) (by rwa [hk', hstay.1, List.append_nil])

theorem Talk.not_closed (h : Talk good s) : s.zone ≠ .closed ∧ s.zone ≠ .exitAck := by
  have hwaits : s.zone.waits = true → s.zone ≠ .closed ∧ s.zone ≠ .exitAck := by
    intro hw
    constructor
    · intro hz
      rw [hz] at hw
      cases hw
    · intro hz
      rw [hz] at hw
      cases hw
  cases h with
  | rest _ _ _ hz => exact hwaits hz.waits
  | asked _ _ _ _ hz => exact hwaits hz.waits
  | swallowed _ _ _ hz => exact hwaits hz.waits
  | served _ _ _ _ _ hz =>
    rcases hz with hz | hz
    · simp [hz]
    · simp [hz]
  | dead _ _ hz =>
    rcases hz with hz | hz | ⟨_, hz⟩
    all_goals simp [hz]
  | _ => simp_all

/-- Only in the phase `closed` does the server leave its loop. -/
theorem Phase.of_not_reading (h : Phase strict good s)
    (hz : s.zone = .closed ∨ s.zone = .exitAck) :
    (s.zone = .exitAck ∧ ¬ strict ∨ s.zone = .closed ∧ (¬ strict ∨ ¬ good)) ∧
      s.memory.keys <+: s.client.keys.map wireKey := by
  have htalk : ¬ Talk good s := by
    intro ht
    rcases hz with hz | hz
    · exact ht.not_closed.1 hz
    · exact ht.not_closed.2 hz
  have hdecodes : ∀ bs ks, ¬ Decodes s.zone bs ks := by
    intro bs ks hd
    rcases hz with hz | hz
    · rw [hz] at hd
      exact hd.elim
    · rw [hz] at hd
      exact hd.elim
  cases h with
  | before _ _ _ _ _ _ ht => exact absurd ht htalk
  | window ks _ _ _ hd => exact absurd hd (hdecodes _ ks)
  | exiting ks bs _ _ _ _ _ hd => exact absurd hd (hdecodes bs ks)
  | leaving _ _ _ _ _ hz' =>
    rcases hz' with ⟨hz', _⟩ | ⟨hz', _⟩
    · rw [hz'] at hz
      simp at hz
    · rw [hz'] at hz
      simp at hz
  | after _ _ _ _ ht => exact absurd ht htalk
  | again _ _ _ _ _ hm =>
    have hw : s.zone.waits = true := by
      rcases hm with ⟨_, _, hq⟩ | ⟨_, ⟨_, hq⟩ | ⟨_, hq⟩⟩
      · exact hq.waits
      · exact hq.waits
      · exact hq.waits
    rcases hz with hz | hz
    · rw [hz] at hw
      cases hw
    · rw [hz] at hw
      cases hw
  | closed hz' hk => exact ⟨hz', hk⟩

theorem Phase.serverTimeout (h : Phase strict good s) (hst : TimeoutStep s t)
    (hcl : SameClient s t) : Phase strict good t := by
  obtain ⟨hclient, hmodule, hinput⟩ := id hcl
  have hr : replies t.s2c = replies s.s2c := by rw [hst.s2c]
  have htr : t.transit = s.transit := transit_of_same hst.c2s hcl
  have hk : t.memory.keys = s.memory.keys := by rw [hst.memory]
  have hframe : t.client.frame = s.client.frame := by rw [hclient]
  have hdecodes : ∀ {bs ks}, Decodes s.zone bs ks → Decodes t.zone bs ks := by
    intro bs ks hd
    rw [hst.zone]
    cases hz : s.zone with
    | _ =>
      rw [hz] at hd
      exact hd
  have hquiet : s.Quiet → t.Quiet := by
    intro hq
    refine hq.of_zone hframe (Or.inl ?_)
    rw [hst.zone]
    rcases hq with hq | ⟨_, hq | hq⟩
    all_goals
      rw [hq]
      rfl
  cases h with
  | before hcm hposted hin hui huq hk' ht =>
    exact .before (by rwa [hclient]) (by rwa [hclient]) (hin.of_client hcl) (by rwa [hclient])
      (by rwa [hclient]) (hk.trans hk') (ht.serverTimeout hst hcl)
  | window ks hm hposted hr' hd hk' =>
    exact .window ks (by rwa [hmodule, hclient]) (by rwa [hclient]) (hr.trans hr')
      (by rw [htr]; exact hdecodes hd) (by rwa [hk, hclient])
  | exiting ks bs hm hcm hposted hr' hb hd hk' =>
    exact .exiting ks bs (by rwa [hmodule]) (by rwa [hclient]) (by rwa [hclient]) (hr.trans hr')
      (htr.trans hb) (hdecodes hd) (by rwa [hk, hclient])
  | leaving hm hcm hposted hin hc hz hk' =>
    refine .leaving (by rwa [hmodule]) (by rwa [hclient]) (by rwa [hclient]) (hin.of_client hcl)
      (hst.c2s.trans hc) ?_ (by rwa [hk, hclient])
    rw [hst.zone, hr]
    rcases hz with ⟨hz, hr'⟩ | ⟨hz, hr'⟩
    · rw [hz]
      exact Or.inl ⟨rfl, hr'⟩
    · rw [hz]
      exact Or.inr ⟨rfl, hr'⟩
  | after hcm hposted hin hk' ht =>
    exact .after (by rwa [hclient]) (by rwa [hclient]) (hin.of_client hcl) (by rwa [hk, hclient])
      (ht.serverTimeout hst hcl)
  | again hstrict hcm hposted hr' hk' hm =>
    refine .again hstrict (by rwa [hclient]) (by rwa [hclient]) (hr.trans hr')
      (by rwa [hk, hclient]) ?_
    rw [hmodule, htr]
    rcases hm with ⟨hm, ht, hq⟩ | ⟨hm, ⟨ht, hq⟩ | ⟨ht, hq⟩⟩
    · exact Or.inl ⟨hm, ht, hquiet hq⟩
    · exact Or.inr ⟨hm, Or.inl ⟨ht, hquiet hq⟩⟩
    · refine Or.inr ⟨hm, Or.inr ⟨ht, ?_⟩⟩
      unfold Deaf
      rw [hst.zone]
      rcases hq with hq | hq | ⟨bs, _, hq⟩
      · rw [hq]
        exact Or.inl rfl
      · rw [hq]
        exact Or.inr (Or.inl rfl)
      · rw [hq]
        exact Or.inr (Or.inr ⟨[], Nat.zero_le 1, rfl⟩)
  | closed hz hk' =>
    refine .closed ?_ (by rwa [hk, hclient])
    rw [hst.zone]
    rcases hz with ⟨hz, hs⟩ | ⟨hz, hs⟩
    · rw [hz]
      exact Or.inl ⟨rfl, hs⟩
    · rw [hz]
      exact Or.inr ⟨rfl, hs⟩

/-! ### The `ModuleThread` -/

/-- A `MODULE_FRAME` request is taken in the input mode though `exit()` was sent
before. -/
def RepeatedExit (s : Session) : Prop :=
  s.module = .idle ∧ s.client.currModule = .input ∧ .frame ∈ s.client.requests.head? ∧
    .exit ∈ s.client.posted

/-- **The `ModuleThread` keeps the phase**, if it reads no timeout as an answer. -/
theorem Phase.module {e : Client.Env} (h : Phase strict good s) (hu : s.TimeoutUnread)
    (hstrict : strict → ¬ s.RepeatedExit) (hgood : good → validPort e.port = true)
    (hst : s.stepModule e = some t) : Phase strict good t := by
  obtain ⟨hserver, hmemory, hinput⟩ := stepModule_server hst
  have hzone : t.zone = s.zone := by rw [zone, hserver]; rfl
  have hkeys := stepModule_keys hst
  -- in `exitWait` nothing but a reply is read
  have hwait : s.module = .exitWait → replies s.s2c = [] → False := by
    intro hm hr
    obtain ⟨b, rest, hr', _⟩ := stepModule_reply (by rw [hm]; rfl) hu (by simp [hm]) hst
    rw [hr] at hr'
    cases hr'
  cases h with
  | before hcm hposted hin hui huq hk ht =>
    have hbefore : SameInput s t → Talk good t → Phase strict good t := by
      intro hsi ht
      refine .before (hsi.currModule.trans hcm) (hsi.posted.trans hposted)
        ⟨hinput.trans hin.input, hsi.inputQueue.trans hin.inputQueue⟩ (by rwa [hsi.uiModule]) ?_
        (by rwa [hmemory]) ht
      rcases hsi.uiQueue with hq | hq
      · rw [hq]
        exact huq
      · rw [hq]
        simpa using huq
    by_cases hidle : s.module = .idle
    · obtain ⟨hsi, _, _, _, ht' | ⟨_, hcm', _⟩⟩ := ht.request hidle (by rw [hcm]; decide) hst
      · exact hbefore hsi ht'
      · rw [hcm] at hcm'; cases hcm'
    · obtain ⟨hsi, ht' | ⟨hm, _, hc, hr, hz⟩⟩ := ht.module hgood hidle hu hst
      · exact hbefore hsi ht'
      · have hin' : t.InputIdle := ⟨hinput.trans hin.input, hsi.inputQueue.trans hin.inputQueue⟩
        refine .window [] (Or.inl hm) (by rw [hsi.posted, hposted]; exact List.not_mem_nil) hr ?_ ?_
        · rw [hz, hin'.transit, hc]
          exact rfl
        · simp [Client.Memory.keys, hsi.posted, hposted, hmemory, hk]
  | window ks hm hposted hr hd hk =>
    rcases hm with hm | ⟨hm | hm, hcm⟩
    · obtain ⟨m, pc, hf, rfl⟩ := stepModule_act (by rw [hm]; rfl) hst
      cases hf
      exact .window ks (Or.inr ⟨Or.inl rfl, rfl⟩) hposted hr hd hk
    · obtain ⟨m, pc, hf, rfl⟩ := stepModule_act (by rw [hm]; rfl) hst
      cases hreq : s.client.requests with
      | nil => simp [hreq] at hf
      | cons request requests =>
        simp only [hreq, hcm, Option.some.injEq, Prod.mk.injEq] at hf
        obtain ⟨rfl, rfl⟩ := hf
        have hpc : ModulePc.ofRequest request .input = .idle ∨
            ModulePc.ofRequest request .input = .exit := by
          cases request with
          | _ => simp [ModulePc.ofRequest]
        exact .window ks (Or.inr ⟨hpc, rfl⟩) hposted hr hd hk
    · obtain ⟨m, pc, hf, rfl⟩ := stepModule_act (by rw [hm]; rfl) hst
      cases hf
      exact .exiting ks s.transit rfl hcm (List.mem_append_right _ List.mem_cons_self) hr
        (transit_post s .exit rfl rfl rfl) hd (by rwa [hkeys])
  | exiting ks bs hm hcm hposted hr hb hd hk => exact (hwait hm hr).elim
  | leaving hm hcm hposted hin hc hz hk =>
    rcases hz with ⟨_, hr⟩ | ⟨hz, hr⟩
    · exact (hwait hm hr).elim
    · obtain ⟨b, rest, hr', rfl⟩ := stepModule_reply (by rw [hm]; rfl) hu (by simp [hm]) hst
      rw [hr, List.cons.injEq] at hr'
      obtain ⟨rfl, hr'⟩ := hr'
      exact .after hcm hposted ⟨hin.input, hin.inputQueue⟩ hk
        (.rest (Or.inr (Or.inl rfl)) hc hr'.symm (Or.inl hz))
  | after hcm hposted hin hk ht =>
    have hafter : SameInput s t → Talk good t → Phase strict good t := fun hsi ht =>
      .after (hsi.currModule.trans hcm) (by rwa [hsi.posted])
        ⟨hinput.trans hin.input, hsi.inputQueue.trans hin.inputQueue⟩ (by rwa [hmemory, hkeys]) ht
    by_cases hidle : s.module = .idle
    · obtain ⟨hsi, hc, hs, hf, ht' | ⟨hm, _, hreq⟩⟩ := ht.request hidle (by rw [hcm]; decide) hst
      · exact hafter hsi ht'
      · obtain ⟨hc', hr, hq⟩ := ht.of_resting (Or.inl hidle)
        have hin' : t.InputIdle := ⟨hinput.trans hin.input, hsi.inputQueue.trans hin.inputQueue⟩
        exact .again (fun hs => hstrict hs ⟨hidle, hcm, hreq, hposted⟩) (hsi.currModule.trans hcm)
          (by rwa [hsi.posted]) (by rwa [hs]) (by rwa [hmemory, hkeys])
          (Or.inl ⟨hm, by rw [hin'.transit, hc, hc'], hq.of_zone hf (Or.inl hzone)⟩)
    · obtain ⟨hsi, ht' | ⟨_, hcm', _⟩⟩ := ht.module hgood hidle hu hst
      · exact hafter hsi ht'
      · rw [hcm] at hcm'; cases hcm'
  | again hns hcm hposted hr hk hm =>
    rcases hm with ⟨hm, htr, hq⟩ | ⟨hm, _⟩
    · obtain ⟨m, pc, hf, rfl⟩ := stepModule_act (by rw [hm]; rfl) hst
      cases hf
      have hpost : ∀ {t : Session}, t.client = s.client.postInput .exit → t.input = s.input →
          t.c2s = s.c2s → t.transit = [exitByte] :=
        fun hcl hi hc => by rw [transit_post s .exit hcl hi hc, htr]; rfl
      exact .again hns hcm (List.mem_append_left _ hposted) hr (by rwa [hkeys])
        (Or.inr ⟨rfl, Or.inl ⟨hpost rfl rfl rfl, hq⟩⟩)
    · exact (hwait hm hr).elim
  | closed hz hk => exact .closed (by rwa [hzone]) (by rwa [hmemory, hkeys])

/-! ### The `InputThread` and the UI thread -/

/-- **The `InputThread` keeps the phase**: it moves bytes that are in transit
already. -/
theorem Phase.input (h : Phase strict good s) (hst : s.stepInput = some t) :
    Phase strict good t := by
  have htr := stepInput_transit hst
  have hidle : ¬ s.InputIdle := by
    intro hin
    simp [stepInput, hin.input, hin.inputQueue] at hst
  have hsame : t.module = s.module ∧ t.s2c = s.s2c ∧ t.server = s.server ∧
      t.memory = s.memory ∧ t.client.currModule = s.client.currModule ∧
      t.client.posted = s.client.posted ∧ t.client.frame = s.client.frame := by
    unfold stepInput at hst
    split at hst
    · cases hst
      exact ⟨rfl, rfl, rfl, rfl, rfl, rfl, rfl⟩
    · cases hst
      exact ⟨rfl, rfl, rfl, rfl, rfl, rfl, rfl⟩
    · cases hst
  obtain ⟨hmodule, hs2c, hserver, hmemory, hcurr, hpost, hframe⟩ := hsame
  have hzone : t.zone = s.zone := by rw [zone, hserver]; rfl
  have hkeys : t.client.keys = s.client.keys := by rw [Client.Memory.keys, hpost]; rfl
  cases h with
  | before _ _ hin => exact absurd hin hidle
  | window ks hm hposted hr hd hk =>
    exact .window ks (by rwa [hmodule, hcurr]) (by rwa [hpost]) (by rwa [hs2c])
      (by rwa [hzone, htr]) (by rwa [hmemory, hkeys])
  | exiting ks bs hm hcm hposted hr hb hd hk =>
    exact .exiting ks bs (by rwa [hmodule]) (by rwa [hcurr]) (by rwa [hpost]) (by rwa [hs2c])
      (by rwa [htr]) (by rwa [hzone]) (by rwa [hmemory, hkeys])
  | leaving _ _ _ hin => exact absurd hin hidle
  | after _ _ hin => exact absurd hin hidle
  | again hns hcm hposted hr hk hm =>
    refine .again hns (by rwa [hcurr]) (by rwa [hpost]) (by rwa [hs2c]) (by rwa [hmemory, hkeys]) ?_
    rw [hmodule, htr]
    have hquiet : s.Quiet → t.Quiet := fun hq => hq.of_zone hframe (Or.inl hzone)
    have hdeaf : s.Deaf → t.Deaf := fun hq => hq.of_zone (Or.inl hzone)
    exact hm.imp (fun h => ⟨h.1, h.2.1, hquiet h.2.2⟩) (fun h => ⟨h.1, h.2.imp
      (fun h => ⟨h.1, hquiet h.2⟩) (fun h => ⟨h.1, hdeaf h.2⟩)⟩)
  | closed hz hk => exact .closed (by rwa [hzone]) (by rwa [hmemory, hkeys])

/-- A change of the client's memory that leaves what the phase is about alone; the
datagrams do not matter. -/
theorem Phase.of_client (h : Phase strict good s) (m : Client.Memory) (ds : List Datagram)
    (hposted : m.posted = s.client.posted) (hqueue : m.inputQueue = s.client.inputQueue)
    (hcurr : m.currModule = s.client.currModule) (hframe : m.frame = s.client.frame)
    (hui : .input ∈ m.uiModule :: m.uiQueue → .input ∈ s.client.uiModule :: s.client.uiQueue) :
    Phase strict good { s with client := m, net := ds } := by
  have hkeys : m.keys = s.client.keys := by rw [Client.Memory.keys, hposted]; rfl
  have htr : { s with client := m, net := ds }.transit = s.transit := by simp [transit, hqueue]
  have hquiet : s.Quiet → { s with client := m, net := ds }.Quiet := fun hq =>
    hq.of_zone hframe (Or.inl rfl)
  cases h with
  | before hcm hp hin hu huq hk ht =>
    have hno : .input ∉ m.uiModule :: m.uiQueue := by
      intro hmem
      rcases List.mem_cons.mp (hui hmem) with hmem | hmem
      · exact hu hmem.symm
      · exact huq hmem
    exact .before (hcurr.trans hcm) (hposted.trans hp) ⟨hin.input, hqueue.trans hin.inputQueue⟩
      (fun he => hno (List.mem_cons.mpr (Or.inl he.symm)))
      (fun he => hno (List.mem_cons_of_mem _ he)) hk
      (ht.congr rfl hcurr hframe rfl rfl rfl)
  | window ks hm hp hr hd hk =>
    exact .window ks (by simpa [hcurr] using hm) (by simpa [hposted] using hp) hr
      (by rwa [htr]) (by simpa [hkeys] using hk)
  | exiting ks bs hm hcm hp hr hb hd hk =>
    exact .exiting ks bs hm (hcurr.trans hcm) (by simpa [hposted] using hp) hr (htr.trans hb) hd
      (by simpa [hkeys] using hk)
  | leaving hm hcm hp hin hc hz hk =>
    exact .leaving hm (hcurr.trans hcm) (by simpa [hposted] using hp)
      ⟨hin.input, hqueue.trans hin.inputQueue⟩ hc hz (by simpa [hkeys] using hk)
  | after hcm hp hin hk ht =>
    exact .after (hcurr.trans hcm) (by simpa [hposted] using hp)
      ⟨hin.input, hqueue.trans hin.inputQueue⟩ (by simpa [hkeys] using hk)
      (ht.congr rfl hcurr hframe rfl rfl rfl)
  | again hns hcm hp hr hk hm =>
    refine .again hns (hcurr.trans hcm) (by simpa [hposted] using hp) hr
      (by simpa [hkeys] using hk) ?_
    rw [htr]
    exact hm.imp (fun h => ⟨h.1, h.2.1, hquiet h.2.2⟩) (fun h => ⟨h.1, h.2.imp
      (fun h => ⟨h.1, hquiet h.2⟩) id⟩)
  | closed hz hk => exact .closed hz (by simpa [hkeys] using hk)

/-- **A key pressed before `exit()`** is behind the other keys. -/
theorem Phase.press {k : JInt} (h : Phase strict good s) (hui : s.client.uiModule = .input)
    (hexit : .exit ∉ s.client.posted) :
    Phase strict good { s with client := s.client.postInput (.key k) } := by
  have hkeys : (s.client.postInput (.key k)).keys = s.client.keys ++ [k] := by
    simp [Client.Memory.keys, Client.Memory.postInput, Client.InputMsg.key?]
  cases h with
  | before _ _ _ hui' => exact absurd hui hui'
  | window ks hm hposted hr hd hk =>
    refine .window (ks ++ [k]) hm (by simpa [Client.Memory.postInput] using hposted) hr ?_ ?_
    · have htr : { s with client := s.client.postInput (.key k) }.transit =
          s.transit ++ keyBytes [k] := transit_post s (.key k) rfl rfl rfl
      rw [htr]
      exact hd.append [k]
    · simp only [hkeys, List.map_append, ← hk, List.append_assoc]
  | exiting _ _ _ _ hposted => exact absurd hposted hexit
  | leaving _ _ hposted => exact absurd hposted hexit
  | after _ hposted => exact absurd hposted hexit
  | again _ _ hposted => exact absurd hposted hexit
  | closed hz hk =>
    refine .closed hz ?_
    simp only [hkeys, List.map_append]
    exact hk.trans (List.prefix_append _ _)

end Phase

/-! ### Every step -/

/-- The steps of the input and the frame mode that keep the invariant: no key
after `exit()`, and no timeout read as an answer. -/
def Allowed (strict good : Prop) : Label → Session → Prop
  | .switchModule _, _ => True
  | .sendInput _, s => .exit ∉ s.client.posted
  | .uiMessage, _ => True
  | .module e, s =>
    s.TimeoutUnread ∧ (strict → ¬ s.RepeatedExit) ∧ (good → validPort e.port = true)
  | .moduleEof, _ => True
  | .input, _ => True
  | .server e, _ => good → (e.sockets && e.bitmap) = true
  | .serverTimeout, _ => True
  | .lose, _ => True
  | _, _ => False

/-- The `ModuleThread` reads the end of the stream only after the server has closed
it. -/
theorem Phase.moduleEof {strict good : Prop} {s t : Session} (h : Inv strict good s)
    (hst : s.stepModuleEof = some t) : Phase strict good t ∧ t.server = s.server ∧
      t.memory = s.memory := by
  unfold stepModuleEof at hst
  split at hst
  · rename_i k hop
    split at hst
    · rename_i hclosed
      cases hst
      refine ⟨?_, rfl, rfl⟩
      have hz : s.zone = .closed := by
        rcases h.sound.opened with hz | hz
        · exact hz
        · exact absurd hclosed.2 hz
      obtain ⟨hz', hk⟩ := h.phase.of_not_reading (Or.inl hz)
      exact .closed hz' hk
    · cases hst
  · cases hst

theorem Inv.step {strict good : Prop} {s t : Session} {l : Label} (h : Inv strict good s)
    (hl : Allowed strict good l s) (hst : step l s = some t) : Inv strict good t := by
  cases l with
  | switchModule m =>
    simp only [Session.step] at hst
    split at hst
    · cases hst
      exact ⟨h.sound, h.phase.of_client _ s.net rfl rfl rfl rfl id⟩
    · cases hst
  | sendInput k =>
    simp only [Session.step, stepUi] at hst
    split at hst
    · split at hst
      · cases hst
        rename_i hui
        exact ⟨h.sound, h.phase.press hui hl⟩
      · cases hst
    · cases hst
  | uiMessage =>
    simp only [Session.step, stepUi] at hst
    split at hst
    · split at hst
      · cases hst
        rename_i m rest hq
        refine ⟨h.sound, h.phase.of_client _ s.net rfl rfl rfl rfl (fun hmem => ?_)⟩
        rw [hq]
        exact List.mem_cons_of_mem _ hmem
      · cases hst
    · cases hst
  | module e =>
    simp only [Session.step] at hst
    split at hst
    · cases hst
    · have hserver := stepModule_server hst
      refine ⟨?_, h.phase.module hl.1 hl.2.1 hl.2.2 hst⟩
      rw [Sound, hserver.server, hserver.memory]
      exact h.sound
  | moduleEof =>
    simp only [Session.step] at hst
    split at hst
    · cases hst
    · obtain ⟨hp, hs, hm⟩ := Phase.moduleEof h hst
      refine ⟨?_, hp⟩
      rw [Sound, hs, hm]
      exact h.sound
  | input =>
    simp only [Session.step] at hst
    split at hst
    · cases hst
    · refine ⟨?_, h.phase.input hst⟩
      have hsame : t.server = s.server ∧ t.memory = s.memory := by
        unfold stepInput at hst
        split at hst
        · cases hst
          exact ⟨rfl, rfl⟩
        · cases hst
          exact ⟨rfl, rfl⟩
        · cases hst
      rw [Sound, hsame.1, hsame.2]
      exact h.sound
  | server e =>
    obtain ⟨hsound, hstep⟩ := stepServer_zone h.sound hst
    exact ⟨hsound, h.phase.server hl hstep (stepServer_client hst)⟩
  | serverTimeout =>
    obtain ⟨hsound, htimeout, hcl⟩ := stepServerTimeout_zone h.sound hst
    exact ⟨hsound, h.phase.serverTimeout htimeout hcl⟩
  | lose =>
    simp only [Session.step] at hst
    split at hst
    · cases hst
      exact ⟨h.sound, h.phase.of_client s.client _ rfl rfl rfl rfl id⟩
    · cases hst
  | _ => exact hl.elim

end MikaAudio.Session
