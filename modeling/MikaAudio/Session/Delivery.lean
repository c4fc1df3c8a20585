import MikaAudio.Session.Safety

/-!
# No key is lost

What the `Phase` of a session says about the keys that are still to be dispatched.  They can be
read off the bytes on their way, as `listen` will decode them, and off the place where the server
stands (`inFlight`).

* `keys_conserved`: the keys dispatched, followed by those on their way, are the keys sent.
* `keys_delivered`: when only the `InputThread` and the `CommunicationTask` go on, in whatever
  order, they come to have dispatched all of them, and do not stop before.
-/

namespace MikaAudio.Session

open Thread Server Interleave
open Client (InputMsg Sent)

/-! ### The keys on their way -/

/-- The keys that `listen` gets out of bytes, from a mode byte on. -/
def keysOf : List Byte → List JInt
  | mode :: key :: bs => if mode = modeKey then inRead (some key) :: keysOf bs else []
  | _ => []

/-- The same from anywhere in `listen`. -/
def keysAhead : Zone → List Byte → List JInt
  | .mode, bs => keysOf bs
  | .key, key :: bs => inRead (some key) :: keysOf bs
  | .press key, bs => key :: keysOf bs
  | _, _ => []

/-- The keys that were sent and are not dispatched. -/
def inFlight (s : Session) : List JInt := keysAhead s.zone (s.transit.map Sent.val)

theorem keysOf_keyBytes (ks : List JInt) (bs : List Byte) :
    keysOf ((keyBytes ks).map Sent.val ++ bs) = ks.map wireKey ++ keysOf bs := by
  induction ks with
  | nil => rfl
  | cons k ks ih =>
    have hbytes : (keyBytes (k :: ks)).map Sent.val ++ bs =
        modeKey :: k.setWidth 8 :: ((keyBytes ks).map Sent.val ++ bs) := rfl
    rw [hbytes, keysOf, if_pos rfl, ih]
    rfl

theorem Decodes.ahead {z : Zone} {bs : List Sent} {ks : List JInt} (h : Decodes z bs ks)
    (rest : List Byte) (hrest : keysOf rest = []) :
    keysAhead z (bs.map Sent.val ++ rest) = ks.map wireKey := by
  have hkeys : ∀ ls, keysOf ((keyBytes ls).map Sent.val ++ rest) = ls.map wireKey := fun ls => by
    rw [keysOf_keyBytes, hrest, List.append_nil]
  cases z with
  | mode =>
    obtain rfl : bs = keyBytes ks := h
    exact hkeys ks
  | key =>
    obtain ⟨k, ls, rfl, rfl⟩ := h
    exact congrArg (wireKey k :: ·) (hkeys ls)
  | press j =>
    obtain ⟨k, ls, rfl, rfl, rfl⟩ := h
    exact congrArg (wireKey k :: ·) (hkeys ls)
  | _ => exact h.elim

/-- The server is in `listen`, at a key or before one. -/
def Zone.dispatches : Zone → Bool
  | .mode => true
  | .key => true
  | .press _ => true
  | _ => false

theorem keysAhead_of_not {z : Zone} (h : Zone.dispatches z = false) (bs : List Byte) :
    keysAhead z bs = [] := by
  cases z with
  | mode | key | press => cases h
  | _ => rfl

variable {s t : Session}

theorem dispatches_of_inFlight (h : s.inFlight ≠ []) : Zone.dispatches s.zone = true :=
  Bool.eq_true_of_not_eq_false fun hz => h (keysAhead_of_not hz _)

/-- While the client and the server talk about the modes, no key is on its way. -/
theorem Talk.inFlight {good : Prop} (h : Talk good s) (hin : s.InputIdle) : s.inFlight = [] := by
  have hwaits : ∀ {z : Zone}, z = .loop ∨ z = .busy ∨ (∃ bs, z = .port bs) →
      Zone.dispatches z = false := by
    rintro z (rfl | rfl | ⟨bs, rfl⟩)
    all_goals rfl
  rw [Session.inFlight, hin.transit]
  cases h with
  | inputAcked _ hc _ hz => rw [hz, hc]; rfl
  | rest _ _ _ hz | asked _ _ _ _ hz =>
    refine keysAhead_of_not (hwaits ?_) _
    rcases hz with hz | ⟨-, hz | hz⟩
    · exact .inl hz
    · exact .inr (.inl hz)
    · exact .inr (.inr ⟨[], hz⟩)
  | swallowed _ _ _ hz =>
    refine keysAhead_of_not (hwaits ?_) _
    rcases hz with hz | hz | ⟨bs, -, hz⟩
    · exact .inl hz
    · exact .inr (.inl hz)
    · exact .inr (.inr ⟨bs, hz⟩)
  | served _ _ _ _ _ hz =>
    rcases hz with hz | hz
    · exact keysAhead_of_not (by rw [hz]; rfl) _
    · exact keysAhead_of_not (by rw [hz]; rfl) _
  | dead _ _ hz =>
    rcases hz with hz | hz | ⟨_, hz⟩
    all_goals exact keysAhead_of_not (by rw [hz]; rfl) _
  | inputOpen _ _ _ hz | frameOpen _ _ _ hz | frameAcked _ _ _ hz | initTest _ _ _ hz
  | initSocket _ _ _ _ hz | portOut _ _ _ _ _ _ _ _ _ _ hz | ported _ _ _ _ _ _ hz
  | serving _ _ _ _ _ _ hz => exact keysAhead_of_not (by rw [hz]; rfl) _

/-- **Nothing is lost** in any phase but the last. -/
theorem Phase.conserved {strict good : Prop} (h : Phase strict good s)
    (hz : s.zone ≠ .exitAck ∧ s.zone ≠ .closed) :
    s.memory.keys ++ s.inFlight = s.client.keys.map wireKey := by
  have hnone : s.inFlight = [] → s.memory.keys = s.client.keys.map wireKey →
      s.memory.keys ++ s.inFlight = s.client.keys.map wireKey := by
    intro hf hk
    rw [hf, List.append_nil, hk]
  cases h with
  | before hcm hposted hin hui huq hk ht =>
    refine hnone (ht.inFlight hin) ?_
    rw [hk, Client.Memory.keys, hposted]
    rfl
  | window ks _ _ _ hd hk =>
    have hahead := hd.ahead [] rfl
    rw [List.append_nil] at hahead
    rw [inFlight, hahead, hk]
  | exiting ks bs _ _ _ _ hb hd hk =>
    have hahead := hd.ahead [modeExit] rfl
    rw [inFlight, hb, List.map_append, show [exitByte].map Sent.val = [modeExit] from rfl,
      hahead, hk]
  | leaving _ _ _ _ _ hz' hk =>
    refine hnone (keysAhead_of_not ?_ _) hk
    rcases hz' with ⟨hz', -⟩ | ⟨hz', -⟩
    · rw [hz']
      rfl
    · rw [hz']
      rfl
  | after _ _ hin hk ht => exact hnone (ht.inFlight hin) hk
  | again _ _ _ _ hk hm =>
    refine hnone (keysAhead_of_not ?_ _) hk
    rcases hm with ⟨-, -, hq | ⟨-, hq | hq⟩⟩ |
      ⟨-, ⟨-, hq | ⟨-, hq | hq⟩⟩ | ⟨-, hq | hq | ⟨_, -, hq⟩⟩⟩
    all_goals
      rw [hq]
      rfl
  | closed hz' _ =>
    rcases hz' with ⟨hz', -⟩ | ⟨hz', -⟩
    · exact absurd hz' hz.1
    · exact absurd hz' hz.2

/-- **No key is lost**, as long as the server has not hung up: those dispatched and those on
their way are the keys sent, each as it arrives (`wireKey`), in order. -/
theorem keys_conserved
    (h : Reach step (fun l s => (InputLabel l ∧ Answered l) ∧ TimeoutSkipped l s ∧
      PressBeforeExit l s) {} s)
    (hz : s.zone ≠ .exitAck ∧ s.zone ≠ .closed) :
    s.memory.keys ++ s.inFlight = s.client.keys.map wireKey :=
  have hinv : Inv False False s := .of_reach (fun _ _ hl =>
    .of_input hl.1.1 hl.1.2 hl.2.1 hl.2.2 False.elim False.elim) h
  hinv.phase.conserved hz

/-- Two keys are pressed; the first is dispatched, and the `InputThread` has written the mode
byte of the second, which the server has read. -/
def twoPressed : List Label :=
  inputEntered ++ [.sendInput 23, .sendInput 4] ++ List.replicate 5 .input ++
    List.replicate 4 (.server serverEnv)

/-- One key is dispatched, and one on its way. -/
theorem keys_conserved_two : ∃ s : Session, s.memory.keys = [23] ∧
    s.memory.keys ++ s.inFlight = s.client.keys.map wireKey := by
  obtain ⟨s, hs, hk⟩ := Reach.exists_of_run (show
    (run (fun l s => if (InputLabel l ∧ Answered l) ∧ TimeoutSkipped l s ∧ PressBeforeExit l s
      then step l s else none) twoPressed {}).map (fun s => (s.memory.keys, s.zone)) =
        some ([23], .key) by decide)
  obtain ⟨hkeys, hzone⟩ := Prod.mk.inj hk
  exact ⟨s, hkeys, keys_conserved hs (by rw [hzone]; exact ⟨nofun, nofun⟩)⟩

/-! ### They arrive -/

/-- The `InputThread` or the `CommunicationTask` moves. -/
def Delivers (s t : Session) : Prop := s.stepInput = some t ∨ ∃ e, s.stepServer e = some t

/-- What the server does in `listen` before it reads again. -/
def busyWith : TaskPc → Nat
  | .listen (.dispatchKey _) _ => 1
  | .listen .modeTimeout _ => 1
  | .listen .keyTimeout _ => 1
  | _ => 0

/-- The operations left: a message is taken, each of its bytes written, read, and followed by one
more operation at most. -/
def work (s : Session) : Nat :=
  busyWith s.server + 2 * s.c2s.length + 3 * s.input.length +
    (s.client.inputQueue.map fun msg => 3 * msg.bytes.length + 1).sum

theorem work_input (h : s.stepInput = some t) : t.work < s.work := by
  unfold stepInput at h
  cases hi : s.input with
  | cons b bs =>
    simp only [hi, Option.some.injEq] at h
    subst h
    simp only [work, hi, List.length_append, List.length_cons, List.length_nil]
    omega
  | nil =>
    cases hq : s.client.inputQueue with
    | nil => simp [hi, hq] at h
    | cons msg msgs =>
      simp only [hi, hq, Option.some.injEq] at h
      subst h
      simp only [work, hi, hq, List.map_cons, List.sum_cons, List.length_nil]
      omega

theorem pc_of_dispatches {pc : TaskPc} (h : Zone.dispatches pc.zone = true) :
    ∃ str, pc = .listen .mode str ∨ pc = .listen .modeTimeout str ∨ pc = .listen .key str ∨
      pc = .listen .keyTimeout str ∨ ∃ k, pc = .listen (.dispatchKey k) str := by
  cases pc with
  | listen pc str =>
    refine ⟨str, ?_⟩
    cases pc with
    | mode | modeTimeout | key | keyTimeout | dispatchKey => simp
    | _ => cases h
  | frame pc =>
    cases pc with
    | _ => cases h
  | _ => cases h

theorem busyWith_ofMode (b : Byte) (str : List Byte) : busyWith (.listen (.ofMode b) str) = 0 := by
  unfold ListenPc.ofMode
  split_ifs
  all_goals rfl

theorem work_server {e : Env} (hz : Zone.dispatches s.zone = true)
    (h : s.stepServer e = some t) : t.work < s.work := by
  obtain ⟨str, hpc⟩ := pc_of_dispatches hz
  unfold stepServer at h
  rcases hpc with hpc | hpc | hpc | hpc | ⟨k, hpc⟩
  · rw [hpc] at h
    cases hc : s.c2s with
    | nil => simp [taskOp, listenOp, hc] at h
    | cons b rest =>
      simp only [taskOp, listenOp, hc, Option.some.injEq] at h
      subst h
      simp only [work, hc, busyWith_ofMode, List.length_cons]
      omega
  · rw [hpc] at h
    simp only [taskOp, listenOp, Option.some.injEq] at h
    subst h
    simp [work, hpc, busyWith]
  · rw [hpc] at h
    cases hc : s.c2s with
    | nil => simp [taskOp, listenOp, hc] at h
    | cons b rest =>
      simp only [taskOp, listenOp, hc, Option.some.injEq] at h
      subst h
      simp only [work, hc, hpc, busyWith, List.length_cons]
      omega
  · rw [hpc] at h
    simp only [taskOp, listenOp, Option.some.injEq] at h
    subst h
    simp [work, hpc, busyWith]
  · rw [hpc] at h
    simp only [taskOp, listenOp, Option.map_some, Option.some.injEq] at h
    subst h
    simp [work, hpc, busyWith]

/-- **Where a key is on its way, somebody can move.** -/
theorem exists_delivers (h : s.inFlight ≠ []) : ∃ t, s.Delivers t := by
  cases hi : s.input with
  | cons b bs => exact ⟨_, .inl (by rw [stepInput, hi])⟩
  | nil =>
    cases hq : s.client.inputQueue with
    | cons msg msgs => exact ⟨_, .inl (by rw [stepInput, hi, hq])⟩
    | nil =>
      -- everything is with the server
      have htransit : s.transit = s.c2s := InputIdle.transit ⟨hi, hq⟩
      obtain ⟨str, hpc⟩ := pc_of_dispatches (dispatches_of_inFlight h)
      have hread : s.zone = .mode ∨ s.zone = .key → ∃ b rest, s.c2s = b :: rest := by
        intro hz
        rw [inFlight, htransit] at h
        cases hc : s.c2s with
        | cons b rest => exact ⟨b, rest, rfl⟩
        | nil =>
          rcases hz with hz | hz
          · rw [hz, hc] at h
            exact absurd rfl h
          · rw [hz, hc] at h
            exact absurd rfl h
      rcases hpc with hpc | hpc | hpc | hpc | ⟨k, hpc⟩
      · obtain ⟨b, rest, hc⟩ := hread (.inl (by rw [zone, hpc]; rfl))
        exact ⟨_, .inr ⟨serverEnv, by simp only [stepServer, hpc, taskOp, listenOp, hc]; rfl⟩⟩
      · exact ⟨_, .inr ⟨serverEnv, by simp only [stepServer, hpc, taskOp, listenOp]; rfl⟩⟩
      · obtain ⟨b, rest, hc⟩ := hread (.inr (by rw [zone, hpc]; rfl))
        exact ⟨_, .inr ⟨serverEnv, by simp only [stepServer, hpc, taskOp, listenOp, hc]; rfl⟩⟩
      · exact ⟨_, .inr ⟨serverEnv, by simp only [stepServer, hpc, taskOp, listenOp]; rfl⟩⟩
      · exact ⟨_, .inr ⟨serverEnv, by simp only [stepServer, hpc, taskOp, listenOp]; rfl⟩⟩

/-- The server hangs up, or has done so. -/
def Zone.hangsUp : Zone → Bool
  | .exitAck => true
  | .closed => true
  | _ => false

theorem Zone.not_closed {z : Zone} (h : Zone.hangsUp z = false) : z ≠ .exitAck ∧ z ≠ .closed := by
  constructor
  · rintro rfl
    cases h
  · rintro rfl
    cases h

theorem ServerStep.not_closed {e : Env} (hst : ServerStep e s t)
    (hz : Zone.dispatches s.zone = true) : t.zone ≠ .exitAck ∧ t.zone ≠ .closed := by
  refine Zone.not_closed ?_
  rcases hst with ⟨b, -, hnext, -, -⟩ | ⟨b, hreply, -, -, -⟩ | ⟨ks, hmoves, -, -, -⟩
  · cases hs : s.zone with
    | mode =>
      rw [hs, Zone.next, Option.some.injEq] at hnext
      rw [← hnext]
      split_ifs
      all_goals rfl
    | key =>
      rw [hs, Zone.next, Option.some.injEq] at hnext
      rw [← hnext]
      rfl
    | press k => rw [hs] at hnext; cases hnext
    | _ => rw [hs] at hz; cases hz
  · cases hs : s.zone with
    | inputAck | inputLeave | frameAck | refused | serving | exitAck =>
      rw [hs] at hreply hz
      cases hz
    | _ =>
      rw [hs] at hreply hz
      exact hreply.elim
  · rcases hmoves with ⟨-, heq⟩ | hmoves
    · rw [heq]
      cases hs : s.zone with
      | mode | key | press k => rfl
      | _ => rw [hs] at hz; cases hz
    · cases hs : s.zone with
      | press k =>
        rw [hs] at hmoves
        rw [hmoves.2]
        rfl
      | mode | key => rw [hs] at hmoves; exact hmoves.elim
      | _ => rw [hs] at hz; cases hz

theorem stepInput_same (h : s.stepInput = some t) :
    t.server = s.server ∧ t.memory = s.memory ∧ t.client.keys = s.client.keys := by
  unfold stepInput at h
  split at h
  · cases h
    exact ⟨rfl, rfl, rfl⟩
  · cases h
    exact ⟨rfl, rfl, rfl⟩
  · cases h

theorem Inv.delivers {strict : Prop} (h : Inv strict False s) (hst : s.Delivers t) :
    Inv strict False t ∧ t.client.keys = s.client.keys := by
  rcases hst with hst | ⟨e, hst⟩
  · obtain ⟨hserver, hmemory, hkeys⟩ := stepInput_same hst
    refine ⟨⟨?_, h.phase.input hst⟩, hkeys⟩
    rw [Sound, hserver, hmemory]
    exact h.sound
  · obtain ⟨hsound, hstep⟩ := stepServer_zone h.sound hst
    have hclient := stepServer_client hst
    exact ⟨⟨hsound, h.phase.server False.elim hstep hclient⟩, by rw [hclient.client]⟩

/-- **Every key sent is dispatched**, in whatever order the `InputThread` and the
`CommunicationTask` move from now on, unless the server has hung up. -/
theorem keys_delivered
    (h : Reach step (fun l s => (InputLabel l ∧ Answered l) ∧ TimeoutSkipped l s ∧
      PressBeforeExit l s) {} s)
    (hz : s.zone ≠ .exitAck ∧ s.zone ≠ .closed) :
    Inevitable Delivers (fun t => t.memory.keys = s.client.keys.map wireKey) s := by
  have hinv : Inv False False s := .of_reach (fun _ _ hl =>
    .of_input hl.1.1 hl.1.2 hl.2.1 hl.2.2 False.elim False.elim) h
  -- what is not dispatched is on its way
  have hflight : ∀ u : Session, (Inv False False u ∧ u.client.keys = s.client.keys ∧
      u.zone ≠ .exitAck ∧ u.zone ≠ .closed) →
      ¬ u.memory.keys = s.client.keys.map wireKey → u.inFlight ≠ [] := by
    rintro u ⟨hu, hkeys, huz⟩ hnot hnil
    have hconserved := hu.phase.conserved huz
    rw [hnil, List.append_nil, hkeys] at hconserved
    exact hnot hconserved
  refine Inevitable.of_rank work (fun u hu hnot => exists_delivers (hflight u hu hnot))
    (fun u v hu hnot huv => ?_) (I := fun u => Inv False False u ∧
      u.client.keys = s.client.keys ∧ u.zone ≠ .exitAck ∧ u.zone ≠ .closed) ⟨hinv, rfl, hz⟩
  have hdispatches := dispatches_of_inFlight (hflight u hu hnot)
  obtain ⟨hv, hkeys⟩ := hu.1.delivers huv
  rcases huv with huv | ⟨e, huv⟩
  · have hzone : v.zone = u.zone := by rw [zone, (stepInput_same huv).1, zone]
    exact ⟨⟨hv, hkeys.trans hu.2.1, by rw [hzone]; exact hu.2.2⟩, work_input huv⟩
  · have hnot := (stepServer_zone hu.1.sound huv).2.not_closed hdispatches
    exact ⟨⟨hv, hkeys.trans hu.2.1, hnot⟩, work_server hdispatches huv⟩

/-- The second key comes as well. -/
theorem keys_delivered_two : ∃ s : Session, s.memory.keys = [23] ∧
    Inevitable Delivers (fun t => t.memory.keys = [23, 4]) s := by
  obtain ⟨s, hs, hk⟩ := Reach.exists_of_run (show
    (run (fun l s => if (InputLabel l ∧ Answered l) ∧ TimeoutSkipped l s ∧ PressBeforeExit l s
      then step l s else none) twoPressed {}).map
        (fun s => (s.memory.keys, s.zone, s.client.keys)) = some ([23], .key, [23, 4]) by decide)
  obtain ⟨hkeys, hrest⟩ := Prod.mk.inj hk
  obtain ⟨hzone, hsent⟩ := Prod.mk.inj hrest
  have hdelivered := keys_delivered hs (by rw [hzone]; exact ⟨nofun, nofun⟩)
  rw [hsent] at hdelivered
  exact ⟨s, hkeys, hdelivered⟩

end MikaAudio.Session
