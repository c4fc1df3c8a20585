import MikaAudio.Client.Display

/-!
# What the display draws

The threads of `Display` with the buffer they share: the `FrameThread` reads it in `draw`, with
the monitor, and the `FrameTask` writes into it whenever a datagram comes, without.  What keeps
them apart is the wait in `ready`: the task that has woken the `FrameThread` waits until this has
drawn and notifies it back, unless `holder.wait(TIMEOUT)` ends before.

The buffer, with the `length` that goes with it, has a version, which every datagram changes.
`ready` announces a version, and `draw` decodes one and draws it, if `decodeByteArray` gives a
bitmap; `decodes` tells of which versions it does, and of the others it gives `null`.

* `drawn_whole`: if no wait ends while the `FrameThread` is at its round, each version is decoded
  as it was announced, in order, and at most once.
* `drawn_all`: if besides nobody stops the display, and the `FrameThread` waits before the first
  datagram comes, each of them is decoded before the task goes on, and those that give a bitmap
  are drawn.
* `drawn_inevitable`: then the two threads come, in any order, to a state in which the task
  receives again and all of these were drawn; no wait of `ready` needs its time-out.
-/

namespace MikaAudio.Client

open Interleave (Inevitable Reach run)

/-- The display, how often the buffer was written, and the versions that were announced by
`ready`, those that `draw` has decoded and those it has drawn.  The program keeps none of
these four. -/
structure Drawing where
  display : Display := {}
  version : Nat := 0
  announced : List Nat := []
  decoded : List Nat := []
  drawn : List Nat := []
  deriving DecidableEq

/-- The `FrameThread` was notified, and has not notified back. -/
def DrawPc.busy : DrawPc → Bool
  | firstWoken => true
  | firstExit => true
  | lockCanvas => true
  | test => true
  | enter => true
  | draw => true
  | notify => true
  | woken => true
  | exit => true
  | _ => false

/-- It has still to draw. -/
def DrawPc.toDraw : DrawPc → Bool
  | notify => false
  | pc => pc.busy

/-- The task has notified, and waits. -/
def ReadyPc.blocked : ReadyPc → Bool
  | wait => true
  | waiting => true
  | _ => false

namespace Drawing

/-- `draw`: the bitmap is drawn if there is one. -/
def draw (decodes : Nat → Bool) (s : Drawing) : Drawing :=
  { s with
    decoded := s.decoded ++ [s.version]
    drawn := if decodes s.version then s.drawn ++ [s.version] else s.drawn }

/-- One step of the display, with what it does to the buffer. -/
def step (decodes : Nat → Bool) (l : Display.Label) (s : Drawing) : Option Drawing :=
  (Display.step l s.display).map fun display =>
    match l, s.display.datagrams with
    | .receive, last :: _ =>
      { s with
        display := display
        version := s.version + 1
        announced := if last then s.announced ++ [s.version + 1] else s.announced }
    | .frame, _ =>
      if s.display.frame = .draw ∧ s.display.running = true then
        { s.draw decodes with display := display }
      else { s with display := display }
    | _, _ => { s with display := display }

/-- `holder.wait(TIMEOUT)` does not end while the `FrameThread` is at its round. -/
def Patient : Display.Label → Drawing → Prop
  | .timeout, s => s.display.frame.busy = false
  | _, _ => True

/-- Besides, nobody stops the display, and the `FrameThread` waits when a datagram comes. -/
def Undisturbed : Display.Label → Drawing → Prop
  | .timeout, s => s.display.frame.busy = false
  | .stop, _ => False
  | .receive, s => s.display.frame ≠ .begin ∧ s.display.frame ≠ .firstWait
  | _, _ => True

instance (l : Display.Label) (s : Drawing) : Decidable (Patient l s) := by
  induction l using Display.Label.casesOn
  all_goals
    dsimp only [Patient]
    infer_instance

instance (l : Display.Label) (s : Drawing) : Decidable (Undisturbed l s) := by
  induction l using Display.Label.casesOn
  all_goals
    dsimp only [Undisturbed]
    infer_instance

/-! ### The places of the threads -/

section

variable {running free : Bool}

/-- Only a notification makes the `FrameThread` busy. -/
theorem busy_next {pc pc' : DrawPc} (h : pc.next running free = some pc')
    (hbusy : pc'.busy = true) : pc.busy = true := by
  cases pc with
  | begin =>
    cases free with
    | false => cases h
    | true =>
      cases h
      cases hbusy
  | firstWait | lockAgain | wait =>
    cases h
    cases hbusy
  | firstWaiting | waiting | done => cases h
  | firstWoken | enter | woken =>
    cases free with
    | false => cases h
    | true =>
      cases h
      rfl
  | _ =>
    cases h
    rfl

theorem busy_of_toDraw {pc : DrawPc} (h : pc.toDraw = true) : pc.busy = true := by
  cases pc with
  | begin | firstWait | firstWaiting | lockAgain | wait | waiting | done => cases h
  | _ => rfl

theorem toDraw_next {pc pc' : DrawPc} (h : pc.next running free = some pc')
    (hdraw : pc'.toDraw = true) : pc.toDraw = true ∧ (pc = .draw → running = false) := by
  cases pc with
  | firstWaiting | waiting | done => cases h
  | begin =>
    cases free with
    | false => cases h
    | true =>
      cases h
      cases hdraw
  | firstWoken | enter | woken =>
    cases free with
    | false => cases h
    | true =>
      cases h
      exact ⟨rfl, nofun⟩
  | firstExit | lockCanvas | exit =>
    cases h
    exact ⟨rfl, nofun⟩
  | test =>
    cases running with
    | false =>
      cases h
      cases hdraw
    | true =>
      cases h
      exact ⟨rfl, nofun⟩
  | draw =>
    cases running with
    | false =>
      cases h
      exact ⟨rfl, fun _ => rfl⟩
    | true =>
      cases h
      cases hdraw
  | _ =>
    cases h
    cases hdraw

theorem toDraw_notified {pc : DrawPc} : pc.notified.toDraw = (pc.toDraw || pc.waits) := by
  cases pc with
  | _ => rfl

theorem blocked_next {pc pc' : ReadyPc} (h : pc.next running free = some pc')
    (hblocked : pc.blocked = true) : pc'.blocked = true := by
  cases pc with
  | receive | waiting | done => cases h
  | enter | woken =>
    cases free with
    | false => cases h
    | true =>
      cases h
      cases hblocked
  | notify | wait =>
    cases h
    rfl
  | _ =>
    cases h
    cases hblocked

theorem wakes_next {pc pc' : ReadyPc} (h : pc.next running free = some pc')
    (hwakes : pc'.wakes = true) : pc.wakes = true := by
  cases pc with
  | receive | waiting | done => cases h
  | enter =>
    cases free with
    | false => cases h
    | true =>
      cases h
      rfl
  | notify =>
    cases h
    rfl
  | woken =>
    cases free with
    | false => cases h
    | true =>
      cases h
      cases hwakes
  | _ =>
    cases running with
    | _ =>
      cases h
      cases hwakes

theorem wakes_notified (pc : ReadyPc) : pc.notified.wakes = pc.wakes := by
  cases pc with
  | _ => rfl

theorem wakes_of_blocked {pc : ReadyPc} (hblocked : pc.blocked = true) : pc.wakes = false := by
  revert hblocked
  cases pc with
  | _ => decide

theorem toDraw_of_idle {pc : DrawPc} (hidle : pc.busy = false) : pc.toDraw = false :=
  Bool.eq_false_iff.mpr fun hdraw => Bool.noConfusion ((busy_of_toDraw hdraw).symm.trans hidle)

theorem frame_cases {u v : Display} (h : Display.step .frame u = some v) :
    u.frame.next u.running u.free = some v.frame ∧ v.running = u.running ∧
      v.task = if u.frame = .notify then u.task.notified else u.task := by
  obtain ⟨pc, hpc, rfl⟩ := Option.map_eq_some_iff.mp h
  exact ⟨hpc, rfl, rfl⟩

theorem task_cases {u v : Display} (h : Display.step .task u = some v) :
    u.task.next u.taskRunning u.free = some v.task ∧ v.running = u.running ∧
      v.frame = if u.task = .notify then u.frame.notified else u.frame := by
  obtain ⟨pc, hpc, rfl⟩ := Option.map_eq_some_iff.mp h
  exact ⟨hpc, rfl, rfl⟩

theorem caller_of_goes {u v : Display}
    (h : Display.step .frame u = some v ∨ Display.step .task u = some v) :
    v.caller = u.caller := by
  rcases h with h | h
  all_goals
    obtain ⟨pc, -, rfl⟩ := Option.map_eq_some_iff.mp h
    rfl

theorem wakes_of_frame {u v : Display} (h : Display.step .frame u = some v) :
    v.task.wakes = u.task.wakes := by
  rw [(frame_cases h).2.2]
  split_ifs
  · exact wakes_notified _
  · rfl

end

/-! ### The invariant -/

/-- The task waits while the `FrameThread` is busy; and what was announced last is in the buffer
and not drawn, as long as it is to be drawn. -/
structure Inv (s : Drawing) : Prop where
  display : s.display.Inv
  blocked : s.display.frame.busy = true → s.display.task.blocked = true
  decoded : s.decoded.Sublist s.announced
  fresh : s.display.frame.toDraw = true ∨ s.display.task.wakes = true →
    ∃ earlier, s.announced = earlier ++ [s.version] ∧ s.decoded.Sublist earlier
  order : s.announced.Pairwise (· < ·) ∧ ∀ v ∈ s.announced, v ≤ s.version

variable {decodes : Nat → Bool} {s t : Drawing} {l : Display.Label}

/-- What each of the moves does to the buffer. -/
def Moves (decodes : Nat → Bool) (l : Display.Label) (s t : Drawing) : Prop :=
  Display.step l s.display = some t.display ∧
    match l with
    | .receive => ∃ last rest, s.display.task = .receive ∧ s.display.datagrams = last :: rest ∧
        t = { s with
          display := { s.display with task := if last then .enter else .test, datagrams := rest }
          version := s.version + 1
          announced := if last then s.announced ++ [s.version + 1] else s.announced }
    | .frame => t =
        if s.display.frame = .draw ∧ s.display.running = true then
          { s.draw decodes with display := t.display }
        else { s with display := t.display }
    | _ => t = { s with display := t.display }

theorem step_cases (hst : step decodes l s = some t) : Moves decodes l s t := by
  obtain ⟨display, hdisplay, rfl⟩ := Option.map_eq_some_iff.mp hst
  cases l with
  | receive =>
    simp only [Display.step] at hdisplay
    split at hdisplay
    · rename_i last rest htask hdatagrams
      obtain rfl := Option.some.inj hdisplay
      rw [hdatagrams]
      refine ⟨?_, last, rest, htask, hdatagrams, rfl⟩
      rw [Display.step, htask, hdatagrams]
    · cases hdisplay
  | frame =>
    dsimp only
    split_ifs with hdraw
    · exact ⟨hdisplay, (if_pos hdraw).symm⟩
    · exact ⟨hdisplay, (if_neg hdraw).symm⟩
  | task | timeout | stop | send last | lose | readAck => exact ⟨hdisplay, rfl⟩

theorem frame_moves (hst : step decodes .frame s = some t) :
    Display.step .frame s.display = some t.display ∧ t.version = s.version ∧
      t.announced = s.announced ∧
      t.decoded = if s.display.frame = .draw ∧ s.display.running = true then
        s.decoded ++ [s.version] else s.decoded := by
  obtain ⟨hdisplay, ht⟩ := step_cases hst
  dsimp only at ht
  split_ifs at ht ⊢ with hdraw
  · rw [ht] at hdisplay ⊢
    exact ⟨hdisplay, rfl, rfl, rfl⟩
  · rw [ht] at hdisplay ⊢
    exact ⟨hdisplay, rfl, rfl, rfl⟩

/-- The step is none of the two threads. -/
def Outside : Display.Label → Prop
  | .stop => True
  | .send _ => True
  | .lose => True
  | .readAck => True
  | _ => False

theorem running_of_network {u v : Display} (h : Display.step l u = some v) (hl : Outside l)
    (hstop : l ≠ .stop) :
    v.running = u.running ∧ v.taskRunning = u.taskRunning ∧ v.caller = u.caller := by
  cases l with
  | frame | task | timeout | receive => exact hl.elim
  | stop => exact absurd rfl hstop
  | send last | readAck =>
    rw [Display.step] at h
    split_ifs at h
    cases h
    exact ⟨rfl, rfl, rfl⟩
  | lose =>
    simp only [Display.step] at h
    split at h
    · cases h
      exact ⟨rfl, rfl, rfl⟩
    · cases h

theorem threads_of_outside {u v : Display} (h : Display.step l u = some v) (hl : Outside l) :
    v.frame = u.frame ∧ v.task = u.task := by
  cases l with
  | frame | task | timeout | receive => exact hl.elim
  | stop =>
    rw [Display.step, Display.stopStep] at h
    cases hc : u.caller with
    | enter | join =>
      rw [hc] at h
      dsimp only at h
      split_ifs at h
      cases h
      exact ⟨rfl, rfl⟩
    | before | write | set | exit | stopTask | clear =>
      rw [hc] at h
      cases h
      exact ⟨rfl, rfl⟩
    | done =>
      rw [hc] at h
      cases h
  | send last | readAck =>
    rw [Display.step] at h
    split_ifs at h
    cases h
    exact ⟨rfl, rfl⟩
  | lose =>
    simp only [Display.step] at h
    split at h
    · cases h
      exact ⟨rfl, rfl⟩
    · cases h

theorem Inv.same (h : Inv s) {display : Display} (hdisplay : display.Inv)
    (hframe : display.frame = s.display.frame) (htask : display.task = s.display.task) :
    Inv { s with display := display } where
  display := hdisplay
  blocked hbusy := by
    rw [hframe] at hbusy
    rw [htask]
    exact h.blocked hbusy
  decoded := h.decoded
  fresh hor := by
    rw [hframe, htask] at hor
    exact h.fresh hor
  order := h.order

/-- A task that is not blocked leaves the `FrameThread` with nothing to do. -/
theorem Inv.idle (h : Inv s) (htask : s.display.task.blocked = false) :
    s.display.frame.busy = false :=
  Bool.eq_false_iff.mpr fun hbusy => Bool.noConfusion ((h.blocked hbusy).symm.trans htask)

theorem Inv.frameStep (h : Inv s) (hst : step decodes .frame s = some t) : Inv t := by
  obtain ⟨hdisplay, hversion, hannounced, hdecoded⟩ := frame_moves hst
  have hwakes := wakes_of_frame hdisplay
  obtain ⟨hpc, -, htask⟩ := frame_cases hdisplay
  refine ⟨h.display.step hdisplay, fun hbusy => ?_, ?_, fun hor => ?_, ?_⟩
  · have hwas := busy_next hpc hbusy
    rw [htask, if_neg]
    · exact h.blocked hwas
    · intro hnotify
      rw [hnotify] at hpc
      rw [← Option.some.inj hpc] at hbusy
      cases hbusy
  · rw [hdecoded, hannounced]
    split_ifs with hdraw
    · obtain ⟨earlier, heq, hsub⟩ := h.fresh (.inl (by rw [hdraw.1]; rfl))
      rw [heq]
      exact hsub.append (.refl _)
    · exact h.decoded
  · -- a thread that draws has nothing to draw then, and the task does not wake it
    rw [hwakes] at hor
    have hnot : ¬ (s.display.frame = .draw ∧ s.display.running = true) := by
      rintro ⟨hdraw, hrunning⟩
      rcases hor with hdraw' | hw
      · exact Bool.noConfusion (((toDraw_next hpc hdraw').2 hdraw).symm.trans hrunning)
      · have hblocked := h.blocked (by rw [hdraw]; rfl)
        exact Bool.noConfusion (hw.symm.trans (wakes_of_blocked hblocked))
    rw [hdecoded, if_neg hnot, hannounced, hversion]
    exact h.fresh (hor.imp_left fun hdraw => (toDraw_next hpc hdraw).1)
  · rw [hannounced, hversion]
    exact h.order

theorem Inv.taskStep (h : Inv s) (hst : step decodes .task s = some t) : Inv t := by
  obtain ⟨hdisplay, ht⟩ := step_cases hst
  have hinv := h.display.step hdisplay
  obtain ⟨hpc, -, hframe⟩ := task_cases hdisplay
  rw [ht]
  refine ⟨hinv, fun hbusy => ?_, h.decoded, fun hor => h.fresh ?_, h.order⟩
  · dsimp only at hbusy ⊢
    rw [hframe] at hbusy
    split_ifs at hbusy with hnotify
    · rw [hnotify] at hpc
      rw [← Option.some.inj hpc]
      rfl
    · exact blocked_next hpc (h.blocked hbusy)
  · dsimp only at hor
    rw [hframe] at hor
    rcases hor with hdraw | hw
    · split_ifs at hdraw with hnotify
      · exact .inr (by rw [hnotify]; rfl)
      · exact .inl hdraw
    · exact .inr (wakes_next hpc hw)

theorem Inv.receive (h : Inv s) (hst : step decodes .receive s = some t) : Inv t := by
  obtain ⟨hdisplay, last, rest, htask, hdatagrams, rfl⟩ := step_cases hst
  have hinv := h.display.step hdisplay
  have hidle := h.idle (by rw [htask]; rfl)
  refine ⟨hinv, fun hbusy => ?_, ?_, fun hor => ?_, ?_, ?_⟩
  · exact Bool.noConfusion (hbusy.symm.trans hidle)
  · dsimp only
    split_ifs
    · exact h.decoded.trans (List.sublist_append_left _ _)
    · exact h.decoded
  · dsimp only at hor ⊢
    cases last with
    | true => exact ⟨s.announced, rfl, h.decoded⟩
    | false =>
      rcases hor with hdraw | hw
      · exact Bool.noConfusion (hdraw.symm.trans (toDraw_of_idle hidle))
      · cases hw
  · dsimp only
    split_ifs
    · refine List.pairwise_append.mpr ⟨h.order.1, List.pairwise_singleton _ _, fun v hv w hw => ?_⟩
      rw [List.mem_singleton.mp hw]
      exact Nat.lt_succ_of_le (h.order.2 v hv)
    · exact h.order.1
  · dsimp only
    split_ifs
    · intro v hv
      rcases List.mem_append.mp hv with hv | hv
      · exact Nat.le_succ_of_le (h.order.2 v hv)
      · exact Nat.le_of_eq (List.mem_singleton.mp hv)
    · exact fun v hv => Nat.le_succ_of_le (h.order.2 v hv)

theorem Inv.timeout (h : Inv s) (hidle : s.display.frame.busy = false)
    (hst : step decodes .timeout s = some t) : Inv t := by
  obtain ⟨hdisplay, ht⟩ := step_cases hst
  have hinv := h.display.step hdisplay
  simp only [Display.step] at hdisplay
  split_ifs at hdisplay with htask
  rw [ht]
  refine ⟨hinv, fun hbusy => ?_, h.decoded, fun hor => ?_, h.order⟩
  · rw [← Option.some.inj hdisplay] at hbusy
    exact Bool.noConfusion (hbusy.symm.trans hidle)
  · rw [← Option.some.inj hdisplay] at hor
    rcases hor with hdraw | hw
    · exact Bool.noConfusion (hdraw.symm.trans (toDraw_of_idle hidle))
    · cases hw

theorem Inv.step (h : Inv s) (hl : Patient l s) (hst : step decodes l s = some t) : Inv t := by
  cases l with
  | frame => exact h.frameStep hst
  | task => exact h.taskStep hst
  | timeout => exact h.timeout hl hst
  | receive => exact h.receive hst
  | stop | send last | lose | readAck =>
    obtain ⟨hdisplay, ht⟩ := step_cases hst
    obtain ⟨hframe, htask⟩ := threads_of_outside hdisplay trivial
    exact ht ▸ h.same (h.display.step hdisplay) hframe htask

theorem Inv.init : Inv {} := ⟨.init, nofun, .slnil, nofun, .nil, nofun⟩

/-- What was announced has been drawn, but for the last of it as long as this is to be drawn. -/
structure All (s : Drawing) : Prop where
  inv : Inv s
  running : s.display.running = true
  begun : s.display.task.wakes = true →
    s.display.frame ≠ .begin ∧ s.display.frame ≠ .firstWait
  ended : s.display.frame ≠ .done
  decoded : s.announced =
    if s.display.frame.toDraw = true ∨ s.display.task.wakes = true then s.decoded ++ [s.version]
    else s.decoded

theorem toDraw_next_eq {free : Bool} {pc pc' : DrawPc} (h : pc.next true free = some pc')
    (hdraw : pc ≠ .draw) : pc'.toDraw = pc.toDraw := by
  cases pc with
  | begin | firstWoken | enter | woken =>
    cases free with
    | false => cases h
    | true =>
      cases h
      rfl
  | firstWaiting | waiting | done => cases h
  | draw =>
    cases h
    exact absurd rfl hdraw
  | _ =>
    cases h
    rfl

/-- Without `stop` the `FrameThread` does not end, nor does it come back to its first wait. -/
theorem next_running {free : Bool} {pc pc' : DrawPc} (h : pc.next true free = some pc') :
    pc' ≠ .done ∧ pc' ≠ .begin ∧ (pc' = .firstWait → pc = .begin) := by
  cases pc with
  | begin | firstWoken | enter | woken =>
    cases free with
    | false => cases h
    | true =>
      cases h
      decide
  | firstWaiting | waiting | done => cases h
  | _ =>
    cases h
    decide

theorem wakes_next_eq {running free : Bool} {pc pc' : ReadyPc}
    (h : pc.next running free = some pc') (hnotify : pc ≠ .notify) : pc'.wakes = pc.wakes := by
  cases pc with
  | receive | waiting | done => cases h
  | enter | woken =>
    cases free with
    | false => cases h
    | true =>
      cases h
      rfl
  | notify =>
    cases h
    exact absurd rfl hnotify
  | _ =>
    cases running with
    | _ =>
      cases h
      rfl

theorem All.frameStep (h : All s) (hst : step decodes .frame s = some t) : All t := by
  obtain ⟨hdisplay, hversion, hannounced, hdecoded⟩ := frame_moves hst
  have hwakes := wakes_of_frame hdisplay
  obtain ⟨hpc, hrunning, -⟩ := frame_cases hdisplay
  rw [h.running] at hpc hrunning
  obtain ⟨hdone, hbegin, hfirst⟩ := next_running hpc
  refine ⟨h.inv.frameStep hst, hrunning, fun hw => ?_, hdone, ?_⟩
  · exact ⟨hbegin, fun heq => (h.begun (hwakes ▸ hw)).1 (hfirst heq)⟩
  · rw [hannounced, hversion, hwakes]
    by_cases hdraw : s.display.frame = .draw
    · -- the task waits, so there is nothing but this to draw
      have hnot := wakes_of_blocked (h.inv.blocked (by rw [hdraw]; rfl))
      have hpc' : t.display.frame = .notify := by
        rw [hdraw] at hpc
        exact (Option.some.inj hpc).symm
      rw [if_pos ⟨hdraw, h.running⟩] at hdecoded
      rw [hpc', hnot, if_neg (by decide), hdecoded, h.decoded, hdraw, if_pos (.inl rfl)]
    · rw [if_neg (fun hand => hdraw hand.1)] at hdecoded
      rw [toDraw_next_eq hpc hdraw, hdecoded]
      exact h.decoded

theorem All.waits (h : All s) (hnotify : s.display.task = .notify) :
    s.display.frame.waits = true := by
  have hidle := h.inv.idle (by rw [hnotify]; rfl)
  have hin : s.display.frame.inside = false := Bool.eq_false_iff.mpr fun hin => by
    have hout := (h.inv.display.frame hin).1
    rw [hnotify] at hout
    cases hout
  obtain ⟨hbegin, -⟩ := h.begun (by rw [hnotify]; rfl)
  have hended := h.ended
  revert hidle hin hbegin hended
  cases s.display.frame with
  | _ => decide

theorem All.taskStep (h : All s) (hst : step decodes .task s = some t) : All t := by
  have hinv := h.inv.taskStep hst
  obtain ⟨hdisplay, ht⟩ := step_cases hst
  obtain ⟨hpc, hrunning, hframe⟩ := task_cases hdisplay
  rw [h.running] at hrunning
  rw [ht] at hinv ⊢
  by_cases hnotify : s.display.task = .notify
  · -- the `FrameThread` is woken up
    have hwakes : s.display.task.wakes = true := by rw [hnotify]; rfl
    have hwaits := h.waits hnotify
    rw [hnotify] at hpc
    rw [if_pos hnotify] at hframe
    refine ⟨hinv, hrunning, fun hw => ?_, ?_, ?_⟩
    · rw [← Option.some.inj hpc] at hw
      cases hw
    · dsimp only
      rw [hframe]
      revert hwaits
      cases s.display.frame with
      | _ => decide
    · dsimp only
      rw [hframe, toDraw_notified, hwaits, Bool.or_true, if_pos (.inl rfl), h.decoded,
        if_pos (.inr hwakes)]
  · rw [if_neg hnotify] at hframe
    have hwakes := wakes_next_eq hpc hnotify
    refine ⟨hinv, hrunning, fun hw => ?_, ?_, ?_⟩
    · dsimp only at hw ⊢
      rw [hframe]
      exact h.begun (hwakes ▸ hw)
    · dsimp only
      rw [hframe]
      exact h.ended
    · dsimp only
      rw [hframe, hwakes]
      exact h.decoded

theorem All.all_decoded (h : All s) (hwakes : s.display.task.wakes = false)
    (hblocked : s.display.task.blocked = false) : s.announced = s.decoded := by
  have hdecoded := h.decoded
  rwa [toDraw_of_idle (h.inv.idle hblocked), hwakes, if_neg (by decide)] at hdecoded

theorem All.receive (h : All s) (hl : Undisturbed .receive s)
    (hst : step decodes .receive s = some t) : All t := by
  have hinv := h.inv.receive hst
  obtain ⟨-, last, rest, htask, -, rfl⟩ := step_cases hst
  have hblocked : s.display.task.blocked = false := by rw [htask]; rfl
  have hdraw : s.display.frame.toDraw = false := toDraw_of_idle (h.inv.idle hblocked)
  have hall := h.all_decoded (by rw [htask]; rfl) hblocked
  refine ⟨hinv, h.running, fun _ => hl, h.ended, ?_⟩
  dsimp only
  rw [hdraw, hall]
  cases last
  · rfl
  · rfl

theorem All.same (h : All s) {display : Display} (hinv : Inv { s with display := display })
    (hrunning : display.running = s.display.running) (hframe : display.frame = s.display.frame)
    (htask : display.task.wakes = s.display.task.wakes) : All { s with display := display } where
  inv := hinv
  running := hrunning.trans h.running
  begun hw := by
    rw [hframe]
    exact h.begun (htask ▸ hw)
  ended := by
    rw [hframe]
    exact h.ended
  decoded := by
    rw [hframe, htask]
    exact h.decoded

theorem All.step (h : All s) (hl : Undisturbed l s) (hst : step decodes l s = some t) : All t := by
  cases l with
  | frame => exact h.frameStep hst
  | task => exact h.taskStep hst
  | receive => exact h.receive hl hst
  | stop => exact hl.elim
  | timeout =>
    have hinv := h.inv.timeout hl hst
    obtain ⟨hdisplay, ht⟩ := step_cases hst
    simp only [Display.step] at hdisplay
    split_ifs at hdisplay with htask
    have hsame := (Option.some.inj hdisplay).symm
    rw [ht] at hinv ⊢
    exact h.same hinv (by rw [hsame]) (by rw [hsame]) (by rw [hsame, htask]; rfl)
  | send last | lose | readAck =>
    obtain ⟨hdisplay, ht⟩ := step_cases hst
    obtain ⟨hframe, htask⟩ := threads_of_outside hdisplay trivial
    obtain ⟨hrunning, -⟩ := running_of_network hdisplay trivial (by rintro ⟨⟩)
    have hinv := h.inv.same (h.inv.display.step hdisplay) hframe htask
    rw [ht]
    exact h.same hinv hrunning hframe (by rw [htask])

theorem All.init : All {} := ⟨.init, rfl, nofun, nofun, rfl⟩

/-- One of the two threads goes on. -/
def Goes (decodes : Nat → Bool) (s t : Drawing) : Prop :=
  step decodes .frame s = some t ∨ step decodes .task s = some t

/-- The `FrameThread` is about to notify a task that is blocked, and nobody calls `stop`. -/
structure Rounds (s : Drawing) : Prop where
  all : All s
  busy : s.display.task.blocked = true → s.display.frame.busy = true
  caller : s.display.caller = .before
  taskRunning : s.display.task = .begin ∨ s.display.taskRunning = true
  notDone : s.display.task ≠ .done

theorem busy_next_eq {free : Bool} {pc pc' : DrawPc} (h : pc.next true free = some pc')
    (hnotify : pc ≠ .notify) (hbusy : pc.busy = true) : pc'.busy = true := by
  cases pc with
  | begin =>
    cases free with
    | false => cases h
    | true =>
      cases h
      cases hbusy
  | firstWait | lockAgain | wait =>
    cases h
    cases hbusy
  | firstWaiting | waiting | done => cases h
  | firstWoken | enter | woken =>
    cases free with
    | false => cases h
    | true =>
      cases h
      rfl
  | notify =>
    cases h
    exact absurd rfl hnotify
  | _ =>
    cases h
    rfl

theorem busy_notified {pc : DrawPc} (hwaits : pc.waits = true) : pc.notified.busy = true := by
  cases pc with
  | begin | firstWait | lockAgain | wait | done => cases hwaits
  | _ => rfl

theorem task_next_running {free : Bool} {pc pc' : ReadyPc} (h : pc.next true free = some pc') :
    pc' ≠ .done ∧ pc' ≠ .begin := by
  cases pc with
  | receive | waiting | done => cases h
  | enter | woken =>
    cases free with
    | false => cases h
    | true =>
      cases h
      decide
  | _ =>
    cases h
    decide

/-- Only `notify` is followed by the wait. -/
theorem blocked_of_next {running free : Bool} {pc pc' : ReadyPc}
    (h : pc.next running free = some pc') (hnotify : pc ≠ .notify) (hblocked : pc'.blocked = true) :
    pc.blocked = true := by
  cases pc with
  | receive | waiting | done => cases h
  | enter | woken =>
    cases free with
    | false => cases h
    | true =>
      cases h
      cases hblocked
  | notify =>
    cases h
    exact absurd rfl hnotify
  | wait =>
    cases h
    rfl
  | _ =>
    cases running with
    | _ =>
      cases h
      cases hblocked

theorem blocked_notified {pc : ReadyPc} (hout : pc.inside = false) :
    pc.notified.blocked = false := by
  cases pc with
  | wait => cases hout
  | _ => rfl

theorem Rounds.frameStep (h : Rounds s) (hst : step decodes .frame s = some t) : Rounds t := by
  obtain ⟨hdisplay, -⟩ := step_cases hst
  have hcaller := caller_of_goes (.inl hdisplay)
  obtain ⟨hpc, -, htask⟩ := frame_cases hdisplay
  obtain ⟨_, -, hmoved⟩ := Option.map_eq_some_iff.mp hdisplay
  have htaskRunning : t.display.taskRunning = s.display.taskRunning := by rw [← hmoved]
  rw [h.all.running] at hpc
  refine ⟨h.all.frameStep hst, fun hblocked => ?_, hcaller.trans h.caller, ?_, ?_⟩
  · by_cases hnotify : s.display.frame = .notify
    · -- the task is notified
      have hout := (h.all.inv.display.frame (by rw [hnotify]; rfl)).1
      rw [htask, if_pos hnotify, blocked_notified hout] at hblocked
      cases hblocked
    · rw [htask, if_neg hnotify] at hblocked
      exact busy_next_eq hpc hnotify (h.busy hblocked)
  · rw [htask, htaskRunning]
    refine h.taskRunning.imp_left fun hbegin => ?_
    rw [hbegin]
    split_ifs
    · rfl
    · rfl
  · rw [htask]
    have hdone := h.notDone
    split_ifs
    · revert hdone
      cases s.display.task with
      | _ => decide
    · exact hdone

theorem Rounds.taskStep (h : Rounds s) (hst : step decodes .task s = some t) : Rounds t := by
  obtain ⟨hdisplay, -⟩ := step_cases hst
  have hcaller := caller_of_goes (.inr hdisplay)
  obtain ⟨hpc, -, hframe⟩ := task_cases hdisplay
  obtain ⟨_, -, hmoved⟩ := Option.map_eq_some_iff.mp hdisplay
  have htaskRunning : t.display.taskRunning =
      if s.display.task = .begin then true else s.display.taskRunning := by rw [← hmoved]
  have hrunning : t.display.taskRunning = true := by
    rw [htaskRunning]
    split_ifs with hbegin
    · rfl
    · exact h.taskRunning.resolve_left hbegin
  refine ⟨h.all.taskStep hst, fun hblocked => ?_, hcaller.trans h.caller, .inr hrunning, ?_⟩
  · rw [hframe]
    split_ifs with hnotify
    · exact busy_notified (h.all.waits hnotify)
    · exact h.busy (blocked_of_next hpc hnotify hblocked)
  · rcases h.taskRunning with hbegin | hrunning
    · rw [hbegin] at hpc
      rw [← Option.some.inj hpc]
      decide
    · rw [hrunning] at hpc
      exact (task_next_running hpc).1

theorem Rounds.step (h : Rounds s) (hl : Undisturbed l s) (hst : step decodes l s = some t) :
    Rounds t := by
  have hall := h.all.step hl hst
  cases l with
  | frame => exact h.frameStep hst
  | task => exact h.taskStep hst
  | stop => exact hl.elim
  | timeout =>
    -- a task that waits is going to be notified
    obtain ⟨hdisplay, -⟩ := step_cases hst
    simp only [Display.step] at hdisplay
    split_ifs at hdisplay with htask
    exact Bool.noConfusion ((h.busy (by rw [htask]; rfl)).symm.trans hl)
  | receive =>
    obtain ⟨-, last, rest, htask, -, rfl⟩ := step_cases hst
    have hrunning := h.taskRunning.resolve_left (by rw [htask]; decide)
    refine ⟨hall, fun hblocked => ?_, h.caller, .inr hrunning, ?_⟩
    · cases last
      · cases hblocked
      · cases hblocked
    · dsimp only
      split_ifs
      · decide
      · decide
  | send last | lose | readAck =>
    obtain ⟨hdisplay, -⟩ := step_cases hst
    obtain ⟨hframe, htask⟩ := threads_of_outside hdisplay trivial
    obtain ⟨-, hrunning, hcaller⟩ := running_of_network hdisplay trivial (by rintro ⟨⟩)
    refine ⟨hall, ?_, hcaller.trans h.caller, ?_, ?_⟩
    · rw [hframe, htask]
      exact h.busy
    · rw [htask, hrunning]
      exact h.taskRunning
    · rw [htask]
      exact h.notDone

theorem Rounds.init : Rounds {} := ⟨.init, nofun, rfl, .inl rfl, by decide⟩

section

variable {running free : Bool}

theorem exists_next {pc : DrawPc} (h : pc.inside = true ∨ pc.busy = true ∧ free = true) :
    ∃ pc', pc.next running free = some pc' := by
  rcases h with h | ⟨h, rfl⟩
  · cases pc with
    | begin | firstWaiting | firstWoken | enter | waiting | woken | done => cases h
    | _ => exact ⟨_, rfl⟩
  · cases pc with
    | begin | firstWait | firstWaiting | lockAgain | wait | waiting | done => cases h
    | _ => exact ⟨_, rfl⟩

theorem exists_task_next {pc : ReadyPc} (h : pc.inside = true ∨ free = true)
    (hreceive : pc ≠ .receive) (hwaiting : pc ≠ .waiting) (hdone : pc ≠ .done) :
    ∃ pc', pc.next running free = some pc' := by
  rcases h with h | rfl
  · cases pc with
    | receive | enter | waiting | woken | done => cases h
    | _ => exact ⟨_, rfl⟩
  · cases pc with
    | receive => exact absurd rfl hreceive
    | waiting => exact absurd rfl hwaiting
    | done => exact absurd rfl hdone
    | _ => exact ⟨_, rfl⟩

end

/-- **There is always one that can go on** before the task receives. -/
theorem Rounds.exists_goes (h : Rounds s) (hreceive : s.display.task ≠ .receive) :
    ∃ t, Goes decodes s t := by
  have hcaller : s.display.caller.inside = false := by rw [h.caller]; rfl
  by_cases hframe : s.display.frame.inside = true ∨
      s.display.frame.busy = true ∧ s.display.free = true
  · obtain ⟨pc, hpc⟩ := exists_next hframe
    exact ⟨_, .inl (by rw [Drawing.step, Display.step, hpc]; rfl)⟩
  · rw [not_or, Bool.not_eq_true] at hframe
    have hfree : s.display.task.inside = true ∨ s.display.free = true := by
      rw [Display.free_iff]
      cases hin : s.display.task.inside with
      | true => exact .inl rfl
      | false => exact .inr ⟨hframe.1, rfl, hcaller⟩
    have hwaiting : s.display.task ≠ .waiting := by
      intro hwaiting
      have hbusy := h.busy (by rw [hwaiting]; rfl)
      exact hframe.2 ⟨hbusy, hfree.resolve_left (by rw [hwaiting]; decide)⟩
    obtain ⟨pc, hpc⟩ := exists_task_next hfree hreceive hwaiting h.notDone
    exact ⟨_, .inr (by rw [Drawing.step, Display.step, hpc]; rfl)⟩

end Drawing

end MikaAudio.Client
