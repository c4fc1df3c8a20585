import MikaAudio.Lib.Interleave

/-!
# The heartbeat

`HeartbeatOutThread` takes a socket from its queue, waits until the time noted for it in
`connections`, writes a byte to it, notes a new time and puts it back.  `addConnection`
notes a time, puts the socket into the queue and wakes the loop.

The wait is `wait(instant)`, called on the thread object, whose monitor the loop does not
hold; so it throws an exception nobody catches.  And a socket whose write fails is not put
back, but stays in `connections`.  Where neither happens no socket drops out
(`beating_of_onTime`).

Every operation on the map, the queue and the monitor of the queue is a step, and so is
every reading of the clock.
-/

namespace MikaAudio.Server

open Interleave (Reach run)

/-- Where `HeartbeatOutThread.run` stands; sockets are numbers. -/
inductive HeartbeatPc
  /-- `running = true`. -/
  | begin
  /-- `while (running)`. -/
  | test
  /-- `if (queue.isEmpty())`. -/
  | isEmpty
  /-- `synchronized (queue) { queue.wait(); }`. -/
  | wait
  /-- In `queue.wait()`. -/
  | waiting
  /-- `socket = queue.poll()`. -/
  | poll
  /-- `wait = connections.get(socket)`, and `continue` if there is none. -/
  | get (socket : Nat)
  /-- `instant = wait - System.currentTimeMillis()`, and `wait(instant)` if it is positive. -/
  | instant (socket : Nat) (wait : Int)
  /-- `socket.getOutputStream().write(ModuleManager.ACK)`. -/
  | write (socket : Nat)
  /-- `connections.put(socket, ..)`. -/
  | put (socket : Nat)
  /-- `queue.add(socket)`. -/
  | add (socket : Nat)
  /-- `run` has returned. -/
  | ended
  /-- An exception has left it. -/
  | dead
  deriving DecidableEq

/-- The socket between `queue.poll()` and `queue.add(socket)`. -/
def HeartbeatPc.held : HeartbeatPc → Option Nat
  | get i => some i
  | instant i _ => some i
  | write i => some i
  | put i => some i
  | add i => some i
  | _ => none

/-- The loop is over. -/
def HeartbeatPc.over : HeartbeatPc → Bool
  | ended => true
  | dead => true
  | _ => false

/-- How far `addConnection(socket)` has come. -/
inductive AddPc
  /-- It has not been called. -/
  | before
  /-- `connections.put(..)` is done. -/
  | noted
  /-- `queue.add(socket)` is done. -/
  | queued
  /-- `queue.notify()` is done. -/
  | notified
  deriving DecidableEq

/-- The socket was put into the queue. -/
def AddPc.added : AddPc → Bool
  | queued => true
  | notified => true
  | _ => false

/-- The fields of `HeartbeatOutThread`, the loop, and the calls of `addConnection`.  `failed`
are the sockets a write to which has failed, and `stopped` says that `stop()` was called; the
program keeps neither. -/
structure Heartbeat where
  running : Bool := false
  connections : Nat → Option Int := fun _ => none
  queue : List Nat := []
  pc : HeartbeatPc := .begin
  adding : Nat → AddPc := fun _ => .before
  failed : Nat → Bool := fun _ => false
  stopped : Bool := false

/-- `INTERVAL_HEARTBEAT`. -/
def intervalHeartbeat : Int := 5000

namespace Heartbeat

/-- Who moves; `now` is what `System.currentTimeMillis()` gives. -/
inductive Label
  /-- The next statement of `addConnection(socket)`. -/
  | addConnection (socket : Nat) (now : Int)
  /-- `stop()`. -/
  | stop
  /-- The next operation of the loop; a write may fail. -/
  | thread (now : Int) (ok : Bool)

/-- `connections.put(socket, now + INTERVAL_HEARTBEAT)`. -/
def put (socket : Nat) (now : Int) (s : Heartbeat) : Heartbeat :=
  { s with connections :=
      Function.update s.connections socket (some (now + intervalHeartbeat)) }

/-- The call of `addConnection(socket)` has come further. -/
def addTo (socket : Nat) (pc : AddPc) (s : Heartbeat) : Heartbeat :=
  { s with adding := Function.update s.adding socket pc }

/-- The next statement of `addConnection(socket)`. -/
def addStep (socket : Nat) (now : Int) (s : Heartbeat) : Option Heartbeat :=
  match s.adding socket with
  | .before => some ((s.put socket now).addTo socket .noted)
  | .noted => some { s.addTo socket .queued with queue := s.queue ++ [socket] }
  | .queued =>
    some { s.addTo socket .notified with pc := if s.pc = .waiting then .test else s.pc }
  | .notified => none

/-- The next operation of the loop. -/
def threadStep (now : Int) (ok : Bool) (s : Heartbeat) : Option Heartbeat :=
  match s.pc with
  | .begin => some { s with running := true, pc := .test }
  | .test => some { s with pc := if s.running then .isEmpty else .ended }
  | .isEmpty => some { s with pc := if s.queue = [] then .wait else .poll }
  | .wait => some { s with pc := .waiting }
  | .waiting => none
  | .poll =>
    match s.queue with
    | i :: rest => some { s with queue := rest, pc := .get i }
    | [] => some { s with pc := .test }
  | .get i =>
    match s.connections i with
    | some wait => some { s with pc := .instant i wait }
    | none => some { s with pc := .test }
  | .instant i wait => some { s with pc := if 0 < wait - now then .dead else .write i }
  | .write i =>
    if ok then some { s with pc := .put i }
    else some { s with pc := .test, failed := Function.update s.failed i true }
  | .put i => some { s.put i now with pc := .add i }
  | .add i => some { s with queue := s.queue ++ [i], pc := .test }
  | .ended => none
  | .dead => none

/-- One step.  An operation on the `HashMap` or on the queue is one step as a whole, although
no lock keeps `addConnection` and the loop apart. -/
def step (l : Label) (s : Heartbeat) : Option Heartbeat :=
  match l with
  | .addConnection i now => s.addStep i now
  | .stop => some { s with running := false, stopped := true }
  | .thread now ok => s.threadStep now ok

/-- No connection drops out: a socket is once in the queue or held by the loop, one that has
failed is gone, and the loop goes on until it is stopped. -/
structure Beating (s : Heartbeat) : Prop where
  kept : ∀ i, (s.adding i).added = true → s.failed i = false →
    s.queue.count i = 1 ∧ s.pc.held ≠ some i ∨ s.queue.count i = 0 ∧ s.pc.held = some i
  dropped : ∀ i, s.failed i = true → i ∉ s.queue ∧ s.connections i = none
  ended : s.pc.over = true → s.stopped = true

/-- The loop comes to a socket when its time has come, and no write fails. -/
def OnTime : Label → Heartbeat → Prop
  | .thread now ok, s =>
    match s.pc with
    | .instant _ wait => wait ≤ now
    | .write _ => ok = true
    | _ => True
  | _, _ => True

instance (l : Label) (s : Heartbeat) : Decidable (OnTime l s) := by
  unfold OnTime
  split
  · split
    all_goals infer_instance
  · infer_instance

/-! ### The invariant -/

/-- How often a socket is in the queue or with the loop. -/
def places (queue : List Nat) (pc : HeartbeatPc) (i : Nat) : Nat :=
  queue.count i + if pc.held = some i then 1 else 0

theorem places_append (queue : List Nat) (pc : HeartbeatPc) (i j : Nat) :
    places (queue ++ [i]) pc j = places queue pc j + if i = j then 1 else 0 := by
  rw [places, places, List.count_append, List.count_cons, List.count_nil]
  by_cases hij : i = j
  · subst hij
    simp only [beq_self_eq_true, if_true]
    omega
  · simp only [beq_eq_false_iff_ne.mpr hij, Bool.false_eq_true, if_false, if_neg hij]
    omega

/-- What holds as long as the loop is on time. -/
structure Inv (s : Heartbeat) : Prop where
  places : ∀ i, places s.queue s.pc i = (s.adding i).added.toNat
  noted : ∀ i, s.adding i ≠ .before → (s.connections i).isSome = true
  failed : ∀ i, s.failed i = false
  running : s.pc ≠ .begin → s.running = false → s.stopped = true
  ended : s.pc.over = true → s.stopped = true

variable {s t : Heartbeat} {l : Label} {i : Nat} {now : Int} {ok : Bool}

theorem Inv.beating (h : Inv s) : Beating s := by
  refine ⟨fun i hadded _ => ?_, fun i hf => ?_, h.ended⟩
  · have hplaces := h.places i
    rw [hadded, Bool.toNat_true, Heartbeat.places] at hplaces
    split_ifs at hplaces with hheld
    · exact Or.inr ⟨by omega, hheld⟩
    · exact Or.inl ⟨by omega, hheld⟩
  · exact Bool.noConfusion ((h.failed i).symm.trans hf)

theorem Inv.of_held (h : Inv s) (hheld : s.pc.held = some i) :
    (s.adding i).added = true ∧ s.queue.count i = 0 := by
  have hplaces := h.places i
  rw [Heartbeat.places, if_pos hheld] at hplaces
  cases hadded : (s.adding i).added with
  | true =>
    rw [hadded, Bool.toNat_true] at hplaces
    exact ⟨rfl, by omega⟩
  | false =>
    rw [hadded, Bool.toNat_false] at hplaces
    omega

theorem Inv.moved (h : Inv s) {pc pc' : HeartbeatPc} (hpc : s.pc = pc) (hheld : pc'.held = pc.held)
    (hbegin : pc ≠ .begin) (hended : pc'.over = true → s.running = false) :
    Inv { s with pc := pc' } where
  places i := by
    rw [← h.places i, Heartbeat.places, Heartbeat.places, hpc, hheld]
  noted := h.noted
  failed := h.failed
  running _ hr := h.running (hpc ▸ hbegin) hr
  ended ho := h.running (hpc ▸ hbegin) (hended ho)

/-- A socket whose call comes further has a time. -/
theorem Inv.noted_addTo (h : Inv s) (hnoted : (s.connections i).isSome = true) (pc : AddPc)
    (j : Nat) (hj : (s.addTo i pc).adding j ≠ .before) : (s.connections j).isSome = true := by
  by_cases hji : j = i
  · exact hji ▸ hnoted
  · exact h.noted j (by simpa only [Heartbeat.addTo, Function.update_of_ne hji] using hj)

theorem Inv.addTo (h : Inv s) {pc : AddPc} (hadded : pc.added = (s.adding i).added)
    (hnoted : (s.connections i).isSome = true) : Inv (s.addTo i pc) where
  places j := by
    refine (h.places j).trans (congrArg Bool.toNat ?_)
    by_cases hj : j = i
    · subst hj
      simp only [Heartbeat.addTo, Function.update_self, hadded]
    · simp only [Heartbeat.addTo, Function.update_of_ne hj]
  noted := h.noted_addTo hnoted pc
  failed := h.failed
  running := h.running
  ended := h.ended

theorem Inv.queued (h : Inv s) (ha : s.adding i = .noted) :
    Inv { s.addTo i .queued with queue := s.queue ++ [i] } where
  places j := by
    show Heartbeat.places (s.queue ++ [i]) s.pc j =
      (Function.update s.adding i AddPc.queued j).added.toNat
    rw [places_append, h.places j]
    by_cases hij : i = j
    · subst hij
      rw [if_pos rfl, Function.update_self, ha]
      rfl
    · rw [if_neg hij, Function.update_of_ne (Ne.symm hij), Nat.add_zero]
  noted := h.noted_addTo (h.noted i (by rw [ha]; decide)) .queued
  failed := h.failed
  running := h.running
  ended := h.ended

theorem Inv.put (h : Inv s) (i : Nat) (now : Int) : Inv (s.put i now) where
  places := h.places
  noted j hj := by
    by_cases hji : j = i
    · subst hji
      simp only [Heartbeat.put, Function.update_self, Option.isSome_some]
    · simp only [Heartbeat.put, Function.update_of_ne hji]
      exact h.noted j hj
  failed := h.failed
  running := h.running
  ended := h.ended

theorem put_isSome (s : Heartbeat) (i : Nat) (now : Int) :
    ((s.put i now).connections i).isSome = true := by
  simp only [put, Function.update_self, Option.isSome_some]

theorem Inv.addStep (h : Inv s) (hst : Heartbeat.addStep i now s = some t) : Inv t := by
  rw [Heartbeat.addStep] at hst
  cases ha : s.adding i with
  | before =>
    rw [ha] at hst
    cases hst
    exact (h.put i now).addTo (congrArg AddPc.added ha).symm (put_isSome s i now)
  | noted =>
    rw [ha] at hst
    cases hst
    exact h.queued ha
  | queued =>
    rw [ha] at hst
    cases hst
    have hnoted := h.noted i (by rw [ha]; decide)
    have hadd : Inv (s.addTo i .notified) := h.addTo (congrArg AddPc.added ha).symm hnoted
    by_cases hwait : s.pc = .waiting
    · rw [if_pos hwait]
      exact hadd.moved hwait rfl nofun nofun
    · rw [if_neg hwait]
      exact hadd
  | notified =>
    rw [ha] at hst
    cases hst

theorem Inv.stop (h : Inv s) : Inv { s with running := false, stopped := true } where
  places := h.places
  noted := h.noted
  failed := h.failed
  running _ _ := rfl
  ended _ := rfl

theorem Inv.poll (h : Inv s) (hpc : s.pc = .poll) {rest : List Nat} (hq : s.queue = i :: rest) :
    Inv { s with queue := rest, pc := .get i } where
  places j := by
    rw [← h.places j, hpc, hq]
    show rest.count j + _ = (i :: rest).count j + _
    rw [List.count_cons]
    by_cases hij : i = j
    · subst hij
      simp [HeartbeatPc.held]
    · simp [HeartbeatPc.held, hij]
  noted := h.noted
  failed := h.failed
  running _ hr := h.running (by rw [hpc]; nofun) hr
  ended := nofun

theorem Inv.add (h : Inv s) (hpc : s.pc = .add i) :
    Inv { s with queue := s.queue ++ [i], pc := .test } where
  places j := by
    rw [← h.places j, hpc]
    show Heartbeat.places (s.queue ++ [i]) .test j = _
    rw [places_append, Heartbeat.places, Heartbeat.places]
    simp [HeartbeatPc.held]
  noted := h.noted
  failed := h.failed
  running _ hr := h.running (by rw [hpc]; nofun) hr
  ended := nofun

/-- **The loop keeps the invariant** as long as it is on time. -/
theorem Inv.threadStep (h : Inv s) (hok : OnTime (.thread now ok) s)
    (hst : Heartbeat.threadStep now ok s = some t) : Inv t := by
  rw [Heartbeat.threadStep] at hst
  rw [OnTime] at hok
  cases hpc : s.pc with
  | begin =>
    rw [hpc] at hst
    cases hst
    refine ⟨fun j => ?_, h.noted, h.failed, fun _ hr => Bool.noConfusion hr, nofun⟩
    rw [← h.places j, hpc]
    rfl
  | test =>
    rw [hpc] at hst
    cases hst
    refine h.moved hpc ?_ nofun fun ho => ?_
    · split_ifs
      · rfl
      · rfl
    · cases hr : s.running with
      | true => rw [hr] at ho; cases ho
      | false => rfl
  | isEmpty =>
    rw [hpc] at hst
    cases hst
    refine h.moved hpc ?_ nofun fun ho => ?_
    · split_ifs
      · rfl
      · rfl
    · split_ifs at ho
      · cases ho
      · cases ho
  | wait =>
    rw [hpc] at hst
    cases hst
    exact h.moved hpc rfl nofun nofun
  | waiting | ended | dead =>
    rw [hpc] at hst
    cases hst
  | poll =>
    rw [hpc] at hst
    dsimp only at hst
    split at hst
    · rename_i i rest hq
      cases hst
      exact h.poll hpc hq
    · cases hst
      exact h.moved hpc rfl nofun nofun
  | get i =>
    rw [hpc] at hst
    -- the socket was added, so there is a time for it
    have hadded := (h.of_held (i := i) (by rw [hpc]; rfl)).1
    have hnoted := h.noted i (fun hb => by rw [hb] at hadded; cases hadded)
    obtain ⟨wait, hwait⟩ := Option.isSome_iff_exists.mp hnoted
    simp only [hwait] at hst
    cases hst
    exact h.moved hpc rfl nofun nofun
  | instant i wait =>
    rw [hpc] at hst
    simp only [hpc] at hok
    cases hst
    rw [if_neg (by omega)]
    exact h.moved hpc rfl nofun nofun
  | write i =>
    rw [hpc] at hst
    simp only [hpc] at hok
    subst hok
    cases hst
    exact h.moved hpc rfl nofun nofun
  | put i =>
    rw [hpc] at hst
    cases hst
    exact (h.put i now).moved hpc rfl nofun nofun
  | add i =>
    rw [hpc] at hst
    cases hst
    exact h.add hpc

theorem Inv.step (h : Inv s) (hok : OnTime l s) (hst : Heartbeat.step l s = some t) : Inv t := by
  cases l with
  | addConnection i now => exact h.addStep hst
  | stop =>
    cases hst
    exact h.stop
  | thread now ok => exact h.threadStep hok hst

/-! ### What being late does -/

/-- **A positive `instant` ends the loop with the socket in its hands.** -/
theorem Inv.late (h : Inv s) {wait : Int} (hpc : s.pc = .instant i wait) :
    ¬ Beating { s with pc := .dead } := by
  intro hb
  obtain ⟨hadded, hcount⟩ := h.of_held (i := i) (by rw [hpc]; rfl)
  rcases hb.kept i hadded (h.failed i) with ⟨hone, _⟩ | ⟨_, hheld⟩
  · exact absurd (hcount.symm.trans hone) (by decide)
  · cases hheld

/-- **A socket whose write fails stays in the map.** -/
theorem Inv.fails (h : Inv s) (hpc : s.pc = .write i) :
    ¬ Beating { s with pc := .test, failed := Function.update s.failed i true } := by
  intro hb
  have hadded := (h.of_held (i := i) (by rw [hpc]; rfl)).1
  have hnoted := h.noted i (fun hbefore => by rw [hbefore] at hadded; cases hadded)
  have hnone : s.connections i = none := (hb.dropped i (Function.update_self i true s.failed)).2
  rw [hnone] at hnoted
  cases hnoted

theorem Inv.not_beating (h : Inv s) (hok : ¬ OnTime l s) (hst : Heartbeat.step l s = some t) :
    ¬ Beating t := by
  cases l with
  | addConnection i now | stop => exact absurd trivial hok
  | thread now ok =>
    rw [Heartbeat.step, Heartbeat.threadStep] at hst
    rw [OnTime] at hok
    cases hpc : s.pc with
    | instant i wait =>
      simp only [hpc] at hst hok
      rw [if_pos (by omega), Option.some.injEq] at hst
      exact hst ▸ h.late hpc
    | write i =>
      simp only [hpc] at hst hok
      rw [if_neg hok, Option.some.injEq] at hst
      exact hst ▸ h.fails hpc
    | _ =>
      simp only [hpc] at hok
      exact absurd trivial hok

theorem Inv.init : Inv {} where
  places _ := rfl
  noted _ hn := absurd rfl hn
  failed _ := rfl
  running hb := absurd rfl hb
  ended := nofun

/-- **As long as the loop comes to each socket on time and no write fails, no connection drops
out**; and the first step that is late or fails loses one. -/
theorem beating_of_onTime (h : Reach step OnTime {} s) :
    Beating s ∧ ∀ l t, step l s = some t → (Beating t ↔ OnTime l s) := by
  have hinv : Inv s := h.invariant Inv.init fun _ _ _ hi hok hst => hi.step hok hst
  refine ⟨hinv.beating, fun l t hst => ⟨fun hb => ?_, fun hok => (hinv.step hok hst).beating⟩⟩
  by_contra hok
  exact hinv.not_beating hok hst hb

/-- One operation of the loop at a time. -/
def beats (now : Int) (n : Nat) : List Label := List.replicate n (.thread now true)

/-- A socket is added, and written to five seconds later. -/
theorem beating_of_onTime_one : ∃ s : Heartbeat, s.queue = [7] ∧ Beating s := by
  obtain ⟨s, hs, hk⟩ := Reach.exists_of_run (show
    (run (fun l s => if OnTime l s then step l s else none)
      (List.replicate 3 (.addConnection 7 0) ++ beats 5000 9) {}).map (·.queue) = some [7]
    by decide)
  exact ⟨s, hk, (beating_of_onTime hs).1⟩

/-- **A socket that was just added** ends the loop. -/
theorem loop_dies : ¬ ∀ s, Reach step (fun _ _ => True) {} s → Beating s := by
  intro hclaim
  obtain ⟨s, hs, hk⟩ := Reach.exists_of_run (show
    (run (fun l s => if True then step l s else none)
      (List.replicate 3 (.addConnection 7 0) ++ beats 1 6) {}).map
      (fun s => (s.pc, s.stopped)) = some (.dead, false) by decide)
  simp only [Prod.mk.injEq] at hk
  have hstopped := (hclaim s hs).ended (by rw [hk.1]; rfl)
  rw [hk.2] at hstopped
  cases hstopped

end Heartbeat

end MikaAudio.Server
