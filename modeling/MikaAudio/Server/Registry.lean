import MikaAudio.Server.Shutdown

/-!
# Which connections are in the list

The server of `Shutdown` in any order of its steps, whether it is shut down or not and however
the iteration in `onDestroy` ends.

* `registry_exact`: `connections` holds each connection once, from `addSocket` until its thread
  removes it as the last thing it does: those that are served, and those whose thread an exception
  has ended, which stay there closed.  A connection that is not in the list is closed, or on its
  way into it, or the one whose `setSoTimeout` has ended the accept thread.
* `accept_ends`: `AcceptClientTask.run` sets `running` as it begins, after `onDestroy` has cleared
  it or before; it ends nevertheless, for it is the socket that stops it.
-/

namespace MikaAudio.Server

open Thread Interleave FailFast

/-- The connection that `addSocket` was called for. -/
def AcceptPc.socket? : AcceptPc → Option Nat
  | setSoTimeout c => some c
  | add c => some c
  | startThread c => some c
  | _ => none

/-- The operations up to the end once the server socket is closed. -/
def AcceptPc.toEnd : AcceptPc → Nat
  | setRunning => 3
  | loop => 2
  | accept => 1
  | setSoTimeout _ => 5
  | add _ => 4
  | startThread _ => 3
  | ended => 0

namespace Shutdown

/-- Any schedule. -/
abbrev Any : Label → Shutdown → Prop := fun _ _ => True

/-- The thread of the connection has not removed it. -/
def Kept (s : Shutdown) (c : Nat) : Prop :=
  s.accept = .startThread c ∨ s.runs c ≠ .unstarted ∧ s.runs c ≠ .run .done

/-- The connection was dropped when `setSoTimeout` failed. -/
def Dropped (s : Shutdown) (c : Nat) : Prop := s.accept = .ended ∧ s.runs c = .unstarted

/-- The accept thread has the connection, which has no thread yet. -/
def Accepting (s : Shutdown) (c : Nat) : Prop := s.accept.socket? = some c

/-- The list and the threads. -/
structure Registry (s : Shutdown) : Prop where
  nodup : s.memory.connections.Nodup
  kept : ∀ c, c ∈ s.memory.connections ↔ s.Kept c
  accepting : ∀ c, s.Accepting c → c ∈ s.accepted ∧ s.runs c = .unstarted
  started : ∀ c, s.runs c ≠ .unstarted → c ∈ s.accepted
  unstarted : ∀ c ∈ s.accepted, s.runs c = .unstarted → s.Accepting c ∨ s.Dropped c
  closed : ∀ c, s.runs c = .run .remove ∨ s.runs c = .run .done ∨ s.runs c = .run .dead →
    c ∈ s.memory.closed

variable {s t : Shutdown} {l : Label} {c : Nat}

theorem taskOp_done {pc pc' : TaskPc} {r : Reply Env} {m m' : Memory}
    (h : (taskOp c pc).exec r m = some (m', pc')) (hdone : pc' = .done) : pc = .remove := by
  have hends' : pc'.ends = true := by rw [hdone]; rfl
  cases hends : pc.ends with
  | true => exact (taskOp_of_ends h hends).2.2.2.2.2 hdone
  | false =>
    rcases taskOp_ends h hends hends' with ⟨-, hpc | hpc⟩ | ⟨-, hpc⟩
    all_goals
      rw [hdone] at hpc
      cases hpc

theorem taskOp_dead {pc pc' : TaskPc} {r : Reply Env} {m m' : Memory}
    (h : (taskOp c pc).exec r m = some (m', pc')) (hdead : pc' = .dead) : c ∈ m'.closed := by
  have hends' : pc'.ends = true := by rw [hdead]; rfl
  cases hends : pc.ends with
  | true =>
    obtain rfl := (taskOp_of_ends h hends).2.2.1 hdead
    obtain ⟨_, rfl, hf⟩ := Op.exec_act h
    cases hf
    exact List.mem_cons_self
  | false =>
    rcases taskOp_ends h hends hends' with ⟨-, hpc | hpc⟩ | ⟨-, hpc⟩
    all_goals
      rw [hdead] at hpc
      cases hpc

/-! ### `onDestroy` -/

theorem stepDestroy_same (h : s.stepDestroy = some t) :
    t.memory.connections = s.memory.connections ∧ t.runs = s.runs ∧ t.accept = s.accept ∧
      t.accepted = s.accepted ∧ ∀ c ∈ s.memory.closed, c ∈ t.memory.closed := by
  unfold stepDestroy at h
  cases hpc : s.destroy with
  | next it =>
    rw [hpc] at h
    dsimp only at h
    split at h
    · cases h
      exact ⟨rfl, rfl, rfl, rfl, fun _ => id⟩
    · cases h
      exact ⟨rfl, rfl, rfl, rfl, fun _ => id⟩
  | close d it =>
    rw [hpc] at h
    cases h
    exact ⟨rfl, rfl, rfl, rfl, fun _ => List.mem_cons_of_mem d⟩
  | clearRunning | closeServer | destroyModules | iterator | hasNext it | clearTask d it =>
    rw [hpc] at h
    cases h
    exact ⟨rfl, rfl, rfl, rfl, fun _ => id⟩
  | returned | thrown =>
    rw [hpc] at h
    cases h

theorem Registry.stepDestroy (h : Registry s) (hst : s.stepDestroy = some t) : Registry t := by
  obtain ⟨hconn, hruns, haccept, haccepted, hclosed⟩ := stepDestroy_same hst
  refine ⟨hconn ▸ h.nodup, fun c => ?_, fun c hc => ?_, fun c hc => ?_, fun c hc hrun => ?_,
    fun c hc => hclosed c (h.closed c (hruns ▸ hc))⟩
  · rw [hconn, Kept, haccept, hruns]
    exact h.kept c
  · rw [Accepting, haccept] at hc
    rw [haccepted, hruns]
    exact h.accepting c hc
  · rw [hruns] at hc
    rw [haccepted]
    exact h.started c hc
  · rw [haccepted] at hc
    rw [hruns] at hrun
    rw [Accepting, Dropped, haccept, hruns]
    exact h.unstarted c hc hrun

/-! ### The accept thread -/

theorem Registry.of_accept (h : Registry s) (a : Bool) {pc : AcceptPc}
    (hs : s.accept.socket? = none) (hended : s.accept ≠ .ended) (hpc : pc.socket? = none) :
    Registry { s with acceptRunning := a, accept := pc } where
  nodup := h.nodup
  kept c := by
    refine (h.kept c).trans (or_congr_left ⟨fun heq => ?_, fun heq => ?_⟩)
    · rw [heq] at hs
      cases hs
    · obtain rfl : pc = .startThread c := heq
      cases hpc
  accepting c hc := by
    rw [show pc.socket? = some c from hc] at hpc
    cases hpc
  started := h.started
  unstarted c hc hrun := by
    rcases h.unstarted c hc hrun with hacc | hdrop
    · rw [hacc] at hs
      cases hs
    · exact absurd hdrop.1 hended
  closed := h.closed

/-- The connection in its hands is the one it has accepted last. -/
theorem Registry.not_dropped (h : Registry s) (hended : s.accept ≠ .ended) (hc : c ∈ s.accepted)
    (hrun : s.runs c = .unstarted) : s.accept.socket? = some c :=
  (h.unstarted c hc hrun).resolve_right fun hdrop => hended hdrop.1

theorem Registry.accept (h : Registry s) {d : Nat} (hpc : s.accept = .accept)
    (hnew : d ∉ s.accepted) :
    Registry { s with accepted := d :: s.accepted, accept := .setSoTimeout d } where
  nodup := h.nodup
  kept c := by
    refine (h.kept c).trans (or_congr_left ⟨fun heq => ?_, nofun⟩)
    rw [hpc] at heq
    cases heq
  accepting c hc := by
    cases hc
    -- the connection is new, so it has no thread
    exact ⟨List.mem_cons_self, by_contra fun hrun => hnew (h.started d hrun)⟩
  started c hc := List.mem_cons_of_mem d (h.started c hc)
  unstarted c hc hrun := by
    rcases List.mem_cons.mp hc with rfl | hc
    · exact .inl rfl
    · have hacc := h.not_dropped (by rw [hpc]; nofun) hc hrun
      rw [hpc] at hacc
      cases hacc
  closed := h.closed

theorem Registry.setSoTimeout (h : Registry s) {d : Nat} (hpc : s.accept = .setSoTimeout d)
    (ok : Bool) : Registry { s with accept := if ok then .add d else .ended } where
  nodup := h.nodup
  kept c := by
    refine (h.kept c).trans (or_congr_left ⟨fun heq => ?_, ?_⟩)
    · rw [hpc] at heq
      cases heq
    · cases ok
      · nofun
      · nofun
  accepting c hc := by
    cases ok with
    | false => cases hc
    | true =>
      cases hc
      exact h.accepting d (by rw [Accepting, hpc]; rfl)
  started := h.started
  unstarted c hc hrun := by
    have hacc := h.not_dropped (by rw [hpc]; nofun) hc hrun
    rw [hpc] at hacc
    cases hacc
    cases ok with
    | true => exact .inl rfl
    | false => exact .inr ⟨rfl, hrun⟩
  closed := h.closed

theorem Registry.add (h : Registry s) {d n : Nat} (hpc : s.accept = .add d) :
    Registry { s with
      memory := { s.memory with connections := s.memory.connections ++ [d] }
      modCount := n
      accept := .startThread d } where
  nodup := by
    obtain ⟨-, hrun⟩ := h.accepting d (by rw [Accepting, hpc]; rfl)
    refine List.nodup_append.mpr ⟨h.nodup, List.pairwise_singleton _ d, fun a ha b hb => ?_⟩
    rw [List.mem_singleton.mp hb]
    rintro rfl
    rcases (h.kept a).mp ha with heq | ⟨hne, -⟩
    · rw [hpc] at heq
      cases heq
    · exact hne hrun
  kept c := by
    refine List.mem_append.trans ((or_congr (h.kept c) List.mem_singleton).trans ?_)
    unfold Kept
    rw [hpc]
    constructor
    · rintro ((heq | hkept) | rfl)
      · cases heq
      · exact .inr hkept
      · exact .inl rfl
    · rintro (heq | hkept)
      · cases heq
        exact .inr rfl
      · exact .inl (.inr hkept)
  accepting c hc := by
    cases hc
    exact h.accepting d (by rw [Accepting, hpc]; rfl)
  started := h.started
  unstarted c hc hrun := by
    have hacc := h.not_dropped (by rw [hpc]; nofun) hc hrun
    rw [hpc] at hacc
    cases hacc
    exact .inl rfl
  closed := h.closed

theorem Registry.startThread (h : Registry s) {d : Nat} (hpc : s.accept = .startThread d) :
    Registry { s with runs := Function.update s.runs d .getStreams, accept := .loop } := by
  have hother : ∀ c, c ≠ d → Function.update s.runs d .getStreams c = s.runs c :=
    fun c hcd => Function.update_of_ne hcd _ _
  have hself : Function.update s.runs d .getStreams d = .getStreams := Function.update_self _ _ _
  refine ⟨h.nodup, fun c => (h.kept c).trans ?_, nofun, fun c hc => ?_, fun c hc hrun => ?_,
    fun c hc => ?_⟩
  · unfold Kept
    dsimp only
    rw [hpc]
    by_cases hcd : c = d
    · rw [hcd, hself]
      exact iff_of_true (.inl rfl) (.inr ⟨nofun, nofun⟩)
    · rw [hother c hcd]
      refine or_congr_left ⟨fun heq => ?_, nofun⟩
      cases heq
      exact absurd rfl hcd
  · by_cases hcd : c = d
    · rw [hcd]
      exact (h.accepting d (by rw [Accepting, hpc]; rfl)).1
    · exact h.started c (hother c hcd ▸ hc)
  · dsimp only at hrun
    by_cases hcd : c = d
    · rw [hcd, hself] at hrun
      cases hrun
    · have hacc := h.not_dropped (by rw [hpc]; nofun) hc (hother c hcd ▸ hrun)
      rw [hpc] at hacc
      cases hacc
      exact absurd rfl hcd
  · dsimp only at hc
    by_cases hcd : c = d
    · rw [hcd, hself] at hc
      rcases hc with hc | hc | hc
      all_goals cases hc
    · exact h.closed c (hother c hcd ▸ hc)

theorem Registry.stepAccept {socket : Option Nat} (h : Registry s)
    (hst : s.stepAccept socket = some t) : Registry t := by
  unfold Shutdown.stepAccept at hst
  cases hpc : s.accept with
  | setRunning =>
    rw [hpc] at hst
    cases hst
    exact h.of_accept true (by rw [hpc]; rfl) (by rw [hpc]; nofun) rfl
  | loop =>
    rw [hpc] at hst
    cases hst
    refine h.of_accept s.acceptRunning (by rw [hpc]; rfl) (by rw [hpc]; nofun) ?_
    split_ifs
    · rfl
    · rfl
  | accept =>
    rw [hpc] at hst
    cases socket with
    | none =>
      cases hst
      exact h.of_accept s.acceptRunning (by rw [hpc]; rfl) (by rw [hpc]; nofun) rfl
    | some d =>
      dsimp only at hst
      split_ifs at hst with hnew
      cases hst
      exact h.accept hpc hnew.2
  | setSoTimeout d =>
    rw [hpc] at hst
    cases hst
    exact h.setSoTimeout hpc _
  | add d =>
    rw [hpc] at hst
    cases hst
    exact h.add hpc
  | startThread d =>
    rw [hpc] at hst
    cases hst
    exact h.startThread hpc
  | ended =>
    rw [hpc] at hst
    cases hst

/-! ### The thread of a connection -/

/-- Where it comes to makes no difference to the accept thread. -/
theorem Registry.places (h : Registry s) {pc : RunPc} (hs : s.runs c ≠ .unstarted)
    (hpc : pc ≠ .unstarted) :
    (∀ d, s.Accepting d → d ∈ s.accepted ∧ Function.update s.runs c pc d = .unstarted) ∧
      (∀ d, Function.update s.runs c pc d ≠ .unstarted → d ∈ s.accepted) ∧
      ∀ d ∈ s.accepted, Function.update s.runs c pc d = .unstarted →
        s.Accepting d ∨ s.accept = .ended ∧ Function.update s.runs c pc d = .unstarted := by
  have hother : ∀ d, d ≠ c → Function.update s.runs c pc d = s.runs d :=
    fun d hdc => Function.update_of_ne hdc _ _
  refine ⟨fun d hd => ?_, fun d hd => ?_, fun d hd hrun => ?_⟩
  · obtain ⟨haccepted, hrun⟩ := h.accepting d hd
    have hdc : d ≠ c := by
      rintro rfl
      exact hs hrun
    exact ⟨haccepted, (hother d hdc).trans hrun⟩
  · by_cases hdc : d = c
    · rw [hdc]
      exact h.started c hs
    · exact h.started d (hother d hdc ▸ hd)
  · by_cases hdc : d = c
    · rw [hdc, Function.update_self] at hrun
      exact absurd hrun hpc
    · exact (h.unstarted d hd ((hother d hdc).symm.trans hrun)).imp_right fun hdrop =>
        ⟨hdrop.1, hrun⟩

theorem Registry.of_run (h : Registry s) {m : Memory} {n : Nat} {pc : RunPc}
    (hclosed : ∀ d ∈ s.memory.closed, d ∈ m.closed)
    (hconn : m.connections = s.memory.connections)
    (hs : s.runs c ≠ .unstarted ∧ s.runs c ≠ .run .done)
    (hpc : pc ≠ .unstarted ∧ pc ≠ .run .done)
    (hremove : pc = .run .remove ∨ pc = .run .dead → c ∈ m.closed) :
    Registry { s with memory := m, modCount := n, runs := Function.update s.runs c pc } := by
  obtain ⟨haccepting, hstarted, hunstarted⟩ := h.places hs.1 hpc.1
  refine ⟨hconn ▸ h.nodup, fun d => ?_, haccepting, hstarted, hunstarted, fun d hd => ?_⟩
  · dsimp only
    rw [hconn]
    refine (h.kept d).trans ?_
    unfold Kept
    dsimp only
    by_cases hdc : d = c
    · rw [hdc, Function.update_self]
      exact iff_of_true (.inr hs) (.inr hpc)
    · rw [Function.update_of_ne hdc]
  · dsimp only at hd ⊢
    by_cases hdc : d = c
    · rw [hdc, Function.update_self] at hd
      rw [hdc]
      rcases hd with hd | hd | hd
      · exact hremove (.inl hd)
      · exact absurd hd hpc.2
      · exact hremove (.inr hd)
    · rw [Function.update_of_ne hdc] at hd
      exact hclosed d (h.closed d hd)

theorem Registry.remove (h : Registry s) {m : Memory} {n : Nat}
    (hclosed : ∀ d ∈ s.memory.closed, d ∈ m.closed)
    (hconn : m.connections = s.memory.connections.erase c) (hs : s.runs c = .run .remove) :
    Registry { s with
      memory := m, modCount := n, runs := Function.update s.runs c (.run .done) } := by
  have hne : s.runs c ≠ .unstarted := by rw [hs]; nofun
  have hdone : RunPc.run .done ≠ .unstarted := nofun
  obtain ⟨haccepting, hstarted, hunstarted⟩ := h.places hne hdone
  refine ⟨hconn ▸ h.nodup.erase c, fun d => ?_, haccepting, hstarted, hunstarted,
    fun d hd => ?_⟩
  · dsimp only
    rw [hconn, h.nodup.mem_erase_iff, h.kept d]
    unfold Kept
    dsimp only
    by_cases hdc : d = c
    · -- its thread is not to be started any more
      rw [hdc, Function.update_self]
      refine iff_of_false (fun hand => hand.1 rfl) ?_
      rintro (heq | hnot)
      · exact hne (h.accepting c (by rw [Accepting, heq]; rfl)).2
      · exact hnot.2 rfl
    · rw [Function.update_of_ne hdc]
      exact and_iff_right hdc
  · dsimp only at hd ⊢
    by_cases hdc : d = c
    · rw [hdc]
      exact hclosed c (h.closed c (.inl hs))
    · rw [Function.update_of_ne hdc] at hd
      exact hclosed d (h.closed d hd)

theorem Registry.stepRun {r : Reply Env} (h : Registry s) (hst : s.stepRun c r = some t) :
    Registry t := by
  unfold Shutdown.stepRun at hst
  cases hpc : s.runs c with
  | unstarted =>
    rw [hpc] at hst
    cases hst
  | getStreams =>
    rw [hpc] at hst
    cases hst
    refine h.of_run (fun _ => id) rfl (by rw [hpc]; exact ⟨nofun, nofun⟩) ?_ ?_
    · split_ifs
      · exact ⟨nofun, nofun⟩
      · exact ⟨nofun, nofun⟩
    · split_ifs
      · rintro (heq | heq)
        · cases heq
        · cases heq
      · rintro (heq | heq)
        · cases heq
        · cases heq
  | setRunning =>
    rw [hpc] at hst
    cases hst
    refine h.of_run (fun _ => id) rfl (by rw [hpc]; exact ⟨nofun, nofun⟩) ⟨nofun, nofun⟩ ?_
    rintro (heq | heq)
    · cases heq
    · cases heq
  | run pc =>
    simp only [hpc] at hst
    rw [Option.ite_none_right_eq_some] at hst
    obtain ⟨⟨m, pc'⟩, hexec, rfl⟩ := Option.map_eq_some_iff.mp hst.2
    obtain ⟨-, hclosed, hconn⟩ := taskOp_lists hexec
    by_cases hremove : pc = .remove
    · subst hremove
      obtain ⟨_, rfl, hf⟩ := Op.exec_act hexec
      cases hf
      exact h.remove hclosed (hconn.trans (if_pos rfl)) hpc
    · rw [if_neg hremove] at hconn
      have hdone : pc' ≠ .done := fun heq => hremove (taskOp_done hexec heq)
      have hhalt : pc ≠ .done := by
        rintro rfl
        cases r with
        | _ => cases hexec
      refine h.of_run hclosed hconn ?_ ⟨nofun, fun heq => hdone (RunPc.run.inj heq)⟩ ?_
      · rw [hpc]
        exact ⟨nofun, fun heq => hhalt (RunPc.run.inj heq)⟩
      · rintro (heq | heq)
        · exact taskOp_remove hexec (RunPc.run.inj heq)
        · exact taskOp_dead hexec (RunPc.run.inj heq)

theorem Registry.step (h : Registry s) (hst : Shutdown.step l s = some t) : Registry t := by
  cases l with
  | destroy => exact h.stepDestroy hst
  | accept socket => exact h.stepAccept hst
  | run c r => exact h.stepRun hst

theorem Registry.init : Registry {} := by
  refine ⟨List.nodup_nil, fun _ => iff_of_false nofun ?_, nofun, fun _ h => absurd rfl h, nofun, ?_⟩
  · rintro (h | h)
    · cases h
    · exact h.1 rfl
  · rintro c (h | h | h)
    all_goals cases h

/-- The accept thread moves. -/
def Accepts (s t : Shutdown) : Prop := ∃ socket, s.stepAccept socket = some t

/-- A closed server socket gives no connection, and each operation brings the thread nearer to
its end. -/
theorem stepAccept_of_closed {socket : Option Nat} (hclosed : s.serverClosed = true)
    (hst : s.stepAccept socket = some t) :
    t.accepted = s.accepted ∧ t.serverClosed = true ∧ t.accept.toEnd < s.accept.toEnd := by
  unfold stepAccept at hst
  cases hpc : s.accept with
  | accept =>
    rw [hpc] at hst
    cases socket with
    | none =>
      cases hst
      exact ⟨rfl, hclosed, Nat.zero_lt_one⟩
    | some d =>
      dsimp only at hst
      rw [if_neg (by rintro ⟨hopen, -⟩; exact Bool.noConfusion (hopen.symm.trans hclosed))] at hst
      cases hst
  | ended =>
    rw [hpc] at hst
    cases hst
  | loop =>
    rw [hpc] at hst
    cases hst
    refine ⟨rfl, hclosed, ?_⟩
    dsimp only
    split_ifs
    · decide
    · decide
  | setSoTimeout d =>
    rw [hpc] at hst
    cases hst
    refine ⟨rfl, hclosed, ?_⟩
    dsimp only
    split_ifs
    · simp [AcceptPc.toEnd]
    · simp [AcceptPc.toEnd]
  | setRunning | add d | startThread d =>
    rw [hpc] at hst
    cases hst
    exact ⟨rfl, hclosed, by simp [AcceptPc.toEnd]⟩

/-- The others neither accept a connection nor open the server socket again. -/
theorem accepted_of_closed (hclosed : s.serverClosed = true) (hst : Shutdown.step l s = some t) :
    t.accepted = s.accepted ∧ t.serverClosed = true := by
  cases l with
  | destroy =>
    refine ⟨(stepDestroy_same hst).2.2.2.1, ?_⟩
    rw [Shutdown.step] at hst
    unfold Shutdown.stepDestroy at hst
    cases hpc : s.destroy with
    | next it =>
      rw [hpc] at hst
      dsimp only at hst
      split at hst
      · cases hst
        exact hclosed
      · cases hst
        exact hclosed
    | closeServer =>
      rw [hpc] at hst
      cases hst
      rfl
    | clearRunning | destroyModules | iterator | hasNext it | clearTask d it | close d it =>
      rw [hpc] at hst
      cases hst
      exact hclosed
    | returned | thrown =>
      rw [hpc] at hst
      cases hst
  | accept socket =>
    obtain ⟨haccepted, hstill, -⟩ := stepAccept_of_closed hclosed hst
    exact ⟨haccepted, hstill⟩
  | run c r =>
    rw [Shutdown.step] at hst
    unfold Shutdown.stepRun at hst
    cases hpc : s.runs c with
    | unstarted =>
      rw [hpc] at hst
      cases hst
    | getStreams | setRunning =>
      rw [hpc] at hst
      cases hst
      exact ⟨rfl, hclosed⟩
    | run pc =>
      simp only [hpc] at hst
      rw [Option.ite_none_right_eq_some] at hst
      obtain ⟨-, -, rfl⟩ := Option.map_eq_some_iff.mp hst.2
      exact ⟨rfl, hclosed⟩

theorem exists_accepts (hended : s.accept ≠ .ended) : ∃ t, s.Accepts t := by
  cases hpc : s.accept with
  | ended => exact absurd hpc hended
  | _ => exact ⟨_, none, by unfold stepAccept; rw [hpc]⟩

/-- **The accept thread ends once the server socket is closed**, and accepts nothing any more,
whatever it finds in `running` and whoever else moves. -/
theorem accept_ends (hclosed : s.serverClosed = true) :
    (∀ t, Reach step Any s t → t.accepted = s.accepted) ∧
      ∀ t, Reach step Any s t → Inevitable Accepts (fun u => u.accept = .ended) t := by
  have hkeeps : ∀ t, Reach step Any s t → t.accepted = s.accepted ∧ t.serverClosed = true := by
    intro t h
    refine h.invariant (I := fun t => t.accepted = s.accepted ∧ t.serverClosed = true)
      ⟨rfl, hclosed⟩ fun u v l hu _ hst => ?_
    obtain ⟨haccepted, hstill⟩ := accepted_of_closed hu.2 hst
    exact ⟨haccepted.trans hu.1, hstill⟩
  refine ⟨fun t h => (hkeeps t h).1, fun t h => ?_⟩
  refine Inevitable.of_rank (fun u => u.accept.toEnd) (fun u _ hended => exists_accepts hended)
    (fun u v hu _ huv => ?_) (I := fun u => u.serverClosed = true) (hkeeps t h).2
  obtain ⟨socket, huv⟩ := huv
  exact (stepAccept_of_closed hu huv).2

/-- `onDestroy` has cleared the flag before the thread begins, and closed the socket. -/
theorem accept_ends_early : ∃ s : Shutdown, s.acceptRunning = true ∧
    Inevitable Accepts (fun u => u.accept = .ended) s := by
  obtain ⟨s, hs, hk⟩ := Reach.exists_of_run (show
    (run (fun l s => if Any l s then step l s else none)
      [.destroy, .destroy, .accept none] {}).map
      (fun s => (s.acceptRunning, s.serverClosed)) = some (true, true) by decide +kernel)
  obtain ⟨hrunning, hclosed⟩ := Prod.mk.inj hk
  exact ⟨s, hrunning, (accept_ends hclosed).2 s .refl⟩

end Shutdown

end MikaAudio.Server
