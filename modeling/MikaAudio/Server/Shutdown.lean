import MikaAudio.Server.Escape
import MikaAudio.Lib.FailFast

/-!
# `P2PManager.onDestroy` and the threads it shuts down

`ModuleManager.onDestroy` goes over `connections` with an iterator while the connections
it closes remove themselves from the list, each on its own thread, and the accept thread
may still add one.  An iterator does not stand this: the next `next()` throws, or the loop
ends early because the list has become short enough (where `hasNext` counts the elements
that remain, as Android's does, `next()` throws then, too).

`Orderly` says where the list must hold still.  It is no condition the program could rely
on: closing a connection is what makes it remove itself.
-/

namespace MikaAudio.Server

open Thread Interleave FailFast

/-- Where the thread of a connection stands. -/
inductive RunPc
  /-- There is no thread yet. -/
  | unstarted
  /-- `getInputStream()` and `getOutputStream()`. -/
  | getStreams
  /-- `running = true`. -/
  | setRunning
  /-- The rest of `CommunicationTask.run`. -/
  | run (pc : TaskPc)
  deriving DecidableEq

/-- Where `AcceptClientTask.run` stands. -/
inductive AcceptPc
  /-- `running = true`. -/
  | setRunning
  /-- `while (running)`. -/
  | loop
  /-- `serverSocket.accept()`. -/
  | accept
  /-- `addSocket`: `socket.setSoTimeout(..)`. -/
  | setSoTimeout (c : Nat)
  /-- `connections.add(connection)`. -/
  | add (c : Nat)
  /-- `new Thread(communication).start()`. -/
  | startThread (c : Nat)
  | ended
  deriving DecidableEq

/-- Where `P2PManager.onDestroy` stands. -/
inductive DestroyPc
  /-- `acceptClientTask.onDestroy()`: `running = false`. -/
  | clearRunning
  /-- `serverSocket.close()`. -/
  | closeServer
  /-- `frameModule.onDestroy()` and `irModule.onDestroy()`. -/
  | destroyModules
  /-- `for (Connection c : connections)`: the iterator is made. -/
  | iterator
  /-- `hasNext()`. -/
  | hasNext (it : Iterator)
  /-- `next()`. -/
  | next (it : Iterator)
  /-- `c.onDestroy()`: `running = false`. -/
  | clearTask (c : Nat) (it : Iterator)
  /-- `connection.getConnection().close()`. -/
  | close (c : Nat) (it : Iterator)
  /-- The loop has ended. -/
  | returned
  /-- `next()` has thrown. -/
  | thrown
  deriving DecidableEq

/-- The server that is shut down.  `accepted` are all connections `accept()` has given, and
`visited` those `next()` has given; the program keeps neither. -/
structure Shutdown where
  memory : Memory := {}
  modCount : Nat := 0
  runs : Nat → RunPc := fun _ => .unstarted
  accept : AcceptPc := .setRunning
  acceptRunning : Bool := false
  serverClosed : Bool := false
  destroy : DestroyPc := .clearRunning
  accepted : List Nat := []
  visited : List Nat := []

namespace Shutdown

/-- `connections`. -/
def list (s : Shutdown) : ModList Nat := ⟨s.memory.connections, s.modCount⟩

/-- Who moves. -/
inductive Label
  /-- The thread that has called `onDestroy`. -/
  | destroy
  /-- The accept thread; `none` is an `IOException`. -/
  | accept (socket : Option Nat)
  /-- The thread of connection `c`. -/
  | run (c : Nat) (r : Reply Env)

/-- The next operation of `onDestroy`. -/
def stepDestroy (s : Shutdown) : Option Shutdown :=
  match s.destroy with
  | .clearRunning => some { s with acceptRunning := false, destroy := .closeServer }
  | .closeServer => some { s with serverClosed := true, destroy := .destroyModules }
  | .destroyModules =>
    some { s with memory := s.memory.onFrame FrameModule.stop, destroy := .iterator }
  | .iterator => some { s with destroy := .hasNext s.list.iterator }
  | .hasNext it =>
    some { s with destroy := if it.hasNext s.list then .next it else .returned }
  | .next it =>
    match it.next s.list with
    | .element c it => some { s with destroy := .clearTask c it, visited := s.visited ++ [c] }
    | _ => some { s with destroy := .thrown }
  | .clearTask c it =>
    some { s with
      memory := { s.memory with running := Function.update s.memory.running c false }
      destroy := .close c it }
  | .close c it =>
    some { s with
      memory := { s.memory with closed := c :: s.memory.closed }
      destroy := .hasNext it }
  | .returned => none
  | .thrown => none

/-- The next operation of the accept thread. -/
def stepAccept (socket : Option Nat) (s : Shutdown) : Option Shutdown :=
  match s.accept with
  | .setRunning => some { s with acceptRunning := true, accept := .loop }
  | .loop => some { s with accept := if s.acceptRunning then .accept else .ended }
  | .accept =>
    match socket with
    | some c =>
      if s.serverClosed = false ∧ c ∉ s.accepted then
        some { s with accepted := c :: s.accepted, accept := .setSoTimeout c }
      else none
    | none => some { s with accept := .ended }
  | .setSoTimeout c => some { s with accept := if socket.isSome then .add c else .ended }
  | .add c =>
    some { s with
      memory := { s.memory with connections := (s.list.add c).elems }
      modCount := (s.list.add c).modCount
      accept := .startThread c }
  | .startThread c =>
    some { s with runs := Function.update s.runs c .getStreams, accept := .loop }
  | .ended => none

/-- On a closed socket every read and write is an I/O error. -/
def answers (closed : Bool) : Op Env Memory TaskPc → Reply Env → Bool
  | .read _, .read r => !closed || r = .error
  | .readBuf _ _, .readBuf r => !closed || r = .error
  | .write _ _, .done ok => !closed || !ok
  | _, _ => true

/-- The next operation of the thread of connection `c`. -/
def stepRun (c : Nat) (r : Reply Env) (s : Shutdown) : Option Shutdown :=
  match s.runs c with
  | .unstarted => none
  | .getStreams =>
    some { s with
      runs := Function.update s.runs c
        (if c ∈ s.memory.closed then .run .closeSocket else .setRunning) }
  | .setRunning =>
    some { s with
      memory := { s.memory with running := Function.update s.memory.running c true }
      runs := Function.update s.runs c (.run .loop) }
  | .run pc =>
    if answers (c ∈ s.memory.closed) (taskOp c pc) r then
      ((taskOp c pc).exec r s.memory).map fun next =>
        { s with
          memory := next.1
          modCount := if pc = .remove then (s.list.remove c).modCount else s.modCount
          runs := Function.update s.runs c (.run next.2) }
    else none

/-- One step of one thread. -/
def step (l : Label) (s : Shutdown) : Option Shutdown :=
  match l with
  | .destroy => s.stepDestroy
  | .accept socket => s.stepAccept socket
  | .run c r => s.stepRun c r

/-! ### What is asked of a shutdown -/

/-- There is no thread, it has ended, or it waits for the client. -/
def idle (c : Nat) (closed : Bool) : RunPc → Bool
  | .unstarted => true
  | .run pc =>
    match taskOp c pc with
    | .halt => true
    | .read _ => !closed
    | .readBuf _ _ => !closed
    | _ => false
  | _ => false

/-- `next()` is called on an unchanged list, and the loop ends over an unchanged list or
one whose connections were all visited. -/
def listHolds (list : ModList Nat) (visited : List Nat) : DestroyPc → Bool
  | .next it => decide (list.modCount = it.expected)
  | .hasNext it => it.hasNext list || decide (list.modCount = it.expected) ||
      list.elems.all fun c => decide (c ∈ visited)
  | _ => true

/-- Nothing is added after the loop, and `setSoTimeout` does not fail. -/
def addsInTime (destroy : DestroyPc) (socket : Option Nat) : AcceptPc → Bool
  | .add _ => decide (destroy ≠ .returned)
  | .setSoTimeout _ => socket.isSome
  | _ => true

/-- The list holds still for the loop. -/
def Orderly (l : Label) (s : Shutdown) : Prop :=
  match l with
  | .destroy => listHolds s.list s.visited s.destroy = true
  | .accept socket => addsInTime s.destroy socket s.accept = true
  | .run _ _ => True

instance (l : Label) (s : Shutdown) : Decidable (Orderly l s) := by
  induction l using Label.casesOn
  all_goals
    dsimp only [Orderly]
    infer_instance

end Shutdown

/-! ### What is known meanwhile -/

/-- The accept thread has a socket that is not in the list yet. -/
def AcceptPc.Holds (c : Nat) (pc : AcceptPc) : Prop := pc = .setSoTimeout c ∨ pc = .add c

/-- `onDestroy` is about to close connection `c`. -/
def DestroyPc.Visits (c : Nat) (pc : DestroyPc) : Prop :=
  ∃ it, pc = .clearTask c it ∨ pc = .close c it

/-- The iterator of the loop. -/
def DestroyPc.iterator? : DestroyPc → Option Iterator
  | .hasNext it => some it
  | .next it => some it
  | .clearTask _ it => some it
  | .close _ it => some it
  | _ => none

/-- The loop has not begun. -/
def DestroyPc.early : DestroyPc → Bool
  | .clearRunning => true
  | .closeServer => true
  | .destroyModules => true
  | .iterator => true
  | _ => false

namespace Shutdown

/-- Every socket is with the accept thread, in the list, or closed; the loop knows what it
has visited, and closes it. -/
structure Closing (s : Shutdown) : Prop where
  listed : ∀ c ∈ s.accepted, s.accept.Holds c ∨ c ∈ s.memory.connections ∨ c ∈ s.memory.closed
  removing : ∀ c, s.runs c = .run .remove → c ∈ s.memory.closed
  early : s.destroy.early = true → s.visited = []
  visited : ∀ c ∈ s.visited, c ∈ s.memory.closed ∨ s.destroy.Visits c
  tracks : ∀ it, s.destroy.iterator? = some it → it.Tracks s.list (it.Seen s.visited)
  next : ∀ it, s.destroy = .next it → it.Tracks s.list fun elems => it.cursor < elems.length
  noException : s.destroy ≠ .thrown
  returned : s.destroy = .returned → ∀ c ∈ s.memory.connections, c ∈ s.visited

variable {s t : Shutdown} {l : Label}

theorem Closing.of_early (h : Closing s) (hs : s.destroy.early = true) (a b : Bool)
    (f : FrameModule → FrameModule) {pc : DestroyPc} (hpc : pc.early = true) :
    Closing { s with
      memory := s.memory.onFrame f
      acceptRunning := a
      serverClosed := b
      destroy := pc } where
  listed := h.listed
  removing := h.removing
  early := fun _ => h.early hs
  visited := by
    intro c hc
    have hnil : c ∈ s.visited := hc
    rw [h.early hs] at hnil
    cases hnil
  tracks := by
    rintro it hit
    cases pc with
    | hasNext | next | clearTask | close => cases hpc
    | _ => cases hit
  next := by
    rintro it rfl
    cases hpc
  noException := by
    rintro rfl
    cases hpc
  returned := by
    rintro rfl
    cases hpc

theorem Closing.stepDestroy (h : Closing s) (hok : Orderly .destroy s)
    (hst : s.stepDestroy = some t) : Closing t := by
  obtain ⟨hlisted, hremoving, hearly, hvisited, htracks, hnext, -, -⟩ := id h
  unfold Shutdown.stepDestroy at hst
  simp only [Orderly] at hok
  cases hpc : s.destroy with
  | clearRunning =>
    simp only [hpc] at hst
    cases hst
    exact h.of_early (by rw [hpc]; rfl) false s.serverClosed id rfl
  | closeServer =>
    simp only [hpc] at hst
    cases hst
    exact h.of_early (by rw [hpc]; rfl) s.acceptRunning true id rfl
  | destroyModules =>
    simp only [hpc] at hst
    cases hst
    exact h.of_early (by rw [hpc]; rfl) s.acceptRunning s.serverClosed FrameModule.stop rfl
  | iterator =>
    simp only [hpc] at hst hearly
    cases hst
    have hnil : s.visited = [] := hearly rfl
    refine ⟨hlisted, hremoving, nofun, fun c hc => ?_, ?_, nofun, nofun, nofun⟩
    · have hc : c ∈ s.visited := hc
      rw [hnil] at hc
      cases hc
    · rintro it hit
      cases hit
      show s.list.iterator.Tracks s.list (s.list.iterator.Seen s.visited)
      rw [hnil]
      exact Iterator.seen_iterator s.list
  | hasNext it =>
    simp only [hpc] at hst hok hvisited htracks
    cases hst
    simp only [listHolds, Bool.or_eq_true, decide_eq_true_eq, List.all_eq_true] at hok
    have hclosed : ∀ c ∈ s.visited, c ∈ s.memory.closed := by
      intro c hc
      refine (hvisited c hc).resolve_right ?_
      rintro ⟨_, hcl | hcl⟩
      · cases hcl
      · cases hcl
    have hseen := htracks it rfl
    cases hhas : it.hasNext s.list with
    | true =>
      refine ⟨hlisted, hremoving, nofun, fun c hc => Or.inl (hclosed c hc), ?_, ?_, nofun, nofun⟩
      · rintro it' hit
        cases hit
        exact hseen
      · rintro it' hit
        cases hit
        exact hseen.of_hasNext hhas
    | false =>
      refine ⟨hlisted, hremoving, nofun, fun c hc => Or.inl (hclosed c hc), nofun, nofun, nofun,
        fun _ c hc => ?_⟩
      rcases hok with (hyes | heq) | hall
      · rw [hhas] at hyes
        cases hyes
      · show c ∈ s.visited
        rw [hseen.all hhas heq]
        exact hc
      · exact hall c hc
  | next it =>
    simp only [hpc] at hst hok hvisited htracks hnext
    obtain ⟨a, ha, hseen⟩ := (htracks it rfl).next (hnext it rfl) (of_decide_eq_true hok)
    simp only [ha] at hst
    cases hst
    refine ⟨hlisted, hremoving, nofun, fun c hc => ?_, ?_, nofun, nofun, nofun⟩
    · rcases List.mem_append.mp hc with hc | hc
      · refine Or.inl ((hvisited c hc).resolve_right ?_)
        rintro ⟨_, hcl | hcl⟩
        · cases hcl
        · cases hcl
      · rw [List.mem_singleton.mp hc]
        exact Or.inr ⟨_, Or.inl rfl⟩
    · rintro it' hit
      cases hit
      exact hseen
  | clearTask d it =>
    simp only [hpc] at hst hvisited htracks
    cases hst
    refine ⟨hlisted, hremoving, nofun, fun c hc => ?_, htracks, nofun, nofun, nofun⟩
    rcases hvisited c hc with hc | ⟨it', hcl | hcl⟩
    · exact Or.inl hc
    · cases hcl
      exact Or.inr ⟨it, Or.inr rfl⟩
    · cases hcl
  | close d it =>
    simp only [hpc] at hst hvisited htracks
    cases hst
    refine ⟨fun c hc => ?_, fun c hc => List.mem_cons_of_mem d (hremoving c hc), nofun,
      fun c hc => ?_, htracks, nofun, nofun, nofun⟩
    · rcases hlisted c hc with hc | hc | hc
      · exact Or.inl hc
      · exact Or.inr (Or.inl hc)
      · exact Or.inr (Or.inr (List.mem_cons_of_mem d hc))
    · rcases hvisited c hc with hc | ⟨it', hcl | hcl⟩
      · exact Or.inl (List.mem_cons_of_mem d hc)
      · cases hcl
      · cases hcl
        exact Or.inl List.mem_cons_self
  | returned => simp only [hpc] at hst; cases hst
  | thrown => simp only [hpc] at hst; cases hst

theorem Closing.of_accept (h : Closing s) (a : Bool) {pc : AcceptPc}
    (hpc : ∀ c, s.accept.Holds c → pc.Holds c) :
    Closing { s with acceptRunning := a, accept := pc } where
  listed := fun c hc => (h.listed c hc).imp_left (hpc c)
  removing := h.removing
  early := h.early
  visited := h.visited
  tracks := h.tracks
  next := h.next
  noException := h.noException
  returned := h.returned

theorem Closing.stepAccept {socket : Option Nat} (h : Closing s)
    (hok : Orderly (.accept socket) s) (hst : s.stepAccept socket = some t) : Closing t := by
  unfold Shutdown.stepAccept at hst
  simp only [Orderly] at hok
  cases hpc : s.accept with
  | setRunning =>
    simp only [hpc] at hst
    cases hst
    refine h.of_accept true fun c hc => ?_
    rw [hpc] at hc
    rcases hc with hc | hc
    · cases hc
    · cases hc
  | loop =>
    simp only [hpc] at hst
    cases hst
    refine h.of_accept s.acceptRunning fun c hc => ?_
    rw [hpc] at hc
    rcases hc with hc | hc
    · cases hc
    · cases hc
  | accept =>
    have hnone : ∀ c, ¬ s.accept.Holds c := by
      intro c hc
      rw [hpc] at hc
      rcases hc with hc | hc
      · cases hc
      · cases hc
    cases socket with
    | none =>
      simp only [hpc] at hst
      cases hst
      exact h.of_accept s.acceptRunning fun c hc => absurd hc (hnone c)
    | some d =>
      simp only [hpc] at hst
      split_ifs at hst
      cases hst
      refine ⟨fun c hc => ?_, h.removing, h.early, h.visited, h.tracks, h.next, h.noException,
        h.returned⟩
      rcases List.mem_cons.mp hc with rfl | hc
      · exact Or.inl (Or.inl rfl)
      · exact Or.inr ((h.listed c hc).resolve_left (hnone c))
  | setSoTimeout d =>
    simp only [hpc] at hst hok
    cases hst
    refine h.of_accept s.acceptRunning fun c hc => ?_
    rw [hpc] at hc
    rcases hc with hc | hc
    · cases hc
      rw [if_pos (show socket.isSome = true from hok)]
      exact Or.inr rfl
    · cases hc
  | add d =>
    simp only [hpc] at hst hok
    cases hst
    refine ⟨fun c hc => ?_, h.removing, h.early, h.visited, fun it hit => ?_, fun it hit => ?_,
      h.noException, fun hret => absurd hret (of_decide_eq_true hok)⟩
    · rcases h.listed c hc with hc | hc | hc
      · rw [hpc] at hc
        rcases hc with hc | hc
        · cases hc
        · cases hc
          exact Or.inr (Or.inl (List.mem_append_right _ List.mem_cons_self))
      · exact Or.inr (Or.inl (List.mem_append_left _ hc))
      · exact Or.inr (Or.inr hc)
    · exact (h.tracks it hit).add d
    · exact (h.next it hit).add d
  | startThread d =>
    simp only [hpc] at hst
    cases hst
    refine ⟨fun c hc => ?_, fun c hc => ?_, h.early, h.visited, h.tracks, h.next, h.noException,
      h.returned⟩
    · refine Or.inr ((h.listed c hc).resolve_left fun hc => ?_)
      rw [hpc] at hc
      rcases hc with hc | hc
      · cases hc
      · cases hc
    · have hc : Function.update s.runs d .getStreams c = .run .remove := hc
      by_cases hcd : c = d
      · rw [hcd, Function.update_self] at hc
        cases hc
      · rw [Function.update_of_ne hcd] at hc
        exact h.removing c hc
  | ended => simp only [hpc] at hst; cases hst

theorem Closing.of_run (h : Closing s) {c : Nat} {m : Memory} {n : Nat} {pc : RunPc}
    (hclosed : ∀ d ∈ s.memory.closed, d ∈ m.closed)
    (hlist : (⟨m.connections, n⟩ : ModList Nat) = s.list ∨
      ((⟨m.connections, n⟩ : ModList Nat) = s.list.remove c ∧ c ∈ m.closed))
    (hremove : pc = .run .remove → c ∈ m.closed) :
    Closing { s with memory := m, modCount := n, runs := Function.update s.runs c pc } := by
  have hsame : (⟨m.connections, n⟩ : ModList Nat) = s.list →
      m.connections = s.memory.connections := fun heq => congrArg ModList.elems heq
  have herase : (⟨m.connections, n⟩ : ModList Nat) = s.list.remove c →
      m.connections = s.memory.connections.erase c := by
    intro heq
    exact (congrArg ModList.elems heq).trans (ModList.elems_remove _ _)
  have hsub : ∀ d ∈ m.connections, d ∈ s.memory.connections := by
    intro d hd
    rcases hlist with heq | ⟨heq, _⟩
    · rwa [← hsame heq]
    · rw [herase heq] at hd
      exact List.mem_of_mem_erase hd
  refine ⟨fun d hd => ?_, fun d hd => ?_, h.early, fun d hd => ?_, fun it hit => ?_,
    fun it hit => ?_, h.noException, fun hret d hd => h.returned hret d (hsub d hd)⟩
  · show s.accept.Holds d ∨ d ∈ m.connections ∨ d ∈ m.closed
    rcases h.listed d hd with hd | hd | hd
    · exact Or.inl hd
    · rcases hlist with heq | ⟨heq, hc⟩
      · rw [hsame heq]
        exact Or.inr (Or.inl hd)
      · by_cases hdc : d = c
        · exact Or.inr (Or.inr (hdc ▸ hc))
        · rw [herase heq]
          exact Or.inr (Or.inl ((List.mem_erase_of_ne hdc).mpr hd))
    · exact Or.inr (Or.inr (hclosed d hd))
  · have hd : Function.update s.runs c pc d = .run .remove := hd
    by_cases hdc : d = c
    · rw [hdc, Function.update_self] at hd
      rw [hdc]
      exact hremove hd
    · rw [Function.update_of_ne hdc] at hd
      exact hclosed d (h.removing d hd)
  · exact (h.visited d hd).imp_left (hclosed d)
  · show it.Tracks ⟨m.connections, n⟩ (it.Seen s.visited)
    rcases hlist with heq | ⟨heq, _⟩
    · rw [heq]
      exact h.tracks it hit
    · rw [heq]
      exact (h.tracks it hit).remove c
  · show it.Tracks ⟨m.connections, n⟩ fun elems => it.cursor < elems.length
    rcases hlist with heq | ⟨heq, _⟩
    · rw [heq]
      exact h.next it hit
    · rw [heq]
      exact (h.next it hit).remove c

theorem Closing.stepRun {c : Nat} {r : Reply Env} (h : Closing s)
    (hst : s.stepRun c r = some t) : Closing t := by
  unfold Shutdown.stepRun at hst
  cases hpc : s.runs c with
  | unstarted => simp only [hpc] at hst; cases hst
  | getStreams =>
    simp only [hpc] at hst
    cases hst
    refine h.of_run (fun _ hd => hd) (Or.inl rfl) fun heq => ?_
    split_ifs at heq
    cases heq
  | setRunning =>
    simp only [hpc] at hst
    cases hst
    exact h.of_run (fun _ hd => hd) (Or.inl rfl) nofun
  | run pc =>
    simp only [hpc] at hst
    rw [Option.ite_none_right_eq_some] at hst
    obtain ⟨⟨m, pc'⟩, hexec, rfl⟩ := Option.map_eq_some_iff.mp hst.2
    obtain ⟨_, hclosed, hconn⟩ := taskOp_lists hexec
    refine h.of_run hclosed ?_ fun heq => taskOp_remove hexec (RunPc.run.inj heq)
    by_cases hrem : pc = .remove
    · refine Or.inr ⟨?_, hclosed c (h.removing c (hrem ▸ hpc))⟩
      simp only [if_pos hrem] at hconn ⊢
      rw [hconn]
      exact congrArg (ModList.mk · _) (ModList.elems_remove s.list c).symm
    · simp only [if_neg hrem] at hconn ⊢
      exact Or.inl (by rw [hconn]; rfl)

theorem Closing.step (h : Closing s) (hok : Orderly l s) (hst : Shutdown.step l s = some t) :
    Closing t := by
  cases l with
  | destroy => exact h.stepDestroy hok hst
  | accept socket => exact h.stepAccept hok hst
  | run c r => exact h.stepRun hst

/-- What the environment answers in the runs below. -/
def env : Env := ⟨40001, true, 1080, 1920, 7, true⟩

end Shutdown

end MikaAudio.Server
