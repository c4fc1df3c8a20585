import MikaAudio.Protocol
import MikaAudio.Lib.Interleave

/-!
# The client's control connection

`P2PManager` looks for the server with `NsdManager` and calls `ModuleManager.setSocket`
for a service that was resolved.  After the first success it stops the discovery, but a
service found before that may still be resolved, and `setSocket` does not ask whether
there is a connection already; nor does it close the socket it has opened when a later
statement of it throws.

The callbacks of `NsdManager` come one after the other on a thread of their own, `connect`
and `onDestroy` on the UI thread.  Callbacks that only log are left out.
-/

namespace MikaAudio.Client

open Interleave (Reach run)

/-- Where `onServiceResolved` stands; sockets are named by their numbers. -/
inductive ResolvedPc
  /-- No callback is running. -/
  | idle
  /-- `setSocket`: `socket = new Socket(ip, port)`. -/
  | newSocket
  /-- `socket.setSoTimeout(SOCKET_TIMEOUT)`. -/
  | setSoTimeout (k : Nat)
  /-- `in = socket.getInputStream()`. -/
  | getInputStream (k : Nat)
  /-- `out = socket.getOutputStream()`. -/
  | getOutputStream (k : Nat)
  /-- `moduleThread = new ModuleThread(in, out)`. -/
  | newModuleThread (k : Nat)
  /-- `inputModule = new InputModule(out)`. -/
  | newInputModule (k : Nat)
  /-- `frameModule = new FrameModule(.., in, out, .., inputModule)`. -/
  | newFrameModule (k : Nat)
  /-- `HANDLER_CONNECTED`, then `connected = true`. -/
  | setConnected (k : Nat)
  /-- `if (discovering) stopServiceDiscovery(..)`, then `discovering = false`. -/
  | stopDiscovery
  /-- `catch (IOException e)`: `onDestroy()`. -/
  | catchDestroy
  /-- `connect()`. -/
  | catchConnect
  deriving DecidableEq

/-- The socket a call of `setSocket` has opened. -/
def ResolvedPc.socket? : ResolvedPc → Option Nat
  | .setSoTimeout k => some k
  | .getInputStream k => some k
  | .getOutputStream k => some k
  | .newModuleThread k => some k
  | .newInputModule k => some k
  | .newFrameModule k => some k
  | .setConnected k => some k
  | _ => none

/-- How many of the fields it has set. -/
def ResolvedPc.stage : ResolvedPc → Nat
  | .setSoTimeout _ => 1
  | .getInputStream _ => 1
  | .getOutputStream _ => 1
  | .newModuleThread _ => 1
  | .newInputModule _ => 2
  | .newFrameModule _ => 3
  | .setConnected _ => 4
  | _ => 0

/-- The fields of `P2PManager` and `ModuleManager`; an object made for a connection is
named by the number of its socket.  `resolving` are the services whose resolution was asked
for and is to come, `opened` the number of sockets ever opened, and `isOpen` those that are
still open. -/
structure Control where
  discovering : Bool := false
  discovered : Bool := false
  resolving : Nat := 0
  pc : ResolvedPc := .idle
  connected : Bool := false
  currModule : Module := .exit
  socket : Option Nat := none
  moduleThread : Option Nat := none
  inputModule : Option Nat := none
  frameModule : Option Nat := none
  opened : Nat := 0
  isOpen : List Nat := []

namespace Control

/-- What happens next. -/
inductive Label
  /-- `P2PManager.connect()` on the UI thread. -/
  | connect
  /-- `P2PManager.onDestroy()` on the UI thread. -/
  | onDestroy
  /-- `onServiceFound`; the type and the name match or not. -/
  | onServiceFound (matching : Bool)
  /-- `onResolveFailed`. -/
  | onResolveFailed
  /-- `onServiceResolved` is called. -/
  | onServiceResolved
  /-- Its next statement, which throws an `IOException` or not. -/
  | next (ok : Bool)
  /-- The UI handler comes to `HANDLER_MODULE`. -/
  | onModule (m : Module)

/-- `connect()`. -/
def connect (s : Control) : Control :=
  if s.discovering then s else { s with discovering := true, discovered := true }

/-- `onDestroy()`. -/
def onDestroy (s : Control) : Control :=
  if s.discovering then { s with discovering := false } else s

/-- The next statement of `onServiceResolved`. -/
def resolvedStep (ok : Bool) (s : Control) : Option Control :=
  match s.pc with
  | .idle => none
  | .newSocket =>
    if ok then
      some { s with
        socket := some s.opened
        opened := s.opened + 1
        isOpen := s.opened :: s.isOpen
        pc := .setSoTimeout s.opened }
    else some { s with pc := .catchDestroy }
  | .setSoTimeout k => some { s with pc := if ok then .getInputStream k else .catchDestroy }
  | .getInputStream k => some { s with pc := if ok then .getOutputStream k else .catchDestroy }
  | .getOutputStream k => some { s with pc := if ok then .newModuleThread k else .catchDestroy }
  | .newModuleThread k => some { s with moduleThread := some k, pc := .newInputModule k }
  | .newInputModule k => some { s with inputModule := some k, pc := .newFrameModule k }
  | .newFrameModule k => some { s with frameModule := some k, pc := .setConnected k }
  | .setConnected _ => some { s with connected := true, pc := .stopDiscovery }
  | .stopDiscovery => some { s with discovering := false, pc := .idle }
  | .catchDestroy => some { s.onDestroy with pc := .catchConnect }
  | .catchConnect => some { s.connect with pc := .idle }

/-- One step. -/
def step (l : Label) (s : Control) : Option Control :=
  match l with
  | .connect => some s.connect
  | .onDestroy => some s.onDestroy
  | .onServiceFound matching =>
    if s.discovered then
      some { s with resolving := if matching then s.resolving + 1 else s.resolving }
    else none
  | .onResolveFailed =>
    if 0 < s.resolving then some { s with resolving := s.resolving - 1 } else none
  | .onServiceResolved =>
    if 0 < s.resolving ∧ s.pc = .idle then
      some { s with resolving := s.resolving - 1, pc := .newSocket }
    else none
  | .next ok => s.resolvedStep ok
  | .onModule m =>
    if s.moduleThread.isSome then
      some { s with currModule := m, connected := if m = .exit then false else s.connected }
    else none

/-! ### One connection -/

/-- The four fields belong to one connection, the one that is open, or there is none. -/
def Whole (s : Control) : Prop :=
  (s.socket = none ∧ s.moduleThread = none ∧ s.inputModule = none ∧ s.frameModule = none ∧
      s.isOpen = []) ∨
    ∃ k, s.socket = some k ∧ s.moduleThread = some k ∧ s.inputModule = some k ∧
      s.frameModule = some k ∧ s.isOpen = [k]

/-- The client holds one control connection: no two sockets are open; a call of `setSocket`
that has opened one has closed the one before and left its module; and outside of
`setSocket` the fields are whole. -/
structure OneConnection (s : Control) : Prop where
  one : s.isOpen.length ≤ 1
  replaced : ∀ k, s.pc = .setSoTimeout k → s.isOpen = [k] ∧ s.currModule = .exit
  whole : s.pc.socket? = none → Whole s

/-- `new Socket` succeeds only if it is the first one, and the statements of `setSocket`
after it do not throw. -/
def single (opened : Nat) (ok : Bool) : ResolvedPc → Bool
  | .newSocket => decide (opened = 0) || !ok
  | .setSoTimeout _ => ok
  | .getInputStream _ => ok
  | .getOutputStream _ => ok
  | _ => true

/-- The next step opens no second socket and leaves none behind. -/
def Single (l : Label) (s : Control) : Prop :=
  match l with
  | .next ok => single s.opened ok s.pc = true
  | _ => True

instance (l : Label) (s : Control) : Decidable (Single l s) := by
  induction l using Label.casesOn
  all_goals
    dsimp only [Single]
    infer_instance

/-! ### The first connection -/

/-- The field set as the `n`-th, once a socket was opened. -/
def field (pc : ResolvedPc) (n : Nat) : Option Nat :=
  if pc.socket?.isSome ∧ pc.stage < n then none else some 0

/-- No socket was opened, or one was and the fields are its own as far as they are set. -/
structure First (s : Control) : Prop where
  unopened : s.opened = 0 → s.pc.socket? = none ∧ s.socket = none ∧ s.moduleThread = none ∧
    s.inputModule = none ∧ s.frameModule = none ∧ s.isOpen = []
  one : s.opened ≠ 0 → s.opened = 1 ∧ (∀ k, s.pc.socket? = some k → k = 0) ∧
    s.socket = some 0 ∧ s.moduleThread = field s.pc 2 ∧ s.inputModule = field s.pc 3 ∧
    s.frameModule = field s.pc 4 ∧ s.isOpen = [0]
  module : s.moduleThread = none → s.currModule = .exit

variable {s t : Control} {l : Label}

theorem First.of_discovery (h : First s) (a b : Bool) (n : Nat) :
    First { s with discovering := a, discovered := b, resolving := n } :=
  ⟨h.unopened, h.one, h.module⟩

theorem First.inside (h : First s) {k : Nat} (hk : s.pc.socket? = some k) :
    k = 0 ∧ s.opened = 1 ∧ s.socket = some 0 ∧ s.moduleThread = field s.pc 2 ∧
      s.inputModule = field s.pc 3 ∧ s.frameModule = field s.pc 4 ∧ s.isOpen = [0] := by
  have hne : s.opened ≠ 0 := by
    intro hzero
    rw [(h.unopened hzero).1] at hk
    cases hk
  obtain ⟨hone, hall, hs, hm, hi, hf, ho⟩ := h.one hne
  exact ⟨hall k hk, hone, hs, hm, hi, hf, ho⟩

theorem First.of_outside (h : First s) (hk : s.pc.socket? = none) (a b : Bool) {pc : ResolvedPc}
    (hpc : pc.socket? = none) :
    First { s with discovering := a, discovered := b, pc := pc } := by
  refine ⟨fun hzero => ⟨hpc, (h.unopened hzero).2⟩, fun hne => ?_, h.module⟩
  obtain ⟨hone, -, hs, hm, hi, hf, ho⟩ := h.one hne
  have hfield : ∀ n, field pc n = field s.pc n := by
    intro n
    simp [field, hk, hpc]
  refine ⟨hone, fun k hk' => ?_, hs, ?_, ?_, ?_, ho⟩
  · rw [hpc] at hk'
    cases hk'
  · exact hm.trans (hfield 2).symm
  · exact hi.trans (hfield 3).symm
  · exact hf.trans (hfield 4).symm

theorem First.of_inside (h : First s) {k : Nat} (hk : s.pc.socket? = some k) {pc : ResolvedPc}
    {m i f : Option Nat} (connected : Bool) (hpc : ∀ k, pc.socket? = some k → k = 0)
    (hm : m = field pc 2) (hi : i = field pc 3) (hf : f = field pc 4)
    (hmodule : m = none → s.currModule = .exit) :
    First { s with
      connected := connected
      moduleThread := m
      inputModule := i
      frameModule := f
      pc := pc } := by
  obtain ⟨-, hone, hs, -, -, -, ho⟩ := h.inside hk
  refine ⟨fun hzero => ?_, fun _ => ⟨hone, hpc, hs, hm, hi, hf, ho⟩, hmodule⟩
  have hzero : s.opened = 0 := hzero
  omega

theorem First.resolvedStep {ok : Bool} (h : First s) (hok : single s.opened ok s.pc = true)
    (hst : s.resolvedStep ok = some t) : First t := by
  have hmodule := h.module
  unfold Control.resolvedStep at hst
  cases hpc : s.pc with
  | idle => simp only [hpc] at hst; cases hst
  | newSocket =>
    simp only [hpc] at hst hok
    cases ok with
    | false =>
      cases hst
      exact h.of_outside (by rw [hpc]; rfl) s.discovering s.discovered rfl
    | true =>
      have hzero : s.opened = 0 := by simpa [single] using hok
      obtain ⟨-, hs, hm, hi, hf, ho⟩ := h.unopened hzero
      cases hst
      refine ⟨nofun, fun _ => ?_, hmodule⟩
      simp [hzero, hm, hi, hf, ho, field, ResolvedPc.socket?, ResolvedPc.stage]
  | setSoTimeout k =>
    obtain ⟨rfl, -, -, hm, hi, hf, -⟩ := h.inside (k := k) (by rw [hpc]; rfl)
    simp only [hpc, single] at hst hok hm hi hf
    rw [hok] at hst
    cases hst
    refine h.of_inside (k := 0) (by rw [hpc]; rfl) s.connected (fun k hk => ?_) hm hi hf hmodule
    exact (Option.some.inj hk).symm
  | getInputStream k =>
    obtain ⟨rfl, -, -, hm, hi, hf, -⟩ := h.inside (k := k) (by rw [hpc]; rfl)
    simp only [hpc, single] at hst hok hm hi hf
    rw [hok] at hst
    cases hst
    refine h.of_inside (k := 0) (by rw [hpc]; rfl) s.connected (fun k hk => ?_) hm hi hf hmodule
    exact (Option.some.inj hk).symm
  | getOutputStream k =>
    obtain ⟨rfl, -, -, hm, hi, hf, -⟩ := h.inside (k := k) (by rw [hpc]; rfl)
    simp only [hpc, single] at hst hok hm hi hf
    rw [hok] at hst
    cases hst
    refine h.of_inside (k := 0) (by rw [hpc]; rfl) s.connected (fun k hk => ?_) hm hi hf hmodule
    exact (Option.some.inj hk).symm
  | newModuleThread k =>
    obtain ⟨rfl, -, -, hm, hi, hf, -⟩ := h.inside (k := k) (by rw [hpc]; rfl)
    simp only [hpc] at hst hi hf
    cases hst
    refine h.of_inside (k := 0) (by rw [hpc]; rfl) s.connected (fun k hk => ?_) rfl hi hf nofun
    exact (Option.some.inj hk).symm
  | newInputModule k =>
    obtain ⟨rfl, -, -, hm, hi, hf, -⟩ := h.inside (k := k) (by rw [hpc]; rfl)
    simp only [hpc] at hst hm hf
    cases hst
    refine h.of_inside (k := 0) (by rw [hpc]; rfl) s.connected (fun k hk => ?_) hm rfl hf hmodule
    exact (Option.some.inj hk).symm
  | newFrameModule k =>
    obtain ⟨rfl, -, -, hm, hi, hf, -⟩ := h.inside (k := k) (by rw [hpc]; rfl)
    simp only [hpc] at hst hm hi
    cases hst
    refine h.of_inside (k := 0) (by rw [hpc]; rfl) s.connected (fun k hk => ?_) hm hi rfl hmodule
    exact (Option.some.inj hk).symm
  | setConnected k =>
    obtain ⟨rfl, -, -, hm, hi, hf, -⟩ := h.inside (k := k) (by rw [hpc]; rfl)
    simp only [hpc] at hst hm hi hf
    cases hst
    exact h.of_inside (k := 0) (by rw [hpc]; rfl) true nofun hm hi hf hmodule
  | stopDiscovery =>
    simp only [hpc] at hst
    cases hst
    exact h.of_outside (by rw [hpc]; rfl) false s.discovered rfl
  | catchDestroy =>
    simp only [hpc, onDestroy] at hst
    cases hst
    split_ifs
    · exact h.of_outside (by rw [hpc]; rfl) false s.discovered rfl
    · exact h.of_outside (by rw [hpc]; rfl) s.discovering s.discovered rfl
  | catchConnect =>
    simp only [hpc, connect] at hst
    cases hst
    split_ifs
    · exact h.of_outside (by rw [hpc]; rfl) s.discovering s.discovered rfl
    · exact h.of_outside (by rw [hpc]; rfl) true true rfl

theorem First.step (h : First s) (hok : Single l s) (hst : Control.step l s = some t) :
    First t := by
  cases l with
  | connect =>
    simp only [Control.step, connect] at hst
    cases hst
    split_ifs
    · exact h
    · exact h.of_discovery true true s.resolving
  | onDestroy =>
    simp only [Control.step, onDestroy] at hst
    cases hst
    split_ifs
    · exact h.of_discovery false s.discovered s.resolving
    · exact h
  | onServiceFound matching =>
    simp only [Control.step] at hst
    split_ifs at hst
    · cases hst
      exact h.of_discovery s.discovering s.discovered _
    · cases hst
      exact h.of_discovery s.discovering s.discovered _
  | onResolveFailed =>
    simp only [Control.step] at hst
    split_ifs at hst
    cases hst
    exact h.of_discovery s.discovering s.discovered _
  | onServiceResolved =>
    simp only [Control.step] at hst
    split_ifs at hst with hidle
    cases hst
    have hout : s.pc.socket? = none := by
      rw [hidle.2]
      rfl
    exact (h.of_outside hout s.discovering s.discovered rfl).of_discovery _ _ _
  | next ok => exact h.resolvedStep hok hst
  | onModule m =>
    simp only [Control.step] at hst
    split_ifs at hst with hthread
    all_goals
      cases hst
      refine ⟨h.unopened, h.one, fun hm => ?_⟩
      have hm : s.moduleThread = none := hm
      rw [hm] at hthread
      cases hthread

theorem First.oneConnection (h : First s) : OneConnection s := by
  refine ⟨?_, fun k hpc => ?_, fun hout => ?_⟩
  · by_cases hzero : s.opened = 0
    · obtain ⟨-, -, -, -, -, ho⟩ := h.unopened hzero
      rw [ho]
      decide
    · obtain ⟨-, -, -, -, -, -, ho⟩ := h.one hzero
      rw [ho]
      decide
  · obtain ⟨rfl, -, -, hm, -, -, ho⟩ := h.inside (k := k) (by rw [hpc]; rfl)
    rw [hpc] at hm
    exact ⟨ho, h.module hm⟩
  · by_cases hzero : s.opened = 0
    · obtain ⟨-, hs, hm, hi, hf, ho⟩ := h.unopened hzero
      exact Or.inl ⟨hs, hm, hi, hf, ho⟩
    · obtain ⟨-, -, hs, hm, hi, hf, ho⟩ := h.one hzero
      have hfield : ∀ n, field s.pc n = some 0 := by
        intro n
        simp [field, hout]
      rw [hfield] at hm hi hf
      exact Or.inr ⟨0, hs, hm, hi, hf, ho⟩

/-- A second socket, or a failure after the first one, breaks it. -/
theorem First.single_of_oneConnection (h : First s) (hst : Control.step l s = some t)
    (ht : OneConnection t) : Single l s := by
  cases l with
  | next ok =>
    show single s.opened ok s.pc = true
    -- a failure leaves a socket without a `ModuleThread`
    have hfail : ∀ k, s.pc.socket? = some k → s.pc.stage = 1 →
        t = { s with pc := .catchDestroy } → False := by
      rintro k hk hstage rfl
      obtain ⟨rfl, -, hs, hm, -⟩ := h.inside hk
      have hnone : s.moduleThread = none := by
        rw [hm, field, hk, hstage]
        rfl
      rcases ht.whole rfl with ⟨hs', -⟩ | ⟨k, -, hm', -⟩
      · exact absurd (hs.symm.trans hs') nofun
      · exact absurd (hnone.symm.trans hm') nofun
    simp only [Control.step, Control.resolvedStep] at hst
    cases hpc : s.pc with
    | newSocket =>
      cases ok with
      | false => exact Bool.or_true _
      | true =>
        simp only [hpc] at hst
        cases hst
        by_contra hne
        have hopened : s.opened ≠ 0 := by simpa [single] using hne
        obtain ⟨-, -, -, -, -, -, ho⟩ := h.one hopened
        have hlen := ht.one
        simp [ho] at hlen
    | setSoTimeout k =>
      cases ok with
      | true => rfl
      | false =>
        simp only [hpc] at hst
        cases hst
        exact (hfail k (by rw [hpc]; rfl) (by rw [hpc]; rfl) rfl).elim
    | getInputStream k =>
      cases ok with
      | true => rfl
      | false =>
        simp only [hpc] at hst
        cases hst
        exact (hfail k (by rw [hpc]; rfl) (by rw [hpc]; rfl) rfl).elim
    | getOutputStream k =>
      cases ok with
      | true => rfl
      | false =>
        simp only [hpc] at hst
        cases hst
        exact (hfail k (by rw [hpc]; rfl) (by rw [hpc]; rfl) rfl).elim
    | _ => rfl
  | _ => trivial

/-- **The client holds one control connection** as long as `new Socket` succeeds once only
and `setSocket` does not fail after it, and the first step that is otherwise breaks it. -/
theorem one_connection (h : Reach step Single {} s) :
    OneConnection s ∧ ∀ l t, step l s = some t → (OneConnection t ↔ Single l s) := by
  have hinit : First {} := by
    refine ⟨fun _ => ⟨rfl, rfl, rfl, rfl, rfl, rfl⟩, fun hne => absurd rfl hne, fun _ => rfl⟩
  have hs : First s := h.invariant hinit (fun _ _ _ hs hok hst => hs.step hok hst)
  refine ⟨hs.oneConnection, fun l t hst => ⟨hs.single_of_oneConnection hst, fun hok => ?_⟩⟩
  exact (hs.step hok hst).oneConnection

/-- A service is found and resolved, and `setSocket` succeeds. -/
def connecting : List Label :=
  [.onServiceResolved, .next true, .next true, .next true, .next true, .next true, .next true,
    .next true, .next true, .next true]

/-- One service is found, and its connection made. -/
theorem one_connection_made : ∃ s : Control, s.isOpen = [0] ∧ s.connected = true ∧
    OneConnection s := by
  obtain ⟨s, hs, hk⟩ := Reach.exists_of_run (show
    (run (fun l s => if Single l s then step l s else none)
      ([.connect, .onServiceFound true] ++ connecting) {}).map (fun s => (s.isOpen, s.connected)) =
      some ([0], true) by decide)
  simp only [Prod.mk.injEq] at hk
  exact ⟨s, hk.1, hk.2, (one_connection hs).1⟩

/-- **Two services that were found before the first is connected make two connections.** -/
theorem two_connections : ¬ ∀ s, Reach step (fun _ _ => True) {} s → OneConnection s := by
  intro hclaim
  obtain ⟨s, hs, hk⟩ := Reach.exists_of_run (show
    (run (fun l s => if True then step l s else none)
      ([.connect, .onServiceFound true, .onServiceFound true] ++ connecting ++ connecting) {}).map
      (·.isOpen) = some [1, 0] by decide)
  have hone := (hclaim s hs).one
  rw [hk] at hone
  exact absurd hone (by decide)

end Control

end MikaAudio.Client
