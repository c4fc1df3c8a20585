import MikaAudio.Server.Input

/-!
# Timeouts inside `listen`

A read of `listen` that times out is made again by the loop around it, and a text comes in
chunks of any size.  What `listen` will dispatch and what it will leave unread is a function
of where it stands and of the bytes to come (`ListenPc.outcome`), and no step changes what
has been dispatched together with what will be: so it is the same for every placement of
timeouts and every chunking.
-/

namespace MikaAudio.Server

open Thread
open Interleave

/-! ### What the bytes mean -/

/-- What `listen` dispatches for the bytes to come, from `mode = in.read()` on, and what it
leaves unread when it returns; `none` is that it does not. -/
def listenOutcome (inString : List Byte) : List Byte → List InputEvent × Option (List Byte)
  | [] => ([], none)
  | mode :: rest =>
    if mode = modeExit then ([], some rest)
    else if mode = modeKey then
      match rest with
      | [] => ([.key (inRead none)], none)
      | b :: rest =>
        (.key (inRead (some b)) :: (listenOutcome inString rest).1, (listenOutcome inString rest).2)
    else if mode = modeText then ([.text (inString ++ rest)], none)
    else listenOutcome inString rest

/-- The same from anywhere inside `listen`. -/
def ListenPc.outcome (inString input : List Byte) :
    ListenPc → List InputEvent × Option (List Byte)
  | .key | .keyTimeout => listenOutcome inString (modeKey :: input)
  | .dispatchKey k =>
    (.key k :: (listenOutcome inString input).1, (listenOutcome inString input).2)
  | .text | .textTimeout => ([.text (inString ++ input)], none)
  | .dispatchText =>
    (.text inString :: (listenOutcome inString input).1, (listenOutcome inString input).2)
  | .exitAck => ([], some input)
  | .ack | .mode | .modeTimeout => listenOutcome inString input

/-- A byte of the mode is as good as the state it leads to. -/
theorem listenOutcome_cons (inString : List Byte) (mode : Byte) (rest : List Byte) :
    listenOutcome inString (mode :: rest) = (ListenPc.ofMode mode).outcome inString rest := by
  unfold ListenPc.ofMode
  rw [listenOutcome.eq_def]
  dsimp only
  split_ifs with hexit hkey htext
  · rfl
  · subst hkey
    cases rest
    · rfl
    · rfl
  · rfl
  · rfl

/-! ### `listen` alone -/

/-- `listen` on its own: inside, returned, or left by an exception. -/
inductive ListenState
  | inside (pc : ListenPc) (inString : List Byte)
  | returned
  | failed

/-- The thread that makes one call of `listen`. -/
def listenThread : ListenState → Op Env Memory ListenState
  | .inside pc inString => listenOp .inside .returned .failed inString pc
  | .returned => .halt
  | .failed => .halt

theorem listenThread_text (inString : List Byte) : listenThread (.inside .text inString) =
    .readBuf lengthBuffer fun
      | .bytes bs => .inside .text (inString ++ bs)
      | .eof => .inside .dispatchText inString
      | .timeout => .inside .textTimeout inString
      | .error => .failed := rfl

/-- The call at its start. -/
def listenStart (m : Memory) (input : List Byte) : Conf Memory ListenState :=
  ⟨m, .inside .ack [], input, []⟩

/-- What is dispatched in the end, and what is left unread. -/
def total (c : Conf Memory ListenState) : List InputEvent × Option (List Byte) :=
  match c.pc with
  | .inside pc inString =>
    (c.mem.events ++ (pc.outcome inString c.input).1, (pc.outcome inString c.input).2)
  | .returned => (c.mem.events, some c.input)
  | .failed => (c.mem.events, none)

/-- There are no I/O errors. -/
def NoError : Choice Env → Prop
  | .fail => False
  | _ => True

/-- **No step changes what is dispatched in the end**, whether it times out, and however many
bytes it reads. -/
theorem total_step {ch : Choice Env} {c t : Conf Memory ListenState} (hch : NoError ch)
    (hs : c.step listenThread true ch = some t) : total t = total c := by
  obtain ⟨m, pc, input, out⟩ := c
  cases pc with
  | returned =>
    cases ch with
    | _ => cases hs
  | failed =>
    cases ch with
    | _ => cases hs
  | inside pc inString =>
    cases ch with
    | fail => exact hch.elim
    | timeout =>
      cases pc with
      | mode | key | text =>
        obtain rfl := Option.some.inj hs
        rfl
      | _ => cases hs
    | go e n =>
      cases pc with
      | ack => obtain rfl := Option.some.inj hs; rfl
      | modeTimeout => obtain rfl := Option.some.inj hs; rfl
      | keyTimeout => obtain rfl := Option.some.inj hs; rfl
      | textTimeout => obtain rfl := Option.some.inj hs; rfl
      | exitAck =>
        obtain rfl := Option.some.inj hs
        exact congrArg (·, some input) (List.append_nil m.events).symm
      | dispatchKey k =>
        obtain rfl := Option.some.inj hs
        exact congrArg (·, (listenOutcome inString input).2) (List.append_assoc m.events [.key k] _)
      | dispatchText =>
        obtain rfl := Option.some.inj hs
        exact congrArg (·, (listenOutcome inString input).2)
          (List.append_assoc m.events [.text inString] _)
      | mode =>
        cases input with
        | nil => obtain rfl := Option.some.inj hs; rfl
        | cons b rest =>
          obtain rfl := Option.some.inj hs
          show (m.events ++ ((ListenPc.ofMode b).outcome inString rest).1,
            ((ListenPc.ofMode b).outcome inString rest).2) = _
          rw [← listenOutcome_cons]
          rfl
      | key =>
        cases input with
        | nil => obtain rfl := Option.some.inj hs; rfl
        | cons b rest => obtain rfl := Option.some.inj hs; rfl
      | text =>
        cases input with
        | nil =>
          obtain rfl := Option.some.inj hs
          show (m.events ++ [.text inString], none) = (m.events ++ [.text (inString ++ [])], none)
          rw [List.append_nil]
        | cons b rest =>
          rw [Conf.step_readBuf (listenThread_text _)] at hs
          split_ifs at hs
          obtain rfl := Option.some.inj hs
          show (m.events ++ [.text (inString ++ (b :: rest).take n ++ (b :: rest).drop n)], none) =
            (m.events ++ [.text (inString ++ b :: rest)], none)
          rw [List.append_assoc, List.take_append_drop]

/-! ### `listen` comes to an end -/

/-- `listen` has returned, or waits for a mode at the end of the stream. -/
def ListenOver (c : Conf Memory ListenState) : Prop :=
  match c.pc with
  | .returned => True
  | .inside .mode _ => c.input = []
  | _ => False

/-- One step without a timeout, where a read into the buffer gives a number of bytes that
meets `size`. -/
def Goes (size : Nat → Prop) (c t : Conf Memory ListenState) : Prop :=
  ∃ e n, size n ∧ c.step listenThread true (.go e n) = some t

/-- How far a state is from the next read that does not time out. -/
def ListenState.weight : ListenState → Nat
  | .inside .mode _ => 0
  | .inside (.key) _ | .inside (.text) _ => 2
  | .inside (.keyTimeout) _ | .inside (.textTimeout) _ => 3
  | .inside _ _ => 1
  | .returned | .failed => 0

theorem weight_ofMode (mode : Byte) (inString : List Byte) :
    (ListenState.inside (.ofMode mode) inString).weight ≤ 2 := by
  unfold ListenPc.ofMode
  split_ifs
  all_goals simp [ListenState.weight]

theorem goes_rank {e : Env} {n : Nat} {c t : Conf Memory ListenState} (hc : ¬ ListenOver c)
    (hs : c.step listenThread true (.go e n) = some t) :
    t.pc ≠ .failed ∧
      4 * t.input.length + t.pc.weight < 4 * c.input.length + c.pc.weight := by
  obtain ⟨m, pc, input, out⟩ := c
  cases pc with
  | returned => cases hs
  | failed => cases hs
  | inside pc inString =>
    cases pc with
    | mode =>
      cases input with
      | nil => exact absurd rfl hc
      | cons b rest =>
        obtain rfl := Option.some.inj hs
        refine ⟨ListenState.noConfusion, ?_⟩
        have := weight_ofMode b inString
        show 4 * rest.length + (ListenState.inside (.ofMode b) inString).weight <
          4 * (rest.length + 1) + 0
        omega
    | key =>
      cases input with
      | nil =>
        obtain rfl := Option.some.inj hs
        exact ⟨ListenState.noConfusion, Nat.lt_succ_self _⟩
      | cons b rest =>
        obtain rfl := Option.some.inj hs
        refine ⟨ListenState.noConfusion, ?_⟩
        show 4 * rest.length + 1 < 4 * (rest.length + 1) + 2
        omega
    | text =>
      cases input with
      | nil =>
        obtain rfl := Option.some.inj hs
        exact ⟨ListenState.noConfusion, Nat.lt_succ_self _⟩
      | cons b rest =>
        rw [Conf.step_readBuf (listenThread_text _)] at hs
        split_ifs at hs with hn
        obtain rfl := Option.some.inj hs
        refine ⟨ListenState.noConfusion, ?_⟩
        show 4 * ((b :: rest).drop n).length + 2 < 4 * (b :: rest).length + 2
        rw [List.length_drop]
        omega
    | exitAck | keyTimeout | textTimeout | ack | modeTimeout | dispatchText =>
      obtain rfl := Option.some.inj hs
      exact ⟨ListenState.noConfusion, Nat.lt_succ_self _⟩
    | dispatchKey k =>
      obtain rfl := Option.some.inj hs
      exact ⟨ListenState.noConfusion, Nat.lt_succ_self _⟩

theorem exists_goes {size : Nat → Prop} (hsize : size 1) {c : Conf Memory ListenState}
    (hpc : c.pc ≠ .failed) (hc : ¬ ListenOver c) : ∃ t, Goes size c t := by
  obtain ⟨m, pc, input, out⟩ := c
  let e : Env := ⟨0, true, 0, 0, 0, true⟩
  cases pc with
  | returned => exact absurd trivial hc
  | failed => exact absurd rfl hpc
  | inside pc inString =>
    cases pc with
    | mode =>
      cases input with
      | nil => exact absurd rfl hc
      | cons b rest => exact ⟨_, e, 1, hsize, rfl⟩
    | key =>
      cases input
      · exact ⟨_, e, 1, hsize, rfl⟩
      · exact ⟨_, e, 1, hsize, rfl⟩
    | text =>
      cases input with
      | nil => exact ⟨_, e, 1, hsize, rfl⟩
      | cons b rest =>
        exact ⟨_, e, 1, hsize, (Conf.step_readBuf (listenThread_text inString) b rest).trans
          (if_pos ⟨Nat.one_pos, by decide, Nat.succ_le_succ (Nat.zero_le _)⟩)⟩
    | _ => exact ⟨_, e, 1, hsize, rfl⟩

/-- **Without further timeouts `listen` gets over**, whatever the chunks. -/
theorem goes_over {size : Nat → Prop} (hsize : size 1) {c : Conf Memory ListenState}
    (hpc : c.pc ≠ .failed) : Inevitable (Goes size) ListenOver c := by
  refine Inevitable.of_rank (I := fun c => c.pc ≠ .failed)
    (fun c => 4 * c.input.length + c.pc.weight) (fun c hpc hc => exists_goes hsize hpc hc) ?_ hpc
  rintro c t _ hc ⟨e, n, _, hs⟩
  exact goes_rank hc hs

theorem ListenOver.total_eq {c : Conf Memory ListenState} (h : ListenOver c) :
    (c.pc = .returned ∧ total c = (c.mem.events, some c.input)) ∨
      (c.pc ≠ .returned ∧ c.input = [] ∧ total c = (c.mem.events, none)) := by
  obtain ⟨m, pc, input, out⟩ := c
  cases pc with
  | returned => exact Or.inl ⟨rfl, rfl⟩
  | failed => exact h.elim
  | inside pc inString =>
    cases pc with
    | mode =>
      obtain rfl : input = [] := h
      exact Or.inr ⟨ListenState.noConfusion, rfl, congrArg (·, none) (List.append_nil m.events)⟩
    | _ => exact h.elim

theorem events_prefix (c : Conf Memory ListenState) : c.mem.events <+: (total c).1 := by
  obtain ⟨m, pc, input, out⟩ := c
  cases pc with
  | returned => exact List.prefix_rfl
  | failed => exact List.prefix_rfl
  | inside pc inString => exact List.prefix_append _ _

/-! ### What `listen` writes -/

/-- One step, and the number of timeouts so far. -/
def countStep (ch : Choice Env) (s : Conf Memory ListenState × Nat) :
    Option (Conf Memory ListenState × Nat) :=
  (s.1.step listenThread true ch).map fun t =>
    (t, match ch with | .timeout => s.2 + 1 | _ => s.2)

/-- One ACK on entry, one zero for each timeout, and one ACK on return; the zero of the last
timeout may still be missing. -/
def written (n : Nat) : ListenState → List Byte
  | .inside .ack _ => []
  | .inside .modeTimeout _ | .inside .keyTimeout _ | .inside .textTimeout _ =>
    ack :: List.replicate (n - 1) 0
  | .inside _ _ => ack :: List.replicate n 0
  | .returned => ack :: List.replicate n 0 ++ [ack]
  | .failed => []

/-- The number of timeouts there are at least: none on entry, and one where its zero is
still missing. -/
def CountFits (n : Nat) : ListenState → Prop
  | .inside .ack _ => n = 0
  | .inside .modeTimeout _ | .inside .keyTimeout _ | .inside .textTimeout _ => 0 < n
  | .failed => False
  | _ => True

theorem written_ofMode (n : Nat) (mode : Byte) (inString : List Byte) :
    written n (.inside (.ofMode mode) inString) = ack :: List.replicate n 0 ∧
      CountFits n (.inside (.ofMode mode) inString) := by
  unfold ListenPc.ofMode
  split_ifs
  all_goals exact ⟨rfl, trivial⟩

theorem replicate_concat {n : Nat} (h : 0 < n) :
    ack :: List.replicate (n - 1) (0 : Byte) ++ [0] = ack :: List.replicate n 0 := by
  obtain ⟨n, rfl⟩ := Nat.exists_eq_succ_of_ne_zero (Nat.ne_of_gt h)
  rw [List.cons_append, Nat.succ_sub_one, ← List.replicate_succ']

theorem written_step {ch : Choice Env} {c t : Conf Memory ListenState} {n k : Nat}
    (hch : NoError ch) (hcount : countStep ch (c, n) = some (t, k))
    (hout : c.output = written n c.pc) (hfits : CountFits n c.pc) :
    t.output = written k t.pc ∧ CountFits k t.pc := by
  obtain ⟨m, pc, input, out⟩ := c
  obtain ⟨t', hs, heq⟩ := Option.map_eq_some_iff.mp hcount
  obtain ⟨rfl, rfl⟩ := Prod.mk.inj heq
  dsimp only at hout hfits
  cases pc with
  | returned =>
    cases ch with
    | _ => cases hs
  | failed => exact hfits.elim
  | inside pc inString =>
    cases ch with
    | fail => exact hch.elim
    | timeout =>
      cases pc with
      | mode | key | text =>
        obtain rfl := Option.some.inj hs
        exact ⟨hout, Nat.succ_pos n⟩
      | _ => cases hs
    | go e size =>
      cases pc with
      | ack =>
        obtain rfl : n = 0 := hfits
        obtain rfl := Option.some.inj hs
        exact ⟨congrArg (· ++ [ack]) hout, trivial⟩
      | modeTimeout | keyTimeout | textTimeout =>
        obtain rfl := Option.some.inj hs
        exact ⟨(congrArg (· ++ [0]) hout).trans (replicate_concat hfits), trivial⟩
      | exitAck =>
        obtain rfl := Option.some.inj hs
        exact ⟨congrArg (· ++ [ack]) hout, trivial⟩
      | dispatchText =>
        obtain rfl := Option.some.inj hs
        exact ⟨hout, trivial⟩
      | dispatchKey k =>
        obtain rfl := Option.some.inj hs
        exact ⟨hout, trivial⟩
      | mode =>
        cases input with
        | nil =>
          obtain rfl := Option.some.inj hs
          exact ⟨hout, trivial⟩
        | cons b rest =>
          obtain rfl := Option.some.inj hs
          obtain ⟨hwritten, hmode⟩ := written_ofMode n b inString
          exact ⟨hout.trans hwritten.symm, hmode⟩
      | key =>
        cases input with
        | nil =>
          obtain rfl := Option.some.inj hs
          exact ⟨hout, trivial⟩
        | cons b rest =>
          obtain rfl := Option.some.inj hs
          exact ⟨hout, trivial⟩
      | text =>
        cases input with
        | nil =>
          obtain rfl := Option.some.inj hs
          exact ⟨hout, trivial⟩
        | cons b rest =>
          rw [Conf.step_readBuf (listenThread_text _)] at hs
          split_ifs at hs
          obtain rfl := Option.some.inj hs
          exact ⟨hout, trivial⟩

/-! ### Two runs -/

/-- **Timeouts and chunks are invisible.**  The run of single bytes without a timeout gets
over; and every other run can, writes one ACK, a zero for each timeout and one ACK, and when
it is over has dispatched the same events, and on return has left the same bytes. -/
theorem listen_invisible (m : Memory) (input : List Byte) :
    Inevitable (Goes (· = 1)) ListenOver (listenStart m input) ∧
      ∀ (c : Conf Memory ListenState) (n : Nat),
        Reach countStep (fun ch _ => NoError ch) (listenStart m input, 0) (c, n) →
        c.output = written n c.pc ∧
        Inevitable (Goes fun _ => True) ListenOver c ∧
        ∀ d : Conf Memory ListenState,
          Reach (fun ch s => s.step listenThread true ch) (fun ch _ => ∃ e, ch = .go e 1)
            (listenStart m input) d →
          ListenOver d →
          c.mem.events <+: d.mem.events ∧
          (ListenOver c → c.mem.events = d.mem.events ∧ (c.pc = .returned ↔ d.pc = .returned) ∧
            c.input = d.input) := by
  have hstart : (listenStart m input).pc ≠ .failed := ListenState.noConfusion
  refine ⟨@goes_over (· = 1) rfl _ hstart, fun c n hreach => ?_⟩
  have hfits₀ : CountFits 0 (listenStart m input).pc := rfl
  obtain ⟨⟨hout, hfits⟩, hsame⟩ := hreach.invariant
    (I := fun s => (s.1.output = written s.2 s.1.pc ∧ CountFits s.2 s.1.pc) ∧
      total s.1 = total (listenStart m input))
    ⟨⟨rfl, hfits₀⟩, rfl⟩ (by
      rintro ⟨s, n⟩ ⟨t, k⟩ ch ⟨⟨hout, hfits⟩, hsame⟩ hch hcount
      refine ⟨written_step hch hcount hout hfits, ?_⟩
      obtain ⟨t', hs, heq⟩ := Option.map_eq_some_iff.mp hcount
      obtain rfl := (Prod.mk.inj heq).1
      exact (total_step hch hs).trans hsame)
  refine ⟨hout, goes_over trivial ?_, fun d hd hover => ?_⟩
  · intro hpc
    rw [hpc] at hfits
    exact hfits
  · have hd' : total d = total (listenStart m input) :=
      hd.invariant (I := fun s => total s = total (listenStart m input)) rfl
        (fun s t ch hi ⟨e, hch⟩ hs => (total_step (hch ▸ trivial) hs).trans hi)
    have heq : total c = total d := hsame.trans hd'.symm
    have hevents : (total d).1 = d.mem.events := by
      rcases hover.total_eq with ⟨_, htotal⟩ | ⟨_, _, htotal⟩
      · rw [htotal]
      · rw [htotal]
    refine ⟨hevents ▸ heq ▸ events_prefix c, fun hc => ?_⟩
    rcases hc.total_eq with ⟨hpc, htotal⟩ | ⟨hpc, hin, htotal⟩
    · rcases hover.total_eq with ⟨hpc', htotal'⟩ | ⟨hpc', hin', htotal'⟩
      · rw [htotal, htotal'] at heq
        exact ⟨(Prod.mk.inj heq).1, iff_of_true hpc hpc', Option.some.inj (Prod.mk.inj heq).2⟩
      · rw [htotal, htotal'] at heq
        cases (Prod.mk.inj heq).2
    · rcases hover.total_eq with ⟨hpc', htotal'⟩ | ⟨hpc', hin', htotal'⟩
      · rw [htotal, htotal'] at heq
        cases (Prod.mk.inj heq).2
      · rw [htotal, htotal'] at heq
        exact ⟨(Prod.mk.inj heq).1, iff_of_false hpc hpc', hin.trans hin'.symm⟩

end MikaAudio.Server
