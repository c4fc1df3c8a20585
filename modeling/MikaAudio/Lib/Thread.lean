import MikaAudio.Lib.Interleave

/-!
# Threads that block on byte streams

A thread is a function `op` from its local state to the next operation it makes:
a read that blocks, a write of one byte, a datagram sent or received, or one
atomic action on the memory it shares with other threads.  Each operation holds
the local states it goes on with, one for each way it can end, so a loop of the
program is a local state that comes back and no fuel is needed.

`Op.exec` lets one operation happen with a given answer of the environment.
`Conf` is a thread alone with a finite input stream: `Conf.step` with
`ended = true` is a stream at whose end every read returns end of stream, with
`ended = false` a stream that stays open and on which a read at the end blocks.
-/

namespace Thread

abbrev Byte := BitVec 8

/-- How a read of one byte ends: a byte, end of stream, a read timeout, an I/O
error. -/
inductive Read
  | byte (b : Byte)
  | eof
  | timeout
  | error
  deriving DecidableEq

/-- How a read into a buffer ends; the bytes are those read. -/
inductive BufRead
  | bytes (bs : List Byte)
  | eof
  | timeout
  | error
  deriving DecidableEq

/-- The next operation of a thread: `ε` is what the environment answers to an
action, `μ` the shared memory, `σ` the local state. -/
inductive Op (ε μ σ : Type)
  /-- Read one byte. -/
  | read (k : Read → σ)
  /-- Read at least one and at most `len` bytes. -/
  | readBuf (len : Nat) (k : BufRead → σ)
  /-- Write one byte; `false` is an I/O error. -/
  | write (b : Byte) (k : Bool → σ)
  /-- Send a datagram to a port; `false` is an I/O error. -/
  | send (port : BitVec 32) (data : List Byte) (k : Bool → σ)
  /-- Wait for a datagram at a port. -/
  | receive (port : BitVec 32) (k : List Byte → σ)
  /-- Act on the memory in one step; `none` blocks. -/
  | act (f : ε → μ → Option (μ × σ))
  | halt

/-- The environment's answer to one operation. -/
inductive Reply (ε : Type)
  | read (r : Read)
  | readBuf (r : BufRead)
  | done (ok : Bool)
  | packet (data : List Byte)
  | env (e : ε)

variable {ε μ σ : Type}

/-- One operation with the answer it gets. -/
def Op.exec : Op ε μ σ → Reply ε → μ → Option (μ × σ)
  | .read k, .read r, m => some (m, k r)
  | .readBuf _ k, .readBuf r, m => some (m, k r)
  | .write _ k, .done ok, m => some (m, k ok)
  | .send _ _ k, .done ok, m => some (m, k ok)
  | .receive _ k, .packet d, m => some (m, k d)
  | .act f, .env e, m => f e m
  | _, _, _ => none

section Exec

variable {r : Reply ε} {m m' : μ} {pc' : σ}

/-- An operation that happens has got the answer it asks for. -/
theorem Op.exec_read {k : Read → σ} (h : (Op.read k).exec r m = some (m', pc')) :
    ∃ x, r = .read x ∧ m' = m ∧ pc' = k x := by
  cases r with
  | read x =>
    cases h
    exact ⟨x, rfl, rfl, rfl⟩
  | _ => cases h

theorem Op.exec_readBuf {len : Nat} {k : BufRead → σ}
    (h : (Op.readBuf len k).exec r m = some (m', pc')) :
    ∃ x, r = .readBuf x ∧ m' = m ∧ pc' = k x := by
  cases r with
  | readBuf x =>
    cases h
    exact ⟨x, rfl, rfl, rfl⟩
  | _ => cases h

theorem Op.exec_write {b : Byte} {k : Bool → σ} (h : (Op.write b k).exec r m = some (m', pc')) :
    ∃ ok, r = .done ok ∧ m' = m ∧ pc' = k ok := by
  cases r with
  | done ok =>
    cases h
    exact ⟨ok, rfl, rfl, rfl⟩
  | _ => cases h

theorem Op.exec_send {port : BitVec 32} {data : List Byte} {k : Bool → σ}
    (h : (Op.send port data k).exec r m = some (m', pc')) :
    ∃ ok, r = .done ok ∧ m' = m ∧ pc' = k ok := by
  cases r with
  | done ok =>
    cases h
    exact ⟨ok, rfl, rfl, rfl⟩
  | _ => cases h

theorem Op.exec_receive {port : BitVec 32} {k : List Byte → σ}
    (h : (Op.receive port k).exec r m = some (m', pc')) :
    ∃ data, r = .packet data ∧ m' = m ∧ pc' = k data := by
  cases r with
  | packet data =>
    cases h
    exact ⟨data, rfl, rfl, rfl⟩
  | _ => cases h

theorem Op.exec_act {f : ε → μ → Option (μ × σ)} (h : (Op.act f).exec r m = some (m', pc')) :
    ∃ e, r = .env e ∧ f e m = some (m', pc') := by
  cases r with
  | env e => exact ⟨e, rfl, h⟩
  | _ => cases h

end Exec

/-! ### One thread and its streams -/

/-- A thread with the rest of its input and all it has written. -/
structure Conf (μ σ : Type) where
  mem : μ
  pc : σ
  input : List Byte
  output : List Byte := []

/-- What decides the next step of a thread on a given input: the environment's
answer and the number of bytes a read into a buffer returns, a read timeout, or
an I/O error. -/
inductive Choice (ε : Type)
  | go (e : ε) (chunk : Nat)
  | timeout
  | fail

/-- One operation of a thread on its own input. -/
def Conf.step (op : σ → Op ε μ σ) (ended : Bool) (ch : Choice ε) (c : Conf μ σ) :
    Option (Conf μ σ) :=
  match ch with
  | .go e chunk =>
    match op c.pc with
    | .read k =>
      match c.input with
      | b :: rest => some { c with input := rest, pc := k (.byte b) }
      | [] => if ended then some { c with pc := k .eof } else none
    | .readBuf len k =>
      match c.input with
      | [] => if ended then some { c with pc := k .eof } else none
      | b :: rest =>
        if 0 < chunk ∧ chunk ≤ len ∧ chunk ≤ (b :: rest).length then
          some { c with
            input := (b :: rest).drop chunk
            pc := k (.bytes ((b :: rest).take chunk)) }
        else none
    | .write b k => some { c with output := c.output ++ [b], pc := k true }
    | .send _ _ k => some { c with pc := k true }
    | .receive _ _ => none
    | .act f => (f e c.mem).map fun r => { c with mem := r.1, pc := r.2 }
    | .halt => none
  | .timeout =>
    match op c.pc with
    | .read k => some { c with pc := k .timeout }
    | .readBuf _ k => some { c with pc := k .timeout }
    | _ => none
  | .fail =>
    match op c.pc with
    | .read k => some { c with pc := k .error }
    | .readBuf _ k => some { c with pc := k .error }
    | .write _ k => some { c with pc := k false }
    | .send _ _ k => some { c with pc := k false }
    | _ => none

/-- **What one step can be**, without timeouts and errors: a byte is read, or the end of
the stream, or the operation is made that the thread is at. -/
theorem Conf.step_cases {op : σ → Op ε μ σ} {ended : Bool} {e : ε} {n : Nat} {c t : Conf μ σ}
    (h : c.step op ended (.go e n) = some t) :
    (∃ k b rest, op c.pc = .read k ∧ c.input = b :: rest ∧
      t = { c with input := rest, pc := k (.byte b) }) ∨
    (∃ k, op c.pc = .read k ∧ c.input = [] ∧ ended = true ∧ t = { c with pc := k .eof }) ∨
    (∃ len k, op c.pc = .readBuf len k ∧ 0 < n ∧ n ≤ len ∧ n ≤ c.input.length ∧
      t = { c with input := c.input.drop n, pc := k (.bytes (c.input.take n)) }) ∨
    (∃ len k, op c.pc = .readBuf len k ∧ c.input = [] ∧ ended = true ∧
      t = { c with pc := k .eof }) ∨
    (∃ b k, op c.pc = .write b k ∧ t = { c with output := c.output ++ [b], pc := k true }) ∨
    (∃ p d k, op c.pc = .send p d k ∧ t = { c with pc := k true }) ∨
    (∃ f m pc, op c.pc = .act f ∧ f e c.mem = some (m, pc) ∧
      t = { c with mem := m, pc := pc }) := by
  unfold Conf.step at h
  cases hop : op c.pc with
  | read k =>
    simp only [hop] at h
    cases hin : c.input with
    | nil =>
      simp only [hin] at h
      split at h
      · rename_i hend
        cases h
        exact Or.inr (Or.inl ⟨k, rfl, rfl, hend, rfl⟩)
      · cases h
    | cons b rest =>
      simp only [hin, Option.some.injEq] at h
      exact Or.inl ⟨k, b, rest, rfl, rfl, h.symm⟩
  | readBuf len k =>
    simp only [hop] at h
    cases hin : c.input with
    | nil =>
      simp only [hin] at h
      split at h
      · rename_i hend
        cases h
        exact Or.inr (Or.inr (Or.inr (Or.inl ⟨len, k, rfl, rfl, hend, rfl⟩)))
      · cases h
    | cons b rest =>
      simp only [hin] at h
      split at h
      · rename_i hn
        rw [Option.some.injEq] at h
        exact Or.inr (Or.inr (Or.inl ⟨len, k, rfl, hn.1, hn.2.1, hn.2.2, h.symm⟩))
      · cases h
  | write b k =>
    simp only [hop, Option.some.injEq] at h
    exact Or.inr (Or.inr (Or.inr (Or.inr (Or.inl ⟨b, k, rfl, h.symm⟩))))
  | send p d k =>
    simp only [hop, Option.some.injEq] at h
    exact Or.inr (Or.inr (Or.inr (Or.inr (Or.inr (Or.inl ⟨p, d, k, rfl, h.symm⟩)))))
  | receive p k => simp [hop] at h
  | act f =>
    simp only [hop, Option.map_eq_some_iff] at h
    obtain ⟨⟨m, pc⟩, hf, h⟩ := h
    exact Or.inr (Or.inr (Or.inr (Or.inr (Or.inr (Or.inr ⟨f, m, pc, rfl, hf, h.symm⟩)))))
  | halt => simp [hop] at h

section Step

variable {op : σ → Op ε μ σ} {ended : Bool} {e : ε} {n : Nat} {m : μ} {pc : σ}
  {input out : List Byte}

theorem Conf.step_read {k : Read → σ} (h : op pc = .read k) (b : Byte) (rest : List Byte) :
    Conf.step op ended (.go e n) ⟨m, pc, b :: rest, out⟩ =
      some ⟨m, k (.byte b), rest, out⟩ := by
  simp [Conf.step, h]

theorem Conf.step_readBuf_nil {len : Nat} {k : BufRead → σ} (h : op pc = .readBuf len k) :
    Conf.step op ended (.go e n) ⟨m, pc, [], out⟩ =
      if ended then some ⟨m, k .eof, [], out⟩ else none := by
  simp [Conf.step, h]

theorem Conf.step_readBuf {len : Nat} {k : BufRead → σ} (h : op pc = .readBuf len k) (b : Byte)
    (rest : List Byte) :
    Conf.step op ended (.go e n) ⟨m, pc, b :: rest, out⟩ =
      if 0 < n ∧ n ≤ len ∧ n ≤ (b :: rest).length then
        some ⟨m, k (.bytes ((b :: rest).take n)), (b :: rest).drop n, out⟩
      else none := by
  simp [Conf.step, h]

theorem Conf.step_write {b : Byte} {k : Bool → σ} (h : op pc = .write b k) :
    Conf.step op ended (.go e n) ⟨m, pc, input, out⟩ =
      some ⟨m, k true, input, out ++ [b]⟩ := by
  simp [Conf.step, h]

theorem Conf.step_send {p : BitVec 32} {d : List Byte} {k : Bool → σ}
    (h : op pc = .send p d k) :
    Conf.step op ended (.go e n) ⟨m, pc, input, out⟩ = some ⟨m, k true, input, out⟩ := by
  simp [Conf.step, h]

theorem Conf.step_act {f : ε → μ → Option (μ × σ)} (h : op pc = .act f) :
    Conf.step op ended (.go e n) ⟨m, pc, input, out⟩ =
      (f e m).map fun r => ⟨r.1, r.2, input, out⟩ := by
  simp [Conf.step, h]

end Step

end Thread
