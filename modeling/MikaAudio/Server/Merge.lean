import MikaAudio.Server.Communication
import MikaAudio.Lib.Shuffle

/-!
# Keys from all sources

Every connection in the input mode has a thread in `listen`, the `IrParser` has one of
its own, and all of them post to the handler of the one static `InputThread`.  A thread
in `listen` is at one of the stages of `Awaits`: the keys it still has to post and the
bytes it still has to read go together, and a timeout between the two bytes of a key
changes neither.
-/

namespace MikaAudio.Server

open Thread Interleave Shuffle

/-! ### The stream of one connection -/

/-- `MODE_KEY` commands for a list of keys, and `MODE_EXIT`. -/
def keyStream : List JInt → List Byte
  | [] => [modeExit]
  | key :: keys => modeKey :: key.setWidth 8 :: keyStream keys

/-- `listen` has still to read these bytes and to post these keys. -/
inductive Awaits : List JInt → TaskPc → List Byte → Prop
  | ack (keys : List JInt) : Awaits keys (.listen .ack []) (keyStream keys)
  | mode (keys : List JInt) : Awaits keys (.listen .mode []) (keyStream keys)
  | modeTimeout (keys : List JInt) : Awaits keys (.listen .modeTimeout []) (keyStream keys)
  | key (key : JInt) (keys : List JInt) :
      Awaits (key :: keys) (.listen .key []) (key.setWidth 8 :: keyStream keys)
  | keyTimeout (key : JInt) (keys : List JInt) :
      Awaits (key :: keys) (.listen .keyTimeout []) (key.setWidth 8 :: keyStream keys)
  | dispatch (key : JInt) (keys : List JInt) :
      Awaits (key :: keys) (.listen (.dispatchKey (inRead (some (key.setWidth 8)))) [])
        (keyStream keys)
  | exitAck : Awaits [] (.listen .exitAck []) []
  | returned : Awaits [] .loop []

/-- The thread is inside `listen`. -/
def TaskPc.inListen : TaskPc → Bool
  | .listen _ _ => true
  | _ => false

section Stream

variable {c : Nat} {keys : List JInt} {m : Memory} {pc : TaskPc} {input out : List Byte}
  {t : Conf Memory TaskPc}

theorem Awaits.go (h : Awaits keys pc input) (hpc : pc.inListen = true) {e : Env} {n : Nat}
    (hst : Conf.step (taskOp c) false (.go e n) ⟨m, pc, input, out⟩ = some t) :
    (t.mem = m ∧ Awaits keys t.pc t.input) ∨
    ∃ key rest, keys = key :: rest ∧ t.mem = m.post (.key (inRead (some (key.setWidth 8)))) ∧
      Awaits rest t.pc t.input := by
  cases h with
  | ack =>
    rw [Conf.step_write rfl] at hst
    cases hst
    exact Or.inl ⟨rfl, .mode _⟩
  | mode =>
    cases keys with
    | nil =>
      rw [keyStream, Conf.step_read rfl] at hst
      cases hst
      exact Or.inl ⟨rfl, .exitAck⟩
    | cons key keys =>
      rw [keyStream, Conf.step_read rfl] at hst
      cases hst
      exact Or.inl ⟨rfl, .key key keys⟩
  | modeTimeout =>
    rw [Conf.step_write rfl] at hst
    cases hst
    exact Or.inl ⟨rfl, .mode _⟩
  | key key keys =>
    rw [Conf.step_read rfl] at hst
    cases hst
    exact Or.inl ⟨rfl, .dispatch key keys⟩
  | keyTimeout key keys =>
    rw [Conf.step_write rfl] at hst
    cases hst
    exact Or.inl ⟨rfl, .key key keys⟩
  | dispatch key keys =>
    rw [Conf.step_act rfl] at hst
    cases hst
    exact Or.inr ⟨key, keys, rfl, rfl, .mode keys⟩
  | exitAck =>
    rw [Conf.step_write rfl] at hst
    cases hst
    exact Or.inl ⟨rfl, .returned⟩
  | returned => cases hpc

theorem Awaits.timeout (h : Awaits keys pc input)
    (hst : Conf.step (taskOp c) false .timeout ⟨m, pc, input, out⟩ = some t) :
    t.mem = m ∧ Awaits keys t.pc t.input := by
  cases h with
  | mode =>
    cases hst
    exact ⟨rfl, .modeTimeout _⟩
  | key =>
    cases hst
    exact ⟨rfl, .keyTimeout _ _⟩
  | _ => cases hst

theorem Awaits.eq_nil (h : Awaits keys pc input) (hpc : pc.inListen = false) : keys = [] := by
  cases h with
  | exitAck | returned => rfl
  | _ => cases hpc

end Stream

/-! ### All sources -/

/-- The connections in `listen`, the `IrParser` with the keys it has still to pass, and the
`InputThread`: the number of messages it has handled and the keys it has given to
`sendKeyDownUpSync`. -/
structure Sources (n : Nat) where
  memory : Memory := {}
  tasks : Fin n → TaskPc
  inputs : Fin n → List Byte
  outputs : Fin n → List Byte := fun _ => []
  ir : List JInt
  handled : Nat := 0
  given : List JInt := []

namespace Sources

variable {n : Nat}

/-- Who moves. -/
inductive Label (n : Nat)
  /-- The thread of connection `i` makes its next operation. -/
  | task (i : Fin n) (e : Env) (chunk : Nat)
  /-- A read of connection `i` times out. -/
  | timeout (i : Fin n)
  /-- The `IrParser` calls `inputKeyEvent`. -/
  | ir
  /-- The `InputThread` handles a message. -/
  | handle

/-- The thread of connection `i`, inside `listen`. -/
def stepTask (i : Fin n) (ch : Choice Env) (s : Sources n) : Option (Sources n) :=
  if (s.tasks i).inListen then
    (Conf.step (taskOp i) false ch ⟨s.memory, s.tasks i, s.inputs i, s.outputs i⟩).map fun t =>
      { s with
        memory := t.mem
        tasks := Function.update s.tasks i t.pc
        inputs := Function.update s.inputs i t.input
        outputs := Function.update s.outputs i t.output }
  else none

/-- `InputThread.handleMessage`: `sendKeyDownUpSync` for a key, `sendStringSync` for a
text. -/
def stepHandle (s : Sources n) : Option (Sources n) :=
  s.memory.events[s.handled]?.map fun ev =>
    { s with handled := s.handled + 1, given := s.given ++ ev.key?.toList }

/-- One step. -/
def step (l : Label n) (s : Sources n) : Option (Sources n) :=
  match l with
  | .task i e chunk => s.stepTask i (.go e chunk)
  | .timeout i => s.stepTask i .timeout
  | .ir =>
    match s.ir with
    | key :: keys => some { s with memory := s.memory.post (.key key), ir := keys }
    | [] => none
  | .handle => s.stepHandle

/-- Every connection is at the beginning of `listen`, and nothing has been posted. -/
structure Start (keys : Fin n → List JInt) (irKeys : List JInt) (s : Sources n) : Prop where
  codes : ∀ i, ∀ k ∈ keys i, k.toNat < 256
  tasks : ∀ i, s.tasks i = .listen .ack []
  inputs : ∀ i, s.inputs i = keyStream (keys i)
  ir : s.ir = irKeys
  events : s.memory.events = []
  handled : s.handled = 0
  given : s.given = []

/-- All connections have left `listen`, the `IrParser` has passed all its keys, and every
message is handled. -/
structure Done (s : Sources n) : Prop where
  tasks : ∀ i, (s.tasks i).inListen = false
  ir : s.ir = []
  handled : s.handled = s.memory.events.length

/-- The keys of all sources. -/
def allKeys (keys : Fin n → List JInt) (irKeys : List JInt) : Option (Fin n) → List JInt
  | some i => keys i
  | none => irKeys

/-- **What is posted is a shuffle of what each source has posted**, and each source has the
rest of its keys before it. -/
structure Inv (keys : Fin n → List JInt) (irKeys : List JInt) (s : Sources n) : Prop where
  posted : ∃ done : Option (Fin n) → List JInt, IsShuffle done s.memory.keys ∧
    (∀ i, ∃ todo, keys i = done (some i) ++ todo ∧ Awaits todo (s.tasks i) (s.inputs i)) ∧
    irKeys = done none ++ s.ir
  handled : s.handled ≤ s.memory.events.length
  given : s.given = (s.memory.events.take s.handled).filterMap InputEvent.key?

variable {keys : Fin n → List JInt} {irKeys : List JInt} {s t : Sources n}

theorem Start.inv (h : Start keys irKeys s) : Inv keys irKeys s where
  posted := by
    refine ⟨fun _ => [], ?_, fun i => ⟨keys i, rfl, ?_⟩, h.ir.symm⟩
    · rw [Memory.keys, h.events]
      exact .nil
    · rw [h.tasks i, h.inputs i]
      exact .ack _
  handled := by
    rw [h.handled]
    exact Nat.zero_le _
  given := by
    rw [h.given, h.handled]
    rfl

theorem Inv.post (h : Inv keys irKeys s) (ev : InputEvent) :
    s.handled ≤ (s.memory.post ev).events.length ∧
      s.given = ((s.memory.post ev).events.take s.handled).filterMap InputEvent.key? := by
  constructor
  · rw [Memory.post, List.length_append]
    exact Nat.le_add_right_of_le h.handled
  · rw [Memory.post, List.take_append_of_le_length h.handled]
    exact h.given

theorem awaits_update {done done' : Option (Fin n) → List JInt} {tasks : Fin n → TaskPc}
    {inputs : Fin n → List Byte} {i : Fin n} {pc : TaskPc} {input : List Byte}
    (h : ∀ j, ∃ todo, keys j = done (some j) ++ todo ∧ Awaits todo (tasks j) (inputs j))
    (hi : ∃ todo, keys i = done' (some i) ++ todo ∧ Awaits todo pc input)
    (hne : ∀ j, j ≠ i → done' (some j) = done (some j)) (j : Fin n) :
    ∃ todo, keys j = done' (some j) ++ todo ∧
      Awaits todo (Function.update tasks i pc j) (Function.update inputs i input j) := by
  by_cases hij : j = i
  · subst hij
    rw [Function.update_self, Function.update_self]
    exact hi
  · rw [Function.update_of_ne hij, Function.update_of_ne hij, hne j hij]
    exact h j

theorem Inv.task (h : Inv keys irKeys s) (hcodes : ∀ i, ∀ k ∈ keys i, k.toNat < 256)
    {i : Fin n} {e : Env} {chunk : Nat} (hst : s.stepTask i (.go e chunk) = some t) :
    Inv keys irKeys t := by
  unfold stepTask at hst
  split_ifs at hst with hlisten
  obtain ⟨u, hu, rfl⟩ := Option.map_eq_some_iff.mp hst
  obtain ⟨done, hdone, htasks, hir⟩ := h.posted
  obtain ⟨todo, hkeys, haw⟩ := htasks i
  rcases haw.go hlisten hu with ⟨hmem, haw'⟩ | ⟨key, rest, rfl, hmem, haw'⟩
  · refine ⟨⟨done, ?_, ?_, hir⟩, ?_, ?_⟩
    · exact hmem ▸ hdone
    · exact awaits_update htasks ⟨todo, hkeys, haw'⟩ (fun _ _ => rfl)
    · exact hmem ▸ h.handled
    · exact hmem ▸ h.given
  · have hcode : key.toNat < 256 := hcodes i key (by rw [hkeys]; simp)
    rw [inRead_setWidth hcode] at hmem
    refine ⟨⟨Function.update done (some i) (done (some i) ++ [key]), ?_, ?_, ?_⟩, ?_, ?_⟩
    · show IsShuffle _ u.mem.keys
      rw [hmem, Memory.keys_post_key]
      exact hdone.snoc (some i) key
    · refine awaits_update htasks ⟨rest, ?_, haw'⟩ (fun j hj => ?_)
      · rw [Function.update_self, hkeys, List.append_cons]
      · exact Function.update_of_ne (fun heq => hj (Option.some.inj heq)) _ _
    · rw [Function.update_of_ne (show none ≠ some i from nofun)]
      exact hir
    · exact hmem ▸ (h.post (.key key)).1
    · exact hmem ▸ (h.post (.key key)).2

theorem Inv.timeout (h : Inv keys irKeys s) {i : Fin n}
    (hst : s.stepTask i .timeout = some t) : Inv keys irKeys t := by
  unfold stepTask at hst
  split_ifs at hst with hlisten
  obtain ⟨u, hu, rfl⟩ := Option.map_eq_some_iff.mp hst
  obtain ⟨done, hdone, htasks, hir⟩ := h.posted
  obtain ⟨todo, hkeys, haw⟩ := htasks i
  obtain ⟨hmem, haw'⟩ := haw.timeout hu
  refine ⟨⟨done, hmem ▸ hdone, ?_, hir⟩, hmem ▸ h.handled, hmem ▸ h.given⟩
  exact awaits_update htasks ⟨todo, hkeys, haw'⟩ (fun _ _ => rfl)

theorem Inv.step (h : Inv keys irKeys s) (hcodes : ∀ i, ∀ k ∈ keys i, k.toNat < 256)
    {l : Label n} (hst : step l s = some t) : Inv keys irKeys t := by
  cases l with
  | task i e chunk => exact h.task hcodes hst
  | timeout i => exact h.timeout hst
  | ir =>
    simp only [Sources.step] at hst
    split at hst
    · rename_i key rest hir'
      cases hst
      obtain ⟨done, hdone, htasks, hir⟩ := h.posted
      refine ⟨⟨Function.update done none (done none ++ [key]), ?_, fun i => ?_, ?_⟩,
        (h.post (.key key)).1, (h.post (.key key)).2⟩
      · show IsShuffle _ (s.memory.post (.key key)).keys
        rw [Memory.keys_post_key]
        exact hdone.snoc none key
      · obtain ⟨todo, hkeys, haw⟩ := htasks i
        refine ⟨todo, ?_, haw⟩
        rw [Function.update_of_ne (show some i ≠ none from nofun)]
        exact hkeys
      · rw [Function.update_self, hir, hir', List.append_cons]
    · cases hst
  | handle =>
    obtain ⟨ev, hev, rfl⟩ := Option.map_eq_some_iff.mp hst
    obtain ⟨hlt, rfl⟩ := List.getElem?_eq_some_iff.mp hev
    refine ⟨h.posted, hlt, ?_⟩
    show s.given ++ _ = _
    rw [h.given, List.take_succ_eq_append_getElem hlt, List.filterMap_append]
    rfl

/-- **Keys from all sources are merged without loss.**  When everything is handled, the keys
given to `sendKeyDownUpSync` are a shuffle of the keys of all connections and of the
`IrParser`. -/
theorem keys_merged {s₀ : Sources n} (h₀ : Start keys irKeys s₀)
    (h : Reach Sources.step (fun _ _ => True) s₀ s) (hdone : Done s) :
    IsShuffle (allKeys keys irKeys) s.given := by
  have hinv : Inv keys irKeys s := h.invariant h₀.inv (fun _ _ _ hs _ hst => hs.step h₀.codes hst)
  obtain ⟨done, hshuffle, htasks, hir⟩ := hinv.posted
  have hall : done = allKeys keys irKeys := by
    funext source
    cases source with
    | some i =>
      obtain ⟨todo, hkeys, haw⟩ := htasks i
      rw [allKeys, hkeys, haw.eq_nil (hdone.tasks i), List.append_nil]
    | none =>
      rw [allKeys, hir, hdone.ir, List.append_nil]
  rw [← hall, hinv.given, hdone.handled, List.take_length]
  exact hshuffle

/-- Two connections with a key each, one of them timing out between the two bytes of its key,
and a key of the `IrParser` between the two. -/
theorem keys_merged_two :
    IsShuffle (allKeys (fun i : Fin 2 => if i = 0 then [23] else [4]) [3]) [4, 3, 23] := by
  let e : Env := ⟨0, true, 0, 0, 0, true⟩
  let keys : Fin 2 → List JInt := fun i => if i = 0 then [23] else [4]
  let s₀ : Sources 2 := {
    tasks := fun _ => .listen .ack []
    inputs := fun i => keyStream (keys i)
    ir := [3] }
  have hcodes : ∀ i, ∀ k ∈ keys i, k.toNat < 256 := by
    intro i k hk
    match i with
    | 0 => rw [List.mem_singleton.mp hk]; decide
    | 1 => rw [List.mem_singleton.mp hk]; decide
  have h₀ : Start keys [3] s₀ :=
    ⟨hcodes, fun _ => rfl, fun _ => rfl, rfl, rfl, rfl, rfl⟩
  obtain ⟨s, hs, hk⟩ := Reach.exists_of_run (show
    (run (fun l s => if True then Sources.step l s else none)
      (List.replicate 2 (.task 0 e 0) ++ [.timeout 0] ++ List.replicate 6 (.task 1 e 0) ++
        [.ir, .handle] ++ List.replicate 5 (.task 0 e 0) ++ [.handle, .handle]) s₀).map
      (fun s => (s.given, s.tasks 0, s.tasks 1, s.ir, s.handled, s.memory.events.length)) =
      some ([4, 3, 23], .loop, .loop, [], 3, 3) by decide +kernel)
  simp only [Prod.mk.injEq] at hk
  obtain ⟨hgiven, h0, h1, hir, hhandled, hlen⟩ := hk
  have hdone : Done s := by
    refine ⟨fun i => ?_, hir, hhandled.trans hlen.symm⟩
    match i with
    | 0 => rw [h0]; rfl
    | 1 => rw [h1]; rfl
  exact hgiven ▸ keys_merged h₀ hs hdone

end Sources

end MikaAudio.Server
