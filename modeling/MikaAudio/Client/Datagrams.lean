import MikaAudio.Client.FrameTask

/-!
# Datagrams from anywhere

The socket of the client's `FrameTask` takes a datagram from whoever sends one.  Nothing
in it is checked: the copy goes through exactly if there is a header and the data fits
into the buffer at the offset the header names (`Fits`), and what the view is told is then
within the buffer.  One datagram that does not fit ends the task.
-/

namespace MikaAudio.Client

open Thread (Byte)

/-- The datagram has a header, and its data, cut off at the length of the packet, fits
into a buffer of `size` bytes. -/
def Fits (size : Nat) (p : List Byte) : Prop :=
  sizeFrameHeader ≤ p.length ∧
    (readIntN p 1 3).toNat + (min (sizeData + sizeFrameHeader) p.length - sizeFrameHeader) ≤ size

instance (size : Nat) (p : List Byte) : Decidable (Fits size p) :=
  inferInstanceAs (Decidable (_ ∧ _))

theorem readIntN_overwrite {p : List Byte} (h : sizeFrameHeader ≤ p.length) (data : List Byte) :
    readIntN (Buffer.overwrite data 0 (p.take (sizeData + sizeFrameHeader))) 1 3 =
      readIntN p 1 3 := by
  obtain ⟨a, b, c, d, rest, rfl⟩ : ∃ a b c d rest, p = a :: b :: c :: d :: rest := by
    match p, h with
    | a :: b :: c :: d :: rest, _ => exact ⟨a, b, c, d, rest, rfl⟩
  rfl

variable {task task' : FrameTask} {p : List Byte}

theorem receive_some_iff (hdata : task.data.length = sizeFrameHeader + sizeData) :
    (∃ task', task.receive p = some task') ↔ Fits task.buffer.length p := by
  have htaken : (p.take (sizeData + sizeFrameHeader)).length =
      min (sizeData + sizeFrameHeader) p.length := List.length_take
  have hover : (Buffer.overwrite task.data 0 (p.take (sizeData + sizeFrameHeader))).length =
      sizeFrameHeader + sizeData := by
    rw [Buffer.length_overwrite (by omega), hdata]
  unfold Fits FrameTask.receive
  by_cases hheader : sizeFrameHeader ≤ p.length
  · have hnot : ¬ (p.take (sizeData + sizeFrameHeader)).length < sizeFrameHeader := by omega
    simp only [readIntN_overwrite hheader, hnot, if_false, hheader, true_and, Buffer.copy]
    by_cases hfits : (readIntN p 1 3).toNat +
        (min (sizeData + sizeFrameHeader) p.length - sizeFrameHeader) ≤ task.buffer.length
    · rw [if_pos (by omega)]
      exact iff_of_true ⟨_, rfl⟩ hfits
    · rw [if_neg (by omega)]
      refine iff_of_false (fun h => ?_) hfits
      obtain ⟨task', h⟩ := h
      cases h
  · have hshort : (p.take (sizeData + sizeFrameHeader)).length < sizeFrameHeader := by omega
    simp only [hshort, if_true, hheader, false_and, iff_false]
    rintro ⟨task', h⟩
    cases h

/-- **What a datagram that goes through leaves**: arrays as long as before, and a view that
is told of bytes of the buffer only. -/
theorem receive_some (hdata : task.data.length = sizeFrameHeader + sizeData)
    (h : task.receive p = some task') :
    task'.data.length = sizeFrameHeader + sizeData ∧
      task'.buffer.length = task.buffer.length ∧
      ∃ told : List (Nat × List Byte), task'.ready = task.ready ++ told ∧
        ∀ r ∈ told, r.1 ≤ task.buffer.length := by
  obtain ⟨hheader, hfits⟩ := (receive_some_iff hdata).mp ⟨task', h⟩
  have htaken : (p.take (sizeData + sizeFrameHeader)).length =
      min (sizeData + sizeFrameHeader) p.length := List.length_take
  have hover : (Buffer.overwrite task.data 0 (p.take (sizeData + sizeFrameHeader))).length =
      sizeFrameHeader + sizeData := by
    rw [Buffer.length_overwrite (by omega), hdata]
  have hnot : ¬ (p.take (sizeData + sizeFrameHeader)).length < sizeFrameHeader := by omega
  unfold FrameTask.receive at h
  simp only [readIntN_overwrite hheader, hnot, if_false, Buffer.copy] at h
  rw [if_pos (by omega)] at h
  obtain rfl := Option.some.inj h
  refine ⟨hover, Buffer.length_overwrite ?_, ?_⟩
  · rw [List.length_take, List.length_drop, hover]
    omega
  · dsimp only
    split_ifs
    · refine ⟨[_], rfl, fun r hr => ?_⟩
      rw [List.mem_singleton.mp hr]
      omega
    · exact ⟨[], (List.append_nil _).symm, nofun⟩

theorem run_some : ∀ (packets : List (List Byte)) (task : FrameTask),
    task.data.length = sizeFrameHeader + sizeData → task.run packets = some task' →
    ∃ told : List (Nat × List Byte), task'.ready = task.ready ++ told ∧
      ∀ r ∈ told, r.1 ≤ task.buffer.length := by
  intro packets
  induction packets with
  | nil =>
    intro task _ h
    obtain rfl := Option.some.inj h
    exact ⟨[], (List.append_nil _).symm, nofun⟩
  | cons p packets ih =>
    intro task hdata h
    rw [FrameTask.run_cons] at h
    obtain ⟨task₁, hrec, hrun⟩ := Option.bind_eq_some_iff.mp h
    obtain ⟨hdata₁, hbuffer₁, told₁, hready₁, htold₁⟩ := receive_some hdata hrec
    obtain ⟨told, hready, htold⟩ := ih task₁ hdata₁ hrun
    refine ⟨told₁ ++ told, by rw [hready, hready₁, List.append_assoc], fun r hr => ?_⟩
    rcases List.mem_append.mp hr with hr | hr
    · exact htold₁ r hr
    · exact hbuffer₁ ▸ htold r hr

theorem run_some_iff : ∀ (packets : List (List Byte)) (task : FrameTask),
    task.data.length = sizeFrameHeader + sizeData →
    ((∃ task', task.run packets = some task') ↔ ∀ p ∈ packets, Fits task.buffer.length p) := by
  intro packets
  induction packets with
  | nil => intro task _; exact iff_of_true ⟨task, rfl⟩ nofun
  | cons p packets ih =>
    intro task hdata
    rw [List.forall_mem_cons, ← receive_some_iff hdata, FrameTask.run_cons]
    constructor
    · rintro ⟨task', hrun⟩
      obtain ⟨task₁, hrec, hrun⟩ := Option.bind_eq_some_iff.mp hrun
      obtain ⟨hdata₁, hbuffer₁, _⟩ := receive_some hdata hrec
      refine ⟨⟨task₁, hrec⟩, ?_⟩
      rw [← hbuffer₁]
      exact (ih task₁ hdata₁).mp ⟨task', hrun⟩
    · rintro ⟨⟨task₁, hrec⟩, hall⟩
      obtain ⟨hdata₁, hbuffer₁, _⟩ := receive_some hdata hrec
      rw [← hbuffer₁] at hall
      obtain ⟨task', hrun⟩ := (ih task₁ hdata₁).mpr hall
      exact ⟨task', by rw [hrec, Option.bind_some, hrun]⟩

/-- **The loop is safe exactly if every datagram fits**: it raises no exception, and tells
the view of no more bytes than the buffer has. -/
theorem run_safe_iff (hdata : task.data.length = sizeFrameHeader + sizeData)
    (packets : List (List Byte)) :
    (∃ (task' : FrameTask) (told : List (Nat × List Byte)), task.run packets = some task' ∧
        task'.ready = task.ready ++ told ∧ ∀ r ∈ told, r.1 ≤ task.buffer.length) ↔
      ∀ p ∈ packets, Fits task.buffer.length p := by
  rw [← run_some_iff packets task hdata]
  constructor
  · rintro ⟨task', _, hrun, _⟩
    exact ⟨task', hrun⟩
  · rintro ⟨task', hrun⟩
    obtain ⟨told, hready, htold⟩ := run_some packets task hdata hrun
    exact ⟨task', told, hrun, hready, htold⟩

/-- A datagram of a header and two pixels, at the offset `8`. -/
theorem run_safe_two :
    let data : List Byte := List.replicate (sizeFrameHeader + sizeData) 0
    ∃ task' : FrameTask, (FrameTask.new data 4 2).run [[1, 0, 0, 8, 5, 6, 7, 8]] = some task' := by
  intro data
  have hdata : data.length = sizeFrameHeader + sizeData := List.length_replicate ..
  clear_value data
  obtain ⟨task', _, hrun, _⟩ := (@run_safe_iff (FrameTask.new data 4 2) hdata
    [[1, 0, 0, 8, 5, 6, 7, 8]]).mpr (by
      intro p hp
      rw [List.mem_singleton.mp hp]
      exact (show Fits 16 _ by decide))
  exact ⟨task', hrun⟩

/-- **A datagram of three bytes ends the task.** -/
theorem run_unsafe : ¬ ∀ (task : FrameTask) (packets : List (List Byte)),
    task.data.length = sizeFrameHeader + sizeData →
    ∃ (task' : FrameTask) (told : List (Nat × List Byte)), task.run packets = some task' ∧
      task'.ready = task.ready ++ told ∧ ∀ r ∈ told, r.1 ≤ task.buffer.length := by
  intro hclaim
  let data : List Byte := List.replicate (sizeFrameHeader + sizeData) 0
  have hdata : data.length = sizeFrameHeader + sizeData := List.length_replicate ..
  obtain ⟨task', _, hrun, _⟩ := hclaim (FrameTask.new data 4 2) [[1, 0, 0]] hdata
  have hfits := (run_some_iff [[1, 0, 0]] (FrameTask.new data 4 2) hdata).mp ⟨task', hrun⟩
  exact absurd (hfits _ List.mem_cons_self).1 (by decide)

end MikaAudio.Client
