import MikaAudio.Session.Transfer
import Mathlib.Data.List.Nodup

/-!
# Frames that are skipped, and packets that are lost

Two things keep a frame from the view.  The server skips a frame that is as long as the
one before.  And a packet may be lost, come twice or come late; nothing in it says which
frame it belongs to, so the client puts it into the one buffer all the same.

The pieces of all frames lie on one grid of `SIZE_DATA` bytes, so a piece is changed only
by a packet with the same offset (`Fragment.In.received`).  A frame is whole in the buffer
when each of its pieces is the one that came last at its place (`Complete`).
-/

namespace MikaAudio

open Thread (Byte)
open Server.FrameTask (length send threshold)

/-! ### The grid of the pieces -/

/-- `f` is a piece of the frame, and lies on the grid. -/
structure Fragment.Of (bitmap : List Byte) (f : Fragment) : Prop where
  grid : sizeData ∣ f.offset
  size : f.payload.length ≤ sizeData
  start : f.offset < bitmap.length
  fits : f.offset + f.payload.length ≤ bitmap.length
  bytes : ∀ k < f.payload.length, f.payload[k]? = bitmap[f.offset + k]?
  last : f.last = true ↔ f.offset + f.payload.length = bitmap.length

section Grid

variable {bitmap : List Byte} {count : Nat} {f g : Fragment}

theorem length_eq (h : count + length bitmap count < bitmap.length) :
    length bitmap count = sizeData := by
  unfold length at h ⊢
  split_ifs at h ⊢
  · omega
  · omega

theorem fragment_of (hgrid : sizeData ∣ count) (h : count < bitmap.length) :
    (fragment bitmap count).Of bitmap := by
  have hlen := length_fragment (Nat.le_of_lt h)
  refine ⟨hgrid, hlen ▸ length_le bitmap count, h, ?_, fun k hk => ?_, ?_⟩
  · rw [hlen]
    exact count_add_length_le (Nat.le_of_lt h)
  · rw [hlen] at hk
    simp only [fragment]
    rw [List.getElem?_take_of_lt hk, List.getElem?_drop]
  · rw [hlen]
    simp [fragment]

theorem Fragment.of_mem (hgrid : sizeData ∣ count) (hf : f ∈ fragments bitmap count) :
    f.Of bitmap := by
  induction count using fragments.induct bitmap with
  | case1 count hlt ih =>
    rw [fragments, if_pos hlt, List.mem_cons] at hf
    rcases hf with rfl | hf
    · exact fragment_of hgrid hlt
    · by_cases hend : count + length bitmap count < bitmap.length
      · rw [length_eq hend] at ih hf
        exact ih ((Nat.dvd_add_right hgrid).mpr (Nat.dvd_refl _)) hf
      · rw [fragments, if_neg hend] at hf
        cases hf
  | case2 count hlt =>
    rw [fragments, if_neg hlt] at hf
    cases hf

theorem Fragment.eq_of_mem (hf : f ∈ fragments bitmap count) :
    f = fragment bitmap f.offset := by
  induction count using fragments.induct bitmap with
  | case1 count hlt ih =>
    rw [fragments, if_pos hlt, List.mem_cons] at hf
    rcases hf with rfl | hf
    · rfl
    · exact ih hf
  | case2 count hlt =>
    rw [fragments, if_neg hlt] at hf
    cases hf

theorem exists_fragment {k : Nat} (hk : k < bitmap.length) (hcount : count ≤ k) :
    ∃ f ∈ fragments bitmap count, f.offset ≤ k ∧ k < f.offset + f.payload.length := by
  induction count using fragments.induct bitmap with
  | case1 count hlt ih =>
    rw [fragments, if_pos hlt]
    by_cases hin : k < count + length bitmap count
    · refine ⟨_, List.mem_cons_self, hcount, ?_⟩
      rw [length_fragment (Nat.le_of_lt hlt)]
      exact hin
    · obtain ⟨f, hf, hle, hklt⟩ := ih (Nat.le_of_not_lt hin)
      exact ⟨f, List.mem_cons_of_mem _ hf, hle, hklt⟩
  | case2 count hlt => omega

theorem mem_fragments : ∀ (n count : Nat), count + n * sizeData < bitmap.length →
    fragment bitmap (count + n * sizeData) ∈ fragments bitmap count := by
  intro n
  induction n with
  | zero =>
    intro count h
    rw [Nat.zero_mul, Nat.add_zero] at h ⊢
    rw [fragments, if_pos h]
    exact List.mem_cons_self
  | succ n ih =>
    intro count h
    have hmul : (n + 1) * sizeData = sizeData + n * sizeData := by
      rw [Nat.succ_mul, Nat.add_comm]
    rw [hmul, ← Nat.add_assoc] at h ⊢
    have hlen : length bitmap count = sizeData := by
      unfold length
      exact if_neg (by omega)
    rw [fragments, if_pos (by omega), hlen]
    exact List.mem_cons_of_mem _ (ih (count + sizeData) h)

theorem le_offset (hf : f ∈ fragments bitmap count) : count ≤ f.offset := by
  induction count using fragments.induct bitmap with
  | case1 count hlt ih =>
    rw [fragments, if_pos hlt, List.mem_cons] at hf
    rcases hf with rfl | hf
    · exact Nat.le_refl _
    · exact Nat.le_trans (Nat.le_add_right _ _) (ih hf)
  | case2 count hlt =>
    rw [fragments, if_neg hlt] at hf
    cases hf

theorem nodup_fragments (bitmap : List Byte) (count : Nat) : (fragments bitmap count).Nodup := by
  induction count using fragments.induct bitmap with
  | case1 count hlt ih =>
    rw [fragments, if_pos hlt, List.nodup_cons]
    refine ⟨fun hmem => ?_, ih⟩
    have hle : count + length bitmap count ≤ count := le_offset hmem
    have hpos := Server.FrameTask.length_pos hlt
    omega
  | case2 count hlt =>
    rw [fragments, if_neg hlt]
    exact List.nodup_nil

theorem offset_encode (hsize : bitmap.length ≤ 2 ^ 24) (hf : f ∈ fragments bitmap 0) :
    (Client.readIntN f.encode 1 3).toNat = f.offset := by
  have hlt := Nat.lt_of_lt_of_le (Fragment.of_mem (Nat.dvd_zero _) hf).start hsize
  have hread := readIntN_encode hlt []
  rw [List.append_nil] at hread
  rw [hread, BitVec.toNat_ofNat, Nat.mod_eq_of_lt (by omega)]

theorem encode_inj (hsize : bitmap.length ≤ 2 ^ 24) (hf : f ∈ fragments bitmap 0)
    (hg : g ∈ fragments bitmap 0) (h : f.encode = g.encode) : f = g := by
  have hoffset : f.offset = g.offset := by
    rw [← offset_encode hsize hf, h, offset_encode hsize hg]
  rw [Fragment.eq_of_mem hf, Fragment.eq_of_mem hg, hoffset]

end Grid

/-! ### Pieces in the buffer -/

section Pieces

open Client (FrameTask)

variable {bitmap : List Byte} {f g : Fragment} {task : FrameTask}

/-- The piece is in the buffer. -/
def Fragment.In (f : Fragment) (buffer : List Byte) : Prop :=
  ∀ k < f.payload.length, buffer[f.offset + k]? = f.payload[k]?

theorem Fragment.in_received (h : f.offset + f.payload.length ≤ task.buffer.length) :
    f.In (f.received task).buffer := by
  intro k hk
  show (Buffer.overwrite _ _ _)[_]? = _
  rw [Buffer.getElem?_overwrite h, if_pos ⟨by omega, by omega⟩, Nat.add_sub_cancel_left]

/-- **A piece that comes in leaves the pieces at other places alone.** -/
theorem Fragment.In.received {bitmap' : List Byte} (h : f.In task.buffer) (hf : f.Of bitmap)
    (hg : g.Of bitmap') (hfits : g.offset + g.payload.length ≤ task.buffer.length)
    (hne : g.offset ≠ f.offset) : f.In (g.received task).buffer := by
  intro k hk
  show (Buffer.overwrite _ _ _)[_]? = _
  rw [Buffer.getElem?_overwrite hfits, if_neg, h k hk]
  rintro ⟨hle, hlt⟩
  have hfsize := hf.size
  have hgsize := hg.size
  obtain ⟨a, ha⟩ := hf.grid
  obtain ⟨b, hb⟩ := hg.grid
  have hab : a ≠ b := by
    rintro rfl
    exact hne (hb.trans ha.symm)
  rcases Nat.lt_or_gt_of_ne hab with hab | hab
  · have := Nat.mul_le_mul_left sizeData (Nat.succ_le_of_lt hab)
    rw [Nat.mul_succ] at this
    omega
  · have := Nat.mul_le_mul_left sizeData (Nat.succ_le_of_lt hab)
    rw [Nat.mul_succ] at this
    omega

theorem take_of_in {buffer : List Byte} (h : ∀ f ∈ fragments bitmap 0, f.In buffer) :
    buffer.take bitmap.length = bitmap := by
  refine List.ext_getElem? (fun k => ?_)
  by_cases hk : k < bitmap.length
  · obtain ⟨f, hf, hle, hlt⟩ := exists_fragment hk (Nat.zero_le k)
    have hbyte := (Fragment.of_mem (Nat.dvd_zero _) hf).bytes (k - f.offset) (by omega)
    have hin := h f hf (k - f.offset) (by omega)
    rw [Nat.add_sub_cancel' hle] at hbyte hin
    rw [List.getElem?_take_of_lt hk, hin, hbyte]
  · rw [List.getElem?_eq_none (Nat.le_of_not_lt hk), List.getElem?_eq_none]
    exact Nat.le_trans (List.length_take_le _ _) (Nat.le_of_not_lt hk)

end Pieces

/-! ### Packets that are lost, doubled and out of order -/

section Network

open Client (FrameTask)

/-- The packet is one of a frame. -/
def PacketOf (frames : List (List Byte)) (p : List Byte) : Prop :=
  ∃ b ∈ frames, ∃ f ∈ fragments b 0, p = f.encode

/-- Of every piece of the frame the packet has come, and none with the same offset after
it. -/
def Complete (delivered : List (List Byte)) (b : List Byte) : Prop :=
  ∀ f ∈ fragments b 0, ∃ before after, delivered = before ++ f.encode :: after ∧
    ∀ q ∈ after, Client.readIntN q 1 3 ≠ BitVec.ofNat 32 f.offset

/-- **A frame whose packets have come each once is complete**, in whatever order they came. -/
theorem complete_of_perm {b : List Byte} (hsize : b.length ≤ 2 ^ 24) {delivered : List (List Byte)}
    (h : delivered.Perm ((fragments b 0).map Fragment.encode)) : Complete delivered b := by
  intro f hf
  have hnodup : delivered.Nodup :=
    h.nodup_iff.mpr ((nodup_fragments b 0).map_on fun f hf g hg => encode_inj hsize hf hg)
  obtain ⟨before, after, rfl⟩ := List.append_of_mem (h.mem_iff.mpr (List.mem_map_of_mem hf))
  refine ⟨before, after, rfl, fun q hq hread => ?_⟩
  obtain ⟨g, hg, rfl⟩ := List.mem_map.mp
    (h.mem_iff.mp (List.mem_append_right before (List.mem_cons_of_mem _ hq)))
  -- a packet with the offset of `f` is that of `f`
  have hoffset : g.offset = f.offset := by
    have hlt := Nat.lt_of_lt_of_le (Fragment.of_mem (Nat.dvd_zero _) hf).start hsize
    rw [← offset_encode hsize hg, hread, BitVec.toNat_ofNat, Nat.mod_eq_of_lt (by omega)]
  have hgf : g = f := by rw [Fragment.eq_of_mem hg, Fragment.eq_of_mem hf, hoffset]
  rw [hgf] at hq
  exact (List.nodup_cons.mp (List.nodup_append.mp hnodup).2.1).1 hq

theorem run_packets : ∀ (frames : List (List Byte)) (diff : Nat) (data : List Byte),
    data.length = sizeFrameHeader + sizeData →
    ∃ packets, Server.FrameTask.run frames diff data = some packets ∧
      ∀ p ∈ packets, PacketOf frames p := by
  intro frames
  induction frames with
  | nil => intro diff data _; exact ⟨[], rfl, nofun⟩
  | cons b frames ih =>
    intro diff data hdata
    have hmono : ∀ p, PacketOf frames p → PacketOf (b :: frames) p := by
      rintro p ⟨b', hb', hp⟩
      exact ⟨b', List.mem_cons_of_mem b hb', hp⟩
    rw [Server.FrameTask.run]
    split_ifs with htest
    · obtain ⟨data', hsend, hdata'⟩ := send_eq b 0 data hdata
      obtain ⟨packets, hrun, hall⟩ := ih b.length data' hdata'
      refine ⟨(fragments b 0).map Fragment.encode ++ packets, ?_, fun p hp => ?_⟩
      · rw [hsend]
        simp only [Option.bind_eq_bind, Option.bind_some, hrun]
        rfl
      · rcases List.mem_append.mp hp with hp | hp
        · obtain ⟨f, hf, rfl⟩ := List.mem_map.mp hp
          exact ⟨b, List.mem_cons_self, f, hf, rfl⟩
        · exact hmono p (hall p hp)
    · obtain ⟨packets, hrun, hall⟩ := ih diff data hdata
      exact ⟨packets, hrun, fun p hp => hmono p (hall p hp)⟩

/-- What the frames of a session have in common: they fit the buffer, and three bytes hold
their offsets. -/
def Fit (frames : List (List Byte)) (size : Nat) : Prop :=
  ∀ b ∈ frames, b.length ≤ size ∧ b.length ≤ 2 ^ 24

/-- The arrays of the client keep their lengths. -/
structure Sized (size : Nat) (task : FrameTask) : Prop where
  data : task.data.length = sizeFrameHeader + sizeData
  buffer : task.buffer.length = size

variable {frames : List (List Byte)} {size : Nat} {task : FrameTask}

theorem receive_packet (hfit : Fit frames size) (hs : Sized size task) {b : List Byte}
    (hb : b ∈ frames) {f : Fragment} (hf : f ∈ fragments b 0) :
    task.receive f.encode = some (f.received task) ∧ Sized size (f.received task) := by
  have hof := Fragment.of_mem (Nat.dvd_zero _) hf
  have hfits : f.offset + f.payload.length ≤ task.buffer.length := by
    rw [hs.buffer]
    exact Nat.le_trans hof.fits (hfit b hb).1
  have hlen := length_encode f
  have hsize := hof.size
  have hdata := hs.data
  refine ⟨receive_encode hdata hsize (Nat.lt_of_lt_of_le hof.start (hfit b hb).2) hfits, ?_, ?_⟩
  · simp only [Fragment.received, List.length_append, List.length_drop]
    omega
  · exact (Buffer.length_overwrite hfits).trans hs.buffer

theorem run_delivered (hfit : Fit frames size) : ∀ (delivered : List (List Byte))
    (task : FrameTask), (∀ p ∈ delivered, PacketOf frames p) → Sized size task →
    ∃ task', task.run delivered = some task' ∧ Sized size task' ∧
      ∀ (b : List Byte) (f : Fragment), f.Of b →
        (∀ q ∈ delivered, Client.readIntN q 1 3 ≠ BitVec.ofNat 32 f.offset) →
        f.In task.buffer → f.In task'.buffer := by
  intro delivered
  induction delivered with
  | nil => intro task _ hs; exact ⟨task, rfl, hs, fun _ _ _ _ h => h⟩
  | cons p delivered ih =>
    intro task hall hs
    obtain ⟨b', hb', g, hg, rfl⟩ := hall p List.mem_cons_self
    obtain ⟨hrec, hs'⟩ := receive_packet hfit hs hb' hg
    obtain ⟨task', hrun, hs'', hkeep⟩ :=
      ih (g.received task) (fun q hq => hall q (List.mem_cons_of_mem _ hq)) hs'
    refine ⟨task', ?_, hs'', fun b f hf hne hin => ?_⟩
    · rw [FrameTask.run_cons, hrec]
      exact hrun
    · have hgof := Fragment.of_mem (Nat.dvd_zero _) hg
      have hoffset : g.offset ≠ f.offset := by
        intro heq
        have hread := readIntN_encode
          (Nat.lt_of_lt_of_le hgof.start (hfit b' hb').2) (f := g) []
        rw [List.append_nil, heq] at hread
        exact hne _ List.mem_cons_self hread
      refine hkeep b f hf (fun q hq => hne q (List.mem_cons_of_mem _ hq)) ?_
      refine hin.received hf hgof ?_ hoffset
      rw [hs.buffer]
      exact Nat.le_trans hgof.fits (hfit b' hb').1

theorem Complete.take (hfit : Fit frames size) {delivered : List (List Byte)}
    (hall : ∀ p ∈ delivered, PacketOf frames p) (hs : Sized size task) {task' : FrameTask}
    (hrun : task.run delivered = some task') {b : List Byte} (hb : b ∈ frames)
    (h : Complete delivered b) : task'.buffer.take b.length = b := by
  refine take_of_in (fun f hf => ?_)
  obtain ⟨before, after, rfl, hafter⟩ := h f hf
  obtain ⟨task₁, hrun₁, hs₁, _⟩ :=
    run_delivered hfit before task (fun p hp => hall p (List.mem_append_left _ hp)) hs
  obtain ⟨hrec, hs₂⟩ := receive_packet hfit hs₁ hb hf
  obtain ⟨task₃, hrun₃, _, hkeep⟩ := run_delivered hfit after (f.received task₁)
    (fun p hp => hall p (List.mem_append_right _ (List.mem_cons_of_mem _ hp))) hs₂
  have heq : task.run (before ++ f.encode :: after) = some task₃ := by
    rw [FrameTask.run_append, hrun₁, Option.bind_some, FrameTask.run_cons, hrec]
    exact hrun₃
  obtain rfl : task₃ = task' := Option.some.inj (heq.symm.trans hrun)
  have hof := Fragment.of_mem (Nat.dvd_zero _) hf
  refine hkeep b f hof hafter (Fragment.in_received ?_)
  rw [hs₁.buffer]
  exact Nat.le_trans hof.fits (hfit b hb).1

/-- **What the view is told, whatever the network does.**  It is told of a frame when its
last piece comes in, and where the frame is complete then, the buffer begins with it. -/
theorem ready_whole (width height : JInt) {frames packets before : List (List Byte)}
    {p data data' : List Byte} (hsize : 2 * width.toNat * height.toNat < 2 ^ 31)
    (hframes : ∀ b ∈ frames, threshold ≤ b.length ∧
      b.length ≤ min (2 * width.toNat * height.toNat) (2 ^ 24))
    (hdata : data.length = sizeFrameHeader + sizeData)
    (hdata' : data'.length = sizeFrameHeader + sizeData)
    (hrun : Server.FrameTask.run frames 0 data = some packets)
    (hdelivered : ∀ q ∈ before ++ [p], q ∈ packets) :
    ∃ task task' : FrameTask, (FrameTask.new data' width height).run before = some task ∧
      task.receive p = some task' ∧ PacketOf frames p ∧
      ∀ b ∈ frames, ∀ f ∈ fragments b 0, p = f.encode →
        task'.ready = (if f.last then task.ready ++ [(b.length, task'.buffer)] else task.ready) ∧
        (Complete (before ++ [p]) b → task'.buffer.take b.length = b) := by
  have hfit : Fit frames (2 * width.toNat * height.toNat) := fun b hb =>
    ⟨Nat.le_trans (hframes b hb).2 (Nat.min_le_left _ _),
      Nat.le_trans (hframes b hb).2 (Nat.min_le_right _ _)⟩
  have hs : Sized (2 * width.toNat * height.toNat) (.new data' width height) :=
    ⟨hdata', length_buffer_new data' hsize⟩
  obtain ⟨packets', hrun', hpackets⟩ := run_packets frames 0 data hdata
  obtain rfl : packets' = packets := Option.some.inj (hrun'.symm.trans hrun)
  have hall : ∀ q ∈ before ++ [p], PacketOf frames q := fun q hq => hpackets q (hdelivered q hq)
  obtain ⟨task, hbefore, hs₁, _⟩ := run_delivered hfit before (.new data' width height)
    (fun q hq => hall q (List.mem_append_left _ hq)) hs
  have hp := hall p (List.mem_append_right _ List.mem_cons_self)
  obtain ⟨b₀, hb₀, f₀, hf₀, hp₀⟩ := hp
  obtain ⟨hrec, hs₂⟩ := receive_packet hfit hs₁ hb₀ hf₀
  refine ⟨task, f₀.received task, hbefore, hp₀ ▸ hrec, ⟨b₀, hb₀, f₀, hf₀, hp₀⟩, ?_⟩
  intro b hb f hf hpf
  obtain ⟨hrec', _⟩ := receive_packet hfit hs₁ hb hf
  have hsame : f₀.received task = f.received task := by
    rw [← hp₀, hpf, hrec'] at hrec
    exact (Option.some.inj hrec).symm
  rw [hsame]
  refine ⟨?_, fun hcomplete => hcomplete.take hfit hall hs ?_ hb⟩
  · have hof := Fragment.of_mem (Nat.dvd_zero _) hf
    show (if f.last then _ else _) = _
    by_cases hlast : f.last = true
    · rw [if_pos hlast, if_pos hlast, hof.last.mp hlast]
      rfl
    · rw [if_neg hlast, if_neg hlast]
  · rw [FrameTask.run_append, hbefore, Option.bind_some, FrameTask.run_cons, hpf, hrec']
    rfl

theorem run_single {b data : List Byte} (hb : threshold ≤ b.length)
    (hdata : data.length = sizeFrameHeader + sizeData) :
    Server.FrameTask.run [b] 0 data = some ((fragments b 0).map Fragment.encode) := by
  obtain ⟨data', hsend, _⟩ := send_eq b 0 data hdata
  have hne : 0 ≠ b.length := by
    have : 0 < b.length := Nat.lt_of_lt_of_le (by decide) hb
    omega
  rw [Server.FrameTask.run, if_pos ⟨hne, hb⟩, hsend]
  simp [Server.FrameTask.run]

/-- Every packet of a frame of 10000 bytes comes once, the last one last and the others from
back to front: the view is told of the frame, and it is whole in the buffer. -/
theorem ready_whole_last :
    let first : List Byte := List.replicate 10000 7
    let last : List Byte := (fragment first 8808).encode
    let others : List (List Byte) := (((fragments first 0).map Fragment.encode).erase last).reverse
    let data : List Byte := List.replicate (sizeFrameHeader + sizeData) 0
    ∃ task : FrameTask, (FrameTask.new data 100 100).run (others ++ [last]) = some task ∧
      (10000, task.buffer) ∈ task.ready ∧ task.buffer.take 10000 = first := by
  intro first last others data
  have hfirst : first.length = 10000 := List.length_replicate ..
  have hdata : data.length = sizeFrameHeader + sizeData := List.length_replicate ..
  have hb : threshold ≤ first.length := by rw [hfirst]; decide
  have hsize : first.length ≤ 2 ^ 24 := by rw [hfirst]; decide
  have hmem : fragment first 8808 ∈ fragments first 0 := mem_fragments 6 0 (by rw [hfirst]; decide)
  have hflag : (fragment first 8808).last = true := by
    simp [fragment, length, hfirst, sizeData, sizeFrameHeader]
  have hframes : ∀ b ∈ [first], threshold ≤ b.length ∧
      b.length ≤ min (2 * (100 : JInt).toNat * (100 : JInt).toNat) (2 ^ 24) := by
    intro b hmem
    rw [List.mem_singleton.mp hmem]
    exact ⟨hb, by rw [hfirst]; decide⟩
  have hlast : last ∈ (fragments first 0).map Fragment.encode := List.mem_map_of_mem hmem
  have hperm : (others ++ [last]).Perm ((fragments first 0).map Fragment.encode) :=
    (List.perm_append_singleton last others).trans (((List.reverse_perm _).cons last).trans
      (List.perm_cons_erase hlast).symm)
  clear_value first data
  obtain ⟨task, task', hbefore, hrec, _, hready⟩ :=
    ready_whole 100 100 (by decide) hframes hdata hdata (run_single hb hdata)
      (fun q hq => hperm.mem_iff.mp hq)
  obtain ⟨htold, hwhole⟩ := hready first List.mem_cons_self _ hmem rfl
  rw [if_pos hflag, hfirst] at htold
  rw [hfirst] at hwhole
  refine ⟨task', ?_, ?_, hwhole (complete_of_perm hsize hperm)⟩
  · rw [FrameTask.run_append, hbefore, Option.bind_some, FrameTask.run_cons, hrec]
    rfl
  · rw [htold]
    exact List.mem_append_right _ List.mem_cons_self

/-- **A frame of which only the last packet comes is shown all the same**, on top of what
was in the buffer. -/
theorem ready_torn : ¬ ∀ (width height : JInt) (frames packets delivered : List (List Byte))
    (data data' : List Byte) (task : FrameTask),
    2 * width.toNat * height.toNat < 2 ^ 31 →
    (∀ b ∈ frames, threshold ≤ b.length ∧
      b.length ≤ min (2 * width.toNat * height.toNat) (2 ^ 24)) →
    data.length = sizeFrameHeader + sizeData → data'.length = sizeFrameHeader + sizeData →
    Server.FrameTask.run frames 0 data = some packets → (∀ q ∈ delivered, q ∈ packets) →
    (FrameTask.new data' width height).run delivered = some task →
    ∀ r ∈ task.ready, ∃ b ∈ frames, r.2.take r.1 = b := by
  intro hclaim
  let first : List Byte := List.replicate 10000 7
  let data : List Byte := List.replicate (sizeFrameHeader + sizeData) 0
  have hfirst : first.length = 10000 := List.length_replicate ..
  have hseven : first[0]? = some 7 := List.getElem?_replicate_of_lt (by decide)
  have hdata : data.length = sizeFrameHeader + sizeData := List.length_replicate ..
  clear_value first data
  have hb : threshold ≤ first.length := by rw [hfirst]; decide
  have hmem : fragment first 8808 ∈ fragments first 0 := mem_fragments 6 0 (by rw [hfirst]; decide)
  have hof := Fragment.of_mem (Nat.dvd_zero _) hmem
  have hlast : (fragment first 8808).last = true := by
    simp [fragment, length, hfirst, sizeData, sizeFrameHeader]
  have hsize : 2 * (100 : JInt).toNat * (100 : JInt).toNat < 2 ^ 31 := by decide
  have hnew : Sized 20000 (.new data 100 100) := ⟨hdata, length_buffer_new data hsize⟩
  have hfit : Fit [first] 20000 := by
    intro b hmem
    rw [List.mem_singleton.mp hmem, hfirst]
    decide
  obtain ⟨hrec, _⟩ := receive_packet hfit hnew List.mem_cons_self hmem
  have hrun : (FrameTask.new data 100 100).run [(fragment first 8808).encode] =
      some ((fragment first 8808).received (.new data 100 100)) := by
    rw [FrameTask.run_cons, hrec]
    rfl
  obtain ⟨b, hbmem, htake⟩ := hclaim 100 100 [first] _ _ data data _ hsize
    (fun b hmem => by
      rw [List.mem_singleton.mp hmem, hfirst]
      decide) hdata hdata (run_single hb hdata)
    (fun q hq => by
      rw [List.mem_singleton.mp hq]
      exact List.mem_map_of_mem hmem) hrun (10000, _) (by
        simp only [Fragment.received, hlast, if_true]
        exact List.mem_append_right _ (List.mem_singleton.mpr
          (by rw [hof.last.mp hlast, hfirst])))
  have hzero := congrArg (fun l : List Byte => l[0]?) htake
  simp only [List.mem_singleton.mp hbmem] at hzero
  rw [hseven, List.getElem?_take_of_lt (by decide),
    Buffer.getElem?_overwrite (by
      rw [hnew.buffer]
      exact Nat.le_trans hof.fits (by rw [hfirst]; decide)),
    if_neg (fun h => absurd h.1 (show ¬ 8808 ≤ 0 by decide)), FrameTask.new,
    List.getElem?_replicate_of_lt (by decide)] at hzero
  exact absurd hzero (by decide)

end Network

/-! ### Frames that are skipped -/

section Skipped

open Server.FrameTask (State handle)

variable {s : State} {a b : List Byte}

theorem flatMap_payload (count : Nat) :
    ((fragments b count).map Fragment.encode).flatMap (List.drop sizeFrameHeader) =
      b.drop count := by
  induction count using fragments.induct b with
  | case1 count hlt ih =>
    have hpayload := drop_encode (fragment b count) []
    rw [List.append_nil, List.append_nil] at hpayload
    rw [fragments, if_pos hlt, List.map_cons, List.flatMap_cons, ih, hpayload, ← List.drop_drop]
    exact List.take_append_drop _ _
  | case2 count hlt =>
    rw [fragments, if_neg hlt, List.drop_eq_nil_of_le (Nat.le_of_not_lt hlt)]
    rfl

theorem length_fragments_eq (h : a.length = b.length) (count : Nat) :
    (fragments a count).length = (fragments b count).length := by
  induction count using fragments.induct a with
  | case1 count hlt ih =>
    have hlen : length b count = length a count := by rw [length, length, h]
    have hb : fragments b count = fragment b count :: fragments b (count + length b count) := by
      rw [fragments, if_pos (h ▸ hlt)]
    rw [fragments, if_pos hlt, hb, hlen, List.length_cons, ih, List.length_cons]
  | case2 count hlt => rw [fragments, if_neg hlt, fragments, if_neg (h ▸ hlt)]

/-- `last` is the frame sent last, if one was sent: `diff` is its length, and its packets are
the last ones. -/
structure Carried (last : Option (List Byte)) (s : State) : Prop where
  data : s.data.length = sizeFrameHeader + sizeData
  diff : s.diff = last.elim 0 List.length
  packets : ∀ a ∈ last, (fragments a 0).map Fragment.encode <:+ s.packets

/-- **The packets end with a frame of the same length only if it is the frame sent last.** -/
theorem Carried.suffix_iff (h : Carried (some a) s) (hlen : a.length = b.length) :
    (fragments b 0).map Fragment.encode <:+ s.packets ↔ a = b := by
  have ha := h.packets a rfl
  constructor
  · intro hb
    have hcount : ((fragments a 0).map Fragment.encode).length =
        ((fragments b 0).map Fragment.encode).length := by
      rw [List.length_map, List.length_map, length_fragments_eq hlen]
    have heq := (List.suffix_of_suffix_length_le ha hb (Nat.le_of_eq hcount)).eq_of_length hcount
    rw [← List.drop_zero (l := a), ← flatMap_payload, heq, flatMap_payload, List.drop_zero]
  · rintro rfl
    exact ha

/-- **A round sends the frame exactly if its length is another one.** -/
theorem Carried.handle {last : Option (List Byte)} (h : Carried last s)
    (hb : threshold ≤ b.length) :
    ∃ s' a, handle s b = some s' ∧ Carried (some a) s' ∧ a.length = b.length ∧
      (a = b ↔ ∀ c ∈ last, c.length = b.length → c = b) := by
  have hpos : 0 < b.length := Nat.lt_of_lt_of_le (by decide) hb
  unfold Server.FrameTask.handle
  by_cases hdiff : s.diff = b.length
  · rw [if_neg (fun htest => htest.1 hdiff)]
    have hlen := h.diff
    cases last with
    | none =>
      rw [Option.elim_none] at hlen
      omega
    | some a =>
      rw [Option.elim_some, hdiff] at hlen
      refine ⟨s, a, rfl, h, hlen.symm, fun heq c hc _ => ?_, fun hsame => hsame a rfl hlen.symm⟩
      exact (Option.some.inj hc).symm.trans heq
  · rw [if_pos ⟨hdiff, hb⟩]
    obtain ⟨data', hsend, hdata'⟩ := send_eq b 0 s.data h.data
    rw [hsend]
    refine ⟨_, b, rfl, ⟨hdata', rfl, ?_⟩, rfl, iff_of_true rfl ?_⟩
    · rintro a ha
      obtain rfl := Option.some.inj ha
      exact List.suffix_append _ _
    · rintro c hc hlen
      have hdiff' := h.diff
      rw [hc, Option.elim_some] at hdiff'
      exact absurd (hdiff'.trans hlen) hdiff

theorem rounds_unchanged_iff : ∀ (frames : List (List Byte)) (last : Option (List Byte))
    (s : State), Carried last s → (∀ b ∈ frames, threshold ≤ b.length) →
    ((∀ (i : Nat) (hi : i < frames.length), ∃ s',
        (frames.take (i + 1)).foldlM handle s = some s' ∧
          (fragments frames[i] 0).map Fragment.encode <:+ s'.packets) ↔
      (last.toList ++ frames).IsChain (fun a b => a.length = b.length → a = b)) := by
  intro frames
  induction frames with
  | nil =>
    intro last s _ _
    refine iff_of_true (fun i hi => absurd hi (Nat.not_lt_zero i)) ?_
    cases last with
    | none => exact List.isChain_nil
    | some a => exact List.isChain_singleton a
  | cons b frames ih =>
    intro last s hs hlong
    obtain ⟨s₁, a, hround, hs₁, hlen, hlast⟩ := hs.handle (hlong b List.mem_cons_self)
    have hrest := ih (some a) s₁ hs₁ (fun b' hb' => hlong b' (List.mem_cons_of_mem b hb'))
    -- the first frame of the list, then the others
    have hsplit : (∀ (i : Nat) (hi : i < (b :: frames).length), ∃ s',
          ((b :: frames).take (i + 1)).foldlM handle s = some s' ∧
            (fragments (b :: frames)[i] 0).map Fragment.encode <:+ s'.packets) ↔
        (fragments b 0).map Fragment.encode <:+ s₁.packets ∧
          ∀ (i : Nat) (hi : i < frames.length), ∃ s',
            (frames.take (i + 1)).foldlM handle s₁ = some s' ∧
              (fragments frames[i] 0).map Fragment.encode <:+ s'.packets := by
      simp only [List.take_succ_cons, List.foldlM_cons, hround, Option.bind_eq_bind,
        Option.bind_some]
      constructor
      · intro hall
        obtain ⟨s', hs', hl'⟩ := hall 0 (Nat.succ_pos _)
        obtain rfl : s₁ = s' := Option.some.inj hs'
        exact ⟨hl', fun i hi => hall (i + 1) (Nat.succ_lt_succ hi)⟩
      · rintro ⟨hfirst, hall⟩ i hi
        cases i with
        | zero => exact ⟨s₁, rfl, hfirst⟩
        | succ i => exact hall i (Nat.lt_of_succ_lt_succ hi)
    have hchain : (last.toList ++ b :: frames).IsChain (fun a b => a.length = b.length → a = b) ↔
        (∀ c ∈ last, c.length = b.length → c = b) ∧
          (b :: frames).IsChain (fun a b => a.length = b.length → a = b) := by
      cases last with
      | none => simp
      | some c => simp [List.isChain_cons_cons]
    rw [hsplit, hchain, hs₁.suffix_iff hlen, hlast]
    refine and_congr_right (fun hsame => ?_)
    rw [hrest, hlast.mpr hsame]
    rfl

theorem exists_packets_iff (frames : List (List Byte)) (data : List Byte)
    (P : List (List Byte) → Prop) :
    (∃ packets, Server.FrameTask.run frames 0 data = some packets ∧ P packets) ↔
      ∃ s, frames.foldlM handle { data := data } = some s ∧ P s.packets := by
  have heq := Server.FrameTask.rounds_eq_run frames { data := data }
  simp only [List.nil_append, Option.map_id'] at heq
  rw [← heq]
  simp

/-- **The packets sent end with those of the frame handled last, as long as frames of one
length are one frame.** -/
theorem skipped_unchanged {frames : List (List Byte)} {data : List Byte}
    (hdata : data.length = sizeFrameHeader + sizeData)
    (hlong : ∀ b ∈ frames, threshold ≤ b.length) :
    (∀ (i : Nat) (hi : i < frames.length), ∃ packets,
        Server.FrameTask.run (frames.take (i + 1)) 0 data = some packets ∧
          (fragments frames[i] 0).map Fragment.encode <:+ packets) ↔
      frames.IsChain (fun a b => a.length = b.length → a = b) := by
  refine Iff.trans ?_ (rounds_unchanged_iff frames none { data := data } ⟨hdata, rfl, nofun⟩ hlong)
  exact forall_congr' fun i => forall_congr' fun hi => exists_packets_iff _ data _

/-- Two frames of different lengths, and the second one once more. -/
theorem skipped_unchanged_two :
    let first : List Byte := List.replicate 10000 7
    let second : List Byte := List.replicate 10001 8
    let data : List Byte := List.replicate (sizeFrameHeader + sizeData) 0
    ∃ packets, Server.FrameTask.run [first, second, second] 0 data = some packets ∧
      (fragments second 0).map Fragment.encode <:+ packets := by
  intro first second data
  have hfirst : first.length = 10000 := List.length_replicate ..
  have hsecond : second.length = 10001 := List.length_replicate ..
  have hdata : data.length = sizeFrameHeader + sizeData := List.length_replicate ..
  clear_value first second data
  have hlong : ∀ b ∈ [first, second, second], threshold ≤ b.length := by
    intro b hb
    simp only [List.mem_cons, List.not_mem_nil, or_false] at hb
    rcases hb with rfl | rfl | rfl
    · rw [hfirst]
      decide
    · rw [hsecond]
      decide
    · rw [hsecond]
      decide
  exact (skipped_unchanged hdata hlong).mpr (by simp [hfirst, hsecond]) 2 (Nat.lt_succ_self 2)

/-- **A frame as long as the one before is skipped, whatever it shows.** -/
theorem skipped_changed : ¬ ∀ (frames : List (List Byte)) (data : List Byte),
    data.length = sizeFrameHeader + sizeData → (∀ b ∈ frames, threshold ≤ b.length) →
    ∀ (i : Nat) (hi : i < frames.length), ∃ packets,
      Server.FrameTask.run (frames.take (i + 1)) 0 data = some packets ∧
        (fragments frames[i] 0).map Fragment.encode <:+ packets := by
  intro hclaim
  let first : List Byte := List.replicate 10000 7
  let second : List Byte := List.replicate 10000 8
  let data : List Byte := List.replicate (sizeFrameHeader + sizeData) 0
  have hfirst : first.length = 10000 := List.length_replicate ..
  have hsecond : second.length = 10000 := List.length_replicate ..
  have hseven : first[0]? = some 7 := List.getElem?_replicate_of_lt (by decide)
  have hbyte8 : second[0]? = some 8 := List.getElem?_replicate_of_lt (by decide)
  have hdata : data.length = sizeFrameHeader + sizeData := List.length_replicate ..
  clear_value first second data
  have hlong : ∀ b ∈ [first, second], threshold ≤ b.length := by
    intro b hb
    rcases List.mem_pair.mp hb with rfl | rfl
    · rw [hfirst]
      decide
    · rw [hsecond]
      decide
  have hrounds := fun i hi =>
    (exists_packets_iff _ data _).mp (hclaim [first, second] data hdata hlong i hi)
  have hchain := (rounds_unchanged_iff [first, second] none { data := data }
    ⟨hdata, rfl, nofun⟩ hlong).mp hrounds
  have hsame : first = second :=
    (List.isChain_cons_cons.mp hchain).1 (hfirst.trans hsecond.symm)
  rw [hsame, hbyte8] at hseven
  exact absurd hseven (by decide)

end Skipped

end MikaAudio
