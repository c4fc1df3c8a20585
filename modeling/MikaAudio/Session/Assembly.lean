import MikaAudio.Session.Shown

/-!
# A frame put together in any order

The packets of one frame may come in any order and any number of times.  Its pieces are
parts of one array, so the buffer holds the frame as soon as each of them has come
(`Buffer.getElem?_overwrites`), and exactly one of them, the one with the highest offset,
has the flag (`exists_highest`).
-/

namespace MikaAudio

open Thread (Byte)
open Server.FrameTask (length send threshold State handle)
open Client (FrameTask)

variable {bitmap : List Byte} {f g : Fragment}

/-! ### The piece with the flag -/

theorem Fragment.Of.offset_le (hf : f.Of bitmap) (hg : g.Of bitmap) (h : f.offset < g.offset) :
    f.offset + sizeData ≤ g.offset := by
  obtain ⟨a, ha⟩ := hf.grid
  obtain ⟨b, hb⟩ := hg.grid
  have hab : a < b := by
    rw [ha, hb] at h
    exact Nat.lt_of_mul_lt_mul_left h
  have := Nat.mul_le_mul_left sizeData (Nat.succ_le_of_lt hab)
  rw [Nat.mul_succ] at this
  omega

/-- **Exactly one piece has the flag**, and its offset is the highest. -/
theorem exists_highest (hpos : 0 < bitmap.length) :
    ∃ f ∈ fragments bitmap 0, f.last = true ∧
      ∀ g ∈ fragments bitmap 0, g ≠ f → g.last = false ∧ g.offset < f.offset := by
  have hend : bitmap.length - 1 < bitmap.length := Nat.sub_lt hpos Nat.one_pos
  obtain ⟨f, hf, hle, hlt⟩ := exists_fragment hend (Nat.zero_le _)
  have hof := Fragment.of_mem (Nat.dvd_zero _) hf
  have hfits := hof.fits
  refine ⟨f, hf, hof.last.mpr (by omega), fun g hg hne => ?_⟩
  have hgof := Fragment.of_mem (Nat.dvd_zero _) hg
  have hgsize := hgof.size
  have hsize := hof.size
  have hoffset : g.offset ≠ f.offset := by
    intro heq
    refine hne ?_
    rw [Fragment.eq_of_mem hg, Fragment.eq_of_mem hf, heq]
  have hbelow : g.offset < f.offset := by
    rcases Nat.lt_or_gt_of_ne hoffset with hlt' | hgt
    · exact hlt'
    · have := hof.offset_le hgof hgt
      have := hgof.start
      omega
  refine ⟨?_, hbelow⟩
  rw [← Bool.not_eq_true, hgof.last]
  have := hgof.offset_le hof hbelow
  have := hof.start
  omega

/-! ### The packets come in -/

/-- The block of the buffer a piece is for. -/
def Fragment.block (f : Fragment) : Nat × List Byte :=
  (f.offset, f.payload)

variable {size : Nat} {task : FrameTask}

/-- **What packets of one frame make of the buffer.** -/
theorem run_pieces (hfit : Fit [bitmap] size) : ∀ (pieces : List Fragment) (task : FrameTask),
    (∀ f ∈ pieces, f ∈ fragments bitmap 0) → Sized size task →
    ∃ task', task.run (pieces.map Fragment.encode) = some task' ∧ Sized size task' ∧
      task'.buffer = Buffer.overwrites task.buffer (pieces.map Fragment.block) ∧
      task'.ready.map Prod.fst = task.ready.map Prod.fst ++
        List.replicate (pieces.countP Fragment.last) bitmap.length := by
  intro pieces
  induction pieces with
  | nil => intro task _ hs; exact ⟨task, rfl, hs, rfl, (List.append_nil _).symm⟩
  | cons f pieces ih =>
    intro task hall hs
    have hf := hall f List.mem_cons_self
    obtain ⟨hrec, hs'⟩ := receive_packet hfit hs List.mem_cons_self hf
    obtain ⟨task', hrun, hs'', hbuffer, hready⟩ :=
      ih (f.received task) (fun g hg => hall g (List.mem_cons_of_mem f hg)) hs'
    refine ⟨task', ?_, hs'', hbuffer, ?_⟩
    · rw [List.map_cons, FrameTask.run_cons, hrec]
      exact hrun
    · rw [hready]
      show (if f.last then _ else _ : List (Nat × List Byte)).map Prod.fst ++ _ = _
      by_cases hlast : f.last = true
      · rw [if_pos hlast, List.countP_cons_of_pos hlast, List.map_append, List.append_assoc,
          List.replicate_succ, (Fragment.of_mem (Nat.dvd_zero _) hf).last.mp hlast]
        rfl
      · rw [if_neg hlast, List.countP_cons_of_neg hlast]

theorem overwrites_pieces {buffer : List Byte} (hbuffer : bitmap.length ≤ buffer.length)
    {pieces : List Fragment} (hall : ∀ f, f ∈ pieces ↔ f ∈ fragments bitmap 0) :
    Buffer.overwrites buffer (pieces.map Fragment.block) = bitmap ++ buffer.drop bitmap.length := by
  have hparts : ∀ q ∈ pieces.map Fragment.block,
      Buffer.PartOf bitmap q ∧ q.1 + q.2.length ≤ buffer.length := by
    intro q hq
    obtain ⟨f, hf, rfl⟩ := List.mem_map.mp hq
    have hof := Fragment.of_mem (Nat.dvd_zero _) ((hall f).mp hf)
    exact ⟨hof.bytes, Nat.le_trans hof.fits hbuffer⟩
  refine List.ext_getElem? (fun k => ?_)
  rw [Buffer.getElem?_overwrites hparts]
  by_cases hk : k < bitmap.length
  · obtain ⟨f, hf, hcovers⟩ := exists_fragment hk (Nat.zero_le k)
    rw [if_pos ⟨f.block, List.mem_map_of_mem ((hall f).mpr hf), hcovers⟩,
      List.getElem?_append_left hk]
  · rw [if_neg, List.getElem?_append_right (Nat.le_of_not_lt hk), List.getElem?_drop,
      Nat.add_sub_cancel' (Nat.le_of_not_lt hk)]
    rintro ⟨q, hq, _, hlt⟩
    obtain ⟨f, hf, rfl⟩ := List.mem_map.mp hq
    exact hk (Nat.lt_of_lt_of_le hlt (Fragment.of_mem (Nat.dvd_zero _) ((hall f).mp hf)).fits)

theorem exists_pieces {pieces : List Fragment} {delivered : List (List Byte)}
    (h : ∀ p ∈ delivered, p ∈ pieces.map Fragment.encode) :
    ∃ came : List Fragment, delivered = came.map Fragment.encode ∧ ∀ f ∈ came, f ∈ pieces := by
  induction delivered with
  | nil => exact ⟨[], rfl, nofun⟩
  | cons p delivered ih =>
    obtain ⟨f, hf, rfl⟩ := List.mem_map.mp (h p List.mem_cons_self)
    obtain ⟨came, rfl, hall⟩ := ih (fun q hq => h q (List.mem_cons_of_mem _ hq))
    refine ⟨f :: came, rfl, fun g hg => ?_⟩
    rcases List.mem_cons.mp hg with rfl | hg
    · exact hf
    · exact hall g hg

theorem countP_last (hsize : bitmap.length ≤ 2 ^ 24) (hf : f ∈ fragments bitmap 0)
    (hlast : ∀ g ∈ fragments bitmap 0, g.last = true ↔ g = f) {pieces : List Fragment}
    (hall : ∀ g ∈ pieces, g ∈ fragments bitmap 0) :
    pieces.countP Fragment.last = (pieces.map Fragment.encode).count f.encode := by
  rw [List.count, List.countP_map]
  refine List.countP_congr (fun g hg => ?_)
  rw [Function.comp_apply, beq_iff_eq, hlast g (hall g hg)]
  exact ⟨congrArg _, encode_inj hsize (hall g hg) hf⟩

/-- The view is told of the frame by the packet of the piece with the flag only. -/
theorem ready_received (hsize : bitmap.length ≤ 2 ^ 24) (hf : f ∈ fragments bitmap 0)
    (hlast : ∀ g ∈ fragments bitmap 0, g.last = true ↔ g = f) (hg : g ∈ fragments bitmap 0)
    (t : FrameTask) :
    (g.received t).ready =
      if g.encode = f.encode then t.ready ++ [(bitmap.length, (g.received t).buffer)]
      else t.ready := by
  show (if g.last then _ else _ : List (Nat × List Byte)) = _
  by_cases hgf : g = f
  · rw [if_pos ((hlast g hg).mpr hgf), if_pos (congrArg _ hgf),
      (Fragment.of_mem (Nat.dvd_zero _) hg).last.mp ((hlast g hg).mpr hgf)]
    rfl
  · rw [if_neg (fun h => hgf ((hlast g hg).mp h)), if_neg (fun h => hgf (encode_inj hsize hg hf h))]

/-- **The packets of one frame make up the frame, in whichever order they come and however
often**: the buffer begins with it and is what it was behind it, and the view is told of it
by the packet with the highest offset, each time it comes, and by no other. -/
theorem assembled {s : State} {b : List Byte} (hdata : s.data.length = sizeFrameHeader + sizeData)
    (hb : threshold ≤ b.length) (hsize : b.length ≤ 2 ^ 24) (hdiff : s.diff ≠ b.length) :
    ∃ (s' : State) (packets : List (List Byte)),
      handle s b = some s' ∧ s'.packets = s.packets ++ packets ∧
      ∃ highest ∈ packets,
        (∀ p ∈ packets, p ≠ highest → Client.readIntN p 1 3 < Client.readIntN highest 1 3) ∧
        ∀ (task : FrameTask) (delivered : List (List Byte)),
          task.data.length = sizeFrameHeader + sizeData → b.length ≤ task.buffer.length →
          (∀ p, p ∈ delivered ↔ p ∈ packets) →
          ∃ task', task.run delivered = some task' ∧
            task'.buffer = b ++ task.buffer.drop b.length ∧
            task'.ready.map Prod.fst = task.ready.map Prod.fst ++
              List.replicate (delivered.count highest) b.length ∧
            ∀ (before after : List (List Byte)) (p : List Byte),
              delivered = before ++ p :: after →
              ∃ t t' : FrameTask, task.run before = some t ∧ t.receive p = some t' ∧
                t'.ready =
                  if p = highest then t.ready ++ [(b.length, t'.buffer)] else t.ready := by
  have hpos : 0 < b.length := Nat.lt_of_lt_of_le (by decide) hb
  obtain ⟨data', hsend, _⟩ := send_eq b 0 s.data hdata
  obtain ⟨f, hf, hflag, hother⟩ := exists_highest hpos
  have hlast : ∀ g ∈ fragments b 0, g.last = true ↔ g = f := by
    intro g hg
    refine ⟨fun h => by_contra fun hne => ?_, fun h => h ▸ hflag⟩
    rw [(hother g hg hne).1] at h
    cases h
  refine ⟨_, (fragments b 0).map Fragment.encode, by rw [handle, if_pos ⟨hdiff, hb⟩, hsend]; rfl,
    rfl, f.encode, List.mem_map_of_mem hf, ?_, ?_⟩
  · intro p hp hne
    obtain ⟨g, hg, rfl⟩ := List.mem_map.mp hp
    have hgf : g ≠ f := fun heq => hne (congrArg _ heq)
    rw [BitVec.lt_def, offset_encode hsize hg, offset_encode hsize hf]
    exact (hother g hg hgf).2
  · intro task delivered htask hbuffer hdelivered
    have hfit : Fit [b] task.buffer.length := fun b' hb' => by
      rw [List.mem_singleton.mp hb']
      exact ⟨hbuffer, hsize⟩
    obtain ⟨came, rfl, hcame⟩ := exists_pieces (fun p hp => (hdelivered p).mp hp)
    have hall : ∀ g, g ∈ came ↔ g ∈ fragments b 0 := by
      refine fun g => ⟨hcame g, fun hg => ?_⟩
      obtain ⟨g', hg', heq⟩ := List.mem_map.mp ((hdelivered g.encode).mpr (List.mem_map_of_mem hg))
      rw [← encode_inj hsize (hcame g' hg') hg heq]
      exact hg'
    obtain ⟨task', hrun, _, hover, hready⟩ := run_pieces hfit came task hcame ⟨htask, rfl⟩
    refine ⟨task', hrun, hover.trans (overwrites_pieces hbuffer hall), ?_, ?_⟩
    · rw [hready, countP_last hsize hf hlast hcame]
    · intro before after p hsplit
      obtain ⟨front, back, rfl, rfl, hback⟩ := List.map_eq_append_iff.mp hsplit
      obtain ⟨g, rest, rfl, rfl, rfl⟩ := List.map_eq_cons_iff.mp hback
      have hg := hcame g (List.mem_append_right _ List.mem_cons_self)
      obtain ⟨t, hfront, hs, _⟩ := run_pieces hfit front task
        (fun g' hg' => hcame g' (List.mem_append_left _ hg')) ⟨htask, rfl⟩
      obtain ⟨hrec, _⟩ := receive_packet hfit hs List.mem_cons_self hg
      exact ⟨t, g.received t, hfront, hrec, ready_received hsize hf hlast hg t⟩

/-- A frame of 10000 bytes, its packets first from the last one to the first, and then each
twice. -/
theorem assembled_sent :
    let frame : List Byte := List.replicate 10000 7
    let data : List Byte := List.replicate (sizeFrameHeader + sizeData) 0
    ∃ (s : State) (task : FrameTask), handle { data := data } frame = some s ∧
      (FrameTask.new data 100 100).run
        (s.packets.reverse ++ s.packets.flatMap fun p => [p, p]) = some task ∧
      task.buffer.take 10000 = frame := by
  intro frame data
  have hframe : frame.length = 10000 := List.length_replicate ..
  have hdata : data.length = sizeFrameHeader + sizeData := List.length_replicate ..
  clear_value frame data
  obtain ⟨s, packets, hhandle, hpackets, _, _, _, hall⟩ := assembled (s := { data := data }) hdata
    (b := frame) (by rw [hframe]; decide) (by rw [hframe]; decide)
    (by rw [hframe]; exact (show (0 : Nat) ≠ 10000 by decide))
  obtain rfl : s.packets = packets := hpackets
  obtain ⟨task, hrun, hbuffer, _⟩ := hall (FrameTask.new data 100 100) _ hdata
    (by rw [length_buffer_new data (by decide), hframe]; decide)
    (show ∀ p, p ∈ s.packets.reverse ++ s.packets.flatMap (fun p => [p, p]) ↔ p ∈ s.packets by
      simp)
  exact ⟨s, task, hhandle, hrun, by rw [hbuffer, List.take_left' hframe]⟩

end MikaAudio
