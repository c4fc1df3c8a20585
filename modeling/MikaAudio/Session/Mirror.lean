import MikaAudio.Server.FrameLoop
import MikaAudio.Session.Shown
import MikaAudio.Server.Frame

/-!
# From the screen to the view

The loop of the server's `FrameTask`, from the screenshot to the datagrams, and the loop of the
client's, up to the calls of `frameView.ready`.  `picture` says what a screenshot looks like in
two bytes a pixel, and `kept` which of the compressed pictures are sent.

* `loop_refines_run`: the loop sends the fragments of the kept pictures, and nothing else.
* `mirrored`: on a network that keeps datagrams and their order the view is told of the kept
  pictures, in order and each once, with the bytes of each.
* `mirror_safe`: on any network the client's loop raises no exception, and the view is told of
  nothing but lengths of kept pictures.
-/

namespace MikaAudio

open Thread (Byte)
open Server (Screen Screenshot)
open Server.FrameLoop (Round goThrough round updateFrame)
open Server.FrameTask (threshold)
open Client (FrameTask)

/-! ### The picture of a screenshot -/

/-- The packed pixel `q` of a screenshot. -/
def pixel (screen : Screen) (client : Screenshot) (q : Nat) : Server.U16 :=
  let k := Server.Screen.source screen.width.toNat client.stride.toNat q
  Server.Screen.rgb565 (client.pixels.getD k 0) (client.pixels.getD (k + 1) 0)
    (client.pixels.getD (k + 2) 0)

/-- The pixels one after the other, the low byte of each first. -/
def picture (screen : Screen) (client : Screenshot) : List Byte :=
  (List.range (2 * (screen.width.toNat * screen.height.toNat))).map fun k =>
    if k % 2 = 0 then (pixel screen client (k / 2)).extractLsb' 0 8
    else (pixel screen client (k / 2)).extractLsb' 8 8

@[simp] theorem length_picture (screen : Screen) (client : Screenshot) :
    (picture screen client).length = 2 * (screen.width.toNat * screen.height.toNat) := by
  rw [picture, List.length_map, List.length_range]

theorem updateFrame_eq_picture {screen : Screen} {client : Screenshot} {frame : List Byte}
    (hsized : Server.Screen.Sized screen client) (herr : client.err = 0)
    (hframe : frame.length = 2 * (screen.width.toNat * screen.height.toNat)) :
    screen.updateFrame client frame = some (0, picture screen client) := by
  obtain ⟨out, hconvert, hlength, -, hdone⟩ := Server.Screen.convert_eq hsized
    (screen.width.toNat * screen.height.toNat) 0 0 frame (Nat.zero_add _) rfl
    (Nat.le_of_eq hframe.symm)
  have hout : out = picture screen client := by
    refine List.ext_getElem? fun k => ?_
    by_cases hk : k < 2 * (screen.width.toNat * screen.height.toNat)
    · obtain ⟨r, g, b, hr, hg, hb, hlow, hhigh⟩ := hdone (k / 2) (Nat.zero_le _) (by omega)
      have hplace : k / 2 / screen.width.toNat * screen.width.toNat + k / 2 % screen.width.toNat =
          k / 2 := Nat.div_add_mod' _ _
      rw [hplace] at hlow hhigh
      have hpixel : pixel screen client (k / 2) = Server.Screen.rgb565 r g b := by
        simp only [pixel, Server.Screen.source, List.getD_eq_getElem?_getD, hr, hg, hb,
          Option.getD_some]
      rw [picture, List.getElem?_map, List.getElem?_range hk, Option.map_some, hpixel]
      split_ifs with heven
      · rw [← hlow]
        exact congrArg (out[·]?) (by omega)
      · rw [← hhigh]
        exact congrArg (out[·]?) (by omega)
    · rw [List.getElem?_eq_none (by omega), List.getElem?_eq_none (by rw [length_picture]; omega)]
  rw [Server.Screen.updateFrame, if_neg (fun hne => hne herr), ← hout]
  exact congrArg (Option.map (0, ·)) hconvert

/-! ### The rounds of the server's loop -/

/-- The round takes a screenshot. -/
def Captures (r : Round) : Prop := r.lock = 0 ∧ r.screenshot.err = 0

instance (r : Round) : Decidable (Captures r) := inferInstanceAs (Decidable (_ ∧ _))

/-- The pictures that are taken. -/
def captured (screen : Screen) (rounds : List Round) : List (List Byte) :=
  rounds.filterMap fun r => if Captures r then some (picture screen r.screenshot) else none

/-- The frames that are sent, if one of length `diff` was sent last: those long enough and not
as long as the one before. -/
def kept : Nat → List (List Byte) → List (List Byte)
  | _, [] => []
  | diff, b :: bs =>
    if diff ≠ b.length ∧ threshold ≤ b.length then b :: kept b.length bs else kept diff bs

/-- The packets of some frames. -/
def packetsOf (frames : List (List Byte)) : List (List Byte) :=
  frames.flatMap fun b => (fragments b 0).map Fragment.encode

theorem packetsOf_append (frames frames' : List (List Byte)) :
    packetsOf (frames ++ frames') = packetsOf frames ++ packetsOf frames' := List.flatMap_append

theorem mem_kept {diff : Nat} {bs : List (List Byte)} {b : List Byte} (hb : b ∈ kept diff bs) :
    b ∈ bs ∧ threshold ≤ b.length := by
  induction bs generalizing diff with
  | nil => cases hb
  | cons b' bs ih =>
    rw [kept] at hb
    split_ifs at hb with htest
    · rcases List.mem_cons.mp hb with rfl | hb
      · exact ⟨List.mem_cons_self, htest.2⟩
      · exact ⟨List.mem_cons_of_mem _ (ih hb).1, (ih hb).2⟩
    · exact ⟨List.mem_cons_of_mem _ (ih hb).1, (ih hb).2⟩

/-- **The loop over the compressed frames** sends the packets of those that are kept. -/
theorem run_eq_kept : ∀ (bs : List (List Byte)) (diff : Nat) (data : List Byte),
    data.length = sizeFrameHeader + sizeData →
    Server.FrameTask.run bs diff data = some (packetsOf (kept diff bs)) := by
  intro bs
  induction bs with
  | nil => intro diff data _; rfl
  | cons b bs ih =>
    intro diff data hdata
    rw [Server.FrameTask.run, kept]
    split_ifs with htest
    · obtain ⟨data', hsend, hdata'⟩ := send_eq b 0 data hdata
      rw [hsend, Option.bind_eq_bind, Option.bind_some]
      dsimp only
      rw [ih b.length data' hdata']
      rfl
    · exact ih diff data hdata

theorem goThrough_sublist (sends : Nat → Bool) (packets : List (List Byte)) :
    (goThrough sends packets).Sublist packets := by
  have hsub : ((packets.zipIdx.filter fun p => sends p.2).map Prod.fst).Sublist
      (packets.zipIdx.map Prod.fst) := List.filter_sublist.map _
  rwa [List.zipIdx_map_fst] at hsub

theorem goThrough_all {sends : Nat → Bool} (h : ∀ i, sends i = true) (packets : List (List Byte)) :
    goThrough sends packets = packets := by
  rw [goThrough, List.filter_eq_self.mpr fun p _ => h p.2, List.zipIdx_map_fst]

section Loop

variable {screen : Screen} {compress : List Byte → List Byte}

/-- What holds between two rounds: the arrays have their lengths. -/
structure Ready (screen : Screen) (s : Server.FrameLoop.State) : Prop where
  frame : s.frame.length = 2 * (screen.width.toNat * screen.height.toNat)
  data : s.data.length = sizeFrameHeader + sizeData

/-- The frames the loop has sent from one state to another, and the datagrams that went
through. -/
structure SentSince (s t : Server.FrameLoop.State) (bs datagrams : List (List Byte)) : Prop where
  sent : t.sent.map Prod.snd = s.sent.map Prod.snd ++ bs
  datagrams : t.datagrams = s.datagrams ++ datagrams

theorem SentSince.trans {s t u : Server.FrameLoop.State} {bs bs' ds ds' : List (List Byte)}
    (h : SentSince s t bs ds) (h' : SentSince t u bs' ds') :
    SentSince s u (bs ++ bs') (ds ++ ds') where
  sent := by rw [h'.sent, h.sent, List.append_assoc]
  datagrams := by rw [h'.datagrams, h.datagrams, List.append_assoc]

/-- **One round**: it takes the next picture, or none. -/
theorem Ready.round {s : Server.FrameLoop.State} {r : Round} (h : Ready screen s)
    (hr : Captures r → Server.Screen.Sized screen r.screenshot) :
    ∃ t bs, round screen compress r s = some t ∧ Ready screen t ∧
      SentSince s t bs (goThrough r.sends (packetsOf bs)) ∧
      ∀ rest, kept s.diff ((captured screen [r]).map compress ++ rest) =
        bs ++ kept t.diff rest := by
  by_cases hcaptures : Captures r
  · have hupdate : updateFrame screen r.lock r.screenshot s.frame =
        some (0, picture screen r.screenshot) := by
      rw [updateFrame, if_neg (fun hne => hne hcaptures.1)]
      exact updateFrame_eq_picture (hr hcaptures) hcaptures.2 h.frame
    obtain ⟨t, ht, hframe, hdata, hcases⟩ :=
      @Server.FrameLoop.exists_round screen compress r s _ _ h.data hupdate
    have hcaptured : captured screen [r] = [picture screen r.screenshot] := by
      rw [captured, List.filterMap_cons, if_pos hcaptures]
      rfl
    rw [hcaptured]
    rcases hcases with ⟨hskip, -, hdiff, hdatagrams, hsent⟩ |
      ⟨⟨-, hsend⟩, -, hdiff, hdatagrams, hsent⟩
    · have hno : ¬ (s.diff ≠ (compress (picture screen r.screenshot)).length ∧
          threshold ≤ (compress (picture screen r.screenshot)).length) := fun htest =>
        hskip ⟨rfl, htest⟩
      refine ⟨t, [], ht, ⟨hframe ▸ length_picture _ _, hdata⟩, ⟨?_, ?_⟩, fun rest => ?_⟩
      · rw [hsent, List.append_nil]
      · rw [hdatagrams]
        exact (List.append_nil _).symm
      · rw [List.map_cons, List.map_nil, List.singleton_append, kept, if_neg hno, hdiff,
          List.nil_append]
    · refine ⟨t, [compress (picture screen r.screenshot)], ht,
        ⟨hframe ▸ length_picture _ _, hdata⟩, ⟨?_, ?_⟩, fun rest => ?_⟩
      · rw [hsent, List.map_append]
        rfl
      · rw [hdatagrams, packetsOf, List.flatMap_singleton]
      · rw [List.map_cons, List.map_nil, List.singleton_append, kept, if_pos hsend, hdiff,
          List.singleton_append]
  · have hcaptured : captured screen [r] = [] := by
      rw [captured, List.filterMap_cons, if_neg hcaptures]
      rfl
    -- one of the native calls fails, and the bitmap stays as it is
    obtain ⟨err, herr, hupdate⟩ : ∃ err, err ≠ 0 ∧
        updateFrame screen r.lock r.screenshot s.frame = some (err, s.frame) := by
      by_cases hlock : r.lock = 0
      · have herr : r.screenshot.err ≠ 0 := fun herr => hcaptures ⟨hlock, herr⟩
        refine ⟨_, herr, ?_⟩
        rw [updateFrame, if_neg (fun hne => hne hlock), Server.Screen.updateFrame, if_pos herr]
      · exact ⟨r.lock, hlock, if_pos hlock⟩
    obtain ⟨t, ht, hframe, hdata, hcases⟩ :=
      @Server.FrameLoop.exists_round screen compress r s _ _ h.data hupdate
    rcases hcases with ⟨-, -, hdiff, hdatagrams, hsent⟩ | ⟨⟨hzero, -⟩, -⟩
    · refine ⟨t, [], ht, ⟨hframe ▸ h.frame, hdata⟩, ⟨?_, ?_⟩, fun rest => ?_⟩
      · rw [hsent, List.append_nil]
      · rw [hdatagrams]
        exact (List.append_nil _).symm
      · rw [hcaptured, hdiff]
        rfl
    · exact absurd hzero herr

theorem captured_cons (r : Round) (rounds : List Round) :
    captured screen (r :: rounds) = captured screen [r] ++ captured screen rounds := by
  rw [captured, ← List.singleton_append, List.filterMap_append]
  rfl

theorem rounds_kept : ∀ (rounds : List Round) (s : Server.FrameLoop.State), Ready screen s →
    (∀ r ∈ rounds, Captures r → Server.Screen.Sized screen r.screenshot) →
    ∃ t datagrams, rounds.foldlM (fun s r => round screen compress r s) s = some t ∧
      SentSince s t (kept s.diff ((captured screen rounds).map compress)) datagrams ∧
      datagrams.Sublist (packetsOf (kept s.diff ((captured screen rounds).map compress))) ∧
      ((∀ r ∈ rounds, ∀ i, r.sends i = true) →
        datagrams = packetsOf (kept s.diff ((captured screen rounds).map compress))) := by
  intro rounds
  induction rounds with
  | nil =>
    intro s _ _
    exact ⟨s, [], rfl, ⟨(List.append_nil _).symm, (List.append_nil _).symm⟩, .slnil, fun _ => rfl⟩
  | cons r rounds ih =>
    intro s hs hall
    obtain ⟨s₁, bs, hround, hs₁, hsent₁, hkept⟩ :=
      @Ready.round screen compress s r hs (hall r List.mem_cons_self)
    obtain ⟨t, datagrams, hrounds, hsent, hsub, hgo⟩ :=
      ih s₁ hs₁ fun r' hr' => hall r' (List.mem_cons_of_mem r hr')
    refine ⟨t, goThrough r.sends (packetsOf bs) ++ datagrams, ?_, ?_⟩
    · rw [List.foldlM_cons, hround]
      exact hrounds
    · rw [captured_cons, List.map_append, hkept, packetsOf_append]
      refine ⟨hsent₁.trans hsent, (goThrough_sublist _ _).append hsub, fun hsends => ?_⟩
      rw [goThrough_all (hsends r List.mem_cons_self),
        hgo fun r' hr' => hsends r' (List.mem_cons_of_mem r hr')]

end Loop

/-! ### The client's loop -/

theorem run_packetsOf : ∀ (frames : List (List Byte)) (task : FrameTask),
    task.data.length = sizeFrameHeader + sizeData →
    (∀ b ∈ frames, threshold ≤ b.length ∧ b.length ≤ task.buffer.length ∧ b.length ≤ 2 ^ 24) →
    ∃ (task' : FrameTask) (told : List (Nat × List Byte)),
      task.run (packetsOf frames) = some task' ∧ task'.ready = task.ready ++ told ∧
      told.map (fun r => (r.1, r.2.take r.1)) = frames.map fun b => (b.length, b) := by
  intro frames
  induction frames with
  | nil => intro task _ _; exact ⟨task, [], rfl, (List.append_nil _).symm, rfl⟩
  | cons b frames ih =>
    intro task hdata hall
    obtain ⟨hthreshold, hbuffer, hsize⟩ := hall b List.mem_cons_self
    have hpos : 0 < b.length := Nat.lt_of_lt_of_le (by decide) hthreshold
    obtain ⟨task₁, hrun₁, hdata₁, hbuffer₁, hready₁, htake₁⟩ :=
      run_fragments b 0 task hdata hpos hbuffer hsize rfl
    obtain ⟨task', told, hrun, hready, hmap⟩ := ih task₁ hdata₁ fun b' hb' =>
      hbuffer₁ ▸ hall b' (List.mem_cons_of_mem b hb')
    refine ⟨task', (b.length, task₁.buffer) :: told, ?_, ?_, ?_⟩
    · rw [packetsOf, List.flatMap_cons, FrameTask.run_append, hrun₁]
      exact hrun
    · rw [hready, hready₁, List.append_assoc]
      rfl
    · rw [List.map_cons, List.map_cons, htake₁, hmap]

theorem run_anyOf {frames : List (List Byte)} {size : Nat} (hfit : Fit frames size) :
    ∀ (delivered : List (List Byte)) (task : FrameTask), (∀ p ∈ delivered, PacketOf frames p) →
      Sized size task → ∃ (task' : FrameTask) (told : List (Nat × List Byte)),
        task.run delivered = some task' ∧ task'.ready = task.ready ++ told ∧
        ∀ r ∈ told, r.2.length = size ∧ ∃ b ∈ frames, r.1 = b.length := by
  intro delivered
  induction delivered with
  | nil => intro task _ _; exact ⟨task, [], rfl, (List.append_nil _).symm, nofun⟩
  | cons p delivered ih =>
    intro task hall hs
    obtain ⟨b, hb, f, hf, rfl⟩ := hall p List.mem_cons_self
    obtain ⟨hrec, hs₁⟩ := receive_packet hfit hs hb hf
    obtain ⟨task', told, hrun, hready, htold⟩ :=
      ih (f.received task) (fun q hq => hall q (List.mem_cons_of_mem _ hq)) hs₁
    have hof := Fragment.of_mem (Nat.dvd_zero _) hf
    -- the view is told of the frame if this is its last piece
    obtain ⟨now, hnow, hnowAll⟩ : ∃ now, (f.received task).ready = task.ready ++ now ∧
        ∀ r ∈ now, r.2.length = size ∧ ∃ b ∈ frames, r.1 = b.length := by
      by_cases hlast : f.last = true
      · refine ⟨[(f.offset + f.payload.length, (f.received task).buffer)], if_pos hlast,
          fun r hr => ?_⟩
        rw [List.mem_singleton.mp hr]
        exact ⟨hs₁.buffer, b, hb, hof.last.mp hlast⟩
      · exact ⟨[], (if_neg hlast).trans (List.append_nil _).symm, nofun⟩
    refine ⟨task', now ++ told, ?_, ?_, fun r hr => ?_⟩
    · rw [FrameTask.run_cons, hrec]
      exact hrun
    · rw [hready, hnow, List.append_assoc]
    · rcases List.mem_append.mp hr with hr | hr
      · exact hnowAll r hr
      · exact htold r hr

/-! ### The whole way -/

section Mirror

variable {w h : JInt} {compress : List Byte → List Byte} {rounds : List Round} {data : List Byte}

/-- The screen of the server, as native `init` makes it. -/
def screenOf (w h : JInt) : Screen := (Screen.initDisplay w h true).1

/-- The server's task in front of its loop, with a new bitmap, at the time `now`. -/
def startLoop (w h : JInt) (now : Int) : Server.FrameLoop.State where
  frame := List.replicate (2 * (w.toNat * h.toNat)) 0
  data := Server.dimensionsPacket w h
  wake := now

/-- What a session needs of the device and of `frame.compress`: a `uint32_t` counts the bytes of
a screenshot, the client's `int` those of its buffer, and no compressed picture is longer than
this or than three bytes can tell. -/
structure Fitting (w h : JInt) (compress : List Byte → List Byte) (rounds : List Round) :
    Prop where
  size : 2 * w.toNat * h.toNat < 2 ^ 31
  screenshot : ∀ r ∈ rounds, Captures r → Server.Screen.Sized (screenOf w h) r.screenshot
  compressed : ∀ p ∈ captured (screenOf w h) rounds,
    (compress p).length ≤ min (2 * w.toNat * h.toNat) (2 ^ 24)

theorem ready_startLoop (w h : JInt) (now : Int) : Ready (screenOf w h) (startLoop w h now) where
  frame := List.length_replicate
  data := by
    rw [startLoop, Server.dimensionsPacket, length_writeInt, length_writeInt, List.length_replicate]

theorem Fitting.kept (hfit : Fitting w h compress rounds) {b : List Byte}
    (hb : b ∈ MikaAudio.kept 0 ((captured (screenOf w h) rounds).map compress)) :
    threshold ≤ b.length ∧ b.length ≤ 2 * w.toNat * h.toNat ∧ b.length ≤ 2 ^ 24 := by
  obtain ⟨hmem, hthreshold⟩ := mem_kept hb
  obtain ⟨p, hp, rfl⟩ := List.mem_map.mp hmem
  have hle := hfit.compressed p hp
  exact ⟨hthreshold, Nat.le_trans hle (Nat.min_le_left _ _),
    Nat.le_trans hle (Nat.min_le_right _ _)⟩

/-- A frame of 10000 bytes. -/
def sampleFrame : List Byte := List.replicate 10000 7

theorem length_sampleFrame : sampleFrame.length = 10000 := List.length_replicate

/-- A round on a screen of 100 by 100 pixels. -/
def sampleRound (sends : Nat → Bool) : Round where
  instant := 0
  lock := 0
  screenshot := ⟨0, 100, List.replicate 40000 0⟩
  sends := sends
  ended := 10

/-- A round in which the bitmap cannot be locked. -/
def failedRound : Round := { sampleRound fun _ => true with lock := 1 }

theorem sends_sampleRounds :
    ∀ r ∈ [sampleRound fun _ => true, failedRound], ∀ i, r.sends i = true := by
  intro r hr i
  rcases List.mem_pair.mp hr with rfl | rfl
  · rfl
  · rfl

theorem sized_sampleRound (sends : Nat → Bool) :
    Server.Screen.Sized (screenOf 100 100) (sampleRound sends).screenshot where
  stride := Nat.le_refl _
  size := show 4 * ((100 : Server.U32).toNat * (100 : Server.U32).toNat) < 2 ^ 32 by decide
  length := by
    show (List.replicate 40000 0).length = 4 * ((100 : Server.U32).toNat * (100 : Server.U32).toNat)
    rw [List.length_replicate]
    decide

theorem captured_sampleRounds (sends : Nat → Bool) :
    (captured (screenOf 100 100) [sampleRound sends, failedRound]).map (fun _ => sampleFrame) =
      [sampleFrame] := by
  have hsample : Captures (sampleRound sends) := ⟨rfl, rfl⟩
  have hfailed : ¬ Captures failedRound := fun h => absurd h.1 (by decide)
  rw [captured, List.filterMap_cons, if_pos hsample, List.filterMap_cons, if_neg hfailed]
  rfl

theorem fitting_sampleRounds (sends : Nat → Bool) :
    Fitting 100 100 (fun _ => sampleFrame) [sampleRound sends, failedRound] where
  size := by decide
  screenshot r hr hcaptures := by
    rcases List.mem_pair.mp hr with rfl | rfl
    · exact sized_sampleRound sends
    · exact absurd hcaptures.1 (by decide)
  compressed p _ := by
    rw [length_sampleFrame]
    decide

theorem kept_sampleFrame : kept 0 [sampleFrame] = [sampleFrame] := by
  rw [kept, if_pos (by rw [length_sampleFrame]; decide)]
  rfl

/-- **The whole loop refines the loop over the compressed frames**: with screenshots that fail,
sleeps and packets that are not sent, it sends some of the packets that `run` sends for the
pictures it took, in their order, and all of them if `socket.send` does not throw. -/
theorem loop_refines_run {screen : Screen} {s : Server.FrameLoop.State} (hs : Ready screen s)
    (hrounds : ∀ r ∈ rounds, Captures r → Server.Screen.Sized screen r.screenshot) :
    ∃ t packets datagrams, rounds.foldlM (fun s r => round screen compress r s) s = some t ∧
      Server.FrameTask.run ((captured screen rounds).map compress) s.diff s.data = some packets ∧
      t.datagrams = s.datagrams ++ datagrams ∧ datagrams.Sublist packets ∧
      ((∀ r ∈ rounds, ∀ i, r.sends i = true) → datagrams = packets) := by
  obtain ⟨t, datagrams, hrun, ⟨-, hdatagrams⟩, hsub, hgo⟩ :=
    @rounds_kept screen compress rounds s hs hrounds
  exact ⟨t, _, datagrams, hrun, run_eq_kept _ _ _ hs.data, hdatagrams, hsub, hgo⟩

/-- A picture of the screen, and a round without one. -/
theorem loop_refines_run_two : ∃ (t : Server.FrameLoop.State) (packets : List (List Byte)),
    Server.FrameTask.run [sampleFrame] 0 (Server.dimensionsPacket 100 100) = some packets ∧
      t.datagrams = packets := by
  obtain ⟨t, packets, datagrams, -, hpackets, hdatagrams, -, hgo⟩ :=
    @loop_refines_run (fun _ => sampleFrame) [sampleRound fun _ => true, failedRound] _ _
      (ready_startLoop 100 100 0) (fitting_sampleRounds fun _ => true).screenshot
  rw [captured_sampleRounds] at hpackets
  refine ⟨t, packets, hpackets, ?_⟩
  rw [hdatagrams, hgo sends_sampleRounds]
  exact List.nil_append _

/-- **The view is told of the pictures of the screen**: in order, each with all its bytes, and
of each that is long enough and not as long as the one before. -/
theorem mirrored (hfit : Fitting w h compress rounds) (now : Int)
    (hsends : ∀ r ∈ rounds, ∀ i, r.sends i = true)
    (hdata : data.length = sizeFrameHeader + sizeData) :
    ∃ (s : Server.FrameLoop.State) (task : FrameTask),
      rounds.foldlM (fun s r => round (screenOf w h) compress r s) (startLoop w h now) = some s ∧
      s.sent.map Prod.snd = kept 0 ((captured (screenOf w h) rounds).map compress) ∧
      (FrameTask.new data w h).run s.datagrams = some task ∧
      task.ready.map (fun r => (r.1, r.2.take r.1)) =
        (s.sent.map Prod.snd).map fun b => (b.length, b) := by
  obtain ⟨s, datagrams, hrun, ⟨hsent, hdatagrams⟩, -, hgo⟩ :=
    @rounds_kept _ compress rounds _ (ready_startLoop w h now) hfit.screenshot
  have hbuffer := length_buffer_new data hfit.size
  obtain ⟨task, told, hrun', hready, hmap⟩ := run_packetsOf
    (kept 0 ((captured (screenOf w h) rounds).map compress)) (FrameTask.new data w h) hdata
    fun b hb => hbuffer ▸ hfit.kept hb
  refine ⟨s, task, hrun, hsent, ?_, ?_⟩
  · rw [hdatagrams, hgo hsends]
    exact hrun'
  · rw [hsent, hready]
    exact hmap

/-- The view is told of the picture of the screen. -/
theorem mirrored_two : ∃ (s : Server.FrameLoop.State) (task : FrameTask),
    (FrameTask.new (List.replicate (sizeFrameHeader + sizeData) 0) 100 100).run s.datagrams =
      some task ∧
    task.ready.map (fun r => (r.1, r.2.take r.1)) = [(10000, sampleFrame)] := by
  obtain ⟨s, task, -, hsent, hrun, hready⟩ := mirrored (fitting_sampleRounds fun _ => true) 0
    sends_sampleRounds
    (List.length_replicate (a := (0 : Byte)))
  refine ⟨s, task, hrun, ?_⟩
  rw [hready, hsent, captured_sampleRounds, kept_sampleFrame, List.map_cons, List.map_nil,
    length_sampleFrame]

/-- **No network can hurt the client**: whatever is sent, lost, repeated or overtaken, the loop
goes on, and the view is told of a length of a picture of the screen, within its buffer. -/
theorem mirror_safe (hfit : Fitting w h compress rounds) (now : Int)
    (hdata : data.length = sizeFrameHeader + sizeData) :
    ∃ s : Server.FrameLoop.State,
      rounds.foldlM (fun s r => round (screenOf w h) compress r s) (startLoop w h now) = some s ∧
      ∀ delivered : List (List Byte), (∀ p ∈ delivered, p ∈ s.datagrams) →
        ∃ task : FrameTask, (FrameTask.new data w h).run delivered = some task ∧
          ∀ r ∈ task.ready, r.1 ≤ r.2.length ∧
            ∃ p ∈ captured (screenOf w h) rounds, r.1 = (compress p).length := by
  obtain ⟨s, datagrams, hrun, ⟨-, hdatagrams⟩, hsub, -⟩ :=
    @rounds_kept _ compress rounds _ (ready_startLoop w h now) hfit.screenshot
  refine ⟨s, hrun, fun delivered hdelivered => ?_⟩
  have hframes : Fit (kept 0 ((captured (screenOf w h) rounds).map compress))
      (2 * w.toNat * h.toNat) := fun b hb => (hfit.kept hb).2
  have hpackets : ∀ p ∈ delivered,
      PacketOf (kept 0 ((captured (screenOf w h) rounds).map compress)) p := by
    intro p hp
    have hsent := hdelivered p hp
    rw [hdatagrams] at hsent
    obtain ⟨b, hb, hpb⟩ := List.mem_flatMap.mp (hsub.subset hsent)
    obtain ⟨f, hf, rfl⟩ := List.mem_map.mp hpb
    exact ⟨b, hb, f, hf, rfl⟩
  obtain ⟨task, told, hrun', hready, htold⟩ := run_anyOf hframes delivered (FrameTask.new data w h)
    hpackets ⟨hdata, length_buffer_new data hfit.size⟩
  refine ⟨task, hrun', fun r hr => ?_⟩
  rw [hready] at hr
  obtain ⟨hlength, b, hb, hrb⟩ := htold r hr
  obtain ⟨p, hp, rfl⟩ := List.mem_map.mp (mem_kept hb).1
  exact ⟨by rw [hlength, hrb]; exact (hfit.kept hb).2.1, p, hp, hrb⟩

/-- The first packet is not sent, and the others come twice. -/
theorem mirror_safe_lost : ∃ (s : Server.FrameLoop.State) (task : FrameTask),
    (FrameTask.new (List.replicate (sizeFrameHeader + sizeData) 0) 100 100).run
      (s.datagrams.reverse ++ s.datagrams) = some task := by
  obtain ⟨s, -, hall⟩ := mirror_safe (fitting_sampleRounds fun i => i ≠ 0) 0
    (List.length_replicate (a := (0 : Byte)))
  obtain ⟨task, hrun, -⟩ := hall (s.datagrams.reverse ++ s.datagrams) fun p hp => by
    rcases List.mem_append.mp hp with hp | hp
    · exact List.mem_reverse.mp hp
    · exact hp
  exact ⟨s, task, hrun⟩

end Mirror

end MikaAudio
