import MikaAudio.Lib.Thread
import MikaAudio.Lib.Buffer
import Mathlib.Tactic.Ring

/-!
# The native `Screen`

`updateFrame` turns a screenshot of four bytes a pixel, whose rows may be longer than the
screen is wide, into two bytes a pixel without gaps.  The loop has one counter for each of
the two arrays, both `uint32_t`, and sees from the counter of the second one where a row of
the first one ends.  An access outside an array is `none`.

With `p` pixels done the counters are at `2 * p` and at the end of the pixel before, so
after the test for the end of a row `count` is at the pixel of row `p / width` and column
`p % width` (`nextPixel_eq`).
-/

namespace MikaAudio.Server

open Thread (Byte)

/-- A `uint32_t`. -/
abbrev U32 := BitVec 32

/-- A `uint16_t`. -/
abbrev U16 := BitVec 16

/-- `SIZE_PIXEL`. -/
def sizePixel : U32 := 4

/-- `SIZE_CONVERTED_PIXEL`. -/
def sizeConvertedPixel : U32 := 2

/-- What `initDisplay` sets and nothing else changes. -/
structure Screen where
  width : U32
  height : U32
  pixels : U32
  pixels_eq : pixels = width * height * sizeConvertedPixel

/-- `initDisplay(w, h)`; `display` says if `getBuiltInDisplay` gives one. -/
def Screen.initDisplay (w h : U32) (display : Bool) : Screen × BitVec 32 :=
  ({ width := w, height := h, pixels := w * h * sizeConvertedPixel, pixels_eq := rfl },
    if display then 0 else 1)

/-- What `client->update` returns, and the screenshot it leaves. -/
structure Screenshot where
  err : BitVec 32
  stride : U32
  pixels : List Byte

namespace Screen

/-- `rgb` of the three bytes of a pixel. -/
def rgb (b₀ b₁ b₂ : Byte) : U16 :=
  let r : U16 := (((b₀.setWidth 32 >>> 3) &&& 0x001f#32) <<< 11).setWidth 16
  let g : U16 := (((b₁.setWidth 32 >>> 2) &&& 0x003f#32) <<< 5).setWidth 16
  let b : U16 := ((b₂.setWidth 32 >>> 3) &&& 0x001f#32).setWidth 16
  r ||| g ||| b

/-- `if (index % (width * SIZE_CONVERTED_PIXEL) == 0 && count != 0) count += stride;` -/
def nextPixel (screen : Screen) (stride index count : U32) : U32 :=
  if index % (screen.width * sizeConvertedPixel) = 0 ∧ count ≠ 0 then count + stride else count

/-- The pixels are even in number, so `index` does not wrap around. -/
theorem pixels_sub_lt (screen : Screen) {index : U32} (h : index < screen.pixels) :
    screen.pixels.toNat - (index + sizeConvertedPixel).toNat <
      screen.pixels.toNat - index.toNat := by
  have hlt : index.toNat < screen.pixels.toNat := h
  have heven : screen.pixels.toNat % 2 = 0 := by
    rw [screen.pixels_eq, BitVec.toNat_mul, show sizeConvertedPixel.toNat = 2 from rfl]
    omega
  rw [BitVec.toNat_add, show sizeConvertedPixel.toNat = 2 from rfl]
  omega

/-- `for (index = 0; index < pixels; index += SIZE_CONVERTED_PIXEL)`, from an index on. -/
def convert (screen : Screen) (stride : U32) (bitmap : List Byte) (index count : U32)
    (bitmapPtr : List Byte) : Option (List Byte) :=
  if index < screen.pixels then do
    let count := screen.nextPixel stride index count
    let b₀ ← bitmap[count.toNat]?
    let b₁ ← bitmap[(count + 1).toNat]?
    let b₂ ← bitmap[(count + 2).toNat]?
    let bitmapPtr ← Buffer.write bitmapPtr index.toNat ((rgb b₀ b₁ b₂ &&& 0xFF).setWidth 8)
    let bitmapPtr ← Buffer.write bitmapPtr (index.toNat + 1) ((rgb b₀ b₁ b₂ >>> 8).setWidth 8)
    convert screen stride bitmap (index + sizeConvertedPixel) (count + sizePixel) bitmapPtr
  else some bitmapPtr
termination_by screen.pixels.toNat - index.toNat
decreasing_by exact screen.pixels_sub_lt ‹index < screen.pixels›

/-- `updateFrame(bitmapPtr)`: what it returns, and the bitmap. -/
def updateFrame (screen : Screen) (client : Screenshot) (bitmapPtr : List Byte) :
    Option (BitVec 32 × List Byte) :=
  if client.err ≠ 0 then some (client.err, bitmapPtr)
  else
    (screen.convert ((client.stride - screen.width) * sizePixel) client.pixels 0 0 bitmapPtr).map
      (0, ·)

/-! ### The packing -/

/-- RGB565: the top 5, 6 and 5 bits of red, green and blue. -/
def rgb565 (r g b : Byte) : U16 :=
  r.extractLsb' 3 5 ++ g.extractLsb' 2 6 ++ b.extractLsb' 3 5

theorem getElem_rgb565 (r g b : Byte) {i : Nat} (hi : i < 16) :
    (rgb565 r g b)[i] = if i < 5 then b.getLsbD (3 + i) else
      if i < 11 then g.getLsbD (2 + (i - 5)) else r.getLsbD (3 + (i - 11)) := by
  refine (BitVec.getElem_append (x := r.extractLsb' 3 5 ++ g.extractLsb' 2 6)
    (y := b.extractLsb' 3 5) hi).trans ?_
  split_ifs with hblue hgreen
  · exact BitVec.getElem_extractLsb' ..
  · rw [BitVec.getElem_append, dif_pos (by omega), BitVec.getElem_extractLsb']
  · rw [BitVec.getElem_append, dif_neg (by omega), BitVec.getElem_extractLsb', Nat.sub_sub]

theorem getLsbD_mask {w n : Nat} (hn : n ≤ w) (j : Nat) :
    (BitVec.ofNat w (2 ^ n - 1)).getLsbD j = decide (j < n) := by
  rw [BitVec.getLsbD_ofNat, Nat.testBit_two_pow_sub_one, ← Bool.decide_and]
  exact decide_eq_decide.mpr ⟨And.right, fun h => ⟨by omega, h⟩⟩

theorem getElem_field (v : Byte) {s n k i : Nat} (hs : s ≤ 16) (hn : n ≤ 32) (hi : i < 16) :
    ((((v.setWidth 32 >>> s) &&& BitVec.ofNat 32 (2 ^ n - 1)) <<< k).setWidth 16)[i] =
      (decide (k ≤ i ∧ i < k + n) && v.getLsbD (s + (i - k))) := by
  rw [BitVec.getElem_setWidth, BitVec.getLsbD_shiftLeft, BitVec.getLsbD_and,
    BitVec.getLsbD_ushiftRight, BitVec.getLsbD_setWidth, getLsbD_mask hn,
    decide_eq_true (show i < 32 by omega), decide_eq_true (show s + (i - k) < 32 by omega)]
  by_cases hk : k ≤ i
  · have hlt : i - k < n ↔ k ≤ i ∧ i < k + n := by omega
    rw [decide_eq_false (show ¬ i < k by omega), decide_eq_decide.mpr hlt, Bool.not_false,
      Bool.true_and, Bool.true_and, Bool.true_and, Bool.and_comm]
  · rw [decide_eq_true (show i < k by omega), decide_eq_false (show ¬ (k ≤ i ∧ i < k + n) by omega)]
    rfl

theorem rgb_eq (r g b : Byte) : rgb r g b = rgb565 r g b := by
  ext i hi
  have hr := getElem_field r (s := 3) (n := 5) (k := 11) (by decide) (by decide) hi
  have hg := getElem_field g (s := 2) (n := 6) (k := 5) (by decide) (by decide) hi
  have hb := getElem_field b (s := 3) (n := 5) (k := 0) (by decide) (by decide) hi
  rw [BitVec.shiftLeft_zero] at hb
  rw [getElem_rgb565, rgb, BitVec.getElem_or, BitVec.getElem_or]
  refine (congrArg₂ or (congrArg₂ or hr hg) hb).trans ?_
  split_ifs with hblue hgreen
  · rw [decide_eq_false (by omega), decide_eq_false (by omega), decide_eq_true (by omega)]
    rfl
  · rw [decide_eq_false (by omega), decide_eq_true (by omega), decide_eq_false (by omega),
      Bool.false_and, Bool.false_and, Bool.true_and, Bool.false_or, Bool.or_false]
  · rw [decide_eq_true (by omega), decide_eq_false (by omega), decide_eq_false (by omega),
      Bool.false_and, Bool.false_and, Bool.true_and, Bool.or_false, Bool.or_false]

theorem low_eq (v : U16) : (v &&& 0xFF).setWidth 8 = v.extractLsb' 0 8 := by
  ext i hi
  have hmask : (0xFF : U16).getLsbD i = decide (i < 8) := getLsbD_mask (n := 8) (by decide) i
  rw [BitVec.getElem_setWidth, BitVec.getLsbD_and, BitVec.getElem_extractLsb', Nat.zero_add,
    hmask, decide_eq_true hi, Bool.and_true]

theorem high_eq (v : U16) : (v >>> 8).setWidth 8 = v.extractLsb' 8 8 := by
  ext i hi
  rw [BitVec.getElem_setWidth, BitVec.getLsbD_ushiftRight, BitVec.getElem_extractLsb']

/-! ### Where a pixel is -/

/-- The place of pixel `p` in a screenshot with rows of `s` pixels. -/
def source (w s p : Nat) : Nat := 4 * (p / w * s + p % w)

section Source

variable {w h s p : Nat}

theorem source_add_four_le (hs : w ≤ s) (hp : p < w * h) : source w s p + 4 ≤ 4 * (s * h) := by
  have hw : 0 < w := Nat.pos_of_mul_pos_right (Nat.zero_lt_of_lt hp)
  have hrow : p / w + 1 ≤ h := Nat.div_lt_of_lt_mul hp
  have hcolumn : p % w < w := Nat.mod_lt p hw
  calc source w s p + 4 = 4 * (p / w * s + (p % w + 1)) := by rw [source]; ring
    _ ≤ 4 * (p / w * s + s) := by gcongr; omega
    _ = 4 * ((p / w + 1) * s) := by ring
    _ ≤ 4 * (h * s) := by gcongr
    _ = 4 * (s * h) := by rw [Nat.mul_comm h s]

theorem source_succ (hw : 0 < w) (hs : w ≤ s) :
    source w s (p + 1) = source w s p + 4 + if (p + 1) % w = 0 then 4 * (s - w) else 0 := by
  have hcolumn : p % w < w := Nat.mod_lt p hw
  have hp : p % w + w * (p / w) = p := Nat.mod_add_div p w
  by_cases hlast : p % w + 1 = w
  · obtain ⟨hdiv, hmod⟩ := (Nat.div_mod_unique (a := p + 1) (d := p / w + 1) (c := 0) hw).mpr
      ⟨by rw [Nat.mul_succ]; omega, hw⟩
    rw [source, source, hdiv, hmod, if_pos rfl, Nat.add_one_mul (p / w)]
    omega
  · obtain ⟨hdiv, hmod⟩ := (Nat.div_mod_unique (a := p + 1) (d := p / w) (c := p % w + 1) hw).mpr
      ⟨by omega, by omega⟩
    rw [source, source, hdiv, hmod, if_neg (Nat.succ_ne_zero _)]
    omega

end Source

/-! ### The loop -/

/-- The pixel in row `y` and column `x` of the screenshot is in its place of the bitmap. -/
def Converted (screen : Screen) (client : Screenshot) (bitmapPtr : List Byte) (y x : Nat) : Prop :=
  ∃ r g b : Byte,
    client.pixels[4 * (y * client.stride.toNat + x)]? = some r ∧
    client.pixels[4 * (y * client.stride.toNat + x) + 1]? = some g ∧
    client.pixels[4 * (y * client.stride.toNat + x) + 2]? = some b ∧
    bitmapPtr[2 * (y * screen.width.toNat + x)]? = some ((rgb565 r g b).extractLsb' 0 8) ∧
    bitmapPtr[2 * (y * screen.width.toNat + x) + 1]? = some ((rgb565 r g b).extractLsb' 8 8)

/-- The sizes fit together, and a `uint32_t` holds them. -/
structure Sized (screen : Screen) (client : Screenshot) : Prop where
  stride : screen.width.toNat ≤ client.stride.toNat
  size : 4 * (client.stride.toNat * screen.height.toNat) < 2 ^ 32
  length : client.pixels.length = 4 * (client.stride.toNat * screen.height.toNat)

section Loop

variable {screen : Screen} {client : Screenshot} {p : Nat} {count : U32}

theorem Sized.area_le (h : Sized screen client) :
    screen.width.toNat * screen.height.toNat ≤ client.stride.toNat * screen.height.toNat :=
  Nat.mul_le_mul_right _ h.stride

theorem Sized.pixels (h : Sized screen client) :
    screen.pixels.toNat = 2 * (screen.width.toNat * screen.height.toNat) := by
  have harea := h.area_le
  have hsize := h.size
  rw [screen.pixels_eq, BitVec.toNat_mul, BitVec.toNat_mul,
    show sizeConvertedPixel.toNat = 2 from rfl,
    Nat.mod_eq_of_lt (a := _ * screen.height.toNat) (by omega), Nat.mod_eq_of_lt (by omega),
    Nat.mul_comm]

/-- With `p` pixels done, `count` is behind the last of them. -/
def Counted (screen : Screen) (client : Screenshot) (count : U32) : Nat → Prop
  | 0 => count = 0
  | p + 1 => count.toNat = source screen.width.toNat client.stride.toNat p + 4

theorem nextPixel_eq (h : Sized screen client)
    (hp : p < screen.width.toNat * screen.height.toNat) (hcount : Counted screen client count p) :
    (screen.nextPixel ((client.stride - screen.width) * sizePixel) (BitVec.ofNat 32 (2 * p))
        count).toNat = source screen.width.toNat client.stride.toNat p := by
  have harea := h.area_le
  have hsize := h.size
  have hstride := h.stride
  have hw : 0 < screen.width.toNat := Nat.pos_of_mul_pos_right (Nat.zero_lt_of_lt hp)
  have hh : 0 < screen.height.toNat := Nat.pos_of_mul_pos_left (Nat.zero_lt_of_lt hp)
  have hwidth := Nat.le_mul_of_pos_right screen.width.toNat hh
  have hrow := Nat.le_mul_of_pos_right client.stride.toNat hh
  have hbound := source_add_four_le hstride hp
  have hindex : (BitVec.ofNat 32 (2 * p) % (screen.width * sizeConvertedPixel)).toNat =
      2 * (p % screen.width.toNat) := by
    rw [BitVec.toNat_umod, BitVec.toNat_ofNat, BitVec.toNat_mul,
      show sizeConvertedPixel.toNat = 2 from rfl, Nat.mod_eq_of_lt (a := 2 * p) (by omega),
      Nat.mod_eq_of_lt (a := _ * 2) (by omega), Nat.mul_comm _ 2, Nat.mul_mod_mul_left]
  have hpadding : ((client.stride - screen.width) * sizePixel).toNat =
      4 * (client.stride.toNat - screen.width.toNat) := by
    rw [BitVec.toNat_mul, BitVec.toNat_sub_of_le hstride, show sizePixel.toNat = 4 from rfl,
      Nat.mod_eq_of_lt (by omega), Nat.mul_comm]
  cases p with
  | zero =>
    obtain rfl : count = 0 := hcount
    rw [nextPixel, if_neg (fun htest => htest.2 rfl)]
    simp [source]
  | succ p =>
    have hat : count.toNat = source screen.width.toNat client.stride.toNat p + 4 := hcount
    have hnonzero : count ≠ 0 := by
      rintro rfl
      simp at hat
    rw [source_succ hw hstride] at hbound ⊢
    by_cases hend : (p + 1) % screen.width.toNat = 0
    · rw [if_pos hend] at hbound ⊢
      rw [nextPixel, if_pos ⟨BitVec.eq_of_toNat_eq (by rw [hindex, hend]; rfl), hnonzero⟩,
        BitVec.toNat_add, hat, hpadding, Nat.mod_eq_of_lt (by omega)]
    · rw [if_neg hend] at hbound ⊢
      rw [nextPixel, if_neg, hat, Nat.add_zero]
      rintro ⟨htest, _⟩
      have := congrArg BitVec.toNat htest
      rw [hindex] at this
      simp at this
      omega

theorem exists_pixel (h : Sized screen client)
    (hp : p < screen.width.toNat * screen.height.toNat)
    (hcount : count.toNat = source screen.width.toNat client.stride.toNat p) :
    ∃ r g b : Byte,
      client.pixels[source screen.width.toNat client.stride.toNat p]? = some r ∧
      client.pixels[source screen.width.toNat client.stride.toNat p + 1]? = some g ∧
      client.pixels[source screen.width.toNat client.stride.toNat p + 2]? = some b ∧
      (count + 1).toNat = source screen.width.toNat client.stride.toNat p + 1 ∧
      (count + 2).toNat = source screen.width.toNat client.stride.toNat p + 2 ∧
      (count + sizePixel).toNat = source screen.width.toNat client.stride.toNat p + 4 := by
  have hbound := source_add_four_le h.stride hp
  have hsize := h.size
  have hlength := h.length
  -- behind the last pixel the counter is at the end of the screenshot, still below `2 ^ 32`
  refine ⟨_, _, _, List.getElem?_eq_getElem (by omega), List.getElem?_eq_getElem (by omega),
    List.getElem?_eq_getElem (by omega), ?_, ?_, ?_⟩
  · rw [BitVec.toNat_add, hcount, show (1 : U32).toNat = 1 from rfl, Nat.mod_eq_of_lt (by omega)]
  · rw [BitVec.toNat_add, hcount, show (2 : U32).toNat = 2 from rfl, Nat.mod_eq_of_lt (by omega)]
  · rw [BitVec.toNat_add, hcount, show sizePixel.toNat = 4 from rfl, Nat.mod_eq_of_lt (by omega)]

/-- **What the loop does from pixel `p` on.** -/
theorem convert_eq (h : Sized screen client) : ∀ (n p : Nat) (count : U32) (bitmapPtr : List Byte),
    p + n = screen.width.toNat * screen.height.toNat → Counted screen client count p →
    2 * (screen.width.toNat * screen.height.toNat) ≤ bitmapPtr.length →
    ∃ out, screen.convert ((client.stride - screen.width) * sizePixel) client.pixels
        (BitVec.ofNat 32 (2 * p)) count bitmapPtr = some out ∧
      out.length = bitmapPtr.length ∧
      (∀ k, k < 2 * p ∨ 2 * (screen.width.toNat * screen.height.toNat) ≤ k →
        out[k]? = bitmapPtr[k]?) ∧
      ∀ q, p ≤ q → q < screen.width.toNat * screen.height.toNat →
        Converted screen client out (q / screen.width.toNat) (q % screen.width.toNat) := by
  have harea := h.area_le
  have hsize := h.size
  have hpixels := h.pixels
  intro n
  induction n with
  | zero =>
    intro p count bitmapPtr hp _ _
    refine ⟨bitmapPtr, ?_, rfl, fun _ _ => rfl, fun q hq hlt => absurd hlt (by omega)⟩
    rw [convert, if_neg]
    rw [BitVec.lt_def, hpixels, BitVec.toNat_ofNat, Nat.mod_eq_of_lt (by omega)]
    omega
  | succ n ih =>
    intro p count bitmapPtr hp hcount hroom
    have hlt : p < screen.width.toNat * screen.height.toNat := by omega
    have hindex : (BitVec.ofNat 32 (2 * p)).toNat = 2 * p := by
      rw [BitVec.toNat_ofNat, Nat.mod_eq_of_lt (by omega)]
    have hnext := nextPixel_eq h hlt hcount
    obtain ⟨r, g, b, hr, hg, hb, h1, h2, h4⟩ := exists_pixel h hlt hnext
    have hindex' :
        BitVec.ofNat 32 (2 * p) + sizeConvertedPixel = BitVec.ofNat 32 (2 * (p + 1)) := by
      rw [Nat.mul_succ, BitVec.ofNat_add]
      rfl
    obtain ⟨out, hconvert, hlength, hkept, hdone⟩ := ih (p + 1)
      (screen.nextPixel ((client.stride - screen.width) * sizePixel) (BitVec.ofNat 32 (2 * p)) count
        + sizePixel)
      ((bitmapPtr.set (2 * p) ((rgb565 r g b).extractLsb' 0 8)).set (2 * p + 1)
        ((rgb565 r g b).extractLsb' 8 8))
      (by omega) h4 (by rw [List.length_set, List.length_set]; exact hroom)
    rw [List.length_set, List.length_set] at hlength
    refine ⟨out, ?_, hlength, ?_, ?_⟩
    · rw [convert, if_pos (by rw [BitVec.lt_def, hindex, hpixels]; omega)]
      simp only [hnext, h1, h2, hr, hg, hb, hindex, hindex', Buffer.write, rgb_eq, low_eq, high_eq,
        Option.bind_eq_bind, Option.bind_some]
      rw [if_pos (by omega), Option.bind_some, if_pos (by rw [List.length_set]; omega),
        Option.bind_some]
      exact hconvert
    · intro k hk
      rw [hkept k (by omega), List.getElem?_set_ne (by omega), List.getElem?_set_ne (by omega)]
    · intro q hq hqlt
      by_cases hqp : p + 1 ≤ q
      · exact hdone q hqp hqlt
      · obtain rfl : q = p := by omega
        have hplace : 2 * (q / screen.width.toNat * screen.width.toNat + q % screen.width.toNat) =
            2 * q := by
          rw [Nat.div_add_mod']
        refine ⟨r, g, b, hr, hg, hb, ?_, ?_⟩
        · rw [hplace, hkept _ (by omega), List.getElem?_set_ne (by omega),
            List.getElem?_set_self (by omega)]
        · rw [hplace, hkept _ (by omega), List.getElem?_set_self (by rw [List.length_set]; omega)]

end Loop

/-- **Every pixel is converted to its place**, and nothing outside the arrays is read or
written: the rest of a longer bitmap stays as it is. -/
theorem updateFrame_converts {w h s : U32} (hs : w ≤ s) (hsource : 4 * s.toNat * h.toNat < 2 ^ 32)
    {pixels bitmapPtr : List Byte} (hpixels : pixels.length = 4 * s.toNat * h.toNat)
    (hroom : 2 * w.toNat * h.toNat ≤ bitmapPtr.length) (display : Bool) :
    ∃ out, (initDisplay w h display).1.updateFrame ⟨0, s, pixels⟩ bitmapPtr = some (0, out) ∧
      out.length = bitmapPtr.length ∧
      out.drop (2 * w.toNat * h.toNat) = bitmapPtr.drop (2 * w.toNat * h.toNat) ∧
      ∀ y x : Nat, y < h.toNat → x < w.toNat →
        Converted (initDisplay w h display).1 ⟨0, s, pixels⟩ out y x := by
  rw [Nat.mul_assoc] at hsource hroom hpixels ⊢
  have hsized : Sized (initDisplay w h display).1 ⟨0, s, pixels⟩ := ⟨hs, hsource, hpixels⟩
  obtain ⟨out, hconvert, hlength, hkept, hdone⟩ :=
    convert_eq hsized (w.toNat * h.toNat) 0 0 bitmapPtr (Nat.zero_add _) rfl hroom
  refine ⟨out, ?_, hlength, List.ext_getElem? fun k => ?_, fun y x hy hx => ?_⟩
  · rw [updateFrame, if_neg (fun herr => herr rfl)]
    exact congrArg (Option.map (0, ·)) hconvert
  · rw [List.getElem?_drop, List.getElem?_drop]
    exact hkept _ (Or.inr (Nat.le_add_right _ _))
  · obtain ⟨hdiv, hmod⟩ := (Nat.div_mod_unique (a := x + w.toNat * y) (d := y) (c := x)
      (Nat.zero_lt_of_lt hx)).mpr ⟨rfl, hx⟩
    have hin : x + w.toNat * y < w.toNat * h.toNat := by
      have := Nat.mul_le_mul_left w.toNat (Nat.succ_le_of_lt hy)
      rw [Nat.mul_succ] at this
      omega
    have := hdone (x + w.toNat * y) (Nat.zero_le _) hin
    rw [show (initDisplay w h display).1.width = w from rfl, hdiv, hmod] at this
    exact this

/-- The last pixel of a screen of 2 by 2 pixels, from a screenshot with rows of 3. -/
theorem updateFrame_converts_two : ∃ out,
    (initDisplay 2 2 true).1.updateFrame ⟨0, 3, List.replicate 24 0xFF⟩ (List.replicate 8 0) =
      some (0, out) ∧
    Converted (initDisplay 2 2 true).1 ⟨0, 3, List.replicate 24 0xFF⟩ out 1 1 := by
  obtain ⟨out, hout, _, _, hall⟩ := @updateFrame_converts 2 2 3 (by decide) (by decide)
    (List.replicate 24 0xFF) (List.replicate 8 0) (by decide) (by decide) true
  exact ⟨out, hout, hall 1 1 (by decide) (by decide)⟩

end Screen

end MikaAudio.Server
