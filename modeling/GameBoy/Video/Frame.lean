import GameBoy.Word

/-!
# Colours and the frame

A `FrameBuffer` holds the 160 by 144 points of the screen as a picture: three bytes per point, row
by row from the top left. It is read and written by coordinates; outside the screen a read gives
nothing and a write changes nothing. Three bytes in a row are one `FrameBuffer.Slot`, which cannot
reach beyond the picture.

Every third byte starts the slot of a point, so that the picture is as good as the list of its
colours (`FrameBuffer.colors`, `FrameBuffer.ext_colors`). In terms of the colours a write changes
one entry (`FrameBuffer.colors_setPixel`), and a fill all of them (`FrameBuffer.colors_fill`).
-/

namespace GameBoy

/-- A colour with eight bits per channel. -/
structure Color where
  r : Byte
  g : Byte
  b : Byte
  deriving DecidableEq, Repr, Inhabited

namespace Color

def white : Color := ⟨0xFF, 0xFF, 0xFF⟩

def black : Color := ⟨0, 0, 0⟩

end Color

/-- The colours of the four shades, the lightest first. -/
abbrev Palette := Vector Color 4

/-- Four even steps from white to black. -/
def Palette.gray : Palette := #v[.white, ⟨0xAA, 0xAA, 0xAA⟩, ⟨0x55, 0x55, 0x55⟩, .black]

/-- The colour of the shade that the low two bits of a byte number. -/
def Palette.shade (palette : Palette) (bits : Byte) : Color :=
  palette.get (Fin.ofNat 4 bits.toNat)

namespace Screen

def width : Nat := 160

def height : Nat := 144

end Screen

structure FrameBuffer where
  bytes : Vector Byte (160 * 144 * 3)
  deriving DecidableEq

namespace FrameBuffer

/-- The place of three bytes in a row. -/
structure Slot where
  start : Nat
  fits : start + 3 ≤ 160 * 144 * 3
  deriving DecidableEq

/-- The slot of a point, if it is on the screen. -/
def slot? (x y : Nat) : Option Slot :=
  if h : x < 160 ∧ y < 144 then some ⟨(y * 160 + x) * 3, by omega⟩ else none

/-- The slots from the start of the picture to its end. -/
def chunk (k : Fin (160 * 144)) : Slot := ⟨3 * k, by omega⟩

/-- The colour in a slot. -/
def slice (frame : FrameBuffer) (slot : Slot) : Color :=
  have := slot.fits
  ⟨frame.bytes[slot.start], frame.bytes[slot.start + 1], frame.bytes[slot.start + 2]⟩

/-- Store a colour in a slot. -/
def setSlice (frame : FrameBuffer) (slot : Slot) (color : Color) : FrameBuffer :=
  have := slot.fits
  ⟨((frame.bytes.set slot.start color.r).set (slot.start + 1) color.g).set (slot.start + 2) color.b⟩

/-- The colour of a point of the screen. -/
def pixel (frame : FrameBuffer) (x y : Nat) : Option Color := (slot? x y).map frame.slice

/-- Give a point of the screen a colour. -/
def setPixel (frame : FrameBuffer) (x y : Nat) (color : Color) : FrameBuffer :=
  match slot? x y with
  | some slot => frame.setSlice slot color
  | none => frame

/-- Give all points a colour, slot by slot. -/
def fill (frame : FrameBuffer) (color : Color) : FrameBuffer :=
  (List.finRange (160 * 144)).foldl (fun frame k => frame.setSlice (chunk k) color) frame

def blank : FrameBuffer := fill ⟨Vector.replicate _ 0⟩ .white

def toBytes (frame : FrameBuffer) : Array Byte := frame.bytes.toArray

/-- A picture has three bytes for each point of the screen. -/
theorem size_toBytes (frame : FrameBuffer) : frame.toBytes.size = 69120 := frame.bytes.size_toArray

/-! ## Slots -/

theorem slot?_of_inside {x y : Nat} (h : x < 160 ∧ y < 144) :
    slot? x y = some (chunk ⟨160 * y + x, by omega⟩) := by
  rw [slot?, dif_pos h]
  simp only [chunk, Option.some.injEq, Slot.mk.injEq]
  omega

theorem slot?_of_outside {x y : Nat} (h : ¬ (x < 160 ∧ y < 144)) : slot? x y = none := dif_neg h

/-- A slot has the colour that was stored there last. -/
theorem slice_setSlice (frame : FrameBuffer) (k k' : Fin (160 * 144)) (color : Color) :
    (frame.setSlice (chunk k) color).slice (chunk k') =
      if k' = k then color else frame.slice (chunk k') := by
  by_cases h : k' = k
  · subst h
    simp [slice, setSlice]
  · have hne : k'.val ≠ k.val := fun he => h (Fin.ext he)
    rw [if_neg h]
    simp only [slice, setSlice, chunk, Vector.getElem_set]
    -- the two slots have no byte in common
    simp (disch := omega) only [if_neg]

/-! ## Colours -/

/-- The colours of the points, row by row. -/
def colors (frame : FrameBuffer) : Vector Color (160 * 144) :=
  .ofFn fun k => frame.slice (chunk k)

theorem getElem_colors (frame : FrameBuffer) {k : Nat} (h : k < 160 * 144) :
    frame.colors[k] = frame.slice (chunk ⟨k, h⟩) := Vector.getElem_ofFn h

theorem colors_setSlice (frame : FrameBuffer) (k : Fin (160 * 144)) (color : Color) :
    (frame.setSlice (chunk k) color).colors = frame.colors.set k color := by
  refine Vector.ext fun i hi => ?_
  rw [getElem_colors, slice_setSlice, Vector.getElem_set, getElem_colors]
  simp only [Fin.ext_iff, eq_comm]

/-- The picture is no more than its colours. -/
theorem ext_colors {frame frame' : FrameBuffer} (h : frame.colors = frame'.colors) :
    frame = frame' := by
  obtain ⟨bytes⟩ := frame
  obtain ⟨bytes'⟩ := frame'
  congr 1
  refine Vector.ext fun i hi => ?_
  have hk : i / 3 < 160 * 144 := by omega
  have hcolor := congrArg (fun colors => colors[i / 3]) h
  simp only [getElem_colors, slice, chunk, Color.mk.injEq] at hcolor
  obtain ⟨hr, hg, hb⟩ := hcolor
  obtain hi | hi | hi : i = 3 * (i / 3) ∨ i = 3 * (i / 3) + 1 ∨ i = 3 * (i / 3) + 2 := by omega
  · simpa only [← hi] using hr
  · simpa only [← hi] using hg
  · simpa only [← hi] using hb

theorem colors_setPixel (frame : FrameBuffer) (x y : Nat) (color : Color) :
    (frame.setPixel x y color).colors =
      if h : x < 160 ∧ y < 144 then frame.colors.set (160 * y + x) color else frame.colors := by
  unfold setPixel
  by_cases h : x < 160 ∧ y < 144
  · rw [slot?_of_inside h, dif_pos h]
    exact colors_setSlice _ _ _
  · rw [slot?_of_outside h, dif_neg h]

/-- A loop over some slots stores its colour in each of them, and in no other. -/
theorem slice_foldl (color : Color) (ks : List (Fin (160 * 144))) (frame : FrameBuffer)
    (k : Fin (160 * 144)) :
    (ks.foldl (fun frame k => frame.setSlice (chunk k) color) frame).slice (chunk k) =
      if ks.contains k then color else frame.slice (chunk k) := by
  induction ks generalizing frame with
  | nil => simp
  | cons first rest ih =>
    rw [List.foldl_cons, ih, slice_setSlice]
    grind

theorem colors_fill (frame : FrameBuffer) (color : Color) :
    (frame.fill color).colors = Vector.replicate _ color := by
  refine Vector.ext fun i hi => ?_
  rw [getElem_colors, Vector.getElem_replicate, fill, slice_foldl,
    if_pos (List.contains_iff_mem.mpr (List.mem_finRange _))]

-- A frame is known by its colours, never by storing its 23040 of them one by one.
attribute [irreducible] fill

/-! ## Points -/

theorem pixel_eq (frame : FrameBuffer) (x y : Nat) :
    frame.pixel x y = if h : x < 160 ∧ y < 144 then some frame.colors[160 * y + x] else none := by
  unfold pixel
  by_cases h : x < 160 ∧ y < 144
  · rw [slot?_of_inside h, dif_pos h, getElem_colors]
    rfl
  · rw [slot?_of_outside h, dif_neg h]
    rfl

theorem pixel_eq_none_iff (frame : FrameBuffer) (x y : Nat) :
    frame.pixel x y = none ↔ 160 ≤ x ∨ 144 ≤ y := by
  rw [pixel_eq]
  split <;> simp <;> omega

theorem pixel_fill (frame : FrameBuffer) (color : Color) (x y : Nat) :
    (frame.fill color).pixel x y = if x < 160 ∧ y < 144 then some color else none := by
  simp only [pixel_eq, colors_fill, Vector.getElem_replicate]
  split <;> rfl

/-- Writing one point changes that point and no other. -/
theorem pixel_setPixel (frame : FrameBuffer) (x y x' y' : Nat) (color : Color) :
    (frame.setPixel x y color).pixel x' y' =
      if x' = x ∧ y' = y ∧ x < 160 ∧ y < 144 then some color else frame.pixel x' y' := by
  by_cases h : x < 160 ∧ y < 144
  · by_cases h' : x' < 160 ∧ y' < 144
    · simp only [pixel_eq, colors_setPixel, h, h', and_self, dite_true, and_true,
        Vector.getElem_set]
      have hoffset : 160 * y + x = 160 * y' + x' ↔ x' = x ∧ y' = y := by omega
      by_cases he : x' = x ∧ y' = y
      · simp [he]
      · simp [hoffset, he]
    · have hne : ¬ (x' = x ∧ y' = y ∧ x < 160 ∧ y < 144) := by
        rintro ⟨rfl, rfl, inside⟩
        exact h' inside
      simp [pixel_eq, h', hne]
  · simp [pixel_eq, colors_setPixel, h]

end FrameBuffer

end GameBoy
