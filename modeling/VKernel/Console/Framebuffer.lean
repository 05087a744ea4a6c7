import VKernel.Process.SharedWindow

/-!
# `VKernel.Console.Framebuffer`: text on a framebuffer

The text output of `console.cpp`: a surface of `width` by `height` pixels carries `cols` by `rows`
cells of 8 by 16 pixels, `fb_putc` draws a character at the cursor and moves it on, and a full
surface scrolls by one row of text. `putc_framebuffer_surface` does this for a surface that a
program describes.

All coordinates are `u32`, and so is the product in `fb.base + y * fb.stride`; only the column is
added to the pointer. A pixel is named by its index from the base. `written` keeps the pixels in
the order in which they were written, each with the coordinates that it was meant for.

The tab loop is the one loop whose end is not plain, so `putc` takes a number of rounds for it.
-/

set_option autoImplicit false

namespace VKernel.Console

open VKernel VKernel.Process

/-- `FONT_W`. -/
def FONT_W : Nat := 8

/-- `FONT_H`. -/
def FONT_H : Nat := 16

/-- A value in `u32`. -/
def wrap32 (n : Nat) : Nat := n % 2 ^ 32

/-- `n - 1` in `u32`. -/
def pred32 (n : Nat) : Nat := if n = 0 then 2 ^ 32 - 1 else n - 1

/-- A pixel that was written: column, scan line, and the index from the base. -/
structure Pixel where
  x : Nat
  y : Nat
  index : Nat
  deriving DecidableEq, Repr

/-- `fb_state`, without its pixel format, with the memory from `base` on. -/
structure FbState where
  width : Nat
  height : Nat
  stride : Nat
  cols : Nat
  rows : Nat
  col : Nat
  row : Nat
  fg : Nat
  bg : Nat
  pixels : Nat → Nat
  written : List Pixel

/-- `rgb_to_pixel`, for the format of a surface description. -/
def rgbToPixel (fmt : PixelFormat) (r g b : Nat) : Nat :=
  match fmt with
  | .rgbx8bpp => r ||| g <<< 8 ||| b <<< 16
  | .bgrx8bpp | .bitmask | .bltOnly => b ||| g <<< 8 ||| r <<< 16

namespace FbState

/-- `y * fb.stride`, where scan line `y` begins. -/
def line (fb : FbState) (y : Nat) : Nat := wrap32 (y * fb.stride)

/-- One store. -/
def store (fb : FbState) (x y index value : Nat) : FbState :=
  { fb with
    pixels := Function.update fb.pixels index value
    written := fb.written ++ [⟨x, y, index⟩] }

/-- `fb_scroll`: scan line by scan line the surface moves up by one row of text, and the last row
of text is cleared. -/
def scroll (fb : FbState) : FbState :=
  let keep := wrap32 (pred32 fb.rows * FONT_H)
  let all := wrap32 (fb.rows * FONT_H)
  let moved := (List.range keep).foldl (fun fb y =>
    (List.range fb.width).foldl (fun fb x =>
      fb.store x y (fb.line y + x) (fb.pixels (fb.line (wrap32 (y + FONT_H)) + x))) fb) fb
  (List.range' keep (all - keep)).foldl (fun fb y =>
    (List.range fb.width).foldl (fun fb x => fb.store x y (fb.line y + x) fb.bg) fb) moved

/-- `fb_advance`. -/
def advance (fb : FbState) : FbState :=
  let fb := { fb with col := wrap32 (fb.col + 1) }
  if fb.cols ≤ fb.col then
    let fb := { fb with col := 0, row := wrap32 (fb.row + 1) }
    if fb.rows ≤ fb.row then { fb.scroll with row := pred32 fb.rows } else fb
  else fb

end FbState

section Font

variable (font : Nat → Nat → UInt8)

namespace FbState

/-- `fb_draw_char`, with the glyphs of `k_font`. -/
def drawChar (fb : FbState) (col row : Nat) (c : UInt8) : FbState :=
  let glyphIdx := if 32 ≤ c.toNat ∧ c.toNat ≤ 127 then c.toNat - 32 else 0
  let px := wrap32 (col * FONT_W)
  let py := wrap32 (row * FONT_H)
  (List.range FONT_H).foldl (fun fb gy =>
    (List.range FONT_W).foldl (fun fb gx =>
      fb.store (px + gx) (wrap32 (py + gy)) (fb.line (wrap32 (py + gy)) + (px + gx))
        (if (font glyphIdx gy).toNat &&& (0x80 >>> gx) ≠ 0 then fb.fg else fb.bg)) fb) fb

/-- The loop of a tab: blanks up to column `next`. `none` when it is still running after the
given number of rounds. -/
def tabLoop (next : Nat) : Nat → FbState → Option FbState
  | 0, fb => if fb.col < next then none else some fb
  | n + 1, fb =>
    if fb.col < next then tabLoop next n (fb.drawChar font fb.col fb.row 0x20).advance
    else some fb

/-- `fb_putc`. The tab stop is `(fb.col + 8) & ~7u`. -/
def putc (fb : FbState) (rounds : Nat) (c : UInt8) : Option FbState :=
  if c = 0x0A then
    let fb := { fb with col := 0, row := wrap32 (fb.row + 1) }
    some (if fb.rows ≤ fb.row then { fb.scroll with row := pred32 fb.rows } else fb)
  else if c = 0x0D then some { fb with col := 0 }
  else if c = 0x09 then tabLoop font (wrap32 (fb.col + 8) / 8 * 8) rounds fb
  else some (fb.drawChar font fb.col fb.row c).advance

end FbState

/-- The surface that `putc_framebuffer_surface` builds from a description, over the memory
`pixels`, with the cursor moved inside. `none` when the description is refused or there is no
room for a cell. -/
def surfaceOf (fb : FramebufferInfo) (pixels : Nat → Nat) (column row : Nat) : Option FbState :=
  if fb.valid = 0 ∨ fb.base = 0 ∨ fb.width = 0 ∨ fb.height = 0 ∨ fb.stride < fb.width then none
  else
    let cols := fb.width / FONT_W
    let rows := fb.height / FONT_H
    if cols = 0 ∨ rows = 0 then none
    else
      some
        { width := fb.width, height := fb.height, stride := fb.stride, cols := cols, rows := rows
          col := if column < cols then column else cols - 1
          row := if row < rows then row else rows - 1
          fg := rgbToPixel fb.format 0xFF 0xFF 0xFF
          bg := rgbToPixel fb.format 0 0 0
          pixels := pixels, written := [] }

/-- `putc_framebuffer_surface`: the memory and the cursor that it leaves. -/
def putcFramebufferSurface (fb : FramebufferInfo) (pixels : Nat → Nat) (column row rounds : Nat)
    (c : UInt8) : Option ((Nat → Nat) × Nat × Nat) :=
  match surfaceOf fb pixels column row with
  | none => some (pixels, column, row)
  | some surface => (surface.putc font rounds c).map fun s => (s.pixels, s.col, s.row)

end Font

/-! ### What the output is for -/

/-- A surface with at least one cell and the cursor on it. -/
structure FbState.Ready (fb : FbState) : Prop where
  width : fb.width < 2 ^ 32
  height : fb.height < 2 ^ 32
  cols : fb.cols = fb.width / FONT_W
  rows : fb.rows = fb.height / FONT_H
  col : fb.col < fb.cols
  row : fb.row < fb.rows

/-- The cells that a character passes over, as column and row. -/
def FbState.passed (fb : FbState) (c : UInt8) : List (Nat × Nat) :=
  if c = 0x0A ∨ c = 0x0D then []
  else if c = 0x09 then
    (List.range' fb.col ((fb.col / 8 + 1) * 8 - fb.col)).map fun col => (col, fb.row)
  else [(fb.col, fb.row)]

/-- A character that leaves the last row. -/
def FbState.leavesSurface (fb : FbState) (c : UInt8) : Prop :=
  fb.row + 1 = fb.rows ∧ (c = 0x0A ∨ c ≠ 0x0D ∧ c ≠ 0x09 ∧ fb.col + 1 = fb.cols)

/-- A pixel of a cell. -/
def Pixel.InCell (w : Pixel) (cell : Nat × Nat) : Prop :=
  cell.1 * FONT_W ≤ w.x ∧ w.x < cell.1 * FONT_W + FONT_W ∧
    cell.2 * FONT_H ≤ w.y ∧ w.y < cell.2 * FONT_H + FONT_H

/-- A pixel of the text area, the scan lines of all rows of text. -/
def Pixel.InTextArea (w : Pixel) (fb : FbState) : Prop :=
  w.x < fb.width ∧ w.y < fb.rows * FONT_H

/-- What one character may do to a surface: the cursor stays on it, and only pixels of the cells
passed over change, or of the text area when the surface scrolls, each at its true index. -/
structure FbState.Printed (fb : FbState) (c : UInt8) (t : FbState) : Prop where
  col : t.col < t.cols
  row : t.row < t.rows
  pixels : ∃ new, t.written = fb.written ++ new ∧
    (∀ i, t.pixels i ≠ fb.pixels i → ∃ w ∈ new, w.index = i) ∧
    ∀ w ∈ new, ((∃ cell ∈ fb.passed c, w.InCell cell) ∨ fb.leavesSurface c ∧ w.InTextArea fb) ∧
      w.index = w.y * fb.stride + w.x

/-- A text is printed when `fb_putc` returns for each of its characters and does what it may. -/
def FbState.PrintsAll (font : Nat → Nat → UInt8) : FbState → List UInt8 → Prop
  | _, [] => True
  | fb, c :: cs => ∃ rounds t, fb.putc font rounds c = some t ∧ fb.Printed c t ∧
      t.PrintsAll font cs

/-- The characters that write at all. -/
def FbState.writes (fb : FbState) (c : UInt8) : Prop :=
  c ≠ 0x0D ∧ (c = 0x0A → fb.row + 1 = fb.rows)

/-- The condition on a character: a tab has its stop on the line, and what is written lies within
2 ^ 32 pixels of the base. -/
structure FbState.Fits (fb : FbState) (c : UInt8) : Prop where
  tab : c = 0x09 → (fb.col / 8 + 1) * 8 < fb.cols
  index : fb.writes c → (fb.row * FONT_H + (FONT_H - 1)) * fb.stride < 2 ^ 32

/-- The condition along a text. -/
def FbState.FitsAll (font : Nat → Nat → UInt8) : FbState → List UInt8 → Prop
  | _, [] => True
  | fb, c :: cs => fb.Fits c ∧ ∀ rounds t, fb.putc font rounds c = some t → t.FitsAll font cs

end VKernel.Console
