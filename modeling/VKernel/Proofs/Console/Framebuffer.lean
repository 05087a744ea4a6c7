import VKernel.Console.Framebuffer

/-!
# `VKernel.Proofs.Console.Framebuffer`: what a character does to a surface

`Wrote fb t new` says that `t` is `fb` after the stores of `new`. Drawing a cell and scrolling are
such steps with their lists of pixels (`cellPixels`, `scrollPixels`), by one lemma on loops of
stores (`Wrote.foldl`). The index of a pixel is the true one exactly when the product of its scan
line and the stride fits, and the last scan line of a cell decides for all of them.

A tab whose stop is behind the last column never gets there: the cursor wraps to column 0 first,
and the loop goes on (`tabLoop_endless`).
-/

set_option autoImplicit false

namespace VKernel.Proofs.Console

open VKernel VKernel.Process VKernel.Console

/-- `t` is `fb` after the stores of `new`, up to the cursor. -/
structure Painted (fb t : FbState) (new : List Pixel) : Prop where
  width : t.width = fb.width
  height : t.height = fb.height
  stride : t.stride = fb.stride
  cols : t.cols = fb.cols
  rows : t.rows = fb.rows
  written : t.written = fb.written ++ new
  changed : ∀ i, t.pixels i ≠ fb.pixels i → ∃ w ∈ new, w.index = i

/-- The same with the cursor where it was. -/
structure Wrote (fb t : FbState) (new : List Pixel) : Prop extends Painted fb t new where
  col : t.col = fb.col
  row : t.row = fb.row

/-- Moving the cursor paints nothing. -/
theorem painted_cursor (fb : FbState) (col row : Nat) :
    Painted fb { fb with col := col, row := row } [] :=
  ⟨rfl, rfl, rfl, rfl, rfl, (List.append_nil _).symm, fun _ h => absurd rfl h⟩

theorem Painted.trans {fb t u : FbState} {new more : List Pixel} (h : Painted fb t new)
    (h' : Painted t u more) : Painted fb u (new ++ more) where
  width := h'.width.trans h.width
  height := h'.height.trans h.height
  stride := h'.stride.trans h.stride
  cols := h'.cols.trans h.cols
  rows := h'.rows.trans h.rows
  written := by rw [h'.written, h.written, List.append_assoc]
  changed := by
    intro i hi
    by_cases hlast : u.pixels i = t.pixels i
    · obtain ⟨w, hw, hwi⟩ := h.changed i (hlast ▸ hi)
      exact ⟨w, List.mem_append_left _ hw, hwi⟩
    · obtain ⟨w, hw, hwi⟩ := h'.changed i hlast
      exact ⟨w, List.mem_append_right _ hw, hwi⟩

theorem Wrote.refl (fb : FbState) : Wrote fb fb [] :=
  ⟨painted_cursor fb fb.col fb.row, rfl, rfl⟩

theorem Wrote.trans {fb t u : FbState} {new more : List Pixel} (h : Wrote fb t new)
    (h' : Wrote t u more) : Wrote fb u (new ++ more) :=
  ⟨h.toPainted.trans h'.toPainted, h'.col.trans h.col, h'.row.trans h.row⟩

/-- A store writes one pixel. -/
theorem wrote_store (fb : FbState) (x y index value : Nat) :
    Wrote fb (fb.store x y index value) [⟨x, y, index⟩] := by
  refine ⟨⟨rfl, rfl, rfl, rfl, rfl, rfl, fun i hi => ⟨_, List.mem_singleton_self _, ?_⟩⟩, rfl, rfl⟩
  by_contra hne
  exact hi (Function.update_of_ne (Ne.symm hne) _ _)

/-- A loop whose rounds store pixels that depend on the geometry only. -/
theorem Wrote.foldl {α : Type} {fb : FbState} {f : FbState → α → FbState}
    {pixels : α → List Pixel}
    (h : ∀ t new a, Wrote fb t new → Wrote t (f t a) (pixels a)) (l : List α) :
    Wrote fb (l.foldl f fb) (l.flatMap pixels) := by
  have hrest : ∀ (l : List α) (t : FbState) (new : List Pixel), Wrote fb t new →
      Wrote fb (l.foldl f t) (new ++ l.flatMap pixels) := by
    intro l
    induction l with
    | nil =>
      intro t new ht
      rw [List.flatMap_nil, List.append_nil]
      exact ht
    | cons a l ih =>
      intro t new ht
      rw [List.foldl_cons, List.flatMap_cons, ← List.append_assoc]
      exact ih _ _ (ht.trans (h t new a ht))
  exact hrest l fb [] (.refl fb)

/-! ### The pixels of a cell and of the text area -/

/-- The stores to the first `n` pixels of a stretch of scan line `y` from column `x` on. -/
def linePixels (fb : FbState) (x y n : Nat) : List Pixel :=
  (List.range n).map fun k => ⟨x + k, y, fb.line y + (x + k)⟩

def cellPixels (fb : FbState) (col row : Nat) : List Pixel :=
  (List.range FONT_H).flatMap fun gy =>
    linePixels fb (wrap32 (col * FONT_W)) (wrap32 (wrap32 (row * FONT_H) + gy)) FONT_W

/-- The scan lines that `fb_scroll` copies, then those that it clears. -/
def scrollPixels (fb : FbState) : List Pixel :=
  let keep := wrap32 (pred32 fb.rows * FONT_H)
  let all := wrap32 (fb.rows * FONT_H)
  (List.range keep).flatMap (fun y => linePixels fb 0 y fb.width) ++
    (List.range' keep (all - keep)).flatMap fun y => linePixels fb 0 y fb.width

/-- A loop along a scan line. -/
theorem wrote_line {fb : FbState} {value : FbState → Nat → Nat} (x y n : Nat) :
    Wrote fb ((List.range n).foldl (fun fb k =>
      fb.store (x + k) y (fb.line y + (x + k)) (value fb k)) fb) (linePixels fb x y n) := by
  have hloop := @Wrote.foldl _ fb
    (fun fb k => fb.store (x + k) y (fb.line y + (x + k)) (value fb k))
    (fun k => [⟨x + k, y, fb.line y + (x + k)⟩])
    (fun t new k ht => by
      have hline : t.line y = fb.line y := by
        unfold FbState.line
        rw [ht.stride]
      rw [← hline]
      exact wrote_store t _ _ _ _) (List.range n)
  unfold linePixels
  rw [List.map_eq_flatMap]
  exact hloop

/-- The same from the first column on, as `fb_scroll` has it. -/
theorem wrote_scanLine {fb : FbState} {value : FbState → Nat → Nat} (y n : Nat) :
    Wrote fb ((List.range n).foldl (fun fb x => fb.store x y (fb.line y + x) (value fb x)) fb)
      (linePixels fb 0 y n) := by
  have hline := @wrote_line fb value 0 y n
  simp only [Nat.zero_add] at hline
  exact hline

/-- A character is drawn in its cell. -/
theorem wrote_drawChar (font : Nat → Nat → UInt8) (fb : FbState) (col row : Nat) (c : UInt8) :
    Wrote fb (fb.drawChar font col row c) (cellPixels fb col row) := by
  unfold FbState.drawChar cellPixels
  refine Wrote.foldl (fun t new gy ht => ?_) _
  have hline : linePixels fb (wrap32 (col * FONT_W)) (wrap32 (wrap32 (row * FONT_H) + gy)) FONT_W
      = linePixels t (wrap32 (col * FONT_W)) (wrap32 (wrap32 (row * FONT_H) + gy)) FONT_W := by
    unfold linePixels FbState.line
    rw [ht.stride]
  rw [hline]
  exact wrote_line _ _ _

/-- Scrolling writes the text area. -/
theorem wrote_scroll (fb : FbState) : Wrote fb fb.scroll (scrollPixels fb) := by
  have hsame : ∀ {t : FbState} {new : List Pixel} (y : Nat), Wrote fb t new →
      linePixels fb 0 y fb.width = linePixels t 0 y t.width := by
    intro t new y ht
    unfold linePixels FbState.line
    rw [ht.stride, ht.width]
  unfold FbState.scroll scrollPixels
  simp only
  -- First the lines that move up, then those that are cleared.
  have hmoved := @Wrote.foldl _ fb
    (fun fb y => (List.range fb.width).foldl (fun fb x =>
      fb.store x y (fb.line y + x) (fb.pixels (fb.line (wrap32 (y + FONT_H)) + x))) fb)
    (fun y => linePixels fb 0 y fb.width)
    (fun t new y ht => by
      rw [hsame y ht]
      exact wrote_scanLine y t.width)
    (List.range (wrap32 (pred32 fb.rows * FONT_H)))
  refine hmoved.trans ?_
  generalize (List.range (wrap32 (pred32 fb.rows * FONT_H))).foldl _ fb = moved
    at hmoved ⊢
  refine Wrote.foldl (fun t new y ht => ?_) _
  rw [hsame y (hmoved.trans ht)]
  exact wrote_scanLine y t.width

/-! ### Where the pixels are -/

/-- A number of 32 bits is kept. -/
theorem wrap32_of_lt {n : Nat} (h : n < 2 ^ 32) : wrap32 n = n := Nat.mod_eq_of_lt h

/-- The pixels of a line. -/
theorem mem_linePixels {fb : FbState} {x y n : Nat} {w : Pixel} :
    w ∈ linePixels fb x y n ↔ ∃ k < n, w = ⟨x + k, y, fb.line y + (x + k)⟩ := by
  unfold linePixels
  rw [List.mem_map]
  constructor
  · rintro ⟨k, hk, rfl⟩
    exact ⟨k, List.mem_range.mp hk, rfl⟩
  · rintro ⟨k, hk, rfl⟩
    exact ⟨k, List.mem_range.mpr hk, rfl⟩

section Surface

variable {fb : FbState} (h : fb.Ready)

include h

/-- The cells of a surface are within its width and height. -/
theorem cell_lt {col row : Nat} (hcol : col < fb.cols) (hrow : row < fb.rows) :
    col * FONT_W + FONT_W ≤ fb.width ∧ row * FONT_H + FONT_H ≤ fb.height := by
  have hw := Nat.div_mul_le_self fb.width FONT_W
  have hh := Nat.div_mul_le_self fb.height FONT_H
  rw [← h.cols] at hw
  rw [← h.rows] at hh
  unfold FONT_W at hw ⊢
  unfold FONT_H at hh ⊢
  omega

/-- The pixels of a cell, without the wraps that cannot happen. -/
theorem mem_cellPixels {col row : Nat} (hcol : col < fb.cols) (hrow : row < fb.rows) {w : Pixel} :
    w ∈ cellPixels fb col row ↔ ∃ gy < FONT_H, ∃ gx < FONT_W,
      w = ⟨col * FONT_W + gx, row * FONT_H + gy,
        wrap32 ((row * FONT_H + gy) * fb.stride) + (col * FONT_W + gx)⟩ := by
  obtain ⟨hx, hy⟩ := cell_lt h hcol hrow
  have hwidth := h.width
  have hheight := h.height
  have hpx : wrap32 (col * FONT_W) = col * FONT_W := wrap32_of_lt (by unfold FONT_W at *; omega)
  have hpy : wrap32 (row * FONT_H) = row * FONT_H := wrap32_of_lt (by unfold FONT_H at *; omega)
  have hline : ∀ gy < FONT_H, wrap32 (row * FONT_H + gy) = row * FONT_H + gy :=
    fun gy hgy => wrap32_of_lt (by omega)
  unfold cellPixels
  rw [List.mem_flatMap, hpx, hpy]
  constructor
  · rintro ⟨gy, hgy, hw⟩
    have hgy := List.mem_range.mp hgy
    rw [hline gy hgy] at hw
    obtain ⟨gx, hgx, rfl⟩ := mem_linePixels.mp hw
    exact ⟨gy, hgy, gx, hgx, rfl⟩
  · rintro ⟨gy, hgy, gx, hgx, rfl⟩
    refine ⟨gy, List.mem_range.mpr hgy, ?_⟩
    rw [hline gy hgy]
    exact mem_linePixels.mpr ⟨gx, hgx, rfl⟩

/-- Scrolling stores to every pixel of the text area. -/
theorem mem_scrollPixels {w : Pixel} :
    w ∈ scrollPixels fb ↔ ∃ y < fb.rows * FONT_H, ∃ x < fb.width,
      w = ⟨x, y, wrap32 (y * fb.stride) + x⟩ := by
  have hrow := h.row
  have hheight := h.height
  have hh := (cell_lt h h.col (Nat.sub_lt (Nat.zero_lt_of_lt hrow) Nat.one_pos)).2
  have hkeep : wrap32 (pred32 fb.rows * FONT_H) = (fb.rows - 1) * FONT_H := by
    rw [pred32, if_neg (by omega)]
    exact wrap32_of_lt (by unfold FONT_H at *; omega)
  have hall : wrap32 (fb.rows * FONT_H) = fb.rows * FONT_H :=
    wrap32_of_lt (by unfold FONT_H at *; omega)
  unfold scrollPixels
  rw [hkeep, hall, List.mem_append, List.mem_flatMap, List.mem_flatMap]
  constructor
  · rintro (⟨y, hy, hw⟩ | ⟨y, hy, hw⟩)
    · obtain ⟨x, hx, rfl⟩ := mem_linePixels.mp hw
      have hy := List.mem_range.mp hy
      rw [Nat.zero_add]
      exact ⟨y, by unfold FONT_H at *; omega, x, hx, rfl⟩
    · obtain ⟨x, hx, rfl⟩ := mem_linePixels.mp hw
      have hy := List.mem_range'_1.mp hy
      rw [Nat.zero_add]
      exact ⟨y, by unfold FONT_H at *; omega, x, hx, rfl⟩
  · rintro ⟨y, hy, x, hx, rfl⟩
    have hmem : (⟨x, y, wrap32 (y * fb.stride) + x⟩ : Pixel) ∈ linePixels fb 0 y fb.width :=
      mem_linePixels.mpr ⟨x, hx, by rw [Nat.zero_add]; rfl⟩
    by_cases hlow : y < (fb.rows - 1) * FONT_H
    · exact .inl ⟨y, List.mem_range.mpr hlow, hmem⟩
    · exact .inr ⟨y, List.mem_range'_1.mpr (by omega), hmem⟩

end Surface

/-- The index of a pixel is the true one when the product of its scan line fits. -/
theorem index_eq_iff {y x stride : Nat} :
    wrap32 (y * stride) + x = y * stride + x ↔ y * stride < 2 ^ 32 := by
  rw [Nat.add_right_cancel_iff]
  constructor
  · intro heq
    rw [← heq]
    exact Nat.mod_lt _ (Nat.two_pow_pos 32)
  · exact wrap32_of_lt

/-- The scan lines above one whose product fits. -/
theorem line_lt_of_le {y last stride : Nat} (hy : y ≤ last) (hlast : last * stride < 2 ^ 32) :
    y * stride < 2 ^ 32 :=
  Nat.lt_of_le_of_lt (Nat.mul_le_mul_right stride hy) hlast

/-! ### One character -/

/-- A surface stays one, as long as the cursor is on it. -/
theorem Painted.ready {fb t : FbState} {new : List Pixel} (h : fb.Ready) (ht : Painted fb t new)
    (hcol : t.col < fb.cols) (hrow : t.row < fb.rows) : t.Ready where
  width := ht.width ▸ h.width
  height := ht.height ▸ h.height
  cols := by rw [ht.cols, ht.width, h.cols]
  rows := by rw [ht.rows, ht.height, h.rows]
  col := ht.cols ▸ hcol
  row := ht.rows ▸ hrow

/-- The cells stay where they are. -/
theorem Painted.cellPixels_eq {fb t : FbState} {new : List Pixel} (ht : Painted fb t new)
    (col row : Nat) : cellPixels t col row = cellPixels fb col row := by
  unfold cellPixels linePixels FbState.line
  rw [ht.stride]

/-- So does the text area. -/
theorem Painted.scrollPixels_eq {fb t : FbState} {new : List Pixel} (ht : Painted fb t new) :
    scrollPixels t = scrollPixels fb := by
  unfold scrollPixels linePixels FbState.line
  rw [ht.stride, ht.rows, ht.width]

/-- The step to the next row of text, at the start of a line. -/
def nextRow (fb : FbState) : FbState :=
  let fb := { fb with col := 0, row := wrap32 (fb.row + 1) }
  if fb.rows ≤ fb.row then { fb.scroll with row := pred32 fb.rows } else fb

/-- The stores of `nextRow`. -/
def nextRowPixels (fb : FbState) : List Pixel :=
  if fb.row + 1 = fb.rows then scrollPixels fb else []

/-- A new row starts on the left. -/
theorem nextRow_spec {fb : FbState} (h : fb.Ready) :
    Painted fb (nextRow fb) (nextRowPixels fb) ∧ (nextRow fb).col = 0 ∧
      (nextRow fb).row < fb.rows := by
  have hrow := h.row
  have hheight := h.height
  have hrows := h.rows
  have hle := Nat.div_le_self fb.height FONT_H
  have hnext : wrap32 (fb.row + 1) = fb.row + 1 := wrap32_of_lt (by omega)
  have hback : pred32 fb.rows = fb.rows - 1 := by
    unfold pred32
    exact if_neg (by omega)
  unfold nextRow nextRowPixels
  simp only [hnext, hback]
  by_cases hlast : fb.row + 1 = fb.rows
  · -- The last row: the surface scrolls and the cursor stays on it.
    rw [if_pos hlast.ge, if_pos hlast]
    have hcursor := painted_cursor fb 0 (fb.row + 1)
    have hscroll := wrote_scroll { fb with col := 0, row := fb.row + 1 }
    rw [hcursor.scrollPixels_eq] at hscroll
    generalize FbState.scroll { fb with col := 0, row := fb.row + 1 } = u at hscroll ⊢
    have hmoved := hcursor.trans
      (hscroll.toPainted.trans (painted_cursor u u.col (fb.rows - 1)))
    rw [List.append_nil, List.nil_append] at hmoved
    exact ⟨hmoved, hscroll.col, by simp only; omega⟩
  · rw [if_neg (by omega), if_neg hlast]
    exact ⟨painted_cursor fb 0 (fb.row + 1), rfl, by simp only; omega⟩

/-- `fb_advance` moves to the next column, or to the next row from the last one. -/
theorem advance_eq {fb : FbState} (h : fb.Ready) :
    fb.advance = if fb.col + 1 = fb.cols then nextRow fb else { fb with col := fb.col + 1 } := by
  have hcol := h.col
  have hwidth := h.width
  have hcols := h.cols
  have hle := Nat.div_le_self fb.width FONT_W
  have hnext : wrap32 (fb.col + 1) = fb.col + 1 := wrap32_of_lt (by omega)
  unfold FbState.advance
  simp only [hnext]
  by_cases hlast : fb.col + 1 = fb.cols
  · rw [if_pos hlast.ge, if_pos hlast]
    rfl
  · rw [if_neg (by omega), if_neg hlast]

/-- A cell is drawn and the cursor moves on. -/
theorem drawAdvance_spec (font : Nat → Nat → UInt8) {fb : FbState} (h : fb.Ready) (c : UInt8) :
    Painted fb (fb.drawChar font fb.col fb.row c).advance
        (cellPixels fb fb.col fb.row ++
          if fb.col + 1 = fb.cols then nextRowPixels fb else []) ∧
      (fb.drawChar font fb.col fb.row c).advance.Ready ∧
      (fb.col + 1 < fb.cols →
        (fb.drawChar font fb.col fb.row c).advance.col = fb.col + 1 ∧
          (fb.drawChar font fb.col fb.row c).advance.row = fb.row) := by
  have hdraw := wrote_drawChar font fb fb.col fb.row c
  generalize fb.drawChar font fb.col fb.row c = t at hdraw ⊢
  have ht : t.Ready := hdraw.toPainted.ready h (hdraw.col ▸ h.col) (hdraw.row ▸ h.row)
  have hsame : t.col + 1 = t.cols ↔ fb.col + 1 = fb.cols := by rw [hdraw.col, hdraw.cols]
  rw [advance_eq ht]
  by_cases hlast : fb.col + 1 = fb.cols
  · rw [if_pos (hsame.mpr hlast), if_pos hlast]
    obtain ⟨hpaint, hcol, hrow⟩ := nextRow_spec ht
    have hpixels : nextRowPixels t = nextRowPixels fb := by
      unfold nextRowPixels
      rw [hdraw.row, hdraw.rows, hdraw.scrollPixels_eq]
    rw [hpixels] at hpaint
    have hready := hpaint.ready ht (by rw [hcol]; exact Nat.zero_lt_of_lt ht.col) hrow
    exact ⟨hdraw.toPainted.trans hpaint, hready, fun hlt => absurd hlast (by omega)⟩
  · rw [if_neg (fun hcol => hlast (hsame.mp hcol)), if_neg hlast]
    have hcol := h.col
    have hpaint := hdraw.toPainted.trans (painted_cursor t (t.col + 1) t.row)
    refine ⟨hpaint, hpaint.ready h ?_ ?_, fun _ => ⟨congrArg (· + 1) hdraw.col, hdraw.row⟩⟩
    · show t.col + 1 < fb.cols
      rw [hdraw.col]
      omega
    · show t.row < fb.rows
      rw [hdraw.row]
      exact h.row

/-! ### The tab -/

/-- A tab with its stop on the line. -/
theorem tabLoop_returns (font : Nat → Nat → UInt8) {next : Nat} :
    ∀ (n : Nat) {fb : FbState}, fb.Ready → next < fb.cols → next - fb.col ≤ n →
      ∃ t, FbState.tabLoop font next n fb = some t ∧
        Painted fb t ((List.range' fb.col (next - fb.col)).flatMap fun col =>
          cellPixels fb col fb.row) ∧ t.Ready := by
  intro n
  induction n with
  | zero =>
    intro fb h _ hle
    have hdone : next - fb.col = 0 := Nat.le_zero.mp hle
    refine ⟨fb, ?_, ?_, h⟩
    · unfold FbState.tabLoop
      rw [if_neg (by omega)]
    · rw [hdone]
      exact painted_cursor fb fb.col fb.row
  | succ n ih =>
    intro fb h hnext hle
    unfold FbState.tabLoop
    by_cases hmore : fb.col < next
    · rw [if_pos hmore]
      obtain ⟨hpaint, hready, hcursor⟩ := drawAdvance_spec font h 0x20
      obtain ⟨hcol, hrow⟩ := hcursor (by omega)
      rw [if_neg (by omega), List.append_nil] at hpaint
      generalize (fb.drawChar font fb.col fb.row 0x20).advance = t at hpaint hready hcol hrow ⊢
      obtain ⟨u, hu, hrest, hu'⟩ := ih hready (hpaint.cols ▸ hnext) (by omega)
      refine ⟨u, hu, ?_, hu'⟩
      have hcells : (List.range' fb.col (next - fb.col)).flatMap
            (fun col => cellPixels fb col fb.row)
          = cellPixels fb fb.col fb.row ++ (List.range' t.col (next - t.col)).flatMap
            (fun col => cellPixels t col t.row) := by
        rw [show next - fb.col = next - t.col + 1 by omega, List.range'_succ, List.flatMap_cons,
          hcol, hrow]
        simp only [hpaint.cellPixels_eq]
      rw [hcells]
      exact hpaint.trans hrest
    · rw [if_neg hmore]
      refine ⟨fb, rfl, ?_, h⟩
      rw [show next - fb.col = 0 by omega]
      exact painted_cursor fb fb.col fb.row

/-- A tab whose stop is not on the line: the cursor never reaches it. -/
theorem tabLoop_endless (font : Nat → Nat → UInt8) {next : Nat} :
    ∀ (n : Nat) {fb : FbState}, fb.Ready → fb.cols ≤ next →
      FbState.tabLoop font next n fb = none := by
  intro n
  induction n with
  | zero =>
    intro fb h hnext
    unfold FbState.tabLoop
    exact if_pos (Nat.lt_of_lt_of_le h.col hnext)
  | succ n ih =>
    intro fb h hnext
    unfold FbState.tabLoop
    rw [if_pos (Nat.lt_of_lt_of_le h.col hnext)]
    obtain ⟨hpaint, hready, -⟩ := drawAdvance_spec font h 0x20
    exact ih hready (hpaint.cols ▸ hnext)

/-- The number of rounds does not matter. -/
theorem tabLoop_unique (font : Nat → Nat → UInt8) {next : Nat} :
    ∀ {n m : Nat} {fb t u : FbState}, FbState.tabLoop font next n fb = some t →
      FbState.tabLoop font next m fb = some u → t = u := by
  intro n
  induction n with
  | zero =>
    intro m fb t u ht hu
    unfold FbState.tabLoop at ht
    split at ht
    · exact absurd ht.symm (Option.some_ne_none t)
    · rename_i hdone
      cases m with
      | zero =>
        rw [FbState.tabLoop, if_neg hdone] at hu
        exact (Option.some.inj ht).symm.trans (Option.some.inj hu)
      | succ m =>
        rw [FbState.tabLoop, if_neg hdone] at hu
        exact (Option.some.inj ht).symm.trans (Option.some.inj hu)
  | succ n ih =>
    intro m fb t u ht hu
    unfold FbState.tabLoop at ht
    split at ht
    · rename_i hmore
      cases m with
      | zero =>
        rw [FbState.tabLoop, if_pos hmore] at hu
        exact absurd hu.symm (Option.some_ne_none u)
      | succ m =>
        rw [FbState.tabLoop, if_pos hmore] at hu
        exact ih ht hu
    · rename_i hdone
      cases m with
      | zero =>
        rw [FbState.tabLoop, if_neg hdone] at hu
        exact (Option.some.inj ht).symm.trans (Option.some.inj hu)
      | succ m =>
        rw [FbState.tabLoop, if_neg hdone] at hu
        exact (Option.some.inj ht).symm.trans (Option.some.inj hu)

/-- The four kinds of characters. -/
theorem putc_newline (font : Nat → Nat → UInt8) (fb : FbState) (n : Nat) :
    fb.putc font n 0x0A = some (nextRow fb) := by
  unfold FbState.putc
  exact if_pos rfl

/-- A carriage return. -/
theorem putc_return (font : Nat → Nat → UInt8) (fb : FbState) (n : Nat) :
    fb.putc font n 0x0D = some { fb with col := 0 } := by
  unfold FbState.putc
  rw [if_neg (by decide), if_pos rfl]

/-- A tab. -/
theorem putc_tab (font : Nat → Nat → UInt8) {fb : FbState} (h : fb.Ready) (n : Nat) :
    fb.putc font n 0x09 = FbState.tabLoop font ((fb.col / 8 + 1) * 8) n fb := by
  have hcol := h.col
  have hwidth := h.width
  have hcols := h.cols
  unfold FONT_W at hcols
  have hstop : wrap32 (fb.col + 8) / 8 * 8 = (fb.col / 8 + 1) * 8 := by
    rw [wrap32_of_lt (by omega)]
    omega
  unfold FbState.putc
  rw [if_neg (by decide), if_neg (by decide), if_pos rfl, hstop]

/-- A character that is drawn. -/
theorem putc_other (font : Nat → Nat → UInt8) (fb : FbState) (n : Nat) {c : UInt8}
    (hnl : c ≠ 0x0A) (hcr : c ≠ 0x0D) (htab : c ≠ 0x09) :
    fb.putc font n c = some (fb.drawChar font fb.col fb.row c).advance := by
  unfold FbState.putc
  rw [if_neg hnl, if_neg hcr, if_neg htab]

/-- A character that returns does so with one result. -/
theorem putc_unique (font : Nat → Nat → UInt8) {fb t u : FbState} (h : fb.Ready) {n m : Nat}
    {c : UInt8} (ht : fb.putc font n c = some t) (hu : fb.putc font m c = some u) : t = u := by
  by_cases htab : c = 0x09
  · subst htab
    rw [putc_tab font h] at ht hu
    exact tabLoop_unique font ht hu
  · by_cases hnl : c = 0x0A
    · subst hnl
      rw [putc_newline] at ht hu
      exact Option.some.inj (ht.symm.trans hu)
    · by_cases hcr : c = 0x0D
      · subst hcr
        rw [putc_return] at ht hu
        exact Option.some.inj (ht.symm.trans hu)
      · rw [putc_other font fb _ hnl hcr htab] at ht hu
        exact Option.some.inj (ht.symm.trans hu)

/-! ### What a character writes -/

/-- The stores of a character that returns. -/
def charPixels (fb : FbState) (c : UInt8) : List Pixel :=
  if c = 0x0A then nextRowPixels fb
  else if c = 0x0D then []
  else if c = 0x09 then
    (List.range' fb.col ((fb.col / 8 + 1) * 8 - fb.col)).flatMap fun col => cellPixels fb col fb.row
  else cellPixels fb fb.col fb.row ++ if fb.col + 1 = fb.cols then nextRowPixels fb else []

/-- A character returns, unless it is a tab whose stop is not on the line. -/
theorem putc_returns (font : Nat → Nat → UInt8) {fb : FbState} (h : fb.Ready) {c : UInt8}
    (htab : c = 0x09 → (fb.col / 8 + 1) * 8 < fb.cols) :
    ∃ rounds t, fb.putc font rounds c = some t ∧ Painted fb t (charPixels fb c) ∧ t.Ready := by
  unfold charPixels
  by_cases hnl : c = 0x0A
  · subst hnl
    rw [if_pos rfl]
    obtain ⟨hpaint, hcol, hrow⟩ := nextRow_spec h
    exact ⟨0, nextRow fb, putc_newline font fb 0, hpaint,
      hpaint.ready h (by rw [hcol]; exact Nat.zero_lt_of_lt h.col) hrow⟩
  · rw [if_neg hnl]
    by_cases hcr : c = 0x0D
    · subst hcr
      rw [if_pos rfl]
      have hpaint := painted_cursor fb 0 fb.row
      exact ⟨0, _, putc_return font fb 0, hpaint,
        hpaint.ready h (Nat.zero_lt_of_lt h.col) h.row⟩
    · rw [if_neg hcr]
      by_cases ht : c = 0x09
      · subst ht
        rw [if_pos rfl]
        obtain ⟨t, hloop, hpaint, hready⟩ := tabLoop_returns font _ h (htab rfl) (Nat.le_refl _)
        exact ⟨_, t, (putc_tab font h _).trans hloop, hpaint, hready⟩
      · rw [if_neg ht]
        obtain ⟨hpaint, hready, -⟩ := drawAdvance_spec font h c
        exact ⟨0, _, putc_other font fb 0 hnl hcr ht, hpaint, hready⟩

/-- A tab whose stop is not on the line does not return. -/
theorem putc_endless (font : Nat → Nat → UInt8) {fb : FbState} (h : fb.Ready)
    (hstop : fb.cols ≤ (fb.col / 8 + 1) * 8) (rounds : Nat) :
    fb.putc font rounds 0x09 = none :=
  (putc_tab font h rounds).trans (tabLoop_endless font rounds h hstop)

/-- Every character writes where it may. -/
theorem charPixels_scope {fb : FbState} (h : fb.Ready) {c : UInt8}
    (htab : c = 0x09 → (fb.col / 8 + 1) * 8 < fb.cols) {w : Pixel} (hw : w ∈ charPixels fb c) :
    (∃ cell ∈ fb.passed c, w.InCell cell) ∨ fb.leavesSurface c ∧ w.InTextArea fb := by
  have hcell : ∀ {col : Nat}, col < fb.cols → w ∈ cellPixels fb col fb.row →
      w.InCell (col, fb.row) := by
    intro col hcol hmem
    obtain ⟨gy, hgy, gx, hgx, rfl⟩ := (mem_cellPixels h hcol h.row).mp hmem
    exact ⟨Nat.le_add_right _ _, Nat.add_lt_add_left hgx _, Nat.le_add_right _ _,
      Nat.add_lt_add_left hgy _⟩
  have hrow : w ∈ nextRowPixels fb → fb.row + 1 = fb.rows ∧ w.InTextArea fb := by
    intro hmem
    unfold nextRowPixels at hmem
    split at hmem
    · rename_i hlast
      obtain ⟨y, hy, x, hx, rfl⟩ := (mem_scrollPixels h).mp hmem
      exact ⟨hlast, hx, hy⟩
    · exact absurd hmem List.not_mem_nil
  unfold charPixels at hw
  unfold FbState.passed FbState.leavesSurface
  by_cases hnl : c = 0x0A
  · rw [if_pos hnl] at hw
    obtain ⟨hlast, harea⟩ := hrow hw
    exact .inr ⟨⟨hlast, .inl hnl⟩, harea⟩
  · rw [if_neg hnl] at hw
    by_cases hcr : c = 0x0D
    · rw [if_pos hcr] at hw
      exact absurd hw List.not_mem_nil
    · rw [if_neg hcr] at hw
      rw [if_neg (not_or.mpr ⟨hnl, hcr⟩)]
      by_cases ht : c = 0x09
      · rw [if_pos ht] at hw ⊢
        obtain ⟨col, hcol, hmem⟩ := List.mem_flatMap.mp hw
        have hlt := (List.mem_range'_1.mp hcol).2
        have hstop := htab ht
        exact .inl ⟨(col, fb.row), List.mem_map.mpr ⟨col, hcol, rfl⟩, hcell (by omega) hmem⟩
      · rw [if_neg ht] at hw ⊢
        rcases List.mem_append.mp hw with hmem | hmem
        · exact .inl ⟨_, List.mem_singleton_self _, hcell h.col hmem⟩
        · split at hmem
          · rename_i hend
            obtain ⟨hlast, harea⟩ := hrow hmem
            exact .inr ⟨⟨hlast, .inr ⟨hcr, ht, hend⟩⟩, harea⟩
          · exact absurd hmem List.not_mem_nil

/-- The indices are the true ones exactly when the last scan line of the cursor's row fits. -/
theorem charPixels_index {fb : FbState} (h : fb.Ready) {c : UInt8}
    (htab : c = 0x09 → (fb.col / 8 + 1) * 8 < fb.cols) :
    (∀ w ∈ charPixels fb c, w.index = w.y * fb.stride + w.x) ↔
      (fb.writes c → (fb.row * FONT_H + (FONT_H - 1)) * fb.stride < 2 ^ 32) := by
  have hlast : FONT_H - 1 < FONT_H := by decide
  constructor
  · -- The pixel at the start of the last scan line decides.
    intro hall hwrites
    by_cases hnl : c = 0x0A
    · have hrow := hwrites.2 hnl
      have hy : fb.row * FONT_H + (FONT_H - 1) < fb.rows * FONT_H := by
        rw [← hrow, Nat.add_mul, Nat.one_mul]
        exact Nat.add_lt_add_left hlast _
      have hx : 0 < fb.width := by
        have hcell := (cell_lt h h.col h.row).1
        unfold FONT_W at hcell
        omega
      have hmem : (⟨0, fb.row * FONT_H + (FONT_H - 1),
          wrap32 ((fb.row * FONT_H + (FONT_H - 1)) * fb.stride) + 0⟩ : Pixel) ∈
            charPixels fb c := by
        unfold charPixels nextRowPixels
        rw [if_pos hnl, if_pos hrow]
        exact (mem_scrollPixels h).mpr ⟨_, hy, 0, hx, rfl⟩
      exact index_eq_iff.mp (hall _ hmem)
    · have hcell : (⟨fb.col * FONT_W + 0, fb.row * FONT_H + (FONT_H - 1),
          wrap32 ((fb.row * FONT_H + (FONT_H - 1)) * fb.stride) + (fb.col * FONT_W + 0)⟩ : Pixel)
          ∈ cellPixels fb fb.col fb.row :=
        (mem_cellPixels h h.col h.row).mpr ⟨FONT_H - 1, hlast, 0, by decide, rfl⟩
      have hmem : (⟨fb.col * FONT_W + 0, fb.row * FONT_H + (FONT_H - 1),
          wrap32 ((fb.row * FONT_H + (FONT_H - 1)) * fb.stride) + (fb.col * FONT_W + 0)⟩ : Pixel)
          ∈ charPixels fb c := by
        unfold charPixels
        rw [if_neg hnl, if_neg hwrites.1]
        split
        · refine List.mem_flatMap.mpr ⟨fb.col, List.mem_range'_1.mpr ⟨Nat.le_refl _, ?_⟩, hcell⟩
          omega
        · exact List.mem_append_left _ hcell
      exact index_eq_iff.mp (hall _ hmem)
  · intro hfits w hw
    have hcell : fb.writes c → ∀ {col : Nat}, col < fb.cols → w ∈ cellPixels fb col fb.row →
        w.index = w.y * fb.stride + w.x := by
      intro hwrites col hcol hmem
      obtain ⟨gy, hgy, gx, hgx, rfl⟩ := (mem_cellPixels h hcol h.row).mp hmem
      exact index_eq_iff.mpr (line_lt_of_le (by omega) (hfits hwrites))
    have hrow : (fb.row + 1 = fb.rows → fb.writes c) → w ∈ nextRowPixels fb →
        w.index = w.y * fb.stride + w.x := by
      intro hwrites hmem
      unfold nextRowPixels at hmem
      split at hmem
      · rename_i hend
        obtain ⟨y, hy, x, hx, rfl⟩ := (mem_scrollPixels h).mp hmem
        have hle : y ≤ fb.row * FONT_H + (FONT_H - 1) := by
          rw [← hend, Nat.add_mul, Nat.one_mul] at hy
          omega
        exact index_eq_iff.mpr (line_lt_of_le hle (hfits (hwrites hend)))
      · exact absurd hmem List.not_mem_nil
    unfold charPixels at hw
    by_cases hnl : c = 0x0A
    · rw [if_pos hnl] at hw
      exact hrow (fun hend => ⟨by rw [hnl]; decide, fun _ => hend⟩) hw
    · rw [if_neg hnl] at hw
      by_cases hcr : c = 0x0D
      · rw [if_pos hcr] at hw
        exact absurd hw List.not_mem_nil
      · rw [if_neg hcr] at hw
        have hwrites : fb.writes c := ⟨hcr, fun h' => absurd h' hnl⟩
        by_cases ht : c = 0x09
        · rw [if_pos ht] at hw
          obtain ⟨col, hcol, hmem⟩ := List.mem_flatMap.mp hw
          have hlt := (List.mem_range'_1.mp hcol).2
          have hstop := htab ht
          exact hcell hwrites (by omega) hmem
        · rw [if_neg ht] at hw
          rcases List.mem_append.mp hw with hmem | hmem
          · exact hcell hwrites h.col hmem
          · split at hmem
            · exact hrow (fun _ => hwrites) hmem
            · exact absurd hmem List.not_mem_nil

/-! ### Every text -/

/-- A character does what it may exactly when it fits. -/
theorem printed_iff (font : Nat → Nat → UInt8) {fb : FbState} (h : fb.Ready) (c : UInt8) :
    (∃ rounds t, fb.putc font rounds c = some t ∧ fb.Printed c t) ↔ fb.Fits c := by
  constructor
  · rintro ⟨rounds, t, ht, hprinted⟩
    have htab : c = 0x09 → (fb.col / 8 + 1) * 8 < fb.cols := by
      rintro rfl
      by_contra hstop
      rw [putc_endless font h (Nat.not_lt.mp hstop)] at ht
      exact Option.some_ne_none t ht.symm
    refine ⟨htab, (charPixels_index h htab).mp ?_⟩
    obtain ⟨n, u, hu, hpaint, -⟩ := putc_returns font h htab
    obtain rfl := putc_unique font h ht hu
    obtain ⟨new, hnew, -, hscope⟩ := hprinted.pixels
    have heq : new = charPixels fb c := List.append_cancel_left (hnew.symm.trans hpaint.written)
    exact fun w hw => (hscope w (heq ▸ hw)).2
  · intro hfits
    obtain ⟨rounds, t, ht, hpaint, hready⟩ := putc_returns font h hfits.tab
    refine ⟨rounds, t, ht, hready.col, hready.row, charPixels fb c, hpaint.written,
      hpaint.changed, fun w hw => ⟨charPixels_scope h hfits.tab hw, ?_⟩⟩
    exact (charPixels_index h hfits.tab).mpr hfits.index w hw

/-- `putc_framebuffer_surface` moves the cursor onto the surface. -/
theorem surfaceOf_ready {fb : FramebufferInfo} (hwidth : fb.width < 2 ^ 32)
    (hheight : fb.height < 2 ^ 32) {pixels : Nat → Nat} {column row : Nat} {surface : FbState}
    (h : surfaceOf fb pixels column row = some surface) : surface.Ready := by
  unfold surfaceOf at h
  split at h
  · exact absurd h.symm (Option.some_ne_none surface)
  · simp only at h
    split at h
    · exact absurd h.symm (Option.some_ne_none surface)
    · rename_i hroom
      obtain rfl := Option.some.inj h
      obtain ⟨hcols, hrows⟩ := not_or.mp hroom
      refine ⟨hwidth, hheight, rfl, rfl, ?_, ?_⟩
      · simp only
        split
        · assumption
        · exact Nat.sub_lt (Nat.pos_of_ne_zero hcols) Nat.one_pos
      · simp only
        split
        · assumption
        · exact Nat.sub_lt (Nat.pos_of_ne_zero hrows) Nat.one_pos

/-- So a call with a cursor anywhere returns, unless it is a tab behind the last stop. -/
theorem putcFramebufferSurface_returns (font : Nat → Nat → UInt8) {fb : FramebufferInfo}
    (hwidth : fb.width < 2 ^ 32) (hheight : fb.height < 2 ^ 32) {pixels : Nat → Nat}
    {column row : Nat} {surface : FbState} (h : surfaceOf fb pixels column row = some surface)
    (c : UInt8) :
    (∃ rounds out, putcFramebufferSurface font fb pixels column row rounds c = some out) ↔
      (c = 0x09 → (surface.col / 8 + 1) * 8 < surface.cols) := by
  have hready := surfaceOf_ready hwidth hheight h
  unfold putcFramebufferSurface
  rw [h]
  constructor
  · rintro ⟨rounds, out, hout⟩ rfl
    by_contra hstop
    simp only [putc_endless font hready (Nat.not_lt.mp hstop), Option.map_none] at hout
    exact Option.some_ne_none out hout.symm
  · intro htab
    obtain ⟨rounds, t, ht, -, -⟩ := putc_returns font hready htab
    exact ⟨rounds, (t.pixels, t.col, t.row), by simp only [ht, Option.map_some]⟩

/-- A text is printed as it should be exactly when each of its characters fits when its turn
comes. -/
theorem printsAll_iff (font : Nat → Nat → UInt8) (text : List UInt8) {fb : FbState}
    (h : fb.Ready) : fb.PrintsAll font text ↔ fb.FitsAll font text := by
  induction text generalizing fb with
  | nil => exact Iff.rfl
  | cons c cs ih =>
    have hready : ∀ {rounds t}, fb.putc font rounds c = some t → fb.Fits c → t.Ready := by
      intro rounds t ht hfits
      obtain ⟨n, u, hu, -, hu'⟩ := putc_returns font h hfits.tab
      exact putc_unique font h hu ht ▸ hu'
    constructor
    · rintro ⟨rounds, t, ht, hprinted, hrest⟩
      have hfits := (printed_iff font h c).mp ⟨rounds, t, ht, hprinted⟩
      refine ⟨hfits, fun n u hu => ?_⟩
      obtain rfl := putc_unique font h ht hu
      exact (ih (hready ht hfits)).mp hrest
    · rintro ⟨hfits, hrest⟩
      obtain ⟨rounds, t, ht, hprinted⟩ := (printed_iff font h c).mpr hfits
      exact ⟨rounds, t, ht, hprinted, (ih (hready ht hfits)).mpr (hrest rounds t ht)⟩

/-- On a surface with one row that is not too wide every text without tabs fits. By induction on
the text. -/
theorem fitsAll_oneRow (font : Nat → Nat → UInt8) {text : List UInt8} (htext : 0x09 ∉ text)
    {fb : FbState} (h : fb.Ready) (hrows : fb.rows = 1)
    (hstride : (FONT_H - 1) * fb.stride < 2 ^ 32) : fb.FitsAll font text := by
  induction text generalizing fb with
  | nil => exact trivial
  | cons c cs ih =>
    obtain ⟨hc, hcs⟩ := not_or.mp (mt List.mem_cons.mpr htext)
    have htab : c = 0x09 → (fb.col / 8 + 1) * 8 < fb.cols := fun heq => absurd heq.symm hc
    have hrow : fb.row = 0 := Nat.lt_one_iff.mp (hrows ▸ h.row)
    refine ⟨⟨htab, fun _ => ?_⟩, fun n t ht => ?_⟩
    · rwa [hrow, Nat.zero_mul, Nat.zero_add]
    · obtain ⟨m, u, hu, hpaint, hready⟩ := putc_returns font h htab
      obtain rfl := putc_unique font h hu ht
      exact ih hcs hready (hpaint.rows.trans hrows) (by rwa [hpaint.stride])

/-- A surface with one row of ten cells. -/
def tenCells : FbState :=
  { width := 80, height := 16, stride := 80, cols := 10, rows := 1, col := 0, row := 0
    fg := 0xFFFFFF, bg := 0, pixels := fun _ => 0, written := [] }

theorem tenCells_ready : tenCells.Ready := by
  constructor <;> decide

/-- A tab, two letters up to the end of the line, where the row is scrolled away, and a third. -/
theorem printsAll_iff_scrolled :
    tenCells.PrintsAll (fun _ _ => 0x18) [0x09, 0x41, 0x42, 0x43] := by
  refine (printsAll_iff (fun _ _ => 0x18) [0x09, 0x41, 0x42, 0x43] tenCells_ready).mpr
    ⟨⟨fun _ => by decide, fun _ => by decide⟩, fun n t ht => ?_⟩
  obtain ⟨m, u, hu, hpaint, hready⟩ := putc_returns (fun _ _ => 0x18) tenCells_ready
    (c := 0x09) fun _ => by decide
  obtain rfl := putc_unique _ tenCells_ready hu ht
  exact fitsAll_oneRow _ (by decide) hready hpaint.rows (by rw [hpaint.stride]; decide)

/-- A surface with one row of eight cells. -/
def oneLine : FbState :=
  { width := 64, height := 16, stride := 64, cols := 8, rows := 1, col := 0, row := 0
    fg := 0xFFFFFF, bg := 0, pixels := fun _ => 0, written := [] }

theorem oneLine_ready : oneLine.Ready := by
  constructor <;> decide

/-- A tab at the start of the line has its stop at column 8, which the cursor never reaches. -/
theorem tab_never_returns : ¬ oneLine.PrintsAll (fun _ _ => 0) [0x09] := by
  rintro ⟨rounds, t, ht, -, -⟩
  rw [putc_endless _ oneLine_ready (by decide)] at ht
  exact Option.some_ne_none t ht.symm

end VKernel.Proofs.Console
