import RustyOs.Window

/-!
The text screen (`src/vga_buffer.rs`).

The writer writes to the last row of a buffer of 25 rows; a new line copies every row to the
one above it and clears the last. Without the limit, this is a list of rows that only grows at
its end: what was written stays, and the buffer shows the last 25 rows of it.

An access out of the bounds of the buffer would panic; here it gives nothing.
-/

namespace RustyOs.VgaBuffer

open RustyOs.Window

abbrev bufferHeight : ℕ := 25
abbrev bufferWidth : ℕ := 80

abbrev ColourCode := UInt8

structure ScreenChar where
  asciiChar : UInt8
  colourCode : ColourCode
  deriving DecidableEq

abbrev Row := Fin bufferWidth → ScreenChar

structure Buffer where
  chars : Fin bufferHeight → Row

namespace Buffer

variable (b : Buffer)

/-- `chars[row][col].read()`. -/
def read (row col : ℕ) : Option ScreenChar :=
  if hr : row < bufferHeight then
    if hc : col < bufferWidth then some (b.chars ⟨row, hr⟩ ⟨col, hc⟩) else none
  else none

/-- `chars[row][col].write(char)`. -/
def write (row col : ℕ) (char : ScreenChar) : Option Buffer :=
  if row < bufferHeight ∧ col < bufferWidth then
    some ⟨fun r c => if r.val = row ∧ c.val = col then char else b.chars r c⟩
  else none

end Buffer

structure Writer where
  columnPosition : ℕ
  colourCode : ColourCode
  buffer : Buffer

def newLineByte : UInt8 := 0x0A
def space : UInt8 := 0x20

namespace Writer

variable (w : Writer)

def blank : ScreenChar := ⟨space, w.colourCode⟩

def clearRow (row : ℕ) : Option Writer := do
  let buffer ← (List.range' 0 bufferWidth).foldlM (fun b col => b.write row col w.blank) w.buffer
  some { w with buffer := buffer }

/-- The inner loop of `new_line`. -/
def copyRow (b : Buffer) (row : ℕ) : Option Buffer :=
  (List.range' 0 bufferWidth).foldlM (fun b col => do
    let char ← b.read row col
    b.write (row - 1) col char) b

def newLine : Option Writer := do
  let buffer ← (List.range' 1 (bufferHeight - 1)).foldlM copyRow w.buffer
  let w ← clearRow { w with buffer := buffer } (bufferHeight - 1)
  some { w with columnPosition := 0 }

def writeByte (byte : UInt8) : Option Writer :=
  if byte = newLineByte then w.newLine
  else do
    let w ← if bufferWidth ≤ w.columnPosition then w.newLine else some w
    let buffer ← w.buffer.write (bufferHeight - 1) w.columnPosition ⟨byte, w.colourCode⟩
    some { w with buffer := buffer, columnPosition := w.columnPosition + 1 }

/-- What `write_string` writes for a byte: itself if it can be printed, or a block. -/
def printed (byte : UInt8) : UInt8 :=
  if (0x20 ≤ byte ∧ byte ≤ 0x7e) ∨ byte = newLineByte then byte else 0xfe

/-- `s.bytes()`. -/
def bytes (s : String) : List UInt8 := s.toUTF8.data.toList

def writeString (s : String) : Option Writer :=
  (bytes s).foldlM (fun w byte => w.writeByte (printed byte)) w

end Writer

/-! ### The screen without a limit -/

/-- All rows so far, the last one apart, and the column of the next character. -/
structure Scrollback where
  above : List Row
  last : Row
  column : ℕ

namespace Scrollback

def rows (s : Scrollback) : List Row := s.above ++ [s.last]

def newLine (colour : ColourCode) (s : Scrollback) : Scrollback :=
  ⟨s.above ++ [s.last], fun _ => ⟨space, colour⟩, 0⟩

/-- A character at the current column of the last row. -/
def put (char : ScreenChar) (s : Scrollback) : Scrollback :=
  ⟨s.above, fun c => if c.val = s.column then char else s.last c, s.column + 1⟩

/-- What is shown for a byte other than a new line. -/
def glyph (byte : UInt8) : UInt8 := if 0x20 ≤ byte ∧ byte ≤ 0x7e then byte else 0xfe

/-- One byte of the text. -/
def byte (colour : ColourCode) (s : Scrollback) (byte : UInt8) : Scrollback :=
  if byte = newLineByte then s.newLine colour
  else if s.column = 80 then (s.newLine colour).put ⟨glyph byte, colour⟩
  else s.put ⟨glyph byte, colour⟩

def text (colour : ColourCode) (s : Scrollback) (bytes : List UInt8) : Scrollback :=
  bytes.foldl (byte colour) s

/-- The rows of a buffer to begin with. -/
def ofWriter (w : Writer) : Scrollback :=
  ⟨List.ofFn fun i : Fin (bufferHeight - 1) => w.buffer.chars i.castSucc,
    w.buffer.chars (Fin.last (bufferHeight - 1)), w.columnPosition⟩

lemma above_byte (colour : ColourCode) (s : Scrollback) (b : UInt8) :
    s.above <+: (s.byte colour b).above := by
  unfold byte
  split_ifs
  · exact List.prefix_append _ _
  · exact List.prefix_append _ _
  · exact List.prefix_refl _

lemma above_text (colour : ColourCode) (s : Scrollback) (bytes : List UInt8) :
    s.above <+: (s.text colour bytes).above := by
  induction bytes generalizing s with
  | nil => exact List.prefix_refl _
  | cons b bytes ih => exact (above_byte colour s b).trans (ih _)

end Scrollback

/-! ### The loops -/

variable {b : Buffer} {w : Writer}

/-- The buffer with `n` columns of a row replaced. -/
def replaced (b : Buffer) (row n : ℕ) (chars : Row) : Buffer :=
  ⟨fun r c => if r.val = row ∧ c.val < n then chars c else b.chars r c⟩

lemma write_replaced {row n : ℕ} {chars : Row} (hr : row < bufferHeight) (hn : n < bufferWidth) :
    (replaced b row n chars).write row n (chars ⟨n, hn⟩) = some (replaced b row (n + 1) chars) := by
  rw [Buffer.write, if_pos ⟨hr, hn⟩]
  simp only [replaced, Option.some_inj, Buffer.mk.injEq]
  funext r c
  by_cases hc : c.val = n
  · have he : c = ⟨n, hn⟩ := Fin.ext hc
    subst he
    by_cases hrow : r.val = row
    · simp [hrow]
    · simp [hrow]
  · have hlt : c.val < n + 1 ↔ c.val < n := by omega
    simp only [hc, and_false, if_false, hlt]

lemma replaced_zero {row : ℕ} {chars : Row} : replaced b row 0 chars = b := by
  simp [replaced]

lemma foldlM_row {row : ℕ} {chars : Row} {f : Buffer → ℕ → Option Buffer}
    (hr : row < bufferHeight)
    (hf : ∀ n (hn : n < bufferWidth), f (replaced b row n chars) n =
      (replaced b row n chars).write row n (chars ⟨n, hn⟩)) :
    (List.range' 0 bufferWidth).foldlM f b = some (replaced b row bufferWidth chars) := by
  have hloop := foldlM_range' (f := f) (a := 0) (n := bufferWidth) (fun n => replaced b row n chars)
    fun n hn => by rw [Nat.zero_add, hf n hn, write_replaced hr hn]
  rwa [replaced_zero] at hloop

lemma clearRow_eq (w : Writer) {row : ℕ} (hr : row < bufferHeight) : w.clearRow row =
    some { w with buffer := replaced w.buffer row bufferWidth fun _ => w.blank } := by
  have hloop : (List.range' 0 bufferWidth).foldlM (fun b col => b.write row col w.blank) w.buffer =
      some (replaced w.buffer row bufferWidth fun _ => w.blank) := foldlM_row hr fun n hn => rfl
  rw [Writer.clearRow, hloop]
  rfl

/-- The row below, if there is one. -/
def nextRow (r : Fin bufferHeight) : Fin bufferHeight :=
  if h : r.val + 1 < bufferHeight then ⟨r.val + 1, h⟩ else r

lemma copyRow_eq (b : Buffer) {row : ℕ} (hpos : 0 < row) (hr : row < bufferHeight) :
    Writer.copyRow b row = some (replaced b (row - 1) bufferWidth (b.chars ⟨row, hr⟩)) := by
  refine foldlM_row (by omega) fun n hn => ?_
  -- the row that is read is not the one that is written
  have hread : (replaced b (row - 1) n (b.chars ⟨row, hr⟩)).read row n =
      some (b.chars ⟨row, hr⟩ ⟨n, hn⟩) := by
    rw [Buffer.read, dif_pos hr, dif_pos hn]
    have hne : row ≠ row - 1 := by omega
    simp only [replaced, hne, false_and, if_false]
  rw [hread]
  rfl

/-- The buffer with its first `n` rows replaced by the ones below them. -/
def shifted (b : Buffer) (n : ℕ) : Buffer :=
  ⟨fun r => if r.val < n then b.chars (nextRow r) else b.chars r⟩

lemma copyRow_shifted {n : ℕ} (hn : n < bufferHeight - 1) :
    Writer.copyRow (shifted b n) (1 + n) = some (shifted b (n + 1)) := by
  have hr : 1 + n < bufferHeight := by omega
  rw [copyRow_eq _ (by omega) hr, Option.some_inj]
  simp only [shifted, replaced, Buffer.mk.injEq]
  funext r c
  have hbelow : ¬ 1 + n < n := by omega
  simp only [hbelow, if_false]
  by_cases hrn : r.val = n
  · have hnext : nextRow r = ⟨1 + n, hr⟩ := by
      unfold nextRow
      rw [dif_pos (by omega)]
      exact Fin.ext (by dsimp only; omega)
    rw [if_pos ⟨by omega, c.isLt⟩, if_pos (by omega), hnext]
  · rw [if_neg fun h => hrn (by omega)]
    have hlt : r.val < n + 1 ↔ r.val < n := by omega
    simp only [hlt]

lemma newLine_eq (w : Writer) : w.newLine =
    some ⟨0, w.colourCode, ⟨fun r =>
      if r.val < bufferHeight - 1 then w.buffer.chars (nextRow r) else fun _ => w.blank⟩⟩ := by
  have hcopy : (List.range' 1 (bufferHeight - 1)).foldlM Writer.copyRow w.buffer =
      some (shifted w.buffer (bufferHeight - 1)) := by
    have hloop := foldlM_range' (f := Writer.copyRow) (a := 1) (n := bufferHeight - 1)
      (shifted w.buffer) fun n hn => copyRow_shifted hn
    have hzero : shifted w.buffer 0 = w.buffer := by simp [shifted]
    rwa [hzero] at hloop
  have hclear := clearRow_eq { w with buffer := shifted w.buffer (bufferHeight - 1) }
    (by decide : bufferHeight - 1 < bufferHeight)
  rw [Writer.newLine, hcopy]
  simp only [Option.bind_eq_bind, Option.bind_some, hclear]
  simp only [Option.some_inj, Writer.mk.injEq, true_and, Buffer.mk.injEq, replaced, shifted]
  funext r c
  by_cases hr : r.val < bufferHeight - 1
  · simp only [hr, if_true, hr.ne, false_and, if_false]
  · have hlast : r.val = bufferHeight - 1 := by omega
    simp only [hlast, c.isLt, and_self, if_true, lt_irrefl, if_false]
    rfl

/-! ### The buffer shows the end of the rows -/

/-- The writer is at the column of the scrollback and shows its last rows. -/
structure Simulates (colour : ColourCode) (w : Writer) (s : Scrollback) : Prop where
  column : w.columnPosition = s.column
  bound : s.column ≤ bufferWidth
  colour : w.colourCode = colour
  shows : Shows w.buffer.chars s.rows

variable {colour : ColourCode} {s : Scrollback}

lemma Simulates.newLine (h : Simulates colour w s) :
    ∃ w', w.newLine = some w' ∧ Simulates colour w' (s.newLine colour) := by
  refine ⟨_, newLine_eq w, rfl, Nat.zero_le _, h.colour, h.shows.push (fun i => ?_) ?_⟩
  · have hi : i.castSucc.val < bufferHeight - 1 := i.isLt
    have hnext : nextRow i.castSucc = i.succ := dif_pos (by omega)
    dsimp only
    rw [if_pos hi, hnext]
  · have hlast : ¬ (Fin.last 24).val < bufferHeight - 1 := lt_irrefl 24
    have hblank : w.blank = ⟨space, colour⟩ := by rw [Writer.blank, h.colour]
    dsimp only
    rw [if_neg hlast, hblank]
    rfl

lemma Simulates.put (h : Simulates colour w s) (hlt : s.column < bufferWidth) (byte : UInt8) :
    ∃ b, w.buffer.write (bufferHeight - 1) w.columnPosition ⟨byte, w.colourCode⟩ = some b ∧
      Simulates colour { w with buffer := b, columnPosition := w.columnPosition + 1 }
        (s.put ⟨byte, colour⟩) := by
  have hbounds : bufferHeight - 1 < bufferHeight ∧ w.columnPosition < bufferWidth :=
    ⟨by decide, h.column ▸ hlt⟩
  refine ⟨_, if_pos hbounds, congrArg (· + 1) h.column, hlt, h.colour,
    Shows.replace (l := s.above) (x := s.last) h.shows (fun i => ?_) ?_⟩
  · -- the rows above the last one stay
    have hi : i.castSucc.val ≠ bufferHeight - 1 := i.isLt.ne
    funext c
    simp only [hi, false_and, if_false]
  · funext c
    have hrow : (Fin.last 24).val = bufferHeight - 1 := rfl
    have hlast : w.buffer.chars (Fin.last 24) = s.last :=
      (Shows.concat (l := s.above) (x := s.last) h.shows).2
    simp only [hrow, true_and, h.column, h.colour, hlast]
    rfl

lemma printed_newLine : Writer.printed newLineByte = newLineByte := by decide

lemma printed_of_ne {byte : UInt8} (h : byte ≠ newLineByte) :
    Writer.printed byte = Scrollback.glyph byte ∧ Writer.printed byte ≠ newLineByte := by
  simp only [Writer.printed, Scrollback.glyph, h, or_false]
  refine ⟨trivial, ?_⟩
  split_ifs
  · exact h
  · decide

lemma Simulates.byte (h : Simulates colour w s) (byte : UInt8) :
    ∃ w', w.writeByte (Writer.printed byte) = some w' ∧
      Simulates colour w' (s.byte colour byte) := by
  by_cases hnl : byte = newLineByte
  · subst hnl
    rw [Writer.writeByte, printed_newLine, if_pos rfl, Scrollback.byte, if_pos rfl]
    exact h.newLine
  · obtain ⟨hglyph, hne⟩ := printed_of_ne hnl
    rw [Writer.writeByte, if_neg hne, Scrollback.byte, if_neg hnl, hglyph, h.column]
    by_cases hfull : s.column = 80
    · -- the row is full: the character opens a new one
      obtain ⟨w₁, hw₁, h₁⟩ := h.newLine
      obtain ⟨b, hb, h₂⟩ := h₁.put (by decide : 0 < bufferWidth) (Scrollback.glyph byte)
      rw [if_pos hfull, if_pos hfull.ge, hw₁]
      simp only [Option.bind_eq_bind, Option.bind_some, hb]
      exact ⟨_, rfl, h₂⟩
    · have hlt : s.column < bufferWidth := lt_of_le_of_ne h.bound hfull
      obtain ⟨b, hb, h₂⟩ := h.put hlt (Scrollback.glyph byte)
      rw [if_neg hfull, if_neg (not_le.mpr hlt)]
      simp only [Option.bind_eq_bind, Option.bind_some, hb]
      exact ⟨_, rfl, h₂⟩

lemma Simulates.text (h : Simulates colour w s) (bytes : List UInt8) :
    ∃ w', bytes.foldlM (fun w byte => w.writeByte (Writer.printed byte)) w = some w' ∧
      Simulates colour w' (s.text colour bytes) := by
  induction bytes generalizing w s with
  | nil => exact ⟨w, rfl, h⟩
  | cons byte bytes ih =>
    obtain ⟨w₁, hw₁, h₁⟩ := h.byte byte
    obtain ⟨w', hw', h'⟩ := ih h₁
    refine ⟨w', ?_, h'⟩
    rw [List.foldlM_cons, hw₁]
    exact hw'

lemma Simulates.strings (h : Simulates colour w s) (ss : List String) :
    ∃ w', ss.foldlM Writer.writeString w = some w' ∧
      Simulates colour w' (s.text colour (ss.flatMap Writer.bytes)) := by
  induction ss generalizing w s with
  | nil => exact ⟨w, rfl, h⟩
  | cons str ss ih =>
    obtain ⟨w₁, hw₁, h₁⟩ := h.text (Writer.bytes str)
    obtain ⟨w', hw', h'⟩ := ih h₁
    refine ⟨w', ?_, ?_⟩
    · rw [List.foldlM_cons, Writer.writeString, hw₁]
      exact hw'
    · rw [List.flatMap_cons, Scrollback.text, List.foldl_append]
      exact h'

lemma simulates_ofWriter (hcol : w.columnPosition ≤ bufferWidth) :
    Simulates w.colourCode w (.ofWriter w) := by
  refine ⟨rfl, hcol, rfl, ?_⟩
  have hrows : (Scrollback.ofWriter w).rows = List.ofFn w.buffer.chars := by
    rw [List.ofFn_succ' (n := bufferHeight - 1), List.concat_eq_append]
    rfl
  rw [Shows, hrows, List.rtake, List.length_ofFn, Nat.sub_self, List.drop_zero]

/-- **The screen shows the last 25 rows.** From any buffer and any column up to the width, for
any strings: no access is out of bounds, the column stays up to the width, and the buffer is the
end of the rows that the bytes of the strings make without a limit on their number; whatever is
written later, the rows above the last one stay. -/
theorem screen_shows_end (w : Writer) (hcol : w.columnPosition ≤ 80) (ss : List String) :
    ∃ w', ss.foldlM Writer.writeString w = some w' ∧ w'.columnPosition ≤ 80 ∧
      ∃ s, s = (Scrollback.ofWriter w).text w.colourCode (ss.flatMap Writer.bytes) ∧
        w'.columnPosition = s.column ∧ List.ofFn w'.buffer.chars = s.rows.rtake 25 ∧
        (Scrollback.ofWriter w).above <+: s.above ∧
        ∀ bytes, s.above <+: (s.text w.colourCode bytes).above := by
  obtain ⟨w', hw', h⟩ := (simulates_ofWriter hcol).strings ss
  refine ⟨w', hw', h.column ▸ h.bound, _, rfl, h.column, h.shows, ?_, fun bytes => ?_⟩
  · exact Scrollback.above_text _ _ _
  · exact Scrollback.above_text _ _ _

/-- A screen of dots with the writer at the end of the last row. -/
def dots : Writer := ⟨80, 0x0E, ⟨fun _ _ => ⟨0x2E, 0x0E⟩⟩⟩

/-- One more character opens a row; the column comes from the scrollback. -/
theorem screen_shows_end_dots : ∃ w', ["x"].foldlM Writer.writeString dots = some w' ∧
    w'.columnPosition = 1 := by
  obtain ⟨w', hw', -, s, rfl, hcol, -⟩ := screen_shows_end dots (by decide) ["x"]
  exact ⟨w', hw', hcol.trans (by decide +kernel)⟩

end RustyOs.VgaBuffer
