import Mapf.Proofs.Layouts
import Mapf.Proofs.Listings
import Mapf.Proofs.Strict.Basic

/-! # Texts that stop a reader

Readers take words by their places and tiles by their positions, and before the rows of a map come in they ask for the
room that its height calls for. Their strict readings stop where a word or a tile is not there, or where there can be no
such room. No text stops the reader of scenarios, and no text makes either of them look outside a list: the words of a
line are counted before, and a row is as wide as the map says. But nobody checks the height of a map before the room is
asked for, so just the texts with a proper head and a height that no storage has room for stop the reader of maps
(`readers_stop_iff`). -/

namespace Mapf

open Mapf.Strict

namespace Strict

/-- What stops a strict reader. -/
inductive Stop where
  | fault (fault : Fault)
  /-- Room was asked for that no storage can give. -/
  | overCapacity (itemBytes count : Nat)
  deriving DecidableEq

/-- A strict reader stops, or comes to the end with a result or with an error in the text. -/
abbrev Reading (ε : Type) := ExceptT ε (Except Stop)

namespace Reading

variable {ε α β : Type}

/-- Comes to the end. -/
def finish (x : Except ε α) : Reading ε α := .mk (.ok x)

/-- Takes a strict operation for granted. -/
def strictly (x : Except Fault α) : Reading ε α := .mk ((x.map .ok).mapError .fault)

/-- Asks for room for `count` items of `itemBytes` bytes each. -/
def reserve (itemBytes count : Nat) : Reading ε Unit :=
  .mk (if Storage.fits itemBytes count then .ok (.ok ()) else .error (.overCapacity itemBytes count))

/-- A reader comes to the end if all that follows the first part does where this has a result. -/
theorem finish_bind {x : Except ε α} {f : α → Reading ε β} {g : α → Except ε β}
    (h : ∀ a, x = .ok a → f a = finish (g a)) : (finish x >>= f) = finish (x >>= g) := by
  cases x with
  | error e => rfl
  | ok a => exact h a rfl

theorem strictly_bind {x : Except Fault α} {a : α} (h : x = .ok a) {f : α → Reading ε β} :
    (strictly x >>= f) = f a := by
  rw [h]
  rfl

theorem reserve_of_fits {itemBytes count : Nat} (h : Storage.fits itemBytes count = true) :
    (reserve itemBytes count : Reading ε Unit) = finish (.ok ()) := by
  rw [reserve, if_pos h]
  rfl

theorem reserve_bind_of_not_fits {itemBytes count : Nat} (h : Storage.fits itemBytes count = false)
    (f : Unit → Reading ε α) : (reserve itemBytes count >>= f) = .mk (.error (.overCapacity itemBytes count)) := by
  rw [reserve, h]
  rfl

end Reading

theorem filterM_eq {α : Type} {f : α → Except Fault Bool} {p : α → Bool} {l : List α} (h : ∀ a ∈ l, f a = .ok (p a)) :
    l.filterM f = .ok (l.filter p) := by
  have haux : ∀ acc : List α, l.filterAuxM f acc = .ok ((l.filter p).reverse ++ acc) := by
    induction l with
    | nil =>
      intro acc
      rfl
    | cons a rest ih =>
      intro acc
      obtain ⟨ha, hrest⟩ := List.forall_mem_cons.mp h
      rw [List.filterAuxM, ha, ok_bind, ih hrest]
      cases hp : p a <;> simp [hp]
  rw [List.filterM, haux, ok_bind, List.append_nil, List.reverse_reverse]
  rfl

end Strict

/-! ### Maps -/

namespace Grid

/-- The four lines at the head of a map, whatever stands below them. -/
inductive Head : List (List Char) → Nat → Nat → Prop
  | intro {kind heightLine widthLine mark : List Char} {below : List (List Char)} {height width : Nat} :
      Header.height.Gives heightLine height → Header.width.Gives widthLine width → Text.Trimmed mark "map".toList →
      Head (kind :: heightLine :: widthLine :: mark :: below) height width

variable {height width : Nat} {lines : List (List Char)}

theorem head_of_reads {kind : List Char} (hheight : readHeader .height lines[0]? = .ok height)
    (hwidth : readHeader .width lines[1]? = .ok width) (hmark : checkMapLine lines[2]? = .ok ()) :
    Head (kind :: lines) height width := by
  obtain ⟨heightLine, hheightLine, hheight⟩ := readHeader_eq_ok_iff.mp hheight
  obtain ⟨widthLine, hwidthLine, hwidth⟩ := readHeader_eq_ok_iff.mp hwidth
  obtain ⟨mark, hmarkLine, hmark⟩ := checkMapLine_eq_ok_iff.mp hmark
  obtain ⟨below, hlines⟩ := exists_rest hheightLine hwidthLine hmarkLine
  rw [hlines]
  exact .intro hheight hwidth hmark

namespace Strict

/-- Whether a point is a passable tile: one inside the sizes is looked up. -/
def openAt (height width : Nat) (rows : Array (Array Bool)) (x y : Int) : Except Fault Bool :=
  if 0 ≤ x && 0 ≤ y && x < signed height && y < signed width then do
    let row ← element rows x.toNat
    element row y.toNat
  else return false

def openAround (height width : Nat) (rows : Array (Array Bool)) (p : Position) : Except Fault (List Position) := do
  let points ← (around (signed p.x) (signed p.y)).filterM fun (x, y) => openAt height width rows x y
  return points.map fun (x, y) => ⟨x.toNat, y.toNat⟩

def tile (height width : Nat) (rows : Array (Array Bool)) (p : Position) : Except Fault Tile := do
  let row ← element rows p.x
  let passable ← element row p.y
  let neighbors ← if passable then openAround height width rows p else pure []
  return ⟨passable, neighbors⟩

/-- Goes over all positions inside the sizes, whatever rows there are. -/
def ofRows (height width : Nat) (rows : Array (Array Bool)) : Except Fault Grid := do
  let tiles ← (List.range height).mapM fun x => (List.range width).mapM fun y => tile height width rows ⟨x, y⟩
  return ⟨height, width, (tiles.map List.toArray).toArray⟩

def readBody (height width : Nat) (lines : List (List Char)) : Reading FormatError (Array (Array Bool)) := do
  Reading.reserve rowBytes height
  let rows ← Reading.finish (readRows width 0 (lines.take height))
  if rows.length = height then return rows.toArray else throw (.rowCount rows.length height)

def ofLines : List (List Char) → Reading FormatError Grid
  | [] => throw .missingType
  | _ :: lines => do
    let height ← Reading.finish (readHeader .height lines[0]?)
    let width ← Reading.finish (readHeader .width lines[1]?)
    Reading.finish (checkMapLine lines[2]?)
    let rows ← readBody height width (lines.drop 3)
    Reading.strictly (ofRows height width rows)

def parse (text : String) : Except Stop (Except FormatError Grid) := (ofLines (Text.lines text.toList)).run

variable {rows : Array (Array Bool)} {p : Position}

/-- Every row has the width of the map, and there are as many as its height says. -/
def Full (height width : Nat) (rows : Array (Array Bool)) : Prop := rows.size = height ∧ ∀ row ∈ rows, row.size = width

theorem signed_le (n : Nat) : signed n ≤ n := by
  rw [signed, wordCount, Int.bmod_def]
  split <;> omega

theorem Full.element (h : Full height width rows) {x y : Nat} (hx : x < height) (hy : y < width) :
    (element rows x >>= fun row => element row y) = .ok ((rows.getD x #[]).getD y false) := by
  obtain ⟨rfl, hwidth⟩ := h
  have hrow : y < rows[x].size := (hwidth _ (Array.getElem_mem hx)).symm ▸ hy
  rw [element_of_lt hx, ok_bind, element_of_lt hrow]
  simp [hx, hrow]

theorem openAt_eq (h : Full height width rows) (x y : Int) :
    openAt height width rows x y = .ok (Grid.openAt height width rows x y) := by
  rw [openAt, Grid.openAt]
  split
  case isTrue hin =>
    rw [hin, Bool.true_and]
    simp only [Bool.and_eq_true, decide_eq_true_eq] at hin
    have hheight := signed_le height
    have hwidth := signed_le width
    exact h.element (by omega) (by omega)
  case isFalse hout =>
    rw [Bool.not_eq_true] at hout
    rw [hout, Bool.false_and]
    rfl

theorem openAround_eq (h : Full height width rows) (p : Position) :
    openAround height width rows p = .ok (Grid.openAround height width rows p) := by
  rw [openAround, filterM_eq fun (point : Int × Int) _ => openAt_eq h point.1 point.2]
  rfl

theorem tile_eq (h : Full height width rows) (hx : p.x < height) (hy : p.y < width) : tile height width rows p =
    .ok ⟨(rows.getD p.x #[]).getD p.y false,
      if (rows.getD p.x #[]).getD p.y false then Grid.openAround height width rows p else []⟩ := by
  have helement := h.element hx hy
  rw [tile, ← bind_assoc, helement, ok_bind, openAround_eq h]
  split <;> rfl

/-- A map that has all its rows gets all its tiles. -/
theorem ofRows_eq (h : Full height width rows) : ofRows height width rows = .ok (Grid.ofRows height width rows) := by
  rw [ofRows, mapM_eq fun x hx => mapM_eq fun y hy => tile_eq h (List.mem_range.mp hx) (List.mem_range.mp hy), ok_bind]
  obtain ⟨rfl, hwidth⟩ := h
  refine congrArg Except.ok ?_
  rw [Grid.ofRows, Grid.mk.injEq]
  refine ⟨rfl, rfl, Array.ext (by simp) fun x hx hx' => ?_⟩
  have hx : x < rows.size := by simpa using hx'
  have hrow : rows[x].size = width := hwidth _ (Array.getElem_mem hx)
  refine Array.ext (by simp [hrow]) fun y hy hy' => ?_
  have hy : y < rows[x].size := by simpa using hy'
  simp [hx, hy]

theorem readBody_eq (h : Storage.fits rowBytes height = true) :
    readBody height width lines = Reading.finish (Grid.readBody height width lines) := by
  rw [readBody, Reading.reserve_of_fits h, Grid.readBody, h]
  cases readRows width 0 (lines.take height) with
  | error e => rfl
  | ok tiles =>
    show (if tiles.length = height then _ else _) = Reading.finish (if tiles.length = height then _ else _)
    split <;> rfl

theorem full_of_readBody (h : Grid.readBody height width lines = .ok rows) : Full height width rows := by
  obtain ⟨-, chars, hrows, rfl, rfl⟩ := readBody_eq_ok_iff.mp h
  refine ⟨by simp, fun row hrow => ?_⟩
  obtain ⟨cs, hcs, rfl⟩ : ∃ cs ∈ chars, tilesOf cs = row := by simpa using hrow
  simpa [tilesOf] using length_of_rows hrows cs hcs

theorem ofLines_eq (h : ∀ height width, Head lines height width → Storage.fits rowBytes height = true) :
    ofLines lines = Reading.finish (Grid.ofLines lines) := by
  cases lines with
  | nil => rfl
  | cons kind lines =>
    refine Reading.finish_bind fun height hheight => Reading.finish_bind fun width hwidth =>
      Reading.finish_bind fun _ hmark => ?_
    rw [readBody_eq (h height width (head_of_reads hheight hwidth hmark))]
    refine Reading.finish_bind fun rows hrows => ?_
    rw [ofRows_eq (full_of_readBody hrows)]
    rfl

theorem ofLines_of_head (h : Head lines height width) (hbig : Storage.fits rowBytes height = false) :
    ofLines lines = .mk (.error (.overCapacity rowBytes height)) ∧ Grid.ofLines lines = .error .tooManyRows := by
  cases h with
  | @intro kind heightLine widthLine mark below _ _ hheight hwidth hmark =>
    have hheight : readHeader .height (some heightLine) = .ok height := readHeader_eq_ok_iff.mpr ⟨_, rfl, hheight⟩
    have hwidth : readHeader .width (some widthLine) = .ok width := readHeader_eq_ok_iff.mpr ⟨_, rfl, hwidth⟩
    have hmark : checkMapLine (some mark) = .ok () := checkMapLine_eq_ok_iff.mpr ⟨_, rfl, hmark⟩
    constructor
    · simp only [ofLines, List.getElem?_cons_zero, List.getElem?_cons_succ, List.drop_succ_cons, hheight, hwidth, hmark]
      show (readBody height width below >>= _) = _
      rw [readBody, Reading.reserve_bind_of_not_fits hbig]
      rfl
    · simp only [Grid.ofLines, List.getElem?_cons_zero, List.getElem?_cons_succ, List.drop_succ_cons, hheight, hwidth,
        hmark]
      show (Grid.readBody height width below >>= _) = _
      rw [Grid.readBody, hbig]
      rfl

end Strict

/-! #### Errors in the text -/

theorem bind_ne_tooManyRows {α β : Type} {x : Except FormatError α} {f : α → Except FormatError β}
    (hx : x ≠ .error .tooManyRows) (hf : ∀ a, x = .ok a → f a ≠ .error .tooManyRows) :
    (x >>= f) ≠ .error .tooManyRows := by
  cases x with
  | error e => exact fun h => hx (congrArg Except.error (Except.error.inj h))
  | ok a => exact hf a rfl

theorem readHeader_ne_tooManyRows (header : Header) (line? : Option (List Char)) :
    readHeader header line? ≠ .error .tooManyRows := by
  fun_cases readHeader header line? with
  | case1 => rintro ⟨⟩
  | case2 line value more hwords =>
    cases Text.readNumeral value <;> rintro ⟨⟩
  | case3 => rintro ⟨⟩
  | case4 => rintro ⟨⟩

theorem checkMapLine_ne_tooManyRows (line? : Option (List Char)) : checkMapLine line? ≠ .error .tooManyRows := by
  fun_cases checkMapLine line? with
  | case1 => rintro ⟨⟩
  | case2 => rintro ⟨⟩
  | case3 => rintro ⟨⟩

theorem readRow_ne_tooManyRows (width row : Nat) (line : List Char) : readRow width row line ≠ .error .tooManyRows := by
  rw [readRow]
  split <;> rintro ⟨⟩

theorem readRows_ne_tooManyRows (width row : Nat) (lines : List (List Char)) :
    readRows width row lines ≠ .error .tooManyRows := by
  induction lines generalizing row with
  | nil => nofun
  | cons line rest ih =>
    exact bind_ne_tooManyRows (readRow_ne_tooManyRows width row line) fun _ _ =>
      bind_ne_tooManyRows (ih (row + 1)) fun _ _ => nofun

theorem readBody_ne_tooManyRows (h : Storage.fits rowBytes height = true) :
    readBody height width lines ≠ .error .tooManyRows := by
  fun_cases readBody height width lines with
  | case1 hbig => simp [h] at hbig
  | case2 _ e hread =>
    rintro ⟨⟩
    exact readRows_ne_tooManyRows _ _ _ hread
  | case3 => rintro ⟨⟩
  | case4 => rintro ⟨⟩

/-- Only a height that there is no room for is answered by `tooManyRows`. -/
theorem ofLines_ne_tooManyRows (h : ∀ height width, Head lines height width → Storage.fits rowBytes height = true) :
    ofLines lines ≠ .error .tooManyRows := by
  cases lines with
  | nil => nofun
  | cons kind lines =>
    refine bind_ne_tooManyRows (readHeader_ne_tooManyRows _ _) fun height hheight =>
      bind_ne_tooManyRows (readHeader_ne_tooManyRows _ _) fun width hwidth =>
        bind_ne_tooManyRows (checkMapLine_ne_tooManyRows _) fun _ hmark => ?_
    have hfits := h height width (head_of_reads hheight hwidth hmark)
    exact bind_ne_tooManyRows (readBody_ne_tooManyRows hfits) fun _ _ => nofun

end Grid

/-! ### Scenarios -/

namespace Scenario.Strict

variable {s : Scenario} {number : Nat} {line : List Char}

def field (number : Nat) (words : Array (List Char)) (place : Nat) : Reading FormatError Nat := do
  let word ← Reading.strictly (element words place)
  Reading.finish (readField number word)

/-- Takes in a line by the places of its words, if there are enough of them. -/
def addLine (s : Scenario) (number : Nat) (line : List Char) : Reading FormatError Scenario :=
  let words := (Text.words line).toArray
  if words.isEmpty then return s
  else if words.size < 8 then throw (.tooFewFields number)
  else do
    let startX ← field number words 5
    let startY ← field number words 4
    let goalX ← field number words 7
    let goalY ← field number words 6
    let s ←
      if s.map.isEmpty then do
        let map ← Reading.strictly (element words 1)
        let width ← field number words 2
        let height ← field number words 3
        pure { s with map := String.ofList map, mapWidth := width, mapHeight := height }
      else pure s
    let bucket ← field number words 0
    return s.addRoute bucket ⟨⟨startX, startY⟩, ⟨goalX, goalY⟩⟩

def addLines (s : Scenario) (number : Nat) : List (Option (List Char)) → Reading FormatError Scenario
  | [] => return s
  | none :: _ => throw .invalidText
  | some line :: lines => do
    let s ← addLine s number line
    addLines s (number + 1) lines

def ofLines : List (Option (List Char)) → Reading FormatError Scenario
  | [] => throw .missingVersion
  | none :: _ => throw .invalidText
  | some version :: lines =>
    if "version".toList.isPrefixOf version then addLines .empty 2 lines else throw .missingVersion

def parse (text : String) : Except Stop (Except FormatError Scenario) :=
  (ofLines ((Text.lines text.toList).map some)).run

theorem field_bind {α : Type} {words : Array (List Char)} {place : Nat} {word : List Char}
    (h : words[place]? = some word) {f : Nat → Reading FormatError α} {g : Nat → Except FormatError α}
    (hrest : ∀ n, f n = Reading.finish (g n)) :
    (field number words place >>= f) = Reading.finish (readField number word >>= g) := by
  rw [field, Reading.strictly_bind (element_eq h)]
  exact Reading.finish_bind fun n _ => hrest n

/-- Eight words are enough for all the places that are read. -/
theorem addLine_eq (s : Scenario) (number : Nat) (line : List Char) :
    addLine s number line = Reading.finish (s.addLine number line) := by
  unfold Scenario.addLine
  split
  case h_1 hwords =>
    rw [addLine, hwords]
    rfl
  case h_2 bucket map width height startY startX goalY goalX more hwords =>
    rw [addLine, hwords]
    refine field_bind rfl fun startX => field_bind rfl fun startY => field_bind rfl fun goalX =>
      field_bind rfl fun goalY => ?_
    simp only [pure_bind]
    split
    case isTrue =>
      refine (Reading.strictly_bind (element_eq rfl)).trans ?_
      exact field_bind rfl fun width => field_bind rfl fun height => field_bind rfl fun bucket => rfl
    case isFalse => exact field_bind rfl fun bucket => rfl
  case h_3 hnil hshort =>
    have hlen : (Text.words line).length < 8 := by
      by_contra hlong
      obtain ⟨a, b, c, d, e, f, g, i, rest, hwords⟩ := exists_eight (Nat.le_of_not_lt hlong)
      exact hshort a b c d e f g i rest hwords
    rw [addLine, if_neg (by simpa using hnil), if_pos (by simpa using hlen)]
    rfl

theorem addLines_eq (s : Scenario) (number : Nat) (lines : List (Option (List Char))) :
    addLines s number lines = Reading.finish (s.addLines number lines) := by
  induction lines generalizing s number with
  | nil => rfl
  | cons line? rest ih =>
    cases line? with
    | none => rfl
    | some line =>
      rw [addLines, addLine_eq, Scenario.addLines]
      exact Reading.finish_bind fun t _ => ih t (number + 1)

/-- A scenario is read to the end, also where lines are not valid UTF-8. -/
theorem ofLines_eq (lines : List (Option (List Char))) : ofLines lines = Reading.finish (Scenario.ofLines lines) := by
  match lines with
  | [] => rfl
  | none :: _ => rfl
  | some version :: lines =>
    rw [ofLines, Scenario.ofLines]
    split
    case isTrue => exact addLines_eq _ _ _
    case isFalse => rfl

end Scenario.Strict

/-! ### Both -/

/-- No text stops the reader of scenarios. A text stops the reader of maps if and only if its head is proper and gives a
    height whose rows no storage has room for; any other text is read to the end, with a map or an error. -/
theorem readers_stop_iff (text : String) : Scenario.Strict.parse text = .ok (Scenario.parse text) ∧
    ∃ lines, Text.IsLines text.toList lines ∧
      ((∃ height width, Grid.Head lines height width ∧ Storage.maxBytes < Grid.rowBytes * height ∧
          Grid.Strict.parse text = .error (.overCapacity Grid.rowBytes height) ∧
          Grid.parse text = .error .tooManyRows) ∨
        (¬∃ height width, Grid.Head lines height width ∧ Storage.maxBytes < Grid.rowBytes * height) ∧
          Grid.Strict.parse text = .ok (Grid.parse text) ∧ Grid.parse text ≠ .error .tooManyRows) := by
  have hscenario : Scenario.Strict.parse text = .ok (Scenario.parse text) := Scenario.Strict.ofLines_eq _
  refine ⟨hscenario, Text.lines text.toList, Text.isLines_iff.mpr rfl, ?_⟩
  by_cases hbig : ∃ height width, Grid.Head (Text.lines text.toList) height width ∧
    Storage.maxBytes < Grid.rowBytes * height
  · obtain ⟨height, width, hhead, hlt⟩ := hbig
    have hfits : Storage.fits Grid.rowBytes height = false := decide_eq_false (Nat.not_le_of_lt hlt)
    obtain ⟨hstop, hmany⟩ := Grid.Strict.ofLines_of_head hhead hfits
    exact .inl ⟨height, width, hhead, hlt, hstop, hmany⟩
  · have hfits : ∀ height width, Grid.Head (Text.lines text.toList) height width →
        Storage.fits Grid.rowBytes height = true := fun height width hhead =>
      decide_eq_true (Nat.le_of_not_lt fun hlt => hbig ⟨height, width, hhead, hlt⟩)
    exact .inr ⟨hbig, Grid.Strict.ofLines_eq hfits, Grid.ofLines_ne_tooManyRows hfits⟩

/-- A proper head with the greatest height that can be written, and one row. -/
def boundlessText : String := "type octile\nheight 18446744073709551615\nwidth 1\nmap\n."

/-- The height is believed before the rows are counted, so a text with one row too few stops the reader. -/
theorem boundless_stops : ¬∃ answer, Grid.Strict.parse boundlessText = .ok answer := by
  have hstop : Grid.Strict.parse boundlessText = .error (.overCapacity Grid.rowBytes 18446744073709551615) := by
    decide
  rintro ⟨answer, hok⟩
  cases hstop.symm.trans hok

end Mapf
