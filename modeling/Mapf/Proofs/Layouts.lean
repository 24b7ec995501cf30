import Mapf.Grid.Format
import Mapf.Proofs.Texts
import Mathlib.Data.List.Forall2

/-! # The layout of a map

Which texts are maps is a matter of their lines (`Layout`): two sizes, a mark, and as many rows as the height says.
Exactly these are read, and the grid is the one in which the characters other than dots are obstacles
(`parse_exact`). Reading is not told apart by what stands in the first line, behind a size or below the rows
(`Alike`). -/

namespace Mapf.Grid

/-! ### Layouts -/

/-- The line begins with the name of the size and a numeral for `n`. -/
def Header.Gives (header : Header) (line : List Char) (n : Nat) : Prop :=
  ∃ value more, Text.IsWords line (header.name.toList :: value :: more) ∧ Text.IsNumeral value n

def IsRow (width : Nat) (line row : List Char) : Prop := Text.TrimmedEnd line row ∧ row.length = width

/-- Four lines at the head and the rows below, where blanks at the end of a row do not count. -/
inductive Layout : List (List Char) → Nat → Nat → List (List Char) → Prop
  | intro {kind heightLine widthLine mark : List Char} {body below rows : List (List Char)} {height width : Nat} :
      Header.height.Gives heightLine height → Header.width.Gives widthLine width →
      Text.Trimmed mark "map".toList → List.Forall₂ (IsRow width) body rows → rows.length = height →
      Layout (kind :: heightLine :: widthLine :: mark :: (body ++ below)) height width rows

/-- The tiles whose character is not a dot. -/
def blocked (rows : List (List Char)) : List Position :=
  rows.zipIdx.flatMap fun (row, x) => (row.zipIdx.filter fun (c, _) => c ≠ '.').map fun (_, y) => ⟨x, y⟩

theorem mem_blocked {rows : List (List Char)} {p : Position} :
    p ∈ blocked rows ↔ ∃ row c, rows[p.x]? = some row ∧ row[p.y]? = some c ∧ c ≠ '.' := by
  simp only [blocked, List.mem_flatMap, List.mem_map, List.mem_filter, List.mem_zipIdx_iff_getElem?, decide_eq_true_eq,
    Prod.exists]
  constructor
  · rintro ⟨row, x, hrow, c, y, ⟨hc, hne⟩, rfl⟩
    exact ⟨row, c, hrow, hc, hne⟩
  · rintro ⟨row, c, hrow, hc, hne⟩
    exact ⟨row, p.x, hrow, c, p.y, ⟨hc, hne⟩, rfl⟩

/-! ### Reading -/

variable {header : Header} {line : List Char} {lines : List (List Char)} {height width row n : Nat}

/-- All that counts of a header line are its first two words, if the first one is the name of the size. -/
theorem readHeader_of_isWords {value : List Char} {more : List (List Char)}
    (h : Text.IsWords line (header.name.toList :: value :: more)) :
    readHeader header (some line) = (Text.readNumeral value).mapError (.badSize header value) := by
  rw [readHeader, Text.isWords_iff.mp h]
  exact if_pos rfl

theorem readHeader_eq_ok_iff {line? : Option (List Char)} :
    readHeader header line? = .ok n ↔ ∃ line, line? = some line ∧ header.Gives line n := by
  constructor
  · fun_cases readHeader header line? with
    | case1 => nofun
    | case2 line value more hwords =>
      intro h
      cases hn : Text.readNumeral value with
      | error e =>
        rw [hn] at h
        cases h
      | ok m =>
        rw [hn] at h
        cases h
        exact ⟨line, rfl, value, more, Text.isWords_iff.mpr hwords, Text.readNumeral_eq_ok_iff.mp hn⟩
    | case3 => nofun
    | case4 => nofun
  · rintro ⟨line, rfl, value, more, hline, hn⟩
    rw [readHeader_of_isWords hline, Text.readNumeral_eq_ok_iff.mpr hn]
    rfl

theorem checkMapLine_eq_ok_iff {line? : Option (List Char)} :
    checkMapLine line? = .ok () ↔ ∃ line, line? = some line ∧ Text.Trimmed line "map".toList := by
  cases line? with
  | none => exact iff_of_false nofun (by rintro ⟨_, h, -⟩; cases h)
  | some line =>
    rw [checkMapLine, ite_eq_left_iff]
    simp [← Text.trim_eq_iff]

/-- The tiles of a row, by whether they are passable. -/
def tilesOf (row : List Char) : Array Bool := (row.map fun c => c == '.').toArray

theorem readRow_eq_ok_iff {tiles : Array Bool} :
    readRow width row line = .ok tiles ↔ ∃ cs, IsRow width line cs ∧ tiles = tilesOf cs := by
  simp only [readRow, IsRow, ← Text.trimEnd_eq_iff, and_assoc, exists_eq_left']
  split
  case isTrue hlen => simp [hlen, tilesOf, eq_comm]
  case isFalse hlen => simp [hlen]

theorem length_of_rows {rows : List (List Char)} (h : List.Forall₂ (IsRow width) lines rows) :
    ∀ row ∈ rows, row.length = width := by
  induction h with
  | nil => nofun
  | cons hrow _ ih => exact List.forall_mem_cons.mpr ⟨hrow.2, ih⟩

theorem readRows_eq_ok_iff {tiles : List (Array Bool)} : readRows width row lines = .ok tiles ↔
    ∃ rows, List.Forall₂ (IsRow width) lines rows ∧ tiles = rows.map tilesOf := by
  induction lines generalizing row tiles with
  | nil => simp [readRows, eq_comm]
  | cons line lines ih =>
    rw [readRows, bind_eq_ok_iff]
    simp only [bind_eq_ok_iff, readRow_eq_ok_iff, ih, List.forall₂_cons_left_iff]
    constructor
    · rintro ⟨_, ⟨cs, hcs, rfl⟩, _, ⟨rows, hrows, rfl⟩, h⟩
      cases h
      exact ⟨cs :: rows, ⟨cs, rows, hcs, hrows, rfl⟩, rfl⟩
    · rintro ⟨_, ⟨cs, rows, hcs, hrows, rfl⟩, rfl⟩
      exact ⟨_, ⟨cs, hcs, rfl⟩, _, ⟨rows, hrows, rfl⟩, rfl⟩

theorem readBody_eq_ok_iff {tiles : Array (Array Bool)} : readBody height width lines = .ok tiles ↔
    Storage.fits rowBytes height = true ∧ ∃ rows, List.Forall₂ (IsRow width) (lines.take height) rows ∧
      rows.length = height ∧ tiles = (rows.map tilesOf).toArray := by
  constructor
  · fun_cases readBody height width lines with
    | case1 => nofun
    | case2 => nofun
    | case3 hfits tiles' hread hlen =>
      obtain ⟨rows, hrows, rfl⟩ := readRows_eq_ok_iff.mp hread
      rintro ⟨⟩
      exact ⟨by simpa using hfits, rows, hrows, by rwa [List.length_map] at hlen, rfl⟩
    | case4 => nofun
  · rintro ⟨hfits, rows, hrows, hlen, rfl⟩
    rw [readBody, if_neg (by simp [hfits]), readRows_eq_ok_iff.mpr ⟨rows, hrows, rfl⟩]
    exact if_pos (by rwa [List.length_map])

theorem exists_rest {α : Type} {l : List α} {a b c : α} (ha : l[0]? = some a) (hb : l[1]? = some b)
    (hc : l[2]? = some c) : ∃ rest, l = a :: b :: c :: rest := by
  match l with
  | [] | [_] | [_, _] => cases hc
  | x :: y :: z :: rest =>
    cases ha
    cases hb
    cases hc
    exact ⟨rest, rfl⟩

theorem ofLines_eq_ok_iff {g : Grid} : ofLines lines = .ok g ↔ ∃ height width rows, Layout lines height width rows ∧
    Storage.fits rowBytes height = true ∧ g = ofRows height width (rows.map tilesOf).toArray := by
  constructor
  · intro h
    cases lines with
    | nil => cases h
    | cons kind lines =>
      obtain ⟨height, hreadHeight, h⟩ := bind_eq_ok_iff.mp h
      obtain ⟨width, hreadWidth, h⟩ := bind_eq_ok_iff.mp h
      obtain ⟨_, hcheck, h⟩ := bind_eq_ok_iff.mp h
      obtain ⟨tiles, hbody, h⟩ := bind_eq_ok_iff.mp h
      cases h
      obtain ⟨heightLine, hheightLine, hheight⟩ := readHeader_eq_ok_iff.mp hreadHeight
      obtain ⟨widthLine, hwidthLine, hwidth⟩ := readHeader_eq_ok_iff.mp hreadWidth
      obtain ⟨mark, hmarkLine, hmark⟩ := checkMapLine_eq_ok_iff.mp hcheck
      obtain ⟨hfits, rows, hrows, hlen, rfl⟩ := readBody_eq_ok_iff.mp hbody
      obtain ⟨rest, rfl⟩ := exists_rest hheightLine hwidthLine hmarkLine
      rw [← List.take_append_drop height rest]
      exact ⟨height, width, rows, .intro hheight hwidth hmark hrows hlen, hfits, rfl⟩
  · rintro ⟨height, width, rows, hlayout, hfits, rfl⟩
    cases hlayout with
    | @intro kind heightLine widthLine mark body below _ _ _ hheight hwidth hmark hrows hlen =>
      have hbody : (body ++ below).take height = body := List.take_left' (hrows.length_eq.trans hlen)
      refine bind_eq_ok_iff.mpr ⟨height, readHeader_eq_ok_iff.mpr ⟨heightLine, rfl, hheight⟩, ?_⟩
      refine bind_eq_ok_iff.mpr ⟨width, readHeader_eq_ok_iff.mpr ⟨widthLine, rfl, hwidth⟩, ?_⟩
      refine bind_eq_ok_iff.mpr ⟨(), checkMapLine_eq_ok_iff.mpr ⟨mark, rfl, hmark⟩, ?_⟩
      refine bind_eq_ok_iff.mpr ⟨_, readBody_eq_ok_iff.mpr ⟨hfits, rows, ?_, hlen, rfl⟩, rfl⟩
      show List.Forall₂ (IsRow width) ((body ++ below).take height) rows
      rwa [hbody]

/-! ### The grid of a layout -/

theorem Layout.rows_length {rows : List (List Char)} (h : Layout lines height width rows) : rows.length = height := by
  cases h with
  | intro _ _ _ _ hlen => exact hlen

theorem Layout.row_length {rows : List (List Char)} (h : Layout lines height width rows) :
    ∀ row ∈ rows, row.length = width := by
  cases h with
  | intro _ _ _ hrows _ => exact length_of_rows hrows

/-- The tiles that are read are those of a grid built from its obstacles. -/
theorem Layout.ofRows_eq {rows : List (List Char)} (h : Layout lines height width rows) :
    ofRows height width (rows.map tilesOf).toArray = ofObstacles height width (blocked rows) := by
  have htile : ∀ (x y : Nat) (hx : x < rows.length) (hy : y < rows[x].length),
      (rows[x][y] == '.') = !(blocked rows).contains ⟨x, y⟩ := by
    intro x y hx hy
    rw [Bool.eq_iff_iff, beq_iff_eq, Bool.not_eq_true', ← Bool.not_eq_true, List.contains_iff_mem, mem_blocked]
    simp [hx, hy]
  rw [ofObstacles]
  congr 1
  refine Array.ext (by simp [h.rows_length]) fun x hx _ => ?_
  have hx' : x < rows.length := by simpa using hx
  refine Array.ext (by simp [tilesOf, h.row_length _ (List.getElem_mem hx')]) fun y hy _ => ?_
  simp [tilesOf, htile]

/-! ### What does not count -/

/-- Two texts that differ in one part that does not count. -/
inductive Alike : List (List Char) → List (List Char) → Prop
  | kind {kind kind' : List Char} {lines : List (List Char)} : Alike (kind :: lines) (kind' :: lines)
  | height {kind line line' value : List Char} {more more' lines : List (List Char)} :
      Text.IsWords line (Header.height.name.toList :: value :: more) →
      Text.IsWords line' (Header.height.name.toList :: value :: more') →
      Alike (kind :: line :: lines) (kind :: line' :: lines)
  | width {kind heightLine line line' value : List Char} {more more' lines : List (List Char)} :
      Text.IsWords line (Header.width.name.toList :: value :: more) →
      Text.IsWords line' (Header.width.name.toList :: value :: more') →
      Alike (kind :: heightLine :: line :: lines) (kind :: heightLine :: line' :: lines)
  | below {kind heightLine widthLine mark : List Char} {body below below' : List (List Char)} :
      Header.height.Gives heightLine body.length →
      Alike (kind :: heightLine :: widthLine :: mark :: (body ++ below))
        (kind :: heightLine :: widthLine :: mark :: (body ++ below'))

theorem Alike.ofLines_eq {lines' : List (List Char)} (h : Alike lines lines') : ofLines lines' = ofLines lines := by
  cases h with
  | kind => rfl
  | height h h' =>
    simp only [ofLines, List.getElem?_cons_zero, List.getElem?_cons_succ, List.drop_succ_cons,
      readHeader_of_isWords h, readHeader_of_isWords h']
  | width h h' =>
    simp only [ofLines, List.getElem?_cons_zero, List.getElem?_cons_succ, List.drop_succ_cons,
      readHeader_of_isWords h, readHeader_of_isWords h']
  | @below kind heightLine widthLine mark body below below' h =>
    have hheight : readHeader .height (some heightLine) = .ok body.length := readHeader_eq_ok_iff.mpr ⟨_, rfl, h⟩
    have hbody : ∀ width, readBody body.length width (body ++ below') = readBody body.length width (body ++ below) := by
      intro width
      rw [readBody, readBody, List.take_left, List.take_left]
    -- The height is read first, so it can be put in for the number of rows.
    simp only [ofLines, List.getElem?_cons_zero, List.getElem?_cons_succ, List.drop_succ_cons, List.drop_zero, hheight]
    show (readHeader .width (some widthLine) >>= fun width =>
        checkMapLine (some mark) >>= fun _ => readBody body.length width (body ++ below') >>= _) =
      (readHeader .width (some widthLine) >>= fun width =>
        checkMapLine (some mark) >>= fun _ => readBody body.length width (body ++ below) >>= _)
    simp only [hbody]

/-! ### Reading and building -/

/-- The sizes of a text are the numbers in its second and third line, whether or not it is a map. -/
def Sizes (lines : List (List Char)) (height width : Nat) : Prop :=
  ∃ kind heightLine widthLine rest, lines = kind :: heightLine :: widthLine :: rest ∧
    Header.height.Gives heightLine height ∧ Header.width.Gives widthLine width

theorem Layout.sizes {rows : List (List Char)} (h : Layout lines height width rows) : Sizes lines height width := by
  cases h with
  | intro hheight hwidth _ _ _ => exact ⟨_, _, _, _, rfl, hheight, hwidth⟩

theorem Sizes.read (h : Sizes lines height width) :
    readHeader .height lines[1]? = .ok height ∧ readHeader .width lines[2]? = .ok width := by
  obtain ⟨kind, heightLine, widthLine, rest, rfl, hheight, hwidth⟩ := h
  exact ⟨readHeader_eq_ok_iff.mpr ⟨_, rfl, hheight⟩, readHeader_eq_ok_iff.mpr ⟨_, rfl, hwidth⟩⟩

theorem fits_of_lt (hh : height < 2 ^ 48) (hw : width < 2 ^ 48) :
    Storage.fits rowBytes height = true ∧ Storage.fits tileBytes width = true := by
  rw [Storage.fits, Storage.fits, decide_eq_true_iff, decide_eq_true_iff, Storage.maxBytes, tileBytes, rowBytes]
  omega

/-- A text is read exactly if it is laid out as a map, and then it is read as the grid that is built from its blocked
    tiles. -/
theorem parse_exact (text : String) (small : ∀ lines height width, Text.IsLines text.toList lines →
      Sizes lines height width → height < 2 ^ 48 ∧ width < 2 ^ 48) :
    ∃ lines, Text.IsLines text.toList lines ∧
      ((∃ g, parse text = .ok g) ↔ ∃ height width rows, Layout lines height width rows) ∧
      (∀ height width rows, Layout lines height width rows →
        ∃ g, ofObstacles? height width (blocked rows) = some g ∧ parse text = .ok g) ∧
      ∀ (text' : String) (lines' : List (List Char)), Text.IsLines text'.toList lines' → Alike lines lines' →
        parse text' = parse text := by
  have hlines : Text.IsLines text.toList (Text.lines text.toList) := Text.isLines_iff.mpr rfl
  have hbuilt : ∀ height width rows, Layout (Text.lines text.toList) height width rows →
      ∃ g, ofObstacles? height width (blocked rows) = some g ∧ parse text = .ok g := by
    intro height width rows hlayout
    obtain ⟨hh, hw⟩ := small _ _ _ hlines hlayout.sizes
    obtain ⟨hrows, htiles⟩ := fits_of_lt hh hw
    refine ⟨ofObstacles height width (blocked rows), ?_, ?_⟩
    · rw [ofObstacles?, hrows, htiles]
      rfl
    · rw [← hlayout.ofRows_eq]
      exact ofLines_eq_ok_iff.mpr ⟨height, width, rows, hlayout, hrows, rfl⟩
  refine ⟨_, hlines, ⟨?_, ?_⟩, hbuilt, ?_⟩
  · rintro ⟨g, hg⟩
    obtain ⟨height, width, rows, hlayout, -⟩ := ofLines_eq_ok_iff.mp hg
    exact ⟨height, width, rows, hlayout⟩
  · rintro ⟨height, width, rows, hlayout⟩
    obtain ⟨g, -, hg⟩ := hbuilt height width rows hlayout
    exact ⟨g, hg⟩
  · intro text' lines' hlines' halike
    rw [parse, parse, hlines'.lines_eq]
    exact halike.ofLines_eq

/-- A map with lines of both kinds of end, blanks around, words behind the sizes, an obstacle that takes more than
    one byte and a line below the rows. -/
def pierText : String := "type octile\r\nheight +3 rows\r\n width 04\n map\t\r\n.@..  \r\n....\n.é.#\u3000\nbeyond"

def pierRows : List (List Char) := [".@..".toList, "....".toList, ".é.#".toList]

def pierLines (below : List (List Char)) : List (List Char) :=
  "type octile".toList :: "height +3 rows".toList :: " width 04".toList :: " map\t".toList ::
    ([".@..  ".toList, "....".toList, ".é.#\u3000".toList] ++ below)

theorem gives_pier : Header.height.Gives "height +3 rows".toList 3 ∧ Header.width.Gives " width 04".toList 4 := by
  have hread : readHeader .height (some "height +3 rows".toList) = .ok 3 ∧
      readHeader .width (some " width 04".toList) = .ok 4 := by decide
  obtain ⟨_, ⟨⟩, hheight⟩ := readHeader_eq_ok_iff.mp hread.1
  obtain ⟨_, ⟨⟩, hwidth⟩ := readHeader_eq_ok_iff.mp hread.2
  exact ⟨hheight, hwidth⟩

theorem layout_pier : Layout (pierLines ["beyond".toList]) 3 4 pierRows := by
  have hrow : ∀ {line row : List Char}, Text.trimEnd line = row → row.length = 4 → IsRow 4 line row :=
    fun htrim hlen => ⟨Text.trimEnd_eq_iff.mp htrim, hlen⟩
  refine .intro gives_pier.1 gives_pier.2 (Text.trim_eq_iff.mp (by decide)) ?_ rfl
  exact .cons (hrow (by decide) rfl) (.cons (hrow (by decide) rfl) (.cons (hrow (by decide) rfl) .nil))

/-- Its grid is the one with these three obstacles, and the line below it may be left out. -/
theorem parse_pier : (∀ lines height width, Text.IsLines pierText.toList lines → Sizes lines height width →
      height < 2 ^ 48 ∧ width < 2 ^ 48) ∧
    parse pierText = .ok (ofObstacles 3 4 [⟨0, 1⟩, ⟨2, 1⟩, ⟨2, 3⟩]) ∧
    parse "type octile\nheight +3 rows\n width 04\n map\t\n.@..  \n....\n.é.#\u3000" = parse pierText := by
  have hpier : Text.lines pierText.toList = pierLines ["beyond".toList] := by decide
  have small : ∀ lines height width, Text.IsLines pierText.toList lines → Sizes lines height width →
      height < 2 ^ 48 ∧ width < 2 ^ 48 := by
    intro lines height width hlines hsizes
    obtain ⟨hheight, hwidth⟩ := hsizes.read
    rw [← hlines.lines_eq, hpier] at hheight hwidth
    cases hheight.symm.trans (show readHeader .height (pierLines ["beyond".toList])[1]? = .ok 3 by decide)
    cases hwidth.symm.trans (show readHeader .width (pierLines ["beyond".toList])[2]? = .ok 4 by decide)
    decide
  obtain ⟨lines, hlines, -, hbuilt, halike⟩ := parse_exact pierText small
  obtain rfl : pierLines ["beyond".toList] = lines := by rw [← hlines.lines_eq, hpier]
  obtain ⟨g, hg, hparse⟩ := hbuilt 3 4 pierRows layout_pier
  obtain rfl : ofObstacles 3 4 [⟨0, 1⟩, ⟨2, 1⟩, ⟨2, 3⟩] = g := Option.some.inj hg
  exact ⟨small, hparse, halike _ (pierLines []) (Text.isLines_iff.mpr (by decide)) (.below gives_pier.1)⟩

end Mapf.Grid
