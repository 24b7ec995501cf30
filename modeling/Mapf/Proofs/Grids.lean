import Mapf.Proofs.Lawful
import Mapf.Proofs.Layouts
import Mathlib.Data.Finset.Prod

/-! # Grids as environments

The moves of a grid are those between passable tiles that share a side, as long as both sizes are smaller
than half the number of words; a larger grid has no moves at all (`Grid.mem_neighbors_iff`). So every grid
that can be built has symmetric edges, all of cost 1, between finitely many positions. -/

namespace Mapf.Grid

/-- The grids that can be built: from obstacles, or from the text of a map. -/
inductive Built : Grid → Prop
  | placed {height width : Nat} {obstacles : List Position} {g : Grid} :
      ofObstacles? height width obstacles = some g → Built g
  | parsed {text : String} {g : Grid} : parse text = .ok g → Built g

/-! ### Coordinates -/

/-- Sizes for which coordinates are not confused with negative numbers. -/
def half : Nat := 9223372036854775808

theorem signed_of_lt {n : Nat} (h : n < half) : signed n = n := by
  rw [half] at h
  rw [signed, wordCount, Int.bmod_def]
  split <;> omega

theorem signed_neg {n : Nat} (h : half ≤ n) (hw : n < wordCount) : signed n < 0 := by
  rw [half] at h
  rw [wordCount] at hw
  rw [signed, wordCount, Int.bmod_def]
  split <;> omega

/-- Whether two positions share a side. -/
def Adjacent (p q : Position) : Prop := (p.x - q.x) + (q.x - p.x) + ((p.y - q.y) + (q.y - p.y)) = 1

theorem Adjacent.symm {p q : Position} (h : Adjacent p q) : Adjacent q p := by
  unfold Adjacent at *
  omega

/-! ### The tiles -/

variable {height width : Nat} {rows : Array (Array Bool)} {p q : Position}

theorem tile?_ofRows : (ofRows height width rows).tile? p =
    (rows[p.x]?.bind fun row => row[p.y]?).map fun passable =>
      ⟨passable, if passable then openAround height width rows p else []⟩ := by
  simp only [tile?, ofRows, Array.getElem?_mapIdx]
  cases rows[p.x]? with
  | none => rfl
  | some row => simp [Array.getElem?_mapIdx]

theorem isPassable_ofRows : (ofRows height width rows).isPassable p = true ↔
    p.x < height ∧ p.y < width ∧ (rows.getD p.x #[]).getD p.y false = true := by
  simp only [isPassable, tile?_ofRows, Bool.and_eq_true, decide_eq_true_eq, and_assoc, Array.getD_eq_getD_getElem?]
  refine and_congr_right fun _ => and_congr_right fun _ => ?_
  show (Option.map _ (rows[p.x]?.bind fun row => row[p.y]?)).any Tile.passable = true ↔ _
  cases rows[p.x]? with
  | none => simp
  | some row =>
    cases hrow : row[p.y]? <;> simp [hrow]

/-- The open tiles around a position of a grid that is not too large. -/
theorem mem_openAround (hh : height < wordCount) (hw : width < wordCount) (hp : p.x < height ∧ p.y < width) :
    q ∈ openAround height width rows p ↔ height < half ∧ width < half ∧
      (ofRows height width rows).isPassable q = true ∧ Adjacent p q := by
  have hopen : ∀ {x y : Int}, openAt height width rows x y = true ↔
      0 ≤ x ∧ 0 ≤ y ∧ x < signed height ∧ y < signed width ∧ (rows.getD x.toNat #[]).getD y.toNat false = true := by
    intro x y
    simp only [openAt, Bool.and_eq_true, decide_eq_true_eq, and_assoc]
  simp only [openAround, List.mem_map, List.mem_filter, hopen, isPassable_ofRows, Prod.exists]
  rcases Nat.lt_or_ge height half with hh' | hh'
  case inr =>
    have := signed_neg hh' hh
    constructor
    · rintro ⟨x, y, ⟨-, hx, -, hlt, -⟩, -⟩
      omega
    · rintro ⟨h, -⟩
      omega
  rcases Nat.lt_or_ge width half with hw' | hw'
  case inr =>
    have := signed_neg hw' hw
    constructor
    · rintro ⟨x, y, ⟨-, -, hy, -, hlt, -⟩, -⟩
      omega
    · rintro ⟨-, h, -⟩
      omega
  rw [signed_of_lt hh', signed_of_lt hw', signed_of_lt (Nat.lt_trans hp.1 hh'), signed_of_lt (Nat.lt_trans hp.2 hw')]
  constructor
  · rintro ⟨x, y, ⟨haround, hx, hy, hx', hy', hrow⟩, rfl⟩
    refine ⟨hh', hw', ⟨by simp only; omega, by simp only; omega, hrow⟩, ?_⟩
    simp only [around, List.mem_cons, Prod.mk.injEq, List.not_mem_nil, or_false] at haround
    unfold Adjacent
    simp only
    omega
  · rintro ⟨-, -, ⟨hx, hy, hrow⟩, hadj⟩
    refine ⟨q.x, q.y, ⟨?_, by omega, by omega, by omega, by omega, hrow⟩, rfl⟩
    simp only [around, List.mem_cons, Prod.mk.injEq, List.not_mem_nil, or_false]
    unfold Adjacent at hadj
    omega

/-- No tile is listed twice: of the four points around a tile, those that are tiles are different positions. -/
theorem nodup_openAround (height width : Nat) (rows : Array (Array Bool)) (p : Position) :
    (openAround height width rows p).Nodup := by
  have haround : ∀ x y : Int, (around x y).Nodup := by
    intro x y
    simp only [around, List.nodup_cons, List.mem_cons, Prod.mk.injEq, List.not_mem_nil, or_false, List.nodup_nil,
      and_true, not_false_eq_true]
    omega
  refine List.Nodup.map_on ?_ ((haround _ _).filter _)
  rintro ⟨x, y⟩ hxy ⟨x', y'⟩ hxy' heq
  obtain ⟨-, hopen⟩ := List.mem_filter.mp hxy
  obtain ⟨-, hopen'⟩ := List.mem_filter.mp hxy'
  simp only [openAt, Bool.and_eq_true, decide_eq_true_eq] at hopen hopen'
  obtain ⟨hx, hy⟩ := Position.mk.inj heq
  rw [Prod.mk.injEq]
  omega

/-! ### The environment -/

theorem neighbors_eq (g : Grid) (p : Position) : g.environment.neighbors p =
    if g.isPassable p then ((g.tile? p).elim [] Tile.neighbors).map (·, 1) else [] := rfl

theorem neighbors_of_isPassable (hp : (ofRows height width rows).isPassable p = true) :
    (ofRows height width rows).environment.neighbors p = (openAround height width rows p).map (·, 1) := by
  rw [neighbors_eq, if_pos hp, tile?_ofRows]
  obtain ⟨-, -, hrow⟩ := isPassable_ofRows.mp hp
  simp only [Array.getD_eq_getD_getElem?] at hrow
  cases hx : rows[p.x]? with
  | none => simp [hx] at hrow
  | some row =>
    cases hy : row[p.y]? with
    | none => simp [hx, hy] at hrow
    | some passable =>
      obtain rfl : passable = true := by simpa [hx, hy] using hrow
      rw [Option.bind_some, hy, Option.map_some, if_pos rfl, Option.elim_some]

theorem mem_neighbors_iff (hh : height < wordCount) (hw : width < wordCount) {c : Nat} :
    (q, c) ∈ (ofRows height width rows).environment.neighbors p ↔ height < half ∧ width < half ∧
      (ofRows height width rows).isPassable p = true ∧ (ofRows height width rows).isPassable q = true ∧
      Adjacent p q ∧ c = 1 := by
  by_cases hp : (ofRows height width rows).isPassable p = true
  case neg => simp [neighbors_eq, hp]
  case pos =>
    obtain ⟨hx, hy, -⟩ := isPassable_ofRows.mp hp
    rw [neighbors_of_isPassable hp, List.mem_map]
    simp only [Prod.mk.injEq, mem_openAround hh hw ⟨hx, hy⟩]
    constructor
    · rintro ⟨r, ⟨hh', hw', hr, hadj⟩, rfl, rfl⟩
      exact ⟨hh', hw', hp, hr, hadj, rfl⟩
    · rintro ⟨hh', hw', -, hq, hadj, rfl⟩
      exact ⟨q, ⟨hh', hw', hq, hadj⟩, rfl, rfl⟩

theorem edgeCost_eq_some_iff {g : Grid} {c : Nat} : g.environment.edgeCost p q = some c ↔
    g.isPassable p = true ∧ g.isPassable q = true ∧ Adjacent p q ∧ c = 1 := by
  show (if g.isPassable p && g.isPassable q && _ then some 1 else none) = some c ↔ _
  rw [Option.ite_none_right_eq_some, Option.some.injEq, @eq_comm _ 1 c]
  simp only [Bool.and_eq_true, decide_eq_true_eq, and_assoc, Adjacent]

theorem edgeCost_isSome_iff {g : Grid} : (g.environment.edgeCost p q).isSome ↔
    g.isPassable p = true ∧ g.isPassable q = true ∧ Adjacent p q := by
  simp [Option.isSome_iff_exists, edgeCost_eq_some_iff]

theorem mem_neighbors_symm (hh : height < wordCount) (hw : width < wordCount) {c : Nat}
    (h : (q, c) ∈ (ofRows height width rows).environment.neighbors p) :
    (p, c) ∈ (ofRows height width rows).environment.neighbors q := by
  obtain ⟨hh', hw', hp, hq, hadj, hc⟩ := (mem_neighbors_iff hh hw).mp h
  exact (mem_neighbors_iff hh hw).mpr ⟨hh', hw', hq, hp, hadj.symm, hc⟩

theorem lt_wordCount {n : Nat} (h : n < half) : n < wordCount := Nat.lt_trans h (by decide)

/-- On a grid that is not too large the cost of a move and the list of the moves say the same. -/
theorem edgeCost_eq_some_iff_mem (hh : height < half) (hw : width < half) {c : Nat} :
    (ofRows height width rows).environment.edgeCost p q = some c ↔
      (q, c) ∈ (ofRows height width rows).environment.neighbors p := by
  rw [edgeCost_eq_some_iff, mem_neighbors_iff (lt_wordCount hh) (lt_wordCount hw)]
  simp only [hh, hw, true_and]

/-- The positions between which a grid has moves. -/
def cells (g : Grid) : Finset Position :=
  (Finset.range g.height ×ˢ Finset.range g.width).image fun x => ⟨x.1, x.2⟩

theorem mem_cells {g : Grid} (h : g.isPassable p = true) : p ∈ g.cells := by
  simp only [isPassable, Bool.and_eq_true, decide_eq_true_eq] at h
  exact Finset.mem_image.mpr ⟨(p.x, p.y), by simp [h.1.1, h.1.2], rfl⟩

theorem within_ofRows (hh : height < wordCount) (hw : width < wordCount) :
    (ofRows height width rows).environment.Within (ofRows height width rows).cells :=
  ⟨mem_cells, fun hm => mem_cells ((mem_neighbors_iff hh hw).mp hm).2.2.2.1⟩

theorem lawful_ofRows (hh : height < half) (hw : width < half) :
    (ofRows height width rows).environment.Lawful where
  finite := ⟨_, within_ofRows (lt_wordCount hh) (lt_wordCount hw)⟩
  symmetric := mem_neighbors_symm (lt_wordCount hh) (lt_wordCount hw)
  coherent := by simp only [Option.isSome_iff_exists, edgeCost_eq_some_iff_mem hh hw, implies_true]

/-! ### Grids that can be built -/

theorem Layout.lt {lines : List (List Char)} {chars : List (List Char)} (h : Layout lines height width chars) :
    height < wordCount ∧ width < wordCount := by
  obtain ⟨-, -, -, -, -, ⟨_, -, -, hheight⟩, ⟨_, -, -, hwidth⟩⟩ := h.sizes
  exact ⟨hheight.lt, hwidth.lt⟩

theorem Built.eq_ofRows {g : Grid} (h : Built g) : ∃ height width rows, g = ofRows height width rows ∧
    height < wordCount ∧ width < wordCount := by
  cases h with
  | @placed height width obstacles _ h =>
    unfold ofObstacles? at h
    split at h
    case isFalse => cases h
    case isTrue hfits =>
      cases h
      rw [Bool.and_eq_true, Storage.fits, Storage.fits, decide_eq_true_iff, decide_eq_true_iff, Storage.maxBytes,
        tileBytes, rowBytes] at hfits
      refine ⟨height, width, _, rfl, ?_, ?_⟩ <;> rw [wordCount] <;> omega
  | parsed h =>
    obtain ⟨height, width, rows, hlayout, -, rfl⟩ := ofLines_eq_ok_iff.mp h
    exact ⟨height, width, _, rfl, hlayout.lt⟩

theorem Built.navigable {g : Grid} (h : Built g) : g.environment.Navigable := by
  obtain ⟨height, width, rows, rfl, hh, hw⟩ := h.eq_ofRows
  refine ⟨mem_neighbors_symm hh hw, fun hm => ?_⟩
  obtain ⟨-, -, hp, hq, hadj, -⟩ := (mem_neighbors_iff hh hw).mp hm
  exact edgeCost_isSome_iff.mpr ⟨hp, hq, hadj⟩

theorem Built.within {g : Grid} (h : Built g) : g.environment.Within g.cells := by
  obtain ⟨height, width, rows, rfl, hh, hw⟩ := h.eq_ofRows
  exact within_ofRows hh hw

theorem Built.cost_pos {g : Grid} (h : Built g) {p q : Position} {c : Nat} (hm : (q, c) ∈ g.environment.neighbors p) :
    1 ≤ c := by
  obtain ⟨height, width, rows, rfl, hh, hw⟩ := h.eq_ofRows
  exact Nat.le_of_eq ((mem_neighbors_iff hh hw).mp hm).2.2.2.2.2.symm

end Mapf.Grid
