import Mapf.Environment
import Mapf.Storage

/-! # Grid maps

A grid of rows and columns in which some tiles are blocked. Agents move at cost 1 between passable
tiles that share a side; every passable tile keeps the list of the tiles it leads to, in the order up,
down, left, right. -/

namespace Mapf

/-- A tile of a grid, with the passable tiles around it; a blocked tile leads nowhere. -/
structure Tile where
  passable : Bool
  neighbors : List Position
  deriving DecidableEq

/-- A rectangular grid, row by row. -/
structure Grid where
  height : Nat
  width : Nat
  tiles : Array (Array Tile)
  deriving DecidableEq

namespace Grid

def wordCount : Nat := 18446744073709551616

/-- A word of 64 bits read as a signed number. -/
def signed (n : Nat) : Int := Int.bmod n wordCount

/-- The points that share a side with a point: up, down, left, right. -/
def around (x y : Int) : List (Int × Int) := [(x - 1, y), (x + 1, y), (x, y - 1), (x, y + 1)]

/-- Whether a point is a passable tile of `rows`, which say for every tile whether it is passable. -/
def openAt (height width : Nat) (rows : Array (Array Bool)) (x y : Int) : Bool :=
  0 ≤ x && 0 ≤ y && x < signed height && y < signed width && (rows.getD x.toNat #[]).getD y.toNat false

/-- The passable tiles around a position of a grid with these rows. Coordinates count as signed words,
    so the greatest word is the coordinate before the first one. -/
def openAround (height width : Nat) (rows : Array (Array Bool)) (p : Position) : List Position :=
  ((around (signed p.x) (signed p.y)).filter fun (x, y) => openAt height width rows x y).map
    fun (x, y) => ⟨x.toNat, y.toNat⟩

/-- The grid of `rows`, with the neighbors of every tile. -/
def ofRows (height width : Nat) (rows : Array (Array Bool)) : Grid where
  height := height
  width := width
  tiles := rows.mapIdx fun x row => row.mapIdx fun y passable =>
    ⟨passable, if passable then openAround height width rows ⟨x, y⟩ else []⟩

/-- The grid in which exactly the `obstacles` are blocked; obstacles outside do not count. -/
def ofObstacles (height width : Nat) (obstacles : List Position) : Grid :=
  ofRows height width (Array.ofFn fun x : Fin height => Array.ofFn fun y : Fin width =>
    !obstacles.contains ⟨x, y⟩)

def tileBytes : Nat := 32

/-- The bytes that a row takes in the list of rows. -/
def rowBytes : Nat := 24

/-- The grid in which exactly the `obstacles` are blocked; `none` when no grid of that size can be
    stored. -/
def ofObstacles? (height width : Nat) (obstacles : List Position) : Option Grid :=
  if Storage.fits tileBytes width && Storage.fits rowBytes height then
    some (ofObstacles height width obstacles)
  else none

def tile? (g : Grid) (p : Position) : Option Tile := do
  let row ← g.tiles[p.x]?
  row[p.y]?

def isPassable (g : Grid) (p : Position) : Bool :=
  p.x < g.height && p.y < g.width && (g.tile? p).any Tile.passable

def rows (g : Grid) : Array (Array Bool) := g.tiles.map fun row => row.map Tile.passable

/-- The passable tiles around a position, which need not lie in the grid. -/
def passableAround (g : Grid) (p : Position) : List Position := openAround g.height g.width g.rows p

/-- Moves between passable tiles that share a side. -/
def environment (g : Grid) : Environment where
  contains := g.isPassable
  neighbors p :=
    if g.isPassable p then ((g.tile? p).elim [] Tile.neighbors).map (·, 1) else []
  edgeCost p q :=
    if g.isPassable p && g.isPassable q &&
        (p.x - q.x) + (q.x - p.x) + ((p.y - q.y) + (q.y - p.y)) = 1 then some 1
    else none

def positions (g : Grid) : List Position :=
  (List.range g.height).flatMap fun x => (List.range g.width).map fun y => ⟨x, y⟩

end Grid

end Mapf
