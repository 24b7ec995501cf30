/-! # Ways of drawing

Whoever draws from a source of randomness knows what is drawn, but not how: elements of lists, orders and places are
drawn in ways that are given with the source. -/

namespace Mapf.Random

/-- Ways of drawing from sources of type `ρ`. A draw that does not come to an end has no result. -/
structure Draws (ρ : Type) where
  /-- Draws an element of a list; an empty list has none. -/
  choose {α : Type} : List α → ρ → Option (Option α × ρ)
  /-- Puts the elements of a list in any order. -/
  shuffle {α : Type} : List α → ρ → Option (List α × ρ)
  /-- Draws `amount` different numbers below `size`. -/
  select (size amount : Nat) : ρ → Option (List Nat × ρ)

end Mapf.Random
