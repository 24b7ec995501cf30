import Mapf.Proofs.Distances.Exact
import Mapf.Proofs.Strict.Distances

/-! # Distances in words

The only sums of a table are those of a settled distance and the cost of a move. As long as they are words, a table is
the same however a machine adds (`DistanceTable.Strict.build_eq_of_inWords`), and so it is exact. -/

namespace Mapf.DistanceTable

open Mapf.Strict

variable {env : Environment} {goal : Position} {rounds : Nat} {sums : Sums} {table : DistanceTable}

namespace Strict

theorem build_eq_of_inWords (fits : InWords (build .checked rounds env goal)) (sums : Sums) :
    build sums rounds env goal = .ok (DistanceTable.build rounds env goal) :=
  InWords.eq_ok (f := fun sums => build sums rounds env goal) fits
    (fun sums => build_lags sums rounds env goal) (build_eq rounds env goal) sums

/-- A table that was finished in words is in words for any number of rounds. -/
theorem inWords_of_build (h : build .checked rounds env goal = .ok (some table)) (n : Nat) :
    InWords (build .checked n env goal) :=
  .of_awaits (build_awaits .checked env goal) h n

end Strict

/-- In a finite environment where all sums are words, every table is finished, however the machine adds. If the goal is
    inside, it lists just the positions to which some way leads from there, each with the least cost of all such ways;
    otherwise it lists nothing. Where edges are symmetric, the costs are also those of the ways to the goal. -/
theorem build_exact_of_inWords (finite : ∃ cells, env.Within cells) (goal : Position)
    (fits : ∀ rounds, InWords (Strict.build .checked rounds env goal)) (sums : Sums) :
    ∃ table, (∃ least, ∀ rounds ≥ least, Strict.build sums rounds env goal = .ok (some table)) ∧
      (env.contains goal = true → ∀ p, (∀ d, table.get? p = some d ↔ IsLeast (env.wayCosts goal p) d) ∧
        (table.get? p = none ↔ env.wayCosts goal p = ∅)) ∧
      (env.contains goal = false → ∀ p, table.get? p = none) ∧
      ((∀ {p q : Position} {c : Nat}, (q, c) ∈ env.neighbors p → (p, c) ∈ env.neighbors q) →
        env.contains goal = true → ∀ p, (∀ d, table.get? p = some d ↔ IsLeast (env.wayCosts p goal) d) ∧
          (table.get? p = none ↔ env.wayCosts p goal = ∅)) := by
  obtain ⟨table, ⟨least, hends⟩, hexact⟩ := build_exact finite goal
  refine ⟨table, ⟨least, fun rounds hr => ?_⟩, hexact⟩
  rw [Strict.build_eq_of_inWords (fits rounds) sums, hends rounds hr]

/-- Three places in a row, of which the first two are as far apart as a word can tell. -/
def longRoad : Environment where
  contains p := p.x = 0 && p.y < 3
  neighbors p :=
    if p.y = 0 then [(⟨0, 1⟩, 18446744073709551615)]
    else if p.y = 1 then [(⟨0, 0⟩, 18446744073709551615), (⟨0, 2⟩, 1)]
    else [(⟨0, 1⟩, 1)]

/-- The far end is out of the reach of words: a machine stops, or is told that it is at its goal. -/
example : Strict.build .checked 10 longRoad ⟨0, 2⟩ = .error .overflow ∧
    (Strict.build .wrapping 10 longRoad ⟨0, 2⟩).map (Option.map (get? · ⟨0, 0⟩)) = .ok (some (some 0)) := by
  constructor <;> cbv

/-- Two ways from a place to another, of which the longer one is cheaper. One edge is listed twice, one is free. -/
def byway : List (Position × Position × Nat) :=
  [(⟨0, 0⟩, ⟨0, 1⟩, 5), (⟨0, 0⟩, ⟨0, 1⟩, 4), (⟨0, 0⟩, ⟨1, 0⟩, 1), (⟨1, 0⟩, ⟨1, 1⟩, 0), (⟨1, 1⟩, ⟨0, 1⟩, 2)]

/-- The places on the byway and one apart from them. -/
def bywayPlaces : List Position := [⟨0, 0⟩, ⟨0, 1⟩, ⟨1, 0⟩, ⟨1, 1⟩, ⟨2, 2⟩]

/-- The byway, open in both directions. -/
def bywayEnvironment : Environment where
  contains p := p ∈ bywayPlaces
  neighbors p := (byway ++ byway.map fun e => (e.2.1, e.1, e.2.2)).filterMap fun e =>
    if e.1 = p then some e.2 else none

theorem mem_neighbors_byway {p q : Position} {c : Nat} :
    (q, c) ∈ bywayEnvironment.neighbors p ↔ (p, q, c) ∈ byway ∨ (q, p, c) ∈ byway := by
  simp only [bywayEnvironment, List.mem_filterMap, List.mem_append, List.mem_map]
  constructor
  · rintro ⟨e, h, he⟩
    obtain ⟨hp, hq⟩ : e.1 = p ∧ e.2 = (q, c) := by simpa using he
    obtain rfl : e = (p, q, c) := Prod.ext hp hq
    rcases h with h | ⟨_, h, hflip⟩
    · exact .inl h
    · cases hflip
      exact .inr h
  · rintro (h | h)
    · exact ⟨_, .inl h, if_pos rfl⟩
    · exact ⟨_, .inr ⟨_, h, rfl⟩, if_pos rfl⟩

theorem within_byway : bywayEnvironment.Within bywayPlaces.toFinset := by
  have hplaces : ∀ e ∈ byway, e.1 ∈ bywayPlaces ∧ e.2.1 ∈ bywayPlaces := by decide
  refine ⟨fun hp => List.mem_toFinset.mpr (of_decide_eq_true hp), fun hm => List.mem_toFinset.mpr ?_⟩
  rcases mem_neighbors_byway.mp hm with he | he
  · exact (hplaces _ he).2
  · exact (hplaces _ he).1

theorem build_byway : (Strict.build .checked 10 bywayEnvironment ⟨0, 0⟩).map
    (Option.map fun table => (table.get? ⟨0, 1⟩, table.get? ⟨2, 2⟩)) = .ok (some (some 3, none)) := by
  cbv

/-- The direct edge is seen at 5 and then at 4, and the byway is cheaper still; the place apart has no way. -/
theorem isLeast_byway : (∀ rounds, InWords (Strict.build .checked rounds bywayEnvironment ⟨0, 0⟩)) ∧
    IsLeast (bywayEnvironment.wayCosts ⟨0, 1⟩ ⟨0, 0⟩) 3 ∧ bywayEnvironment.wayCosts ⟨2, 2⟩ ⟨0, 0⟩ = ∅ := by
  obtain ⟨table, htable, hget⟩ := ok_some_of_map build_byway
  have fits := Strict.inWords_of_build htable
  obtain ⟨_, ⟨least, hends⟩, -, -, hexact⟩ := build_exact_of_inWords ⟨_, within_byway⟩ ⟨0, 0⟩ fits .checked
  cases (hends _ (le_max_left least 10)).symm.trans
    ((Strict.build_awaits .checked _ _ (le_max_right least 10)).eq_some htable)
  have hexact := hexact (fun hm => mem_neighbors_byway.mpr (mem_neighbors_byway.mp hm).symm) rfl
  exact ⟨fits, ((hexact _).1 _).mp (Prod.mk.inj hget).1, (hexact _).2.mp (Prod.mk.inj hget).2⟩

end Mapf.DistanceTable
