import Mapf.Proofs.Plans
import Mapf.Proofs.Search.Moves
import Mapf.Proofs.Strict.Queue
import Mapf.Proofs.Strict.Sums

/-! # Nodes that a search is sure to find

A best-first search rereads a node when a cheaper way into its state turns up, and follows predecessors when it has
found a goal. Each node is where the search expects it, and the walk back comes to the initial state
(`BestFirst.Strict.search_eq`). The queue accepts every state, because it was looked up before
(`BestFirst.not_internal_of_search`).

A search adds up costs, and the planner also times: of the time of a cell, and of the time at which it stops. -/

namespace Mapf

open Mapf.Strict

/-- What only a flaw of the search itself could make it say. -/
inductive SearchError.Internal : SearchError → Prop
  | queue (e : QueueError) : Internal (.queue e)
  | indexOutOfRange : Internal .indexOutOfRange

namespace Arena.Strict

variable {σ : Type}

def reroute (a : Arena σ) (id g : Nat) (parent : Option Nat) : Except Fault (Arena σ) := do
  let _ ← element a.nodes id
  return a.reroute id g parent

/-- Follows predecessors to a node without one, over at most `limit` nodes. -/
def walkBack (a : Arena σ) : (limit : Nat) → (id : Nat) → (rest : List σ) → Except Fault (List σ)
  | 0, _, _ => .error .circular
  | limit + 1, id, rest => do
    let node ← element a.nodes id
    match node.parent with
    | none => return node.state :: rest
    | some parent => walkBack a limit parent (node.state :: rest)

def pathTo (a : Arena σ) (id : Nat) : Except Fault (List σ) := walkBack a a.size id []

variable {a : Arena σ} {id : Nat} {rest path : List σ}

theorem reroute_eq {node : SearchNode σ} (h : a.get? id = some node) (g : Nat) (parent : Option Nat) :
    reroute a id g parent = .ok (a.reroute id g parent) := by
  rw [reroute, element_eq h]
  rfl

theorem walkBack_eq {limit : Nat} (h : a.walkBack limit id rest = some path) : walkBack a limit id rest = .ok path := by
  fun_induction Arena.walkBack a limit id rest with
  | case1 => cases h
  | case2 => cases h
  | case3 limit id rest node hnode hparent =>
    cases h
    rw [walkBack, element_eq hnode, ok_bind, hparent]
    rfl
  | case4 limit id rest node hnode parent hparent ih =>
    rw [walkBack, element_eq hnode, ok_bind, hparent]
    exact ih h

theorem pathTo_eq (h : a.pathTo? id = some path) : pathTo a id = .ok path := walkBack_eq h

end Arena.Strict

namespace BestFirst

variable {σ : Type} [BEq σ] [Hashable σ]

namespace Strict

def enqueue (s : Progress σ) (state : σ) (g h f : Nat) (parent : Option Nat) :
    Except Fault (Except SearchError (Progress σ)) := do
  match ← Queue.Strict.insert s.waiting state ⟨s.arena.size, g, f⟩ with
  | .error e => return .error (.queue e)
  | .ok waiting => return .ok { s with arena := s.arena.push ⟨state, g, h, parent⟩, waiting := waiting }

def improve (s : Progress σ) (state : σ) (id g f parent : Nat) :
    Except Fault (Except SearchError (Progress σ)) := do
  let arena ← Arena.Strict.reroute s.arena id g (some parent)
  match ← Queue.Strict.update s.waiting state fun entry => { entry with g := g, f := f } with
  | .error e => return .error (.queue e)
  | .ok waiting => return .ok { s with arena := arena, waiting := waiting }

def start (problem : Problem σ) (prune : Pruning σ) :
    Except Fault (Round (Progress σ) (SearchReport (Outcome σ))) := do
  let s : Progress σ := ⟨.empty, .empty, ∅, Counters.zero.recordGeneration⟩
  if prune problem.initial none then return .done ⟨.error .noPathFound, s.counters.recordPruned⟩
  else
    match problem.heuristic problem.initial with
    | none => return .done ⟨.error .noPathFound, s.counters⟩
    | some h =>
      let s := s.count .recordEvaluation
      match ← enqueue s problem.initial 0 h h none with
      | .ok s => return .next s
      | .error e => return .done ⟨.error e, s.counters⟩

def visit (sums : Sums) (problem : Problem σ) (prune : Pruning σ) (state : σ) (entry : OpenEntry) (s : Progress σ)
    (move : σ × Nat) : Except Fault (Except SearchError (Progress σ)) := do
  let child := move.1
  if s.closed.contains child then return .ok s
  else
    let s := s.count .recordGeneration
    if prune child (some state) then return .ok (s.count .recordPruned)
    else
      match problem.heuristic child with
      | none => return .ok s
      | some h =>
        let s := s.count .recordEvaluation
        let g ← sums.add entry.g move.2
        match ← Queue.Strict.get? s.waiting child with
        | some known =>
          if g < known.g then improve s child known.node g (← sums.add g h) entry.node else return .ok s
        | none => enqueue s child g h (← sums.add g h) (some entry.node)

def visitAll (sums : Sums) (problem : Problem σ) (prune : Pruning σ) (state : σ) (entry : OpenEntry) (s : Progress σ) :
    List (σ × Nat) → Except Fault (Except SearchError (Progress σ))
  | [] => return .ok s
  | move :: rest => do
    match ← visit sums problem prune state entry s move with
    | .error e => return .error e
    | .ok s => visitAll sums problem prune state entry s rest

/-- Finding the moves out of a state may be a matter of sums, too. -/
def expand (sums : Sums) (moves : σ → Except Fault (List (σ × Nat))) (problem : Problem σ) (prune : Pruning σ)
    (state : σ) (entry : OpenEntry) (s : Progress σ) :
    Except Fault (Round (Progress σ) (SearchReport (Outcome σ))) := do
  let s := { s with closed := s.closed.insert state }.count .recordExpansion
  match ← visitAll sums problem prune state entry s (← moves state) with
  | .ok s => return .next s
  | .error e => return .done ⟨.error e, s.counters⟩

def round (sums : Sums) (moves : σ → Except Fault (List (σ × Nat))) (problem : Problem σ) (prune : Pruning σ)
    (deadline : Deadline) (s : Progress σ) : Except Fault (Round (Progress σ) (SearchReport (Outcome σ))) := do
  match ← Queue.Strict.popMin s.waiting with
  | .error _ => return .done ⟨.error .noPathFound, s.counters⟩
  | .ok ((state, entry), waiting) =>
    let k := s.counters.expanded
    if k % deadlineInterval = 0 ∧ deadline.expired k then return .done ⟨.error .budgetExceeded, s.counters⟩
    else if problem.isGoal state then
      return .done ⟨.ok ⟨← Arena.Strict.pathTo s.arena entry.node, entry.g⟩, s.counters⟩
    else expand sums moves problem prune state entry { s with waiting := waiting }

def searchBy (sums : Sums) (moves : σ → Except Fault (List (σ × Nat))) (rounds : Nat) (problem : Problem σ)
    (prune : Pruning σ) (deadline : Deadline) : Except Fault (Option (SearchReport (Outcome σ))) := do
  match ← start problem prune with
  | .done report => return some report
  | .next s => Loop.Strict.run (fun s => return some (← round sums moves problem prune deadline s)) rounds s

def search (sums : Sums) (rounds : Nat) (problem : Problem σ) (prune : Pruning σ) (deadline : Deadline) :
    Except Fault (Option (SearchReport (Outcome σ))) :=
  searchBy sums (fun a => .ok (problem.successors a)) rounds problem prune deadline

/-! ### No fault -/

variable {P : Problem σ} {prune : Pruning σ} {s : Progress σ} {moves : σ → Except Fault (List (σ × Nat))}

theorem enqueue_eq (s : Progress σ) (state : σ) (g h : Nat) (parent : Option Nat) :
    enqueue s state g h (g + h) parent = .ok (s.enqueue state g h parent) := by
  rw [enqueue, Queue.Strict.insert_eq, ok_bind, Progress.enqueue]
  cases s.waiting.insert state ⟨s.arena.size, g, g + h⟩ <;> rfl

theorem improve_eq (hq : s.waiting.Indexed) {id : Nat} {node : SearchNode σ} (hnode : s.arena.get? id = some node)
    (state : σ) (g h parent : Nat) : improve s state id g (g + h) parent = .ok (s.improve state id g h parent) := by
  rw [improve, Arena.Strict.reroute_eq hnode, ok_bind, Queue.Strict.update_eq hq, ok_bind, Progress.improve]
  cases s.waiting.update state fun entry => { entry with g := g, f := g + h } <;> rfl

theorem start_eq (P : Problem σ) (prune : Pruning σ) : start P prune = .ok (BestFirst.start P prune) := by
  unfold start BestFirst.start
  dsimp only
  split
  case isTrue => rfl
  case isFalse =>
    cases P.heuristic P.initial with
    | none => rfl
    | some h =>
      have henqueue : ∀ s, enqueue s P.initial 0 h h none = .ok (Progress.enqueue s P.initial 0 h none) := fun s => by
        have henqueue := enqueue_eq s P.initial 0 h none
        rwa [Nat.zero_add] at henqueue
      dsimp only
      rw [henqueue, ok_bind]
      cases Progress.enqueue _ P.initial 0 h none <;> rfl

open Progress

/-- A state that waits has its node in the arena. -/
theorem visit_eq (hs : Linked P prune s) (a : σ) (e : OpenEntry) (m : σ × Nat) :
    visit .numbers P prune a e s m = .ok (BestFirst.visit P prune a e s m) := by
  unfold visit BestFirst.visit
  dsimp only
  split
  case isTrue => rfl
  case isFalse =>
    split
    case isTrue => rfl
    case isFalse =>
      cases P.heuristic m.1 with
      | none => rfl
      | some h =>
        have hget : Queue.Strict.get? s.waiting m.1 = .ok (s.waiting.get? m.1) :=
          Queue.Strict.get?_eq hs.valid.indexed m.1
        simp only [count, Sums.numbers_add, hget, ok_bind]
        cases hw : s.waiting.get? m.1 with
        | none => exact enqueue_eq _ _ _ _ _
        | some known =>
          dsimp only
          split
          case isFalse => rfl
          case isTrue =>
            obtain ⟨_, _, hnode, -⟩ := hs.entry hw
            exact improve_eq (s := (s.count .recordGeneration).count .recordEvaluation) hs.valid.indexed hnode _ _ _ _

variable [LawfulBEq σ]

theorem visitAll_eq {a : σ} {e : OpenEntry} {l rest : List (σ × Nat)} (hs : Opened P prune a e (l ++ rest) s) :
    visitAll .numbers P prune a e s l = .ok (l.foldlM (BestFirst.visit P prune a e) s) := by
  induction l generalizing s with
  | nil => rfl
  | cons m l ih =>
    obtain ⟨t, ht, -, hs'⟩ := hs.visit
    rw [visitAll, visit_eq hs.searching.linked, ok_bind, List.foldlM_cons, ht]
    exact ih hs'

/-- A round comes to the same as with numbers if this is true of the moves out of the state that it expands. -/
theorem round_eq_of_moves {sums : Sums} {level : Nat} (hs : Searching P prune level (fun _ _ => False) s)
    (deadline : Deadline) (hmoves : ∀ {a e w}, s.waiting.popMin = .ok ((a, e), w) → P.isGoal a = false →
      moves a = .ok (P.successors a) ∧ visitAll sums P prune a e (s.close a w) (P.successors a) =
        .ok ((P.successors a).foldlM (BestFirst.visit P prune a e) (s.close a w))) :
    round sums moves P prune deadline s = .ok (BestFirst.round P prune deadline s) := by
  rw [round, Queue.Strict.popMin_eq, ok_bind, BestFirst.round]
  cases hpop : s.waiting.popMin with
  | error err => rfl
  | ok popped =>
    obtain ⟨⟨a, e⟩, w⟩ := popped
    obtain ⟨-, hget, -⟩ := hs.linked.valid.get?_popMin hpop
    obtain ⟨_, _, hn, -⟩ := hs.linked.entry hget
    dsimp only
    split
    case isTrue => rfl
    case isFalse =>
      split
      case isTrue =>
        obtain ⟨rest, hch, -, hnd, -⟩ := hs.linked.chain hn
        have hpath := Arena.pathTo?_of_chain hch hnd
        rw [hpath, Arena.Strict.pathTo_eq hpath]
        rfl
      case isFalse hgoal =>
        obtain ⟨hlist, hall⟩ := hmoves hpop (by simpa using hgoal)
        rw [expand, BestFirst.expand, hlist, ok_bind]
        dsimp only [count, close] at hall ⊢
        rw [hall, ok_bind]
        cases (P.successors a).foldlM (BestFirst.visit P prune a e) _ <;> rfl

theorem round_eq {level : Nat} (hmoves : ∀ a, moves a = .ok (P.successors a))
    (hs : Searching P prune level (fun _ _ => False) s) (deadline : Deadline) :
    round .numbers moves P prune deadline s = .ok (BestFirst.round P prune deadline s) := by
  refine round_eq_of_moves hs deadline fun {a e w} hpop hgoal => ⟨hmoves a, ?_⟩
  have hopened := hs.opened hpop hgoal
  rw [← List.append_nil (P.successors a)] at hopened
  exact visitAll_eq hopened

theorem searchBy_eq_of_round {sums : Sums} {prune : Pruning σ} {deadline : Deadline}
    (hround : ∀ {s level}, Searching P prune level (fun _ _ => False) s →
      round sums moves P prune deadline s = .ok (BestFirst.round P prune deadline s)) (rounds : Nat) :
    searchBy sums moves rounds P prune deadline = .ok (BestFirst.search rounds P prune deadline) := by
  rw [searchBy, start_eq, ok_bind, BestFirst.search]
  rcases start_cases P prune with ⟨counters, hstart, -⟩ | ⟨s, hstart, hs⟩
  · rw [hstart]
    rfl
  · rw [hstart]
    refine Loop.Strict.run_eq (I := fun s => ∃ level, Searching P prune level (fun _ _ => False) s)
      (fun s hs => ?agree) (fun s t hs hr => ?keep) rounds hs
    case agree =>
      obtain ⟨level, hs⟩ := hs
      rw [hround hs, ok_bind]
      rfl
    case keep =>
      obtain ⟨level, hs⟩ := hs
      exact searching_round hs (Option.some.inj hr)

theorem searchBy_eq (hmoves : ∀ a, moves a = .ok (P.successors a)) (rounds : Nat) (prune : Pruning σ)
    (deadline : Deadline) :
    searchBy .numbers moves rounds P prune deadline = .ok (BestFirst.search rounds P prune deadline) :=
  searchBy_eq_of_round (fun hs => round_eq hmoves hs deadline) rounds

/-- A search comes to the end strictly. -/
theorem search_eq (rounds : Nat) (P : Problem σ) (prune : Pruning σ) (deadline : Deadline) :
    search .numbers rounds P prune deadline = .ok (BestFirst.search rounds P prune deadline) :=
  searchBy_eq (fun _ => rfl) rounds prune deadline

omit [LawfulBEq σ]

theorem searchBy_awaits (sums : Sums) (moves : σ → Except Fault (List (σ × Nat))) (P : Problem σ) (prune : Pruning σ)
    (deadline : Deadline) {n m : Nat} (hnm : n ≤ m) :
    Awaits (searchBy sums moves n P prune deadline) (searchBy sums moves m P prune deadline) := by
  refine .bind_left _ fun first => ?_
  cases first with
  | done report => exact .refl _
  | next s => exact Loop.Strict.run_awaits (fun _ => .refl _) hnm s

/-! ### Sums -/

theorem visit_lags (sums : Sums) (P : Problem σ) (prune : Pruning σ) (a : σ) (e : OpenEntry) (s : Progress σ)
    (m : σ × Nat) : Lags (visit .checked P prune a e s m) (visit sums P prune a e s m) := by
  unfold visit
  dsimp only
  refine .ite (.refl _) (.ite (.refl _) ?_)
  cases P.heuristic m.1 with
  | none => exact .refl _
  | some h =>
    refine (Lags.add sums _ _).bind fun g => .bind_left _ fun known => ?_
    cases known with
    | none => exact (Lags.add sums _ _).bind_right _
    | some known => exact .ite ((Lags.add sums _ _).bind_right _) (.refl _)

theorem visitAll_lags (sums : Sums) (P : Problem σ) (prune : Pruning σ) (a : σ) (e : OpenEntry) (s : Progress σ)
    (l : List (σ × Nat)) : Lags (visitAll .checked P prune a e s l) (visitAll sums P prune a e s l) := by
  induction l generalizing s with
  | nil => exact .refl _
  | cons m rest ih =>
    refine (visit_lags sums P prune a e s m).bind fun r => ?_
    cases r with
    | error err => exact .refl _
    | ok s => exact ih s

variable {moves moves' : σ → Except Fault (List (σ × Nat))}

theorem round_lags (sums : Sums) (hmoves : ∀ a, Lags (moves a) (moves' a)) (P : Problem σ) (prune : Pruning σ)
    (deadline : Deadline) (s : Progress σ) :
    Lags (round .checked moves P prune deadline s) (round sums moves' P prune deadline s) := by
  refine .bind_left _ fun popped => ?_
  cases popped with
  | error err => exact .refl _
  | ok popped =>
    refine .ite (.refl _) (.ite (.refl _) ((hmoves _).bind fun l => (visitAll_lags sums P prune _ _ _ l).bind_right _))

theorem searchBy_lags (sums : Sums) (hmoves : ∀ a, Lags (moves a) (moves' a)) (rounds : Nat) (P : Problem σ)
    (prune : Pruning σ) (deadline : Deadline) :
    Lags (searchBy .checked moves rounds P prune deadline) (searchBy sums moves' rounds P prune deadline) := by
  refine .bind_left _ fun first => ?_
  cases first with
  | done report => exact .refl _
  | next s =>
    exact Loop.Strict.run_lags (fun s => (round_lags sums hmoves P prune deadline s).bind_right _) rounds s

theorem search_lags (sums : Sums) (rounds : Nat) (P : Problem σ) (prune : Pruning σ) (deadline : Deadline) :
    Lags (search .checked rounds P prune deadline) (search sums rounds P prune deadline) :=
  searchBy_lags sums (fun _ => .refl _) rounds P prune deadline

end Strict

/-- A search never blames itself. -/
theorem not_internal_of_search [LawfulBEq σ] {P : Problem σ} {prune : Pruning σ} {rounds : Nat} {deadline : Deadline}
    {report : SearchReport (Outcome σ)} (h : search rounds P prune deadline = some report) {e : SearchError}
    (he : e.Internal) : report.result ≠ .error e := by
  intro hr
  have hans := answers_of_search h
  rw [hr] at hans
  cases hans <;> cases he

end BestFirst

namespace SpaceTime.Strict

def horizon (sums : Sums) (constraints : ConstraintSet) : Except Fault Nat :=
  match constraints.maxTimeStep with
  | some time => sums.add time 1
  | none => return 0

/-- The moves out of a cell where time stops at `horizon`. -/
def successors (sums : Sums) (env : Environment) (horizon : Nat) (cell : Cell) : Except Fault (List (Cell × Nat)) := do
  let time := min (← sums.add cell.time 1) horizon
  return (env.neighbors cell.position).map (fun move => (move.1.atTime time, move.2)) ++
    [(cell.position.atTime time, waitCost)]

theorem horizon_eq (set : ConstraintSet) : horizon .numbers set = .ok (SpaceTime.horizon set) := by
  unfold horizon SpaceTime.horizon
  cases set.maxTimeStep <;> rfl

theorem successors_eq (env : Environment) (agent : Agent) (table : DistanceTable) (set : ConstraintSet) (cell : Cell) :
    successors .numbers env (SpaceTime.horizon set) cell = .ok ((problem env agent table set).successors cell) := rfl

theorem horizon_lags (sums : Sums) (set : ConstraintSet) : Lags (horizon .checked set) (horizon sums set) := by
  unfold horizon
  cases set.maxTimeStep with
  | none => exact .refl _
  | some time => exact .add sums time 1

theorem successors_lags (sums : Sums) (env : Environment) (time : Nat) (cell : Cell) :
    Lags (successors .checked env time cell) (successors sums env time cell) :=
  (Lags.add sums cell.time 1).bind_right _

end SpaceTime.Strict

namespace Plan

variable {rounds : Nat} {env : Environment} {agent : Agent} {table : DistanceTable} {set : ConstraintSet}
  {deadline : Deadline}

namespace Strict

def search (sums : Sums) (rounds : Nat) (env : Environment) (agent : Agent) (table : DistanceTable)
    (constraints : ConstraintSet) (deadline : Deadline) : Except Fault (Option (SearchReport Plan)) := do
  let horizon ← SpaceTime.Strict.horizon sums constraints
  let some report ← BestFirst.Strict.searchBy sums (SpaceTime.Strict.successors sums env horizon) rounds
    (SpaceTime.problem env agent table constraints) (SpaceTime.pruning env constraints) deadline | return none
  return some ⟨report.result.map ofOutcome, report.counters⟩

theorem search_eq (rounds : Nat) (env : Environment) (agent : Agent) (table : DistanceTable) (set : ConstraintSet)
    (deadline : Deadline) :
    search .numbers rounds env agent table set deadline = .ok (Plan.search rounds env agent table set deadline) := by
  rw [search, SpaceTime.Strict.horizon_eq, ok_bind,
    BestFirst.Strict.searchBy_eq (SpaceTime.Strict.successors_eq env agent table set), ok_bind, Plan.search]
  cases BestFirst.search rounds (SpaceTime.problem env agent table set) (SpaceTime.pruning env set) deadline <;> rfl

theorem search_awaits (sums : Sums) (env : Environment) (agent : Agent) (table : DistanceTable) (set : ConstraintSet)
    (deadline : Deadline) {n m : Nat} (hnm : n ≤ m) :
    Awaits (search sums n env agent table set deadline) (search sums m env agent table set deadline) :=
  .bind_left _ fun _ => (BestFirst.Strict.searchBy_awaits sums _ _ _ deadline hnm).bind_right rfl

theorem search_lags (sums : Sums) (rounds : Nat) (env : Environment) (agent : Agent) (table : DistanceTable)
    (set : ConstraintSet) (deadline : Deadline) :
    Lags (search .checked rounds env agent table set deadline) (search sums rounds env agent table set deadline) :=
  (SpaceTime.Strict.horizon_lags sums set).bind fun time =>
    (BestFirst.Strict.searchBy_lags sums (SpaceTime.Strict.successors_lags sums env time) rounds _ _
      deadline).bind_right _

end Strict

/-- Planning an agent never fails within. -/
theorem not_internal_of_search {report : SearchReport Plan}
    (h : search rounds env agent table set deadline = some report) {e : SearchError} (he : e.Internal) :
    report.result ≠ .error e := by
  obtain ⟨report, hsearch, h⟩ := Option.bind_eq_some_iff.mp h
  cases h
  have hnot := BestFirst.not_internal_of_search hsearch he
  cases hr : report.result with
  | ok outcome => nofun
  | error e' =>
    rintro ⟨⟩
    exact hnot hr

end Plan

end Mapf
