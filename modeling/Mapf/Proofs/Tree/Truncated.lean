import Mapf.Proofs.Tree.Ends
import Mapf.Proofs.Tree.History

/-! # Searches cut off by their number of expansions

Without a limit of time the clock is only read for the statistics, so rounds of two searches that both may still
expand a node do the same, whatever else their budgets allow (`Solver.alike_round`). A search with a smaller number
of expansions therefore goes the way of one with a larger number, and either ends like it or is cut off as soon as
its own number is reached (`Solver.search_truncated`). -/

namespace Mapf

/-- A budget that limits nothing but the expansions. -/
def Budget.untimed (maxExpansions : Option Nat) : Budget := ⟨none, maxExpansions⟩

/-- A budget that allows some expansions is not exhausted before. -/
theorem Budget.Allows.going {budget : Budget} {n k : Nat} (h : budget.Allows n) (hk : k < n) (clock : Clock) :
    ((budget.roundDeadline clock).expired k || budget.expansionsExhausted k) = false := by
  have hnot : ¬budget.Spent clock k := h.not_spent hk
  rw [Bool.or_eq_false_iff, ← Bool.not_eq_true, ← Bool.not_eq_true]
  exact ⟨fun hexp => hnot (.round hexp), fun hexp => hnot (.expansions hexp)⟩

/-- The search was cut off by its budget. -/
def SolveReport.CutOff (report : SolveReport) : Prop := ∃ best, report.result = .error (.budgetExceeded best)

/-- The same result after the same work: two reports that differ in their times at most. -/
structure SolveReport.Agrees (report other : SolveReport) : Prop where
  result : report.result = other.result
  high : report.stats.high = other.stats.high
  low : report.stats.low = other.stats.low
  searches : report.stats.searches = other.stats.searches

theorem SolveReport.Agrees.symm {report other : SolveReport} (h : report.Agrees other) : other.Agrees report :=
  ⟨h.result.symm, h.high.symm, h.low.symm, h.searches.symm⟩

theorem SolveReport.Agrees.cutOff_iff {report other : SolveReport} (h : report.Agrees other) :
    report.CutOff ↔ other.CutOff := by
  rw [CutOff, CutOff, h.result]

/-- The search was cut off after just so many expansions. -/
def SolveReport.CutAt (report : SolveReport) (cap : Nat) : Prop := report.CutOff ∧ report.stats.high.expanded = cap

/-- Two searches ended alike, and after fewer expansions than a number. -/
structure SolveReport.EndsLike (cap : Nat) (report other : SolveReport) : Prop where
  agrees : report.Agrees other
  notCutOff : ¬report.CutOff
  below : report.stats.high.expanded < cap

theorem SolveReport.EndsLike.conclude {cap : Nat} {report other : SolveReport} (h : EndsLike cap report other)
    (now now' : Nat) : EndsLike cap (Solver.conclude now report) (Solver.conclude now' other) :=
  ⟨⟨h.agrees.result, h.agrees.high, h.agrees.low, h.agrees.searches⟩, h.notCutOff, h.below⟩

namespace Solver

/-- Agents that are fit to be planned and have plans of their own, so that the search has a root. -/
structure Rooted (s : Solver) : Prop where
  valid : ValidAgents s.env s.agents
  planned : ∀ i < s.agents.length, ∃ rounds report plan,
    s.plan rounds .still .unlimited 0 i (.empty i) = some report ∧ report.result = .ok plan

/-- The same search, watched by two stopwatches. -/
def Progress.Alike (t u : Progress) : Prop := ∃ stopwatch, u = { t with stopwatch := stopwatch }

variable {s : Solver} {rounds : Nat} {clock clock₁ clock₂ : Clock} {budget b₁ b₂ : Budget} {t u : Progress}

/-! ### Rounds do not depend on the clock -/

theorem alike_absorb (child : Child) (h : t.Alike u) :
    Round.Rel Progress.Alike SolveReport.Agrees (s.absorb t child) (s.absorb u child) := by
  obtain ⟨w, rfl⟩ := h
  unfold absorb
  dsimp only
  split
  · exact .next ⟨w, rfl⟩
  · split
    · exact .next ⟨w, rfl⟩
    · exact .done ⟨rfl, rfl, rfl, rfl⟩
  · exact .done ⟨rfl, rfl, rfl, rfl⟩
  · exact .done ⟨rfl, rfl, rfl, rfl⟩

theorem alike_absorbAll (children : List Child) (h : t.Alike u) :
    Round.Rel Progress.Alike SolveReport.Agrees (s.absorbAll t children) (s.absorbAll u children) := by
  induction children generalizing t u with
  | nil => exact .next h
  | cons child rest ih =>
    have hrel := alike_absorb (s := s) child h
    unfold absorbAll
    cases ht : s.absorb t child <;> cases hu : s.absorb u child <;> rw [ht, hu] at hrel <;> cases hrel
    case next.next h => exact ih h
    case done.done h => exact .done h

/-- Without a limit of time it does not matter which search of a solve plans an agent. -/
theorem plan_untimed (h₁ : b₁.timeLimit = none) (h₂ : b₂.timeLimit = none) (clock₁ clock₂ : Clock)
    (search₁ search₂ agent : Nat) (set : ConstraintSet) :
    s.plan rounds clock₁ b₁ search₁ agent set = s.plan rounds clock₂ b₂ search₂ agent set := by
  simp only [plan, Budget.searchDeadline, h₁, h₂]
  rfl

theorem buildChildren_untimed (h₁ : b₁.timeLimit = none) (h₂ : b₂.timeLimit = none) (search : Nat) (node : TreeNode)
    (c : Conflict) :
    s.buildChildren rounds clock₁ b₁ search node c = s.buildChildren rounds clock₂ b₂ search node c := by
  have hchild : ∀ search k,
      s.buildChild rounds clock₁ b₁ search node k = s.buildChild rounds clock₂ b₂ search node k := by
    intro search k
    unfold buildChild
    split
    · rfl
    · rw [plan_untimed h₁ h₂ clock₁ clock₂ search search]
  rw [buildChildren_eq, buildChildren_eq, hchild, hchild]

/-- Rounds that may still expand a node are alike under all clocks and budgets. -/
theorem alike_round (h₁ : b₁.Allows (t.stats.high.expanded + 1)) (h₂ : b₂.Allows (t.stats.high.expanded + 1))
    (h : t.Alike u) : Option.Rel (Round.Rel Progress.Alike SolveReport.Agrees) (s.round rounds clock₁ b₁ t)
      (s.round rounds clock₂ b₂ u) := by
  obtain ⟨w, rfl⟩ := h
  unfold round
  simp only [h₁.going (Nat.lt_succ_self _) clock₁, h₂.going (Nat.lt_succ_self _) clock₂, Bool.false_eq_true, ↓reduceIte]
  split
  · exact .some (.done ⟨rfl, rfl, rfl, rfl⟩)
  · split
    · exact .some (.done ⟨rfl, rfl, rfl, rfl⟩)
    · rw [buildChildren_untimed h₁.untimed h₂.untimed]
      cases s.buildChildren rounds clock₂ b₂ t.stats.searches _ _ with
      | none => exact .none
      | some children => exact .some (alike_absorbAll children ⟨_, rfl⟩)

/-! ### What the last round says -/

/-- A round that may expand a node and ends the search does so without an expansion, and not for its budget. -/
theorem stats_of_done (ht : s.Growing t) (hb : budget.Allows (t.stats.high.expanded + 1)) {report : SolveReport}
    (h : s.round rounds clock budget t = some (.done report)) : ¬report.CutOff ∧ report.stats = t.stats := by
  have hlast : report.result = .error .noSolutionFound ∨ ∃ solution, report.result = .ok solution := by
    cases turn_of_round ht h with
    | outOfBudget _ hspent => exact absurd hspent (hb.not_spent (Nat.lt_succ_self _))
    | exhausted hres _ => exact .inl hres
    | solved hres _ _ _ => exact .inr ⟨_, hres⟩
  refine ⟨fun ⟨best, hcut⟩ => ?_, ?_⟩
  · rcases hlast with hres | ⟨_, hres⟩ <;> cases hcut.symm.trans hres
  · cases ran_of_round h with
    | stopped | exhausted | solved => rfl
    | branched _ _ _ _ habsorb =>
      rcases ended_of_absorbAll habsorb with ⟨⟨_, herr⟩, -⟩ | ⟨_, herr⟩ <;>
        rcases hlast with hres | ⟨_, hres⟩ <;> cases herr.symm.trans hres

/-! ### The root -/

theorem planAll_untimed (h₁ : b₁.timeLimit = none) (h₂ : b₂.timeLimit = none) (is : List Nat) (stats : Stats) :
    s.planAll rounds clock₁ b₁ is stats = s.planAll rounds clock₂ b₂ is stats := by
  induction is generalizing stats with
  | nil => rfl
  | cons i rest ih =>
    have hplan : s.plan rounds clock₁ b₁ stats.searches i (.empty i) =
        s.plan rounds clock₂ b₂ stats.searches i (.empty i) :=
      plan_untimed h₁ h₂ clock₁ clock₂ _ _ i _
    simp only [planAll, hplan, ih]

theorem plan_mono {rounds' : Nat} (hle : rounds ≤ rounds') {search i : Nat} {set : ConstraintSet}
    {report : SearchReport Plan} (h : s.plan rounds clock budget search i set = some report) :
    s.plan rounds' clock budget search i set = some report := by
  unfold plan at h ⊢
  split at h
  · exact Plan.search_mono hle h
  · exact h

theorem ok_of_planAll (hs : s.Rooted) (hb : budget.timeLimit = none) {is : List Nat}
    (his : ∀ i ∈ is, i < s.agents.length) {stats stats' : Stats} {result : Except SearchError (List Plan)}
    (h : s.planAll rounds clock budget is stats = some (result, stats')) : ∃ plans, result = .ok plans := by
  induction is generalizing stats result with
  | nil =>
    cases h
    exact ⟨[], rfl⟩
  | cons i rest ih =>
    obtain ⟨hi, hrest⟩ := List.forall_mem_cons.mp his
    obtain ⟨report, hreport, h⟩ := Option.bind_eq_some_iff.mp h
    obtain ⟨rounds', report', plan, hplan, hok⟩ := hs.planned i hi
    -- The plan that was found in another number of rounds is found here too.
    have huntimed : s.plan rounds clock budget stats.searches i (.empty i) =
        s.plan rounds .still .unlimited 0 i (.empty i) := plan_untimed hb rfl clock .still _ 0 i _
    rw [huntimed] at hreport
    cases (plan_mono (le_max_left rounds rounds') hreport).symm.trans (plan_mono (le_max_right rounds rounds') hplan)
    dsimp only at h
    rw [hok] at h
    obtain ⟨⟨result', stats''⟩, hall, h⟩ := Option.bind_eq_some_iff.mp h
    cases h
    obtain ⟨plans, rfl⟩ := ih hrest hall
    exact ⟨plan :: plans, rfl⟩

/-- Without a limit of time the searches of agents that can be planned start from the same root. -/
theorem root_of_launch (hs : s.Rooted) (h₁ : b₁.timeLimit = none) (h₂ : b₂.timeLimit = none) (rounds : Nat)
    (clock₁ clock₂ : Clock) : s.launch rounds clock₁ b₁ = none ∧ s.launch rounds clock₂ b₂ = none ∨
      ∃ t u, s.launch rounds clock₁ b₁ = some (.next t) ∧ s.launch rounds clock₂ b₂ = some (.next u) ∧ t.Alike u := by
  have hall : s.planAll rounds clock₁ b₁ (List.range s.agents.length) .zero =
      s.planAll rounds clock₂ b₂ (List.range s.agents.length) .zero := planAll_untimed h₁ h₂ _ _
  simp only [launch, validate_eq_ok_iff.mpr hs.valid, plant, hall]
  cases hplanned : s.planAll rounds clock₂ b₂ (List.range s.agents.length) .zero with
  | none => exact .inl ⟨rfl, rfl⟩
  | some planned =>
    obtain ⟨result, stats⟩ := planned
    obtain ⟨plans, rfl⟩ := ok_of_planAll hs h₂ (fun i hi => List.mem_range.mp hi) hplanned
    obtain ⟨waiting, hins, -⟩ := (Queue.valid_empty (κ := Nat) (π := TreeNode)).insert (Queue.find?_empty 0)
      (.root s.costType plans)
    simp only [Option.bind_eq_bind, Option.bind_some, hins]
    exact .inr ⟨_, _, rfl, rfl, _, rfl⟩

/-! ### The whole search -/

/-- What two searches with different numbers of expansions have in common between rounds. -/
structure Abreast (s : Solver) (cap : Nat) (t u : Progress) : Prop where
  growing : s.Growing t
  below : t.stats.high.expanded ≤ cap
  alike : t.Alike u

variable {m₁ : Nat} {m₂ : Option Nat}

/-- The search with fewer expansions stops at its limit, or both searches take the same round. -/
theorem Abreast.round (hle : ∀ m, m₂ = some m → m₁ ≤ m) (h : s.Abreast m₁ t u) :
    (∃ report, s.round rounds clock₁ (.untimed (some m₁)) t = some (.done report) ∧ report.CutAt m₁) ∨
      Option.Rel (Round.Rel (s.Abreast m₁) (SolveReport.EndsLike m₁))
        (s.round rounds clock₁ (.untimed (some m₁)) t) (s.round rounds clock₂ (.untimed m₂) u) := by
  rcases Nat.lt_or_ge t.stats.high.expanded m₁ with hlt | hge
  case inr =>
    refine .inl ⟨⟨_, t.stats, t.stopwatch, _⟩, if_pos ?_, ⟨_, rfl⟩, Nat.le_antisymm h.below hge⟩
    rw [Bool.or_eq_true]
    exact .inr (decide_eq_true hge)
  have h₁ : (Budget.untimed (some m₁)).Allows (t.stats.high.expanded + 1) :=
    ⟨rfl, fun m hm => Option.some.inj hm ▸ hlt⟩
  have h₂ : (Budget.untimed m₂).Allows (t.stats.high.expanded + 1) :=
    ⟨rfl, fun m hm => Nat.le_trans hlt (hle m hm)⟩
  have hrel : Option.Rel (Round.Rel Progress.Alike SolveReport.Agrees)
      (s.round rounds clock₁ (.untimed (some m₁)) t) (s.round rounds clock₂ (.untimed m₂) u) :=
    alike_round h₁ h₂ h.alike
  refine .inr ?_
  generalize hround : s.round rounds clock₁ (.untimed (some m₁)) t = r₁ at hrel ⊢
  generalize s.round rounds clock₂ (.untimed m₂) u = r₂ at hrel ⊢
  cases hrel with
  | none => exact .none
  | some hrel =>
    cases hrel with
    | next halike =>
      cases turn_of_round h.growing hround with
      | split _ _ _ _ _ hgrowing _ hexp => exact .some (.next ⟨hgrowing, by omega, halike⟩)
    | done hagrees =>
      obtain ⟨hnot, hstats⟩ := stats_of_done h.growing h₁ hround
      exact .some (.done ⟨hagrees, hnot, by rw [hstats]; exact hlt⟩)

theorem search_of_root (h : s.launch rounds clock budget = some (.next t)) : s.search rounds clock budget =
    (Loop.run (s.round rounds clock budget) rounds t).map fun report =>
      conclude (clock.atRound report.stats.high.expanded) report := by
  unfold search
  simp only [h, Option.bind_eq_bind, Option.bind_some]
  cases Loop.run (s.round rounds clock budget) rounds t <;> rfl

/-- A search with fewer expansions is cut off at its limit, or it ends like the one with more. -/
theorem cutAt_or_endsLike (hs : s.Rooted) (hle : ∀ m, m₂ = some m → m₁ ≤ m) (rounds : Nat)
    (clock₁ clock₂ : Clock) : (∃ report, s.search rounds clock₁ (.untimed (some m₁)) = some report ∧ report.CutAt m₁) ∨
      Option.Rel (SolveReport.EndsLike m₁) (s.search rounds clock₁ (.untimed (some m₁)))
        (s.search rounds clock₂ (.untimed m₂)) := by
  have h₁ : (Budget.untimed (some m₁)).timeLimit = none := rfl
  have h₂ : (Budget.untimed m₂).timeLimit = none := rfl
  rcases root_of_launch hs h₁ h₂ rounds clock₁ clock₂ with ⟨h₁, h₂⟩ | ⟨t, u, h₁, h₂, halike⟩
  case inl =>
    simp only [search, h₁, h₂]
    exact .inr .none
  have hl := launched_of_launch h₁
  have hbelow : t.stats.high.expanded ≤ m₁ := by
    cases hl with
    | rooted _ _ _ hexp => omega
  have habreast : s.Abreast m₁ t u := ⟨hl.growing, hbelow, halike⟩
  rw [search_of_root h₁, search_of_root h₂]
  rcases Loop.run_until (fun t u => Abreast.round hle) habreast with ⟨report, hrun, hcut⟩ | hrel
  · refine .inl ⟨conclude (clock₁.atRound report.stats.high.expanded) report, ?_, hcut⟩
    rw [hrun, Option.map_some]
  · generalize Loop.run (s.round rounds clock₁ (.untimed (some m₁))) rounds t = r₁ at hrel ⊢
    generalize Loop.run (s.round rounds clock₂ (.untimed m₂)) rounds u = r₂ at hrel ⊢
    cases hrel with
    | none => exact .inr .none
    | some h => exact .inr (.some (h.conclude _ _))

/-- A search with at most `m₁` expansions that is not cut off gives the same report as one with more or without
    a limit; if the latter is cut off, so is the former. A search is cut off after just as many expansions as it
    may take, and otherwise ends after fewer. -/
theorem search_truncated (hs : s.Rooted) (hle : ∀ m, m₂ = some m → m₁ ≤ m) (rounds : Nat) (clock₁ clock₂ : Clock) :
    (∀ r₁, s.search rounds clock₁ (.untimed (some m₁)) = some r₁ → ¬r₁.CutOff →
        ∃ r₂, s.search rounds clock₂ (.untimed m₂) = some r₂ ∧ r₂.Agrees r₁) ∧
      (∀ r₂, s.search rounds clock₂ (.untimed m₂) = some r₂ → r₂.CutOff →
        ∃ r₁, s.search rounds clock₁ (.untimed (some m₁)) = some r₁ ∧ r₁.CutOff) ∧
      ∀ r₁, s.search rounds clock₁ (.untimed (some m₁)) = some r₁ →
        (r₁.CutOff → r₁.stats.high.expanded = m₁) ∧ (¬r₁.CutOff → r₁.stats.high.expanded < m₁) := by
  rcases cutAt_or_endsLike hs hle rounds clock₁ clock₂ with ⟨r₁, h₁, hcut, hexp⟩ | hrel
  case inl =>
    refine ⟨fun r h hnot => ?_, fun _ _ _ => ⟨r₁, h₁, hcut⟩, fun r h => ?_⟩ <;> cases h₁.symm.trans h
    · exact absurd hcut hnot
    · exact ⟨fun _ => hexp, fun hnot => absurd hcut hnot⟩
  generalize s.search rounds clock₁ (.untimed (some m₁)) = o₁ at hrel ⊢
  generalize s.search rounds clock₂ (.untimed m₂) = o₂ at hrel ⊢
  cases hrel with
  | none => exact ⟨nofun, nofun, nofun⟩
  | @some r₁ r₂ h =>
    refine ⟨fun r hr _ => ?_, fun r hr hcut => ?_, fun r hr => ?_⟩ <;> cases hr
    · exact ⟨r₂, rfl, h.agrees.symm⟩
    · exact absurd (h.agrees.cutOff_iff.mpr hcut) h.notCutOff
    · exact ⟨fun hcut => absurd hcut h.notCutOff, fun _ => h.below⟩

set_option maxRecDepth 100000 in
theorem search_capped_bay : (prepare 100 bay.environment bayAgents).map (fun solver =>
    ((List.range 2).map fun i => (solver.plan 100 .still .unlimited 0 i (.empty i)).any (·.result.toOption.isSome),
      (solver.search 100 .still (.untimed (some 2))).map fun report =>
        (report.result.toOption.map Solution.cost, report.stats.high.expanded))) =
      some ([true, true], some (some 5, 1)) := by
  cbv

theorem rooted_bay {solver : Solver} (hprep : prepare 100 bay.environment bayAgents = some solver)
    (hplans : (List.range 2).map (fun i => (solver.plan 100 .still .unlimited 0 i (.empty i)).any
      (·.result.toOption.isSome)) = [true, true]) : solver.Rooted := by
  obtain ⟨henv, hagents, -⟩ := prepared_of_prepare hprep
  refine ⟨?_, fun i hi => ?_⟩
  · rw [henv, hagents]
    exact validAgents_bay
  · rw [hagents] at hi
    have hplanned : ∀ b ∈ [true, true], b = true := by decide
    rw [← hplans, List.forall_mem_map] at hplanned
    obtain ⟨report, hplan, hsome⟩ := (Option.any_eq_true _ _).mp (hplanned i (List.mem_range.mpr hi))
    cases hres : report.result with
    | error e =>
      rw [hres] at hsome
      cases hsome
    | ok plan => exact ⟨100, report, plan, hplan, hres⟩

/-- The only expansion leads to the node that is the answer in the next round. -/
theorem truncated_bay : ∃ solver r₁ r₂ r, prepare 100 bay.environment bayAgents = some solver ∧
    solver.search 100 .still (.untimed (some 1)) = some r₁ ∧ r₁.CutOff ∧ r₁.stats.high.expanded = 1 ∧
    solver.search 100 .still (.untimed (some 2)) = some r₂ ∧ ¬r₂.CutOff ∧ r₂.stats.high.expanded = 1 ∧
    solver.search 100 .still (.untimed none) = some r ∧ r.Agrees r₂ := by
  obtain ⟨solver, hprep, hruns⟩ := Option.map_eq_some_iff.mp search_capped_bay
  obtain ⟨hplans, hruns⟩ := Prod.mk.inj hruns
  obtain ⟨r₂, hr₂, h₂⟩ := Option.map_eq_some_iff.mp hruns
  obtain ⟨hres, hexp⟩ := Prod.mk.inj h₂
  have hrooted := rooted_bay hprep hplans
  have hnot : ¬r₂.CutOff := by
    rintro ⟨best, hcut⟩
    rw [hcut] at hres
    cases hres
  have hle : ∀ m, some 2 = some m → 1 ≤ m := fun m hm => Option.some.inj hm ▸ (by decide)
  -- With a single expansion the search cannot end like the other one, which has made one.
  obtain ⟨r₁, hr₁, hcut, -⟩ : ∃ r₁, solver.search 100 .still (.untimed (some 1)) = some r₁ ∧ r₁.CutAt 1 := by
    rcases cutAt_or_endsLike hrooted hle 100 .still .still with h | h
    · exact h
    · rw [hr₂] at h
      generalize solver.search 100 .still (.untimed (some 1)) = o at h
      cases h with
      | some h => exact absurd h.below (by rw [h.agrees.high, hexp]; decide)
  obtain ⟨-, -, hcap⟩ := search_truncated hrooted hle 100 .still .still
  obtain ⟨hagrees, -, -⟩ := search_truncated hrooted (fun _ => nofun : ∀ m, none = some m → 2 ≤ m) 100 .still .still
  obtain ⟨r, hr, hr'⟩ := hagrees r₂ hr₂ hnot
  exact ⟨solver, r₁, r₂, r, hprep, hr₁, hcut, (hcap r₁ hr₁).1 hcut, hr₂, hnot, hexp, hr, hr'⟩

end Solver

end Mapf
