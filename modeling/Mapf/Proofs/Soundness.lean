import Mapf.Program
import Mapf.Proofs.Solutions
import Mapf.Proofs.Tree.Optimal
import Mathlib

/-! # The program reports valid solutions only

Every solution that a search reports is valid. The program checks its solutions once more; whatever its
surroundings do, that check never fails, because every report that its solve can give is that of a search
(`Program.yields_solve`). -/

namespace Mapf

namespace Program

variable {m : Type → Type} [Monad m] [LawfulMonad m] {α β : Type}

/-- A step that gives only values with a property, and that never fails because of an invalid solution. -/
def Yields (P : α → Prop) (x : Step m α) : Prop :=
  SatisfiesM (fun r => (∀ a, r = .ok a → P a) ∧ r ≠ .error .invalidSolution) x.run

variable {P : α → Prop} {Q : β → Prop}

theorem yields_pure {a : α} (h : P a) : Yields P (pure a : Step m α) :=
  .pure ⟨fun _ he => Except.ok.inj he ▸ h, nofun⟩

theorem yields_throw {e : ProgramError} (h : e ≠ .invalidSolution) : Yields P (throw e : Step m α) :=
  .pure ⟨nofun, fun he => h (Except.error.inj he)⟩

theorem yields_bind {x : Step m α} {f : α → Step m β} (hx : Yields P x) (hf : ∀ a, P a → Yields Q (f a)) :
    Yields Q (x >>= f) := by
  refine SatisfiesM.bind hx fun r hr => ?_
  cases r with
  | ok a => exact hf a (hr.1 a rfl)
  | error e => exact .pure ⟨nofun, fun he => hr.2 (congrArg Except.error (Except.error.inj he))⟩

theorem yields_lift {x : m α} (h : SatisfiesM P x) : Yields P (ExceptT.lift x) :=
  h.map fun ha => ⟨fun _ he => Except.ok.inj he ▸ ha, nofun⟩

theorem yields_action (x : m α) : Yields (fun _ => True) (liftM x : Step m α) := yields_lift .trivial

/-! ### Input -/

theorem yields_ofExcept {ε : Type} {wording : ε → ProgramError} (h : ∀ e, wording e ≠ .invalidSolution)
    (x : Except ε α) : Yields (fun _ => True) (ofExcept wording x : Step m α) := by
  cases x with
  | ok a => exact yields_pure trivial
  | error e => exact yields_throw (h e)

theorem yields_load (host : Host m) (take : String → Contents → Except LoadError α) (path : String) :
    Yields (fun _ => True) (load host take path) :=
  yields_bind (yields_action _) fun _ _ => yields_ofExcept nofun _

theorem yields_settings (host : Host m) (flags : Flags) : Yields (fun _ => True) (settings host flags) := by
  refine yields_bind (P := fun _ => True) ?_ fun _ _ => yields_ofExcept nofun _
  unfold baseSettings
  split
  · exact yields_load host _ _
  · exact yields_bind (yields_action _) fun _ _ => yields_pure trivial

theorem yields_agents (host : Host m) (rounds : Nat) (settings : Settings) :
    Yields (fun _ => True) (agents host rounds settings) := by
  unfold agents
  split
  · exact yields_load host _ _
  · refine yields_bind (yields_load host _ _) fun scenario _ => ?_
    dsimp only
    split
    · exact yields_throw (by simp)
    · exact yields_bind (yields_action _) fun _ _ => yields_pure trivial
    · exact yields_throw (by simp)

/-! ### Solving -/

/-- A report that has no invalid solution. -/
def Checked (env : Environment) (agents : List Agent) (report : SolveReport) : Prop :=
  ∀ solution, report.result = .ok solution → solution.Valid env agents

theorem satisfies_solveRounds (host : Host m) {solver : Solver} (valid : ValidAgents solver.env solver.agents)
    (rounds : Nat) (budget : Budget) (started count : Nat) {t : Solver.Progress} (ht : solver.Growing t) :
    SatisfiesM (fun o => ∀ report, o = some report → Checked solver.env solver.agents report)
      (solveRounds host solver rounds budget started count t) := by
  induction count generalizing t with
  | zero => exact .pure fun _ he => by cases he
  | succ count ih =>
    refine SatisfiesM.bind .trivial fun now _ => ?_
    dsimp only
    -- The clock is read anew before every round, and a turn may be taken at any clock.
    cases hround : solver.round rounds ⟨fun _ => now - started, fun _ _ => now - started⟩ budget t with
    | none => exact .pure fun _ he => by cases he
    | some r =>
      have hturn := Solver.turn_of_round ht hround
      cases r with
      | done report =>
        refine .pure fun report' he => ?_
        cases he
        exact fun _ ok => Solver.valid_of_turn ht valid hturn ok
      | next u =>
        cases hturn with
        | split _ _ _ _ _ hu _ _ => exact ih hu

theorem yields_solve (host : Host m) (rounds : Nat) (settings : Settings) (env : Environment) (agents : List Agent) :
    Yields (Checked env agents) (solve host rounds settings env agents) := by
  unfold solve
  cases hprep : Solver.prepare rounds env agents with
  | none => exact yields_throw (by simp)
  | some solver =>
    obtain ⟨tables, -, hs⟩ := Option.bind_eq_some_iff.mp hprep
    cases hs
    dsimp only
    refine yields_bind (yields_action _) fun started _ => ?_
    refine yields_bind (P := fun o => ∀ report, o = some report → Checked env agents report) (yields_lift ?_)
      fun o ho => ?_
    · cases hlaunch : Solver.launch _ rounds .still settings.budget with
      | none => exact .pure fun _ he => by cases he
      | some r =>
        have hl := Solver.launched_of_launch hlaunch
        cases r with
        | done report =>
          refine .pure fun report' he => ?_
          cases he
          exact fun solution ok => absurd ok hl.not_ok
        | next t => exact satisfies_solveRounds host hl.valid.1 rounds settings.budget started rounds hl.valid.2
    · cases o with
      | none => exact yields_throw (by simp)
      | some report => exact yields_bind (yields_action _) fun _ _ => yields_pure (ho report rfl)

theorem yields_announce (host : Host m) {env : Environment} {agents : List Agent} {report : SolveReport}
    (h : Checked env agents report) : Yields (fun _ => True) (announce host env agents report.result) := by
  cases hr : report.result with
  | ok solution =>
    have hverify : solution.verify env agents = true := Solution.verify_eq_true_iff.mpr (h solution hr)
    unfold announce
    dsimp only
    rw [hverify]
    exact yields_action _
  | error failure =>
    unfold announce
    split
    · cases ‹_›
    · exact yields_action _
    · exact yields_action _

theorem yields_checkAgents (env : Environment) (agents : List Agent) :
    Yields (fun _ => True) (checkAgents env agents : Step m Unit) := by
  unfold checkAgents
  split
  · exact yields_throw nofun
  · exact yields_pure trivial

theorem yields_writeStats (host : Host m) (stats : Stats) (path : Option String) :
    Yields (fun _ => True) (writeStats host stats path) := by
  cases path with
  | none => exact yields_pure trivial
  | some path =>
    refine yields_bind (yields_action _) fun created _ => ?_
    cases created with
    | true => exact yields_action _
    | false => exact yields_bind (P := fun _ => True) (yields_throw nofun) fun _ _ => yields_action _

/-- No run of the program reports an invalid solution. -/
theorem yields_run (host : Host m) (rounds : Nat) (args : List String) :
    Yields (fun _ => True) (run host rounds args) := by
  refine yields_bind (yields_ofExcept nofun _) fun flags _ => ?_
  refine yields_bind (yields_settings host flags) fun settings _ => ?_
  refine yields_bind (yields_load host _ _) fun grid _ => ?_
  refine yields_bind (yields_agents host rounds settings) fun agents _ => ?_
  refine yields_bind (yields_checkAgents _ agents) fun _ _ => ?_
  refine yields_bind (yields_solve host rounds settings _ agents) fun report hreport => ?_
  refine yields_bind (yields_lift .trivial) fun _ _ => ?_
  refine yields_bind (yields_announce host hreport) fun _ _ => ?_
  exact yields_writeStats host _ _

end Program

/-! ### Soundness -/

/-- Whatever the environment, the agents, the limits and the clock are, the solution of a search passes the
    check and is valid; and no run of the program ends because its solution failed the check. -/
theorem search_sound :
    (∀ (solver : Solver) (rounds : Nat) (clock : Clock) (budget : Budget) (report : SolveReport)
      (solution : Solution), solver.search rounds clock budget = some report → report.result = .ok solution →
      solution.verify solver.env solver.agents = true ∧ solution.Valid solver.env solver.agents) ∧
    ∀ (m : Type → Type) [Monad m] [LawfulMonad m] (host : Host m) (rounds : Nat) (args : List String),
      SatisfiesM (fun r => r ≠ .error .invalidSolution) (Program.run host rounds args).run := by
  refine ⟨fun solver rounds clock budget report solution h ok => ?_, fun m _ _ host rounds args => ?_⟩
  · have hvalid := Solver.valid_of_search h ok
    exact ⟨Solution.verify_eq_true_iff.mpr hvalid, hvalid⟩
  · exact (Program.yields_run host rounds args).imp fun h => h.2

/-- The agents of the bay pass each other by a valid solution, and a run without arguments passes its check. -/
theorem bay_sound : (∃ solution : Solution, solution.cost = 5 ∧
      solution.Valid Solver.bay.environment Solver.bayAgents) ∧
    ∀ host : Host Id, SatisfiesM (fun r => r ≠ .error .invalidSolution) (Program.run host 100 []).run := by
  refine ⟨?_, fun host => search_sound.2 Id host 100 []⟩
  obtain ⟨solver, report, solution, hprep, hsearch, hok, hfive⟩ := Solver.search_bay
  obtain ⟨henv, hagents, -⟩ := Solver.prepared_of_prepare hprep
  have hvalid := (search_sound.1 _ 100 .still .unlimited report solution hsearch hok).2
  exact ⟨solution, hfive, henv ▸ hagents ▸ hvalid⟩

end Mapf
