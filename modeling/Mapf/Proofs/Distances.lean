import Mapf.DistanceTable
import Mapf.Proofs.Lawful
import Mapf.Proofs.Queue.Contents
import Mathlib.Data.Finset.Card
import Mathlib.Data.Nat.Basic
import Mathlib.Order.RelClasses

/-! # Distance tables

While a table is built, every settled or tentative distance is the cost of a way from the goal, no
settled distance exceeds a tentative one, and every move out of a settled position has been offered,
except those of the position being settled (`Settling`). Hence a finished table is closed under moves
(`Relaxed`): no move shortens a distance any more. In a finite environment every table is finished. -/

namespace Mapf

namespace DistanceTable

/-- A move leads from a listed position to one at most its cost farther, and the goal is at 0. -/
structure Relaxed (env : Environment) (table : DistanceTable) : Prop where
  goal : env.contains table.goal = true → table.get? table.goal = some 0
  move : ∀ {p q : Position} {c d : Nat}, table.get? p = some d → (q, c) ∈ env.neighbors p →
    ∃ d', table.get? q = some d' ∧ d' ≤ d + c
  way : ∀ {p : Position} {d : Nat}, table.get? p = some d → env.Way table.goal p d

/-- With symmetric edges the distance falls by at most the cost of a move. -/
theorem Relaxed.consistent {env : Environment} {table : DistanceTable} (h : table.Relaxed env)
    (nav : env.Navigable) {p q : Position} {c d : Nat} (hm : (q, c) ∈ env.neighbors p)
    (hq : table.get? q = some d) : ∃ d', table.get? p = some d' ∧ d' ≤ c + d := by
  obtain ⟨d', hp, hle⟩ := h.move hq (nav.symmetric hm)
  exact ⟨d', hp, by omega⟩

namespace Progress

/-- The distance of a settled or waiting position. -/
inductive Knows (distances : Std.HashMap Position Nat) (frontier : Queue Position Nat) : Position → Nat → Prop
  | settled {p : Position} {d : Nat} : distances[p]? = some d → Knows distances frontier p d
  | tentative {p : Position} {d : Nat} : frontier.get? p = some d → Knows distances frontier p d

/-- What holds while the table of `goal` is built; moves that are `pending` were not offered yet. -/
structure Settling (env : Environment) (goal : Position) (pending : Position → Position × Nat → Prop)
    (distances : Std.HashMap Position Nat) (frontier : Queue Position Nat) : Prop where
  valid : frontier.Valid
  apart : ∀ {p : Position}, p ∈ distances → frontier.get? p = none
  start : env.contains goal = true → Knows distances frontier goal 0
  way : ∀ {p : Position} {d : Nat}, Knows distances frontier p d → env.Way goal p d
  ascending : ∀ {p q : Position} {d t : Nat}, distances[p]? = some d → frontier.get? q = some t → d ≤ t
  offered : ∀ {p : Position} {d : Nat} {m : Position × Nat}, distances[p]? = some d → m ∈ env.neighbors p →
    ¬pending p m → ∃ d', Knows distances frontier m.1 d' ∧ d' ≤ d + m.2

section Relax

variable {env : Environment} {goal p : Position} {cost : Nat} {m : Position × Nat} {rest : List (Position × Nat)}
  {distances : Std.HashMap Position Nat} {frontier frontier' : Queue Position Nat}

/-- A frontier in which one distance was entered or lowered knows at least as much. -/
theorem Knows.lower {q : Position} {d t : Nat} (h : Knows distances frontier q d)
    (hnew : frontier'.get? m.1 = some t) (hold : ∀ j, j ≠ m.1 → frontier'.get? j = frontier.get? j)
    (hle : ∀ t', frontier.get? m.1 = some t' → t ≤ t') : ∃ d', Knows distances frontier' q d' ∧ d' ≤ d := by
  cases h with
  | settled h => exact ⟨d, .settled h, Nat.le_refl d⟩
  | tentative h =>
    by_cases hq : q = m.1
    · subst hq
      exact ⟨t, .tentative hnew, hle d h⟩
    · exact ⟨d, .tentative ((hold q hq).trans h), Nat.le_refl d⟩

/-- Entering or lowering the distance of the position that a pending move leads to. -/
theorem Settling.offer (h : Settling env goal (fun q n => q = p ∧ n ∈ m :: rest) distances frontier)
    (hp : distances[p]? = some cost) (hmax : ∀ {q : Position} {d : Nat}, distances[q]? = some d → d ≤ cost)
    (hm : m ∈ env.neighbors p) (hnot : m.1 ∉ distances) (hv : frontier'.Valid)
    (hnew : frontier'.get? m.1 = some (cost + m.2))
    (hold : ∀ j, j ≠ m.1 → frontier'.get? j = frontier.get? j)
    (hle : ∀ t, frontier.get? m.1 = some t → cost + m.2 ≤ t) :
    Settling env goal (fun q n => q = p ∧ n ∈ rest) distances frontier' where
  valid := hv
  apart hq := by
    rw [hold _ fun e => hnot (e ▸ hq)]
    exact h.apart hq
  start hc := by
    obtain ⟨d, hd, hle⟩ := (h.start hc).lower hnew hold hle
    rwa [Nat.le_zero.mp hle] at hd
  way {q d} hd := by
    cases hd with
    | settled hd => exact h.way (.settled hd)
    | tentative hd =>
      by_cases hq : q = m.1
      · subst hq
        obtain rfl := Option.some.inj (hnew.symm.trans hd)
        exact (h.way (.settled hp)).step hm
      · exact h.way (.tentative ((hold q hq).symm.trans hd))
  ascending {q r d t} hd ht := by
    by_cases hr : r = m.1
    · subst hr
      obtain rfl := Option.some.inj (hnew.symm.trans ht)
      exact Nat.le_trans (hmax hd) (Nat.le_add_right _ _)
    · exact h.ascending hd ((hold r hr).symm.trans ht)
  offered {q d n} hd hn hpend := by
    by_cases heq : q = p ∧ n = m
    · obtain ⟨rfl, rfl⟩ := heq
      obtain rfl := Option.some.inj (hp.symm.trans hd)
      exact ⟨_, .tentative hnew, Nat.le_refl _⟩
    · have hnp : ¬(q = p ∧ n ∈ m :: rest) := by
        rintro ⟨hq, hmem⟩
        rcases List.mem_cons.mp hmem with hnm | hmem
        · exact heq ⟨hq, hnm⟩
        · exact hpend ⟨hq, hmem⟩
      obtain ⟨d', hd', hle'⟩ := h.offered hd hn hnp
      obtain ⟨d'', hd'', hle''⟩ := hd'.lower hnew hold hle
      exact ⟨d'', hd'', hle''.trans hle'⟩

/-- A move that shortens nothing is no longer pending. -/
theorem Settling.pass (h : Settling env goal (fun q n => q = p ∧ n ∈ m :: rest) distances frontier)
    (hp : distances[p]? = some cost) {t : Nat} (ht : Knows distances frontier m.1 t) (hle : t ≤ cost + m.2) :
    Settling env goal (fun q n => q = p ∧ n ∈ rest) distances frontier where
  valid := h.valid
  apart := h.apart
  start := h.start
  way := h.way
  ascending := h.ascending
  offered {q d n} hd hn hpend := by
    by_cases heq : q = p ∧ n = m
    · obtain ⟨rfl, rfl⟩ := heq
      obtain rfl := Option.some.inj (hp.symm.trans hd)
      exact ⟨t, ht, hle⟩
    · refine h.offered hd hn ?_
      rintro ⟨hq, hmem⟩
      rcases List.mem_cons.mp hmem with hnm | hmem
      · exact heq ⟨hq, hnm⟩
      · exact hpend ⟨hq, hmem⟩

theorem Settling.relax (h : Settling env goal (fun q n => q = p ∧ n ∈ m :: rest) distances frontier)
    (hp : distances[p]? = some cost) (hmax : ∀ {q : Position} {d : Nat}, distances[q]? = some d → d ≤ cost)
    (hm : m ∈ env.neighbors p) :
    Settling env goal (fun q n => q = p ∧ n ∈ rest) distances (relax distances cost frontier m) := by
  unfold Progress.relax
  by_cases hin : m.1 ∈ distances
  · have hc : distances.contains m.1 = true := hin
    obtain ⟨d, hd⟩ := Option.isSome_iff_exists.mp (Std.HashMap.mem_iff_isSome_getElem?.mp hin)
    rw [if_pos hc]
    exact h.pass hp (.settled hd) ((hmax hd).trans (Nat.le_add_right _ _))
  have hc : ¬distances.contains m.1 = true := hin
  rw [if_neg hc]
  cases hget : frontier.get? m.1 with
  | none =>
    obtain ⟨f, hf, hv, hnew, hold⟩ := h.valid.get?_insert hget (cost + m.2)
    simp only [hf, Except.toOption, Option.getD_some]
    exact h.offer hp hmax hm hin hv hnew hold (fun t ht => by rw [hget] at ht; cases ht)
  | some best =>
    dsimp only
    split
    case isTrue hle => exact h.pass hp (.tentative hget) hle
    case isFalse hgt =>
      obtain ⟨f, hf, hv, hnew, hold⟩ := h.valid.get?_update hget (fun _ => cost + m.2)
      simp only [hf, Except.toOption, Option.getD_some]
      refine h.offer hp hmax hm hin hv hnew hold (fun t ht => ?_)
      rw [hget] at ht
      cases ht
      omega

/-- Offering all moves out of the position just settled. -/
theorem Settling.relaxAll {moves : List (Position × Nat)}
    (h : Settling env goal (fun q n => q = p ∧ n ∈ moves) distances frontier) (hp : distances[p]? = some cost)
    (hmax : ∀ {q : Position} {d : Nat}, distances[q]? = some d → d ≤ cost)
    (hmoves : ∀ m ∈ moves, m ∈ env.neighbors p) :
    Settling env goal (fun _ _ => False) distances (moves.foldl (Progress.relax distances cost) frontier) := by
  induction moves generalizing frontier with
  | nil => simpa using h
  | cons m rest ih =>
    exact ih (h.relax hp hmax (hmoves m List.mem_cons_self))
      fun n hn => hmoves n (List.mem_cons_of_mem _ hn)

end Relax

/-! ### Rounds -/

variable {env : Environment} {goal : Position}

/-- What holds between rounds. -/
def Sound (env : Environment) (goal : Position) (s : Progress) : Prop :=
  Settling env goal (fun _ _ => False) s.distances s.frontier

theorem sound_start (env : Environment) (goal : Position) : Sound env goal (.start env goal) := by
  unfold Sound Progress.start
  cases hc : env.contains goal with
  | false =>
    simp only [Bool.false_eq_true, ↓reduceIte]
    refine ⟨Queue.valid_empty, fun hp => by simp at hp, fun h => by simp [hc] at h, fun hd => ?_,
      fun hd => by simp at hd, fun hd => by simp at hd⟩
    cases hd with
    | settled hd => simp at hd
    | tentative hd => simp [Queue.get?_empty] at hd
  | true =>
    obtain ⟨f, hf, hv, hnew, hold⟩ := Queue.valid_empty.get?_insert (Queue.get?_empty goal) 0
    simp only [hf, ↓reduceIte, Except.toOption, Option.getD_some]
    refine ⟨hv, fun hp => by simp at hp, fun _ => .tentative hnew, fun {p d} hd => ?_, fun hd => by simp at hd,
      fun hd => by simp at hd⟩
    cases hd with
    | settled hd => simp at hd
    | tentative hd =>
      by_cases hp : p = goal
      · subst hp
        obtain rfl := Option.some.inj (hnew.symm.trans hd)
        exact .refl
      · rw [hold p hp, Queue.get?_empty] at hd
        cases hd

/-- Settling the nearest waiting position leaves its moves pending. -/
theorem Settling.settle {s : Progress} (h : Sound env goal s) {p : Position} {cost : Nat}
    {frontier : Queue Position Nat} (hpop : s.frontier.popMin = .ok ((p, cost), frontier)) :
    Settling env goal (fun q n => q = p ∧ n ∈ env.neighbors p) (s.distances.insert p cost) frontier := by
  obtain ⟨hv, hget, hgone, hold, hmin⟩ := h.valid.get?_popMin hpop
  have hknows : ∀ {q d}, Knows s.distances s.frontier q d → Knows (s.distances.insert p cost) frontier q d := by
    intro q d hd
    by_cases hq : q = p
    · subst hq
      cases hd with
      | settled hd =>
        rw [h.apart (Std.HashMap.mem_iff_isSome_getElem?.mpr (by rw [hd]; rfl))] at hget
        cases hget
      | tentative hd =>
        obtain rfl := Option.some.inj (hget.symm.trans hd)
        exact .settled (by simp)
    · cases hd with
      | settled hd => exact .settled (by rw [Std.HashMap.getElem?_insert, if_neg (by simpa using Ne.symm hq), hd])
      | tentative hd => exact .tentative ((hold q hq).trans hd)
  have hdist : ∀ {q d}, (s.distances.insert p cost)[q]? = some d → q ≠ p → s.distances[q]? = some d := by
    intro q d hd hq
    rwa [Std.HashMap.getElem?_insert, if_neg (by simpa using Ne.symm hq)] at hd
  have hself : ∀ {d}, (s.distances.insert p cost)[p]? = some d → d = cost := by
    intro d hd
    simpa [eq_comm] using hd
  refine ⟨hv, fun {q} hq => ?_, fun hc => hknows (h.start hc), fun {q d} hd => ?_, fun {q r d t} hd ht => ?_,
    fun {q d m} hd hm hpend => ?_⟩
  · by_cases hqp : q = p
    · rwa [hqp]
    · rw [hold q hqp]
      exact h.apart ((Std.HashMap.mem_insert.mp hq).resolve_left (by simpa using Ne.symm hqp))
  · cases hd with
    | settled hd =>
      by_cases hq : q = p
      · subst hq
        obtain rfl := hself hd
        exact h.way (.tentative hget)
      · exact h.way (.settled (hdist hd hq))
    | tentative hd =>
      refine h.way (.tentative ?_)
      rwa [← hold q fun e => by subst e; rw [hgone] at hd; cases hd]
  · have hr : r ≠ p := by rintro rfl; rw [hgone] at ht; cases ht
    rw [hold r hr] at ht
    by_cases hq : q = p
    · subst hq
      obtain rfl := hself hd
      exact Nat.le_of_not_lt (hmin r t ht)
    · exact h.ascending (hdist hd hq) ht
  · by_cases hq : q = p
    · subst hq
      exact absurd ⟨rfl, hm⟩ hpend
    · obtain ⟨d', hd', hle⟩ := h.offered (hdist hd hq) hm id
      exact ⟨d', hknows hd', hle⟩

/-- Nothing is settled farther away than the nearest waiting position. -/
theorem Settling.le_settled {s : Progress} (h : Sound env goal s) {p : Position} {cost : Nat}
    {frontier : Queue Position Nat} (hpop : s.frontier.popMin = .ok ((p, cost), frontier)) {q : Position} {d : Nat}
    (hd : (s.distances.insert p cost)[q]? = some d) : d ≤ cost := by
  rw [Std.HashMap.getElem?_insert] at hd
  split at hd
  · exact Nat.le_of_eq (Option.some.inj hd).symm
  · exact h.ascending hd (h.valid.get?_popMin hpop).2.1

theorem sound_round {s t : Progress} (h : Sound env goal s) (hr : round env goal s = .next t) :
    Sound env goal t := by
  unfold Progress.round at hr
  split at hr
  · cases hr
  case h_2 p cost frontier hpop =>
    cases hr
    exact (Settling.settle h hpop).relaxAll (by simp) (Settling.le_settled h hpop) fun m hm => hm

theorem relaxed_of_round {s : Progress} {table : DistanceTable} (h : Sound env goal s)
    (hr : round env goal s = .done table) : table.Relaxed env ∧ table.goal = goal := by
  unfold Progress.round at hr
  split at hr
  case h_1 err hpop =>
    cases hr
    have hknown : ∀ {p d}, Knows s.distances s.frontier p d → s.distances[p]? = some d := by
      intro p d hd
      cases hd with
      | settled hd => exact hd
      | tentative hd =>
        rw [h.valid.get?_of_popMin_error hpop] at hd
        cases hd
    refine ⟨⟨fun hc => hknown (h.start hc), fun hd hm => ?_, fun hd => h.way (.settled hd)⟩, rfl⟩
    obtain ⟨d', hd', hle⟩ := h.offered hd hm id
    exact ⟨d', hknown hd', hle⟩
  · cases hr

end Progress

/-- A finished table is relaxed. -/
theorem relaxed_of_build {rounds : Nat} {env : Environment} {goal : Position} {table : DistanceTable}
    (h : build rounds env goal = some table) : table.Relaxed env ∧ table.goal = goal := by
  obtain ⟨s, hs, hr⟩ := Loop.run_invariant (I := Progress.Sound env goal)
    (fun s t hs hr => Progress.sound_round hs (Option.some.inj hr)) (Progress.sound_start env goal) h
  exact Progress.relaxed_of_round hs (Option.some.inj hr)

/-- More rounds keep a table. -/
theorem build_mono {rounds rounds' : Nat} (hle : rounds ≤ rounds') {env : Environment} {goal : Position}
    {table : DistanceTable} (h : build rounds env goal = some table) : build rounds' env goal = some table :=
  Loop.run_mono hle h

/-- In a finite environment a table is finished within one round for each position and one more. -/
theorem build_ends {env : Environment} {cells : Finset Position} (h : env.Within cells) {goal : Position}
    {rounds : Nat} (hr : (insert goal cells).card < rounds) : ∃ table, build rounds env goal = some table := by
  refine Loop.run_ends (I := Progress.Sound env goal)
    (fun s => ((insert goal cells).filter fun p => p ∉ s.distances).card) (fun s hs => ?_)
    (Progress.sound_start env goal) (Nat.lt_of_le_of_lt (Finset.card_filter_le _ _) hr)
  cases hround : Progress.round env goal s with
  | done table => exact .inl ⟨table, rfl⟩
  | next t =>
    refine .inr ⟨t, rfl, Progress.sound_round hs hround, Finset.card_lt_card ?_⟩
    unfold Progress.round at hround
    split at hround
    · cases hround
    case h_2 p cost frontier hpop =>
      cases hround
      have hget : s.frontier.get? p = some cost := (hs.valid.get?_popMin hpop).2.1
      rw [Finset.ssubset_iff_of_subset fun q hq => ?_]
      · refine ⟨p, ?_, by simp⟩
        rw [Finset.mem_filter]
        refine ⟨(hs.way (.tentative hget)).mem h, fun hp => ?_⟩
        rw [hs.apart hp] at hget
        cases hget
      · rw [Finset.mem_filter] at hq ⊢
        exact ⟨hq.1, fun hin => hq.2 (Std.HashMap.mem_insert.mpr (.inr hin))⟩

end DistanceTable

end Mapf
