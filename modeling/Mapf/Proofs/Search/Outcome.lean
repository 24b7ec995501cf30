import Mapf.Proofs.Search.Step
import Mathlib.Data.Finset.Card
import Mathlib.Data.Finset.Filter

/-! # What a search finds

A trail through promising states is cut by the states met so far: its end is closed at no greater cost,
or some waiting state promises no more than the trail (`frontier`). Hence a search that gives up has no
promising trail to a goal, and with a consistent estimate a search that succeeds found a cheapest one.
Over finitely many states every search ends. -/

namespace Mapf.BestFirst

variable {σ : Type} [BEq σ] [Hashable σ] [LawfulBEq σ] {P : Problem σ} {prune : Pruning σ}

open Progress

omit [LawfulBEq σ] in
theorem frontier {s : Progress σ} {level : Nat} (hs : Searching P prune level (fun _ _ => False) s) {l : List σ}
    {cost : Nat} (ht : P.Trail prune l cost) : P.Promising l → ∀ {a : σ} {rest : List σ} {h : Nat},
    l = a :: rest → P.heuristic a = some h →
    (a ∈ s.closed ∧ ∃ g, s.Knows a g ∧ (P.Consistent prune → g ≤ cost)) ∨
      ∃ b e, s.waiting.get? b = some e ∧ (P.Consistent prune → e.f ≤ cost + h) := by
  -- A known state is closed already or is itself the waiting state that is looked for.
  have known : ∀ {a g cost h}, s.Knows a g → (P.Consistent prune → g ≤ cost) → P.heuristic a = some h →
      (a ∈ s.closed ∧ ∃ g, s.Knows a g ∧ (P.Consistent prune → g ≤ cost)) ∨
        ∃ b e, s.waiting.get? b = some e ∧ (P.Consistent prune → e.f ≤ cost + h) := by
    intro a g cost h hk hle hh
    rcases hs.linked.closed_or_waiting hk with hc | ⟨e, he, rfl⟩
    · exact .inl ⟨hc, g, hk, hle⟩
    · refine .inr ⟨a, e, he, fun hcons => ?_⟩
      obtain ⟨k, hk', hf⟩ := hs.linked.f_eq he
      obtain rfl := Option.some.inj (hh.symm.trans hk')
      have := hle hcons
      omega
  induction ht with
  | root _ =>
    intro _ a rest h hl hh
    obtain ⟨rfl, -⟩ := List.cons.inj hl
    exact known hs.start (fun _ => Nat.le_refl 0) hh
  | @step a b rest g c _ hlead ih =>
    intro hprom b' rest' h hl hh
    obtain ⟨rfl, -⟩ := List.cons.inj hl
    obtain ⟨k, hk⟩ := Option.isSome_iff_exists.mp (hprom a (by simp))
    rcases ih (fun x hx => hprom x (List.mem_cons_of_mem _ hx)) rfl hk with ⟨hc, g', hg', hle⟩ | ⟨w, e, he, hle⟩
    · obtain ⟨g'', hg'', hle'⟩ := hs.taken hc hg' hlead (by rw [hh]; rfl) id
      refine known hg'' (fun hcons => ?_) hh
      have h₁ := hle hcons
      have h₂ := hle' hcons
      omega
    · refine .inr ⟨w, e, he, fun hcons => ?_⟩
      have h₁ := hle hcons
      have h₂ := hcons hlead hk hh
      omega

/-! ### The start -/

/-- A search starts with the initial state as the only one that waits. -/
theorem searching_enqueue {h : Nat} (hp : prune P.initial none = false) (hh : P.heuristic P.initial = some h)
    (counters : Counters) :
    ∃ s, (⟨.empty, .empty, ∅, counters⟩ : Progress σ).enqueue P.initial 0 h none = .ok s ∧
      Searching P prune h (fun _ _ => False) s := by
  obtain ⟨w, hins, hv, hget, hold⟩ := Queue.valid_empty.get?_insert (Queue.get?_empty P.initial)
    (⟨(Arena.empty : Arena σ).size, 0, 0 + h⟩ : OpenEntry)
  have hwait : ∀ {a e}, w.get? a = some e → a = P.initial ∧ e = ⟨0, 0, 0 + h⟩ := fun {a e} he => by
    by_cases ha : a = P.initial
    · subst ha
      exact ⟨rfl, Option.some.inj (he.symm.trans hget)⟩
    · rw [hold a ha, Queue.get?_empty] at he
      cases he
  have hnode : ∀ {i n}, (Arena.empty.push (⟨P.initial, 0, h, none⟩ : SearchNode σ)).get? i = some n →
      i = 0 ∧ n = ⟨P.initial, 0, h, none⟩ := fun {i n} hn => by
    rw [Arena.get?_push] at hn
    split at hn
    case isTrue hi => exact ⟨hi, (Option.some.inj hn).symm⟩
    case isFalse => simp [Arena.get?, Arena.empty] at hn
  have hfirst : (Arena.empty.push (⟨P.initial, 0, h, none⟩ : SearchNode σ)).get? 0 =
      some ⟨P.initial, 0, h, none⟩ := rfl
  refine ⟨⟨Arena.empty.push ⟨P.initial, 0, h, none⟩, w, ∅, counters⟩, by simp only [enqueue, hins],
    ⟨hv, fun ha => ?_, fun {a e} he => ?_, fun {i j m n} hi hj _ => ?_, fun {i n} hi => ?_, fun ha => ?_,
      fun {i n} hi => ?_, fun {i n} hi => ?_⟩, ⟨0, _, hfirst, rfl, rfl⟩, fun ha => ?_, fun ha => ?_,
    fun _ _ _ _ ha => ?_, fun _ a e he => ?_⟩
  · simp at ha
  · obtain ⟨rfl, rfl⟩ := hwait he
    exact ⟨h, none, hfirst, rfl⟩
  · exact (hnode hi).1.trans (hnode hj).1.symm
  · obtain ⟨rfl, rfl⟩ := hnode hi
    exact .inr (by rw [show w.get? P.initial = _ from hget]; rfl)
  · simp at ha
  · obtain ⟨rfl, rfl⟩ := hnode hi
    exact hh
  · obtain ⟨rfl, rfl⟩ := hnode hi
    exact ⟨[], .root hfirst rfl, by simp, by simp, .root hp⟩
  · simp at ha
  · simp at ha
  · simp at ha
  · obtain ⟨rfl, rfl⟩ := hwait he
    exact Nat.le_add_left _ _

theorem start_cases (P : Problem σ) (prune : Pruning σ) :
    (∃ counters, start P prune = .done ⟨.error .noPathFound, counters⟩ ∧
        ∀ l cost, P.Trail prune l cost → ¬P.Promising l) ∨
      ∃ s, start P prune = .next s ∧ ∃ level, Searching P prune level (fun _ _ => False) s := by
  unfold start
  cases hp : prune P.initial none with
  | true =>
    refine .inl ⟨_, rfl, fun l cost ht => ?_⟩
    rw [ht.initial.1] at hp
    cases hp
  | false =>
    cases hh : P.heuristic P.initial with
    | none =>
      refine .inl ⟨_, rfl, fun l cost ht hprom => ?_⟩
      have := hprom _ ht.initial.2
      rw [hh] at this
      cases this
    | some h =>
      obtain ⟨s, hs, hsearching⟩ := searching_enqueue hp hh Counters.zero.recordGeneration.recordEvaluation
      refine .inr ⟨s, ?_, h, hsearching⟩
      simp only [count, hs, Bool.false_eq_true, ↓reduceIte]

theorem searching_of_start {s : Progress σ} (h : start P prune = .next s) :
    ∃ level, Searching P prune level (fun _ _ => False) s := by
  rcases start_cases P prune with ⟨_, hdone, -⟩ | ⟨_, hnext, hs⟩
  · cases h.symm.trans hdone
  · cases h.symm.trans hnext
    exact hs

/-! ### The outcome -/

/-- What a report says about the trails from the initial state to a goal. -/
inductive Answers (P : Problem σ) (prune : Pruning σ) (deadline : Deadline) : Except SearchError (Outcome σ) → Prop
  | found {a : σ} {rest : List σ} {cost : Nat} : P.isGoal a = true → P.Trail prune (a :: rest) cost →
      (a :: rest).Nodup → P.Promising (a :: rest) →
      (P.Consistent prune → ∀ {b l cost'}, P.Trail prune (b :: l) cost' → P.Promising (b :: l) →
        P.isGoal b = true → P.heuristic b = some 0 → cost ≤ cost') →
      Answers P prune deadline (.ok ⟨(a :: rest).reverse, cost⟩)
  | noPath : (∀ {b l cost}, P.Trail prune (b :: l) cost → P.Promising (b :: l) → P.isGoal b = false) →
      Answers P prune deadline (.error .noPathFound)
  | outOfTime {k : Nat} : deadline.expired k = true → Answers P prune deadline (.error .budgetExceeded)

theorem answers_of_round {s : Progress σ} {level : Nat} (hs : Searching P prune level (fun _ _ => False) s)
    {deadline : Deadline} {report : SearchReport (Outcome σ)} (hr : round P prune deadline s = .done report) :
    Answers P prune deadline report.result := by
  -- A promising trail to a goal ends outside the closed states, so some waiting state cuts it.
  have hcut : ∀ {b l cost}, P.Trail prune (b :: l) cost → P.Promising (b :: l) → P.isGoal b = true →
      ∃ h w e, P.heuristic b = some h ∧ s.waiting.get? w = some e ∧ (P.Consistent prune → e.f ≤ cost + h) := by
    intro b l cost ht hprom hgoal
    obtain ⟨h, hh⟩ := Option.isSome_iff_exists.mp (hprom b (by simp))
    rcases frontier hs ht hprom rfl hh with ⟨hc, -⟩ | ⟨w, e, he, hle⟩
    · rw [hs.noGoal hc] at hgoal
      cases hgoal
    · exact ⟨h, w, e, hh, he, hle⟩
  rcases round_cases hs deadline with ⟨h, hnone⟩ | ⟨a, e, hget, hmin, h⟩
  · rw [h] at hr
    cases hr
    refine .noPath fun {b l cost} ht hprom => ?_
    rw [← Bool.not_eq_true]
    intro hgoal
    obtain ⟨_, w, e, -, he, -⟩ := hcut ht hprom hgoal
    rw [hnone] at he
    cases he
  · rcases h with ⟨h, hexp⟩ | ⟨hgoal, l, htrail, hnd, hprom, h⟩ | ⟨t, h, -⟩
    · rw [h] at hr
      cases hr
      exact .outOfTime hexp
    · rw [h] at hr
      cases hr
      refine .found hgoal htrail hnd hprom fun hcons b l' cost' ht' hprom' hgoal' hzero => ?_
      obtain ⟨k, w, e', hk, he', hle⟩ := hcut ht' hprom' hgoal'
      obtain rfl := Option.some.inj (hk.symm.trans hzero)
      obtain ⟨_, -, hf⟩ := hs.linked.f_eq hget
      have h₁ := hle hcons
      have h₂ := hmin he'
      omega
    · rw [h] at hr
      cases hr

theorem searching_round {s t : Progress σ} {level : Nat} (hs : Searching P prune level (fun _ _ => False) s)
    {deadline : Deadline} (hr : round P prune deadline s = .next t) :
    ∃ level, Searching P prune level (fun _ _ => False) t := by
  rcases round_cases hs deadline with ⟨h, -⟩ | ⟨a, e, -, -, ⟨h, -⟩ | ⟨-, l, -, -, -, h⟩ | ⟨u, h, hu, -⟩⟩
  · rw [h] at hr
    cases hr
  · rw [h] at hr
    cases hr
  · rw [h] at hr
    cases hr
  · rw [h] at hr
    cases hr
    exact ⟨_, hu⟩

/-- The answer of a search that ended. -/
theorem answers_of_search {rounds : Nat} {deadline : Deadline} {report : SearchReport (Outcome σ)}
    (h : search rounds P prune deadline = some report) : Answers P prune deadline report.result := by
  unfold search at h
  rcases start_cases P prune with ⟨counters, hstart, hno⟩ | ⟨s, hstart, hs⟩
  · rw [hstart] at h
    cases h
    exact .noPath fun ht hprom => absurd hprom (hno _ _ ht)
  · rw [hstart] at h
    obtain ⟨t, ⟨level, ht⟩, hr⟩ := Loop.run_invariant
      (I := fun s => ∃ level, Searching P prune level (fun _ _ => False) s)
      (fun s t ⟨_, hs⟩ hr => searching_round hs (Option.some.inj hr)) hs h
    exact answers_of_round ht (Option.some.inj hr)

omit [LawfulBEq σ] in
/-- More rounds keep a report. -/
theorem search_mono {rounds rounds' : Nat} (hle : rounds ≤ rounds') {deadline : Deadline}
    {report : SearchReport (Outcome σ)} (h : search rounds P prune deadline = some report) :
    search rounds' P prune deadline = some report := by
  unfold search at h ⊢
  cases hs : start P prune with
  | done r => rwa [hs] at h
  | next s =>
    rw [hs] at h
    exact Loop.run_mono hle h

/-- Over finitely many states every search ends, within one round for each of them and one more. -/
theorem search_ends [DecidableEq σ] {states : Finset σ} (hfin : ∀ {a l cost}, P.Trail prune (a :: l) cost → a ∈ states)
    (deadline : Deadline) {rounds : Nat} (hr : states.card < rounds) :
    ∃ report, search rounds P prune deadline = some report := by
  unfold search
  rcases start_cases P prune with ⟨counters, hstart, -⟩ | ⟨s, hstart, hs⟩
  · rw [hstart]
    exact ⟨_, rfl⟩
  rw [hstart]
  refine Loop.run_ends (I := fun s => ∃ level, Searching P prune level (fun _ _ => False) s)
    (fun s => (states.filter (· ∉ s.closed)).card) (fun s hs => ?_) hs
    (Nat.lt_of_le_of_lt (Finset.card_filter_le _ _) hr)
  obtain ⟨level, hs⟩ := hs
  rcases round_cases hs deadline with ⟨h, -⟩ | ⟨a, e, hget, -, ⟨h, -⟩ | ⟨-, l, -, -, -, h⟩ | ⟨t, h, ht, hclosed⟩⟩
  · exact .inl ⟨_, congrArg some h⟩
  · exact .inl ⟨_, congrArg some h⟩
  · exact .inl ⟨_, congrArg some h⟩
  · refine .inr ⟨t, congrArg some h, ⟨_, ht⟩, Finset.card_lt_card ?_⟩
    obtain ⟨_, _, hn, -⟩ := hs.linked.entry hget
    obtain ⟨rest, -, -, -, htrail⟩ := hs.linked.chain hn
    rw [Finset.ssubset_iff_of_subset fun b hb => ?_]
    · refine ⟨a, Finset.mem_filter.mpr ⟨hfin htrail, fun ha => ?_⟩, fun ha => ?_⟩
      · rw [hs.linked.apart ha] at hget
        cases hget
      · exact (Finset.mem_filter.mp ha).2 (hclosed.mpr (.inl rfl))
    · rw [Finset.mem_filter] at hb ⊢
      exact ⟨hb.1, fun h => hb.2 (hclosed.mpr (.inr h))⟩

end Mapf.BestFirst
