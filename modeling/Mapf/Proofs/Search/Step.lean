import Mapf.Proofs.Search.Linked

/-! # What a search keeps

Looking at a move either leaves the states met so far alone or gives one state a new or cheaper way
(`visit_cases`). Between rounds no closed state is a goal, every move out of a closed state that is not
pruned and leads somewhere promising has been taken in, and with a consistent estimate the closed states
lie below a level of estimated cost and the waiting ones above it (`Searching`). -/

namespace Mapf.BestFirst

variable {σ : Type} [BEq σ] [Hashable σ] [LawfulBEq σ] {P : Problem σ} {prune : Pruning σ}

namespace Progress

/-! ### One move -/

section Visit

variable {s : Progress σ} {child a : σ} {g h : Nat}

theorem enqueue_placed (g h parent : Nat) (hs : Linked P prune s) (hnew : child ∉ s.closed)
    (hw : s.waiting.get? child = none) :
    ∃ t, s.enqueue child g h (some parent) = .ok t ∧ Placed s t child g h parent := by
  obtain ⟨w, hins, hv, hget, hold⟩ := hs.valid.get?_insert hw ⟨s.arena.size, g, g + h⟩
  refine ⟨{ s with arena := s.arena.push ⟨child, g, h, some parent⟩, waiting := w }, by simp only [enqueue, hins],
    hv, rfl, hold _, s.arena.size, hget, ?_, fun hj => ?_, fun hn => ?_, fun hn hc => ?_⟩
  · simp [Arena.get?_push]
  · simp [Arena.get?_push, hj]
  · rw [Arena.get?_size] at hn
    cases hn
  · rcases hs.met hn with hm | hm
    · exact absurd (hc ▸ hm) hnew
    · rw [hc, hw] at hm
      cases hm

theorem improve_placed (parent : Nat) (hs : Linked P prune s) {known : OpenEntry}
    (hw : s.waiting.get? child = some known) (hh : P.heuristic child = some h) (hlt : g < known.g) :
    ∃ t, s.improve child known.node g h parent = .ok t ∧ Placed s t child g h parent := by
  obtain ⟨w, hupd, hv, hget, hold⟩ := hs.valid.get?_update hw fun entry => { entry with g := g, f := g + h }
  obtain ⟨k, par, hn, -⟩ := hs.entry hw
  obtain rfl : h = k := Option.some.inj (hh.symm.trans (hs.estimate hn))
  refine ⟨{ s with arena := s.arena.reroute known.node g (some parent), waiting := w },
    by simp only [improve, hupd], hv, rfl, hold _, known.node, hget, ?_, fun hj => ?_, fun hn' => ?_,
    fun hn' hc => ?_⟩
  · simp [Arena.get?_reroute, hn]
  · simp [Arena.get?_reroute, Ne.symm hj]
  · rw [Option.some.inj (hn'.symm.trans hn)]
  · obtain rfl := hs.unique hn' hn hc
    obtain rfl := Option.some.inj (hn'.symm.trans hn)
    exact ⟨rfl, hlt⟩

/-- Looking at a move never fails: it is of no use, or it gives a state that is not closed a new or
    cheaper way. -/
theorem visit_cases (hs : Linked P prune s) (a : σ) (e : OpenEntry) (m : σ × Nat) :
    ∃ t, visit P prune a e s m = .ok t ∧
      (t.arena = s.arena ∧ t.waiting = s.waiting ∧ t.closed = s.closed ∧
          (m.1 ∈ s.closed ∨ prune m.1 (some a) = true ∨ P.heuristic m.1 = none ∨
            ∃ known, s.waiting.get? m.1 = some known ∧ known.g ≤ e.g + m.2) ∨
        m.1 ∉ s.closed ∧ prune m.1 (some a) = false ∧
          ∃ h, P.heuristic m.1 = some h ∧ Placed s t m.1 (e.g + m.2) h e.node) := by
  unfold visit
  by_cases hc : m.1 ∈ s.closed
  · exact ⟨s, by rw [if_pos (by simpa using hc)], .inl ⟨rfl, rfl, rfl, .inl hc⟩⟩
  rw [if_neg (by simpa using hc)]
  cases hp : prune m.1 (some a) with
  | true => exact ⟨_, rfl, .inl ⟨rfl, rfl, rfl, .inr (.inl rfl)⟩⟩
  | false =>
    simp only [Bool.false_eq_true, ↓reduceIte]
    cases hh : P.heuristic m.1 with
    | none => exact ⟨_, rfl, .inl ⟨rfl, rfl, rfl, .inr (.inr (.inl rfl))⟩⟩
    | some h =>
      -- The counters have changed, nothing else.
      have hs' : Linked P prune ((s.count .recordGeneration).count .recordEvaluation) := hs.of_eq rfl rfl rfl
      cases hw : s.waiting.get? m.1 with
      | none =>
        obtain ⟨t, ht, hplaced⟩ := enqueue_placed (e.g + m.2) h e.node hs' hc hw
        refine ⟨t, ?_, .inr ⟨hc, trivial, h, rfl, ?_⟩⟩
        · simp only [count, hw]
          exact ht
        · exact ⟨hplaced.valid, hplaced.closed, hplaced.others, hplaced.node⟩
      | some known =>
        by_cases hlt : e.g + m.2 < known.g
        · obtain ⟨t, ht, hplaced⟩ := improve_placed e.node hs' hw hh hlt
          refine ⟨t, ?_, .inr ⟨hc, trivial, h, rfl, ?_⟩⟩
          · simp only [count, hw, hlt, ↓reduceIte]
            exact ht
          · exact ⟨hplaced.valid, hplaced.closed, hplaced.others, hplaced.node⟩
        · refine ⟨(s.count .recordGeneration).count .recordEvaluation, by simp only [count, hw, hlt, ↓reduceIte],
            .inl ⟨rfl, rfl, rfl, ?_⟩⟩
          exact .inr (.inr (.inr ⟨known, rfl, Nat.le_of_not_lt hlt⟩))

end Visit

/-! ### The invariant -/

/-- What holds of a search; moves that are `pending` were not looked at yet. -/
structure Searching (P : Problem σ) (prune : Pruning σ) (level : Nat) (pending : σ → σ × Nat → Prop)
    (s : Progress σ) : Prop where
  linked : Linked P prune s
  start : s.Knows P.initial 0
  noGoal : ∀ {a : σ}, a ∈ s.closed → P.isGoal a = false
  taken : ∀ {a b : σ} {c g : Nat}, a ∈ s.closed → s.Knows a g → P.Leads prune a b c →
    (P.heuristic b).isSome → ¬pending a (b, c) → ∃ g', s.Knows b g' ∧ (P.Consistent prune → g' ≤ g + c)
  below : P.Consistent prune → ∀ {a : σ} {g h : Nat}, a ∈ s.closed → s.Knows a g → P.heuristic a = some h →
    g + h ≤ level
  above : P.Consistent prune → ∀ {a : σ} {e : OpenEntry}, s.waiting.get? a = some e → level ≤ e.f

section Move

variable {s t : Progress σ} {a : σ} {e : OpenEntry} {m : σ × Nat} {rest : List (σ × Nat)}

/-- A move that was pending is the present one or still pending. -/
theorem pending_cons {α β : Type} {a b : α} {n : β} (m : β) {rest : List β} (h : ¬(b = a ∧ n ∈ rest)) :
    b = a ∧ n = m ∨ ¬(b = a ∧ n ∈ m :: rest) := by
  by_cases heq : b = a ∧ n = m
  · exact .inl heq
  · refine .inr fun ⟨hb, hmem⟩ => ?_
    rcases List.mem_cons.mp hmem with hnm | hmem
    · exact heq ⟨hb, hnm⟩
    · exact h ⟨hb, hmem⟩

omit [LawfulBEq σ] in
/-- A move of no use leaves the search as it is. -/
theorem Searching.pass (hs : Searching P prune e.f (fun b n => b = a ∧ n ∈ m :: rest) s) {h : Nat}
    (hk : s.Knows a e.g) (hh : P.heuristic a = some h) (hf : e.f = e.g + h) (harena : t.arena = s.arena)
    (hwait : t.waiting = s.waiting) (hclosed : t.closed = s.closed)
    (huse : m.1 ∈ s.closed ∨ prune m.1 (some a) = true ∨ P.heuristic m.1 = none ∨
      ∃ known, s.waiting.get? m.1 = some known ∧ known.g ≤ e.g + m.2) :
    Searching P prune e.f (fun b n => b = a ∧ n ∈ rest) t := by
  have hknows : ∀ {b g}, t.Knows b g ↔ s.Knows b g := knows_congr harena
  refine ⟨hs.linked.of_eq harena hwait hclosed, hknows.mpr hs.start, ?_, ?_, ?_, ?_⟩
  · rw [hclosed]
    exact hs.noGoal
  · intro b d c g hb hg hl hd hnot
    rw [hclosed] at hb
    rw [hknows] at hg
    rcases pending_cons m hnot with ⟨rfl, rfl⟩ | hnot
    · obtain rfl := hs.linked.knows_unique hk hg
      rcases huse with hdc | hpr | hnone | ⟨known, hw, hle⟩
      · obtain ⟨g', hg'⟩ := hs.linked.knows_closed hdc
        obtain ⟨k, hk'⟩ := Option.isSome_iff_exists.mp hd
        refine ⟨g', hknows.mpr hg', fun hcons => ?_⟩
        have h₁ := hs.below hcons hdc hg' hk'
        have h₂ := hcons hl hh hk'
        omega
      · rw [hl.2] at hpr
        cases hpr
      · rw [show P.heuristic d = none from hnone] at hd
        cases hd
      · exact ⟨known.g, hknows.mpr (hs.linked.knows_waiting hw), fun _ => hle⟩
    · obtain ⟨g', hg', hle⟩ := hs.taken hb hg hl hd hnot
      exact ⟨g', hknows.mpr hg', hle⟩
  · intro hcons b g k hb hg
    rw [hclosed] at hb
    exact hs.below hcons hb (hknows.mp hg)
  · intro hcons b d hd
    rw [hwait] at hd
    exact hs.above hcons hd

omit [LawfulBEq σ] in
/-- A move that gives a state a new or cheaper way. -/
theorem Searching.place (hs : Searching P prune e.f (fun b n => b = a ∧ n ∈ m :: rest) s) (ha : a ∈ s.closed)
    {h k : Nat} {par : Option Nat} (hn : s.arena.get? e.node = some ⟨a, e.g, h, par⟩) (hf : e.f = e.g + h)
    (hl : P.Leads prune a m.1 m.2) (hnew : m.1 ∉ s.closed) (hk : P.heuristic m.1 = some k)
    (hplaced : Placed s t m.1 (e.g + m.2) k e.node) :
    Searching P prune e.f (fun b n => b = a ∧ n ∈ rest) t := by
  have hlinked := hs.linked.placed hplaced hnew hk hn ha hl rfl
  have hne : ∀ {b}, b ∈ s.closed → b ≠ m.1 := fun hb heq => hnew (heq ▸ hb)
  have hback : ∀ {b g}, b ∈ s.closed → t.Knows b g → s.Knows b g := by
    intro b g hb hg
    obtain ⟨g', hg'⟩ := hs.linked.knows_closed hb
    obtain ⟨g'', hg'', -, heq⟩ := hplaced.knows hg'
    rw [hlinked.knows_unique hg hg'', heq (hne hb)]
    exact hg'
  refine ⟨hlinked, ?_, ?_, ?_, ?_, ?_⟩
  · obtain ⟨g', hg', hle, -⟩ := hplaced.knows hs.start
    rwa [Nat.le_zero.mp hle] at hg'
  · rw [hplaced.closed]
    exact hs.noGoal
  · intro b d c g hb hg hl' hd hnot
    rw [hplaced.closed] at hb
    have hg₀ := hback hb hg
    rcases pending_cons m hnot with ⟨rfl, rfl⟩ | hnot
    · obtain rfl := hs.linked.knows_unique ⟨_, _, hn, rfl, rfl⟩ hg₀
      exact ⟨_, hplaced.knows_child, fun _ => Nat.le_refl _⟩
    · obtain ⟨g', hg', hle⟩ := hs.taken hb hg₀ hl' hd hnot
      obtain ⟨g'', hg'', hle', -⟩ := hplaced.knows hg'
      exact ⟨g'', hg'', fun hcons => Nat.le_trans hle' (hle hcons)⟩
  · intro hcons b g k' hb hg
    rw [hplaced.closed] at hb
    exact hs.below hcons hb (hback hb hg)
  · intro hcons b d hd
    by_cases hb : b = m.1
    · subst hb
      obtain ⟨id, hw, -⟩ := hplaced.node
      obtain rfl := Option.some.inj (hw.symm.trans hd)
      have : h ≤ m.2 + k := hcons hl (hs.linked.estimate hn) hk
      show e.f ≤ e.g + m.2 + k
      omega
    · rw [hplaced.others hb] at hd
      exact hs.above hcons hd

/-- A search after one more move out of the state that is being expanded. -/
theorem Searching.visit (hs : Searching P prune e.f (fun b n => b = a ∧ n ∈ m :: rest) s) (ha : a ∈ s.closed)
    {h : Nat} {par : Option Nat} (hn : s.arena.get? e.node = some ⟨a, e.g, h, par⟩) (hf : e.f = e.g + h)
    (hm : m ∈ P.successors a) :
    ∃ t, BestFirst.visit P prune a e s m = .ok t ∧ t.closed = s.closed ∧
      t.arena.get? e.node = some ⟨a, e.g, h, par⟩ ∧
      Searching P prune e.f (fun b n => b = a ∧ n ∈ rest) t := by
  obtain ⟨t, ht, hcase⟩ := visit_cases hs.linked a e m
  rcases hcase with ⟨harena, hwait, hclosed, huse⟩ | ⟨hnew, hpr, k, hk, hplaced⟩
  · exact ⟨t, ht, hclosed, by rw [harena, hn],
      hs.pass ⟨_, _, hn, rfl, rfl⟩ (hs.linked.estimate hn) hf harena hwait hclosed huse⟩
  · exact ⟨t, ht, hplaced.closed, hplaced.get?_of_ne (fun heq => hnew (heq ▸ ha)) hn,
      hs.place ha hn hf ⟨hm, hpr⟩ hnew hk hplaced⟩

end Move

theorem Searching.visitAll {s : Progress σ} {a : σ} {e : OpenEntry} {moves : List (σ × Nat)}
    (hs : Searching P prune e.f (fun b n => b = a ∧ n ∈ moves) s) (ha : a ∈ s.closed) {h : Nat}
    {par : Option Nat} (hn : s.arena.get? e.node = some ⟨a, e.g, h, par⟩) (hf : e.f = e.g + h)
    (hmoves : ∀ m ∈ moves, m ∈ P.successors a) :
    ∃ t, moves.foldlM (BestFirst.visit P prune a e) s = .ok t ∧ t.closed = s.closed ∧
      Searching P prune e.f (fun _ _ => False) t := by
  induction moves generalizing s with
  | nil =>
    refine ⟨s, rfl, rfl, ?_⟩
    simpa using hs
  | cons m rest ih =>
    obtain ⟨t, ht, hclosed, hn', hs'⟩ := hs.visit ha hn hf (hmoves m List.mem_cons_self)
    obtain ⟨u, hu, hclosed', hs''⟩ := ih hs' (hclosed ▸ ha) hn' fun n hmem => hmoves n (List.mem_cons_of_mem _ hmem)
    refine ⟨u, ?_, hclosed'.trans hclosed, hs''⟩
    rw [List.foldlM_cons, ht]
    exact hu

/-! ### One round -/

section Close

variable {s t : Progress σ} {level : Nat} {a : σ} {e : OpenEntry} {w : Queue σ OpenEntry}

theorem mem_closed (hclosed : t.closed = s.closed.insert a) {b : σ} : b ∈ t.closed ↔ b = a ∨ b ∈ s.closed := by
  rw [hclosed, Std.HashSet.mem_insert, beq_iff_eq, eq_comm]

/-- What waits after the most promising state is closed has waited before, and is another state. -/
theorem Linked.waiting_close (hs : Linked P prune s) (hpop : s.waiting.popMin = .ok ((a, e), w))
    (hwait : t.waiting = w) {b : σ} {d : OpenEntry} (hd : t.waiting.get? b = some d) :
    b ≠ a ∧ s.waiting.get? b = some d := by
  obtain ⟨-, -, hgone, hold, -⟩ := hs.valid.get?_popMin hpop
  rw [hwait] at hd
  have hb : b ≠ a := by
    rintro rfl
    rw [hgone] at hd
    cases hd
  exact ⟨hb, hold b hb ▸ hd⟩

theorem Linked.close (hs : Linked P prune s) (hpop : s.waiting.popMin = .ok ((a, e), w))
    (harena : t.arena = s.arena) (hwait : t.waiting = w) (hclosed : t.closed = s.closed.insert a) :
    Linked P prune t := by
  obtain ⟨hv, hget, hgone, hold, -⟩ := hs.valid.get?_popMin hpop
  have hmem : ∀ {b}, b ∈ t.closed ↔ b = a ∨ b ∈ s.closed := mem_closed hclosed
  refine ⟨hwait ▸ hv, fun {b} hb => ?_, fun hd => ?_, ?_, fun {i n} hi => ?_, fun {b} hb => ?_, ?_,
    fun {i n} hi => ?_⟩
  · rw [hwait]
    rcases hmem.mp hb with rfl | hb
    · exact hgone
    · by_cases hba : b = a
      · rwa [hba]
      · rw [hold b hba]
        exact hs.apart hb
  · rw [harena]
    exact hs.entry (hs.waiting_close hpop hwait hd).2
  · rw [harena]
    exact hs.unique
  · rw [harena] at hi
    by_cases hna : n.state = a
    · exact .inl (hmem.mpr (.inl hna))
    · rw [hwait, hold _ hna, hmem]
      exact (hs.met hi).imp .inr id
  · rw [harena]
    rcases hmem.mp hb with rfl | hb
    · obtain ⟨_, _, hn, -⟩ := hs.entry hget
      exact ⟨_, _, hn, rfl⟩
    · exact hs.stored hb
  · rw [harena]
    exact hs.estimate
  · rw [harena] at hi ⊢
    obtain ⟨rest, hch, hcl, hrest⟩ := hs.chain hi
    exact ⟨rest, hch, fun b hb => hmem.mpr (.inr (hcl b hb)), hrest⟩

/-- The state that leaves the queue has the least estimate. -/
theorem Linked.f_le (hs : Linked P prune s) (hpop : s.waiting.popMin = .ok ((a, e), w)) {b : σ} {d : OpenEntry}
    (hd : s.waiting.get? b = some d) : e.f ≤ d.f := by
  obtain ⟨-, -, -, -, hmin⟩ := hs.valid.get?_popMin hpop
  have := hmin b d hd
  rw [Merit.lt_iff] at this
  exact Nat.le_of_not_lt fun hlt => this (.inl hlt)

/-- Closing the most promising state leaves its moves pending. -/
theorem Searching.close (hs : Searching P prune level (fun _ _ => False) s)
    (hpop : s.waiting.popMin = .ok ((a, e), w)) (hgoal : P.isGoal a = false) (harena : t.arena = s.arena)
    (hwait : t.waiting = w) (hclosed : t.closed = s.closed.insert a) :
    Searching P prune e.f (fun b n => b = a ∧ n ∈ P.successors a) t := by
  obtain ⟨-, hget, -⟩ := hs.linked.valid.get?_popMin hpop
  have hmem : ∀ {b}, b ∈ t.closed ↔ b = a ∨ b ∈ s.closed := mem_closed hclosed
  have hknows : ∀ {b g}, t.Knows b g ↔ s.Knows b g := knows_congr harena
  refine ⟨hs.linked.close hpop harena hwait hclosed, hknows.mpr hs.start, fun hb => ?_,
    fun {b d c g} hb hg hlead hd hnot => ?_, fun hcons => ?_, fun hcons => ?_⟩
  · rcases hmem.mp hb with rfl | hb
    · exact hgoal
    · exact hs.noGoal hb
  · rcases hmem.mp hb with rfl | hb
    · exact absurd ⟨rfl, hlead.1⟩ hnot
    · obtain ⟨g', hg', hle⟩ := hs.taken hb (hknows.mp hg) hlead hd id
      exact ⟨g', hknows.mpr hg', hle⟩
  · intro b g k hb hg hk
    rw [hknows] at hg
    rcases hmem.mp hb with rfl | hb
    · obtain ⟨k', hk', hf⟩ := hs.linked.f_eq hget
      obtain rfl := hs.linked.knows_unique hg (hs.linked.knows_waiting hget)
      obtain rfl := Option.some.inj (hk.symm.trans hk')
      exact Nat.le_of_eq hf.symm
    · exact Nat.le_trans (hs.below hcons hb hg hk) (hs.above hcons hget)
  · intro b d hd
    exact hs.linked.f_le hpop (hs.linked.waiting_close hpop hwait hd).2

end Close

/-- What one round of a search does. -/
theorem round_cases {s : Progress σ} {level : Nat} (hs : Searching P prune level (fun _ _ => False) s)
    (deadline : Deadline) :
    (round P prune deadline s = .done ⟨.error .noPathFound, s.counters⟩ ∧ ∀ a, s.waiting.get? a = none) ∨
    ∃ a e, s.waiting.get? a = some e ∧ (∀ {b d}, s.waiting.get? b = some d → e.f ≤ d.f) ∧
      ((round P prune deadline s = .done ⟨.error .budgetExceeded, s.counters⟩ ∧
          deadline.expired s.counters.expanded = true) ∨
        (P.isGoal a = true ∧ ∃ l, P.Trail prune (a :: l) e.g ∧ (a :: l).Nodup ∧ P.Promising (a :: l) ∧
          round P prune deadline s = .done ⟨.ok ⟨(a :: l).reverse, e.g⟩, s.counters⟩) ∨
        ∃ t, round P prune deadline s = .next t ∧ Searching P prune e.f (fun _ _ => False) t ∧
          ∀ {b}, b ∈ t.closed ↔ b = a ∨ b ∈ s.closed) := by
  unfold BestFirst.round
  cases hpop : s.waiting.popMin with
  | error err => exact .inl ⟨rfl, hs.linked.valid.get?_of_popMin_error hpop⟩
  | ok popped =>
    obtain ⟨⟨a, e⟩, w⟩ := popped
    obtain ⟨-, hget, -⟩ := hs.linked.valid.get?_popMin hpop
    obtain ⟨h, par, hn, hf⟩ := hs.linked.entry hget
    refine .inr ⟨a, e, hget, hs.linked.f_le hpop, ?_⟩
    dsimp only
    split
    case isTrue hexp => exact .inl ⟨rfl, hexp.2⟩
    case isFalse =>
      split
      case isTrue hgoal =>
        obtain ⟨rest, hch, -, hnd, htr⟩ := hs.linked.chain hn
        refine .inr (.inl ⟨hgoal, rest, htr, hnd, hs.linked.promising hch, ?_⟩)
        rw [Arena.pathTo?_of_chain hch hnd]
      case isFalse hgoal =>
        have hclose := hs.close
          (t := { s with waiting := w, closed := s.closed.insert a, counters := s.counters.recordExpansion }) hpop
          (by simpa using hgoal) rfl rfl rfl
        obtain ⟨t, ht, hclosed, hs'⟩ := hclose.visitAll (by simp) hn hf fun m hm => hm
        refine .inr (.inr ⟨t, ?_, hs', fun {b} => ?_⟩)
        · simp only [expand, count, ht]
        · rw [hclosed, Std.HashSet.mem_insert, beq_iff_eq, eq_comm (a := a)]

end Progress

end Mapf.BestFirst
