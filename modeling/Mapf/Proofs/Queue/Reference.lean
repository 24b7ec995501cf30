import Mapf.Proofs.Queue.Contents
import Mathlib.Data.List.AList
import Mathlib.Data.Nat.Basic
import Mathlib.Order.RelClasses

/-! # The queue and its reference

The reference for a queue is a finite map from keys to payloads with their numbers (`Ledger`). It has no
heap and no positions: it finds the record that leaves first by comparing each with all others. Every
command keeps a queue in step with a ledger and is answered alike by both (`Refines.respond`), so whatever
is asked of a queue from the start on, it answers as the ledger does (`replies_eq_reference`). -/

namespace Mapf.Queue

/-- What can be asked of a queue. -/
inductive Command (κ π : Type) where
  | insert (key : κ) (payload : π)
  | update (key : κ) (change : π → π)
  | remove (key : κ)
  | popMin
  | peekMin
  | get (key : κ)
  | contains (key : κ)
  | size
  | clear

inductive Reply (κ π : Type) where
  | done (result : Except QueueError Unit)
  | entry (result : Except QueueError (κ × π))
  | payload (result : Option π)
  | present (result : Bool)
  | size (result : Nat)

/-- Carries out commands one after the other. -/
def serve {σ κ π : Type} (respond : σ → Command κ π → Reply κ π × σ) (s : σ) :
    List (Command κ π) → List (Reply κ π) × σ
  | [] => ([], s)
  | command :: rest =>
    let (reply, s) := respond s command
    let (replies, s) := serve respond s rest
    (reply :: replies, s)

variable {κ π ρ : Type} [DecidableEq κ] [Hashable κ] [Prioritized π ρ] [LT ρ] [DecidableLT ρ]

/-- Carries out a command; one that fails leaves the queue as it is. -/
def respond (q : Queue κ π) : Command κ π → Reply κ π × Queue κ π
  | .insert k p =>
    match q.insert k p with
    | .ok q => (.done (.ok ()), q)
    | .error e => (.done (.error e), q)
  | .update k f =>
    match q.update k f with
    | .ok q => (.done (.ok ()), q)
    | .error e => (.done (.error e), q)
  | .remove k =>
    match q.remove k with
    | some (p, q) => (.payload (some p), q)
    | none => (.payload none, q)
  | .popMin =>
    match q.popMin with
    | .ok (first, q) => (.entry (.ok first), q)
    | .error e => (.entry (.error e), q)
  | .peekMin => (.entry q.peekMin, q)
  | .get k => (.payload (q.get? k), q)
  | .contains k => (.present (q.contains k), q)
  | .size => (.size q.size, q)
  | .clear => (.done (.ok ()), q.clear)

/-! ### The reference -/

/-- A key with its payload and the number of its insertion. -/
abbrev Record (κ π : Type) := Σ _ : κ, π × Nat

/-- Payloads and numbers by key, and the number of the next insertion. -/
structure Ledger (κ π : Type) where
  records : AList fun _ : κ => π × Nat
  nextSeq : Nat

namespace Ledger

def empty : Ledger κ π := ⟨∅, 0⟩

/-- The order of leaving: by priority, equal priorities by number. -/
def Before (a b : Record κ π) : Prop :=
  Prioritized.priority a.2.1 < Prioritized.priority b.2.1 ∨
    Prioritized.priority a.2.1 = Prioritized.priority b.2.1 ∧ a.2.2 < b.2.2

instance [DecidableEq ρ] : DecidableRel (Before : Record κ π → Record κ π → Prop) := fun a b =>
  inferInstanceAs (Decidable (Prioritized.priority a.2.1 < Prioritized.priority b.2.1 ∨
    Prioritized.priority a.2.1 = Prioritized.priority b.2.1 ∧ a.2.2 < b.2.2))

/-- A record leaves before those of all other keys. -/
def IsFirst (l : Ledger κ π) (e : Record κ π) : Prop := ∀ d ∈ l.records.entries, d.1 = e.1 ∨ Before e d

instance [DecidableEq ρ] (l : Ledger κ π) : DecidablePred l.IsFirst := fun e =>
  inferInstanceAs (Decidable (∀ d ∈ l.records.entries, d.1 = e.1 ∨ Before e d))

/-- The record that leaves first. -/
def first? [DecidableEq ρ] (l : Ledger κ π) : Option (Record κ π) := l.records.entries.find? fun e => l.IsFirst e

def firstEntry [DecidableEq ρ] (l : Ledger κ π) : Except QueueError (κ × π) :=
  match l.first? with
  | some e => .ok (e.1, e.2.1)
  | none => .error .empty

/-- What a command does to the reference. A fresh key takes the next number, and a changed payload keeps
    its number. -/
def respond [DecidableEq ρ] (l : Ledger κ π) : Command κ π → Reply κ π × Ledger κ π
  | .insert k p =>
    if k ∈ l.records then (.done (.error .duplicateKey), l)
    else (.done (.ok ()), ⟨l.records.insert k (p, l.nextSeq), l.nextSeq + 1⟩)
  | .update k f =>
    match l.records.lookup k with
    | some (p, n) => (.done (.ok ()), ⟨l.records.insert k (f p, n), l.nextSeq⟩)
    | none => (.done (.error .missingKey), l)
  | .remove k => (.payload ((l.records.lookup k).map Prod.fst), ⟨l.records.erase k, l.nextSeq⟩)
  | .popMin =>
    match l.first? with
    | some e => (.entry l.firstEntry, ⟨l.records.erase e.1, l.nextSeq⟩)
    | none => (.entry l.firstEntry, l)
  | .peekMin => (.entry l.firstEntry, l)
  | .get k => (.payload ((l.records.lookup k).map Prod.fst), l)
  | .contains k => (.present (k ∈ l.records), l)
  | .size => (.size l.records.keys.length, l)
  | .clear => (.done (.ok ()), ⟨∅, l.nextSeq⟩)

end Ledger

/-! ### In step -/

/-- What the reference records of an entry. -/
def Entry.record (e : Entry κ π) : Record κ π := ⟨e.key, e.payload, e.seq⟩

/-- A valid queue and a ledger hold the same under every key and go on with the same number. -/
structure Refines (q : Queue κ π) (l : Ledger κ π) : Prop where
  valid : q.Valid
  nextSeq : l.nextSeq = q.nextSeq
  lookup : ∀ k, l.records.lookup k = (q.find? k).map fun e => (e.payload, e.seq)

section Records

variable {q q' : Queue κ π} {l : Ledger κ π} {e : Entry κ π} {k : κ} {p : π}

theorem refines_clear (q : Queue κ π) (n : Nat) (hn : n = q.nextSeq) : Refines q.clear ⟨∅, n⟩ where
  valid := valid_clear q
  nextSeq := hn
  lookup k := by rw [find?_clear, AList.lookup_empty, Option.map_none]

theorem refines_empty : Refines (empty : Queue κ π) .empty := refines_clear empty 0 rfl

/-- The records of a ledger are those of the entries. -/
theorem Refines.perm (h : Refines q l) : (q.toList.map Entry.record).Perm l.records.entries := by
  have hinj : Function.Injective (Entry.record : Entry κ π → Record κ π) := by
    rintro ⟨k, p, n⟩ ⟨k', p', n'⟩ heq
    cases heq
    rfl
  refine List.mem_ext ((List.Nodup.of_map _ h.valid.distinct).map hinj) l.records.nodupKeys.nodup ?_
  rintro ⟨k, p, n⟩
  have hrec : ∀ d : Entry κ π, d.record = ⟨k, p, n⟩ ↔ d = ⟨k, p, n⟩ := fun d => hinj.eq_iff (b := ⟨k, p, n⟩)
  rw [← AList.mem_lookup_iff, h.lookup, Option.mem_def, Option.map_eq_some_iff, List.mem_map]
  constructor
  · rintro ⟨d, hd, heq⟩
    obtain rfl := (hrec d).mp heq
    exact ⟨_, h.valid.indexed.find?_eq_some_iff.mpr ⟨hd, rfl⟩, rfl⟩
  · rintro ⟨d, hd, heq⟩
    obtain ⟨hmem, rfl⟩ := h.valid.indexed.find?_eq_some_iff.mp hd
    cases heq
    exact ⟨d, hmem, rfl⟩

theorem Refines.mem_iff (h : Refines q l) : k ∈ l.records ↔ (q.find? k).isSome := by
  rw [← AList.lookup_isSome, h.lookup, Option.isSome_map]

theorem Refines.insert (h : Refines q l) (hv : q'.Valid) (hn : q'.nextSeq = q.nextSeq + 1)
    (hp : q'.toList.Perm (⟨k, p, q.nextSeq⟩ :: q.toList)) :
    Refines q' ⟨l.records.insert k (p, l.nextSeq), l.nextSeq + 1⟩ := by
  obtain ⟨hk, -, hothers⟩ := hv.find?_of_perm h.valid hp
  refine ⟨hv, by rw [hn, h.nextSeq], fun j => ?_⟩
  by_cases hj : j = k
  · subst hj
    rw [AList.lookup_insert, hk, h.nextSeq]
    rfl
  · rw [AList.lookup_insert_ne hj, h.lookup, hothers j hj]

theorem Refines.erase (h : Refines q l) (hv : q'.Valid) (hn : q'.nextSeq = q.nextSeq)
    (hp : q.toList.Perm (e :: q'.toList)) : Refines q' ⟨l.records.erase e.key, l.nextSeq⟩ := by
  obtain ⟨-, hk, hothers⟩ := h.valid.find?_of_perm hv hp
  refine ⟨hv, by rw [hn, h.nextSeq], fun j => ?_⟩
  by_cases hj : j = e.key
  · subst hj
    rw [AList.lookup_erase, hk, Option.map_none]
  · rw [AList.lookup_erase_ne hj, h.lookup, hothers j hj]

theorem Refines.update (h : Refines q l) (hk : q.find? k = some e) (f : π → π) (hv : q'.Valid)
    (hn : q'.nextSeq = q.nextSeq)
    (hfind : ∀ j, q'.find? j = (q.find? j).map fun e => if e.key == k then { e with payload := f e.payload } else e) :
    Refines q' ⟨l.records.insert k (f e.payload, e.seq), l.nextSeq⟩ := by
  have hkey : ∀ {j d}, q.find? j = some d → d.key = j := fun hd => (h.valid.indexed.find?_eq_some_iff.mp hd).2
  refine ⟨hv, by rw [hn, h.nextSeq], fun j => ?_⟩
  by_cases hj : j = k
  · subst hj
    simp [AList.lookup_insert, hfind, hk, hkey hk]
  · rw [AList.lookup_insert_ne hj, h.lookup, hfind]
    cases hd : q.find? j with
    | none => rfl
    | some d => simp [hkey hd, hj]

theorem Refines.erase_absent (h : Refines q l) (hk : q.find? k = none) :
    Refines q ⟨l.records.erase k, l.nextSeq⟩ := by
  refine ⟨h.valid, h.nextSeq, fun j => ?_⟩
  by_cases hj : j = k
  · subst hj
    rw [AList.lookup_erase, hk, Option.map_none]
  · rw [AList.lookup_erase_ne hj, h.lookup]

theorem Refines.size_eq (h : Refines q l) : q.size = l.records.keys.length := by
  have := h.perm.length_eq
  rw [List.length_map] at this
  rw [AList.keys, List.keys, List.length_map, ← this]
  rfl

end Records

/-! ### Answers -/

section Answers

variable [DecidableEq ρ] [IsStrictTotalOrder ρ (· < ·)] {q : Queue κ π} {l : Ledger κ π} {k : κ}

omit [DecidableEq κ] [Hashable κ] [DecidableEq ρ] in
theorem before_record {d e : Entry κ π} : Ledger.Before d.record e.record ↔ d.precedes e = true :=
  Entry.precedes_iff.symm

omit [DecidableEq κ] [Hashable κ] [DecidableEq ρ] in
theorem Ledger.Before.asymm {d e : Record κ π} (h : Before d e) : ¬Before e d := by
  have hprec : Entry.precedes ⟨d.1, d.2.1, d.2.2⟩ ⟨e.1, e.2.1, e.2.2⟩ = true := before_record.mp h
  intro h'
  have hprec' : Entry.precedes ⟨e.1, e.2.1, e.2.2⟩ ⟨d.1, d.2.1, d.2.2⟩ = true := before_record.mp h'
  rw [Entry.precedes_asymm hprec] at hprec'
  cases hprec'

omit [Hashable κ] in
/-- At most one record leaves first. -/
theorem Ledger.first?_eq_some_iff {e : Record κ π} : l.first? = some e ↔ e ∈ l.records.entries ∧ l.IsFirst e := by
  constructor
  · intro h
    exact ⟨List.mem_of_find?_eq_some h, by simpa using List.find?_some h⟩
  · rintro ⟨he, hfirst⟩
    cases h : l.first? with
    | none => exact absurd hfirst (by simpa using List.find?_eq_none.mp h e he)
    | some d =>
      -- Both leave first, so they share their key, or each would leave before the other.
      have hd : d ∈ l.records.entries := List.mem_of_find?_eq_some h
      have hfirst' : l.IsFirst d := by simpa using List.find?_some h
      congr 1
      rcases hfirst d hd with hkey | hed
      · exact l.records.nodupKeys.eq_of_fst_eq hd he hkey
      rcases hfirst' e he with hkey | hde
      · exact l.records.nodupKeys.eq_of_fst_eq hd he hkey.symm
      · exact absurd hde hed.asymm

/-- The ledger finds the record of the entry that the queue pops. -/
theorem Refines.popMin (h : Refines q l) : q.popMin = .error .empty ∧ q.toList = [] ∧ l.first? = none ∨
    ∃ (e : Entry κ π) (q' : Queue κ π), q.popMin = .ok ((e.key, e.payload), q') ∧ l.first? = some e.record ∧
      Refines q' ⟨l.records.erase e.key, l.nextSeq⟩ := by
  rcases h.valid.popMin_cases with ⟨hpop, hnil⟩ | ⟨e, q', hpop, hv, hn, hperm, hall⟩
  · refine .inl ⟨hpop, hnil, ?_⟩
    have : l.records.entries = [] := by simpa [hnil] using h.perm
    rw [Ledger.first?, this]
    rfl
  · refine .inr ⟨e, q', hpop, ?_, h.erase hv hn hperm⟩
    -- The ledger has the records of `e` and of what stays, and `e` precedes all that stays.
    have hrecords := (hperm.map Entry.record).symm.trans h.perm
    rw [Ledger.first?_eq_some_iff, ← hrecords.mem_iff]
    refine ⟨List.mem_cons_self, fun d hd => ?_⟩
    rcases List.mem_cons.mp (hrecords.mem_iff.mpr hd) with rfl | hd
    · exact .inl rfl
    · obtain ⟨d', hd', rfl⟩ := List.mem_map.mp hd
      exact .inr (before_record.mpr (hall d' hd'))

theorem Refines.firstEntry (h : Refines q l) : q.peekMin = l.firstEntry := by
  rw [h.valid.peekMin_eq, Ledger.firstEntry]
  rcases h.popMin with ⟨hpop, -, hfirst⟩ | ⟨e, q', hpop, hfirst, -⟩
  · rw [hpop, hfirst]
    rfl
  · rw [hpop, hfirst]
    rfl

/-- A command is answered alike by both and keeps them in step. -/
theorem Refines.respond (h : Refines q l) (command : Command κ π) :
    (q.respond command).1 = (l.respond command).1 ∧ Refines (q.respond command).2 (l.respond command).2 := by
  cases command with
  | insert k p =>
    simp only [Queue.respond, Ledger.respond]
    cases hk : q.find? k with
    | none =>
      obtain ⟨q', hins, hv, hn, hperm⟩ := h.valid.insert hk p
      have hnot : k ∉ l.records := by simp [h.mem_iff, hk]
      rw [hins, if_neg hnot]
      exact ⟨rfl, h.insert hv hn hperm⟩
    | some e =>
      have hmem : k ∈ l.records := by simp [h.mem_iff, hk]
      rw [insert_of_present h.valid.indexed (by rw [hk]; rfl), if_pos hmem]
      exact ⟨rfl, h⟩
  | update k f =>
    simp only [Queue.respond, Ledger.respond, h.lookup]
    cases hk : q.find? k with
    | none =>
      rw [update_of_absent h.valid.indexed hk]
      exact ⟨rfl, h⟩
    | some e =>
      obtain ⟨q', hupd, hv, hn, hfind⟩ := h.valid.update (by rw [hk]; rfl) f
      rw [hupd]
      exact ⟨rfl, h.update hk f hv hn hfind⟩
  | remove k =>
    simp only [Queue.respond, Ledger.respond, h.lookup]
    cases hk : q.find? k with
    | none =>
      rw [remove_of_absent h.valid.indexed hk]
      exact ⟨rfl, h.erase_absent hk⟩
    | some e =>
      obtain ⟨q', hrem, hv, hn, hperm⟩ := h.valid.remove hk
      obtain ⟨-, rfl⟩ := h.valid.indexed.find?_eq_some_iff.mp hk
      rw [hrem]
      exact ⟨rfl, h.erase hv hn hperm⟩
  | popMin =>
    simp only [Queue.respond, Ledger.respond, Ledger.firstEntry]
    rcases h.popMin with ⟨hpop, -, hfirst⟩ | ⟨e, q', hpop, hfirst, hnext⟩
    · rw [hpop, hfirst]
      exact ⟨rfl, h⟩
    · rw [hpop, hfirst]
      exact ⟨rfl, hnext⟩
  | peekMin => exact ⟨congrArg Reply.entry h.firstEntry, h⟩
  | get k =>
    refine ⟨congrArg Reply.payload ?_, h⟩
    rw [get?_eq_map, h.lookup, Option.map_map]
    rfl
  | contains k =>
    refine ⟨congrArg Reply.present ?_, h⟩
    rw [h.valid.indexed.contains_eq, Bool.eq_iff_iff, decide_eq_true_iff, h.mem_iff]
  | size => exact ⟨congrArg Reply.size h.size_eq, h⟩
  | clear => exact ⟨rfl, refines_clear q _ h.nextSeq⟩

theorem Refines.serve (h : Refines q l) (commands : List (Command κ π)) :
    (serve Queue.respond q commands).1 = (serve Ledger.respond l commands).1 ∧
      Refines (serve Queue.respond q commands).2 (serve Ledger.respond l commands).2 := by
  induction commands generalizing q l with
  | nil => exact ⟨rfl, h⟩
  | cons command rest ih =>
    obtain ⟨hreply, hnext⟩ := h.respond command
    obtain ⟨hreplies, hend⟩ := ih hnext
    exact ⟨congrArg₂ List.cons hreply hreplies, hend⟩

end Answers

/-! ### Draining -/

section Draining

variable [IsStrictTotalOrder ρ (· < ·)]

/-- Popping until nothing is left takes out every entry once, in the order of leaving. -/
theorem Valid.drain {q : Queue κ π} (hq : q.Valid) : ∃ drained : List (Entry κ π), drained.Perm q.toList ∧
    drained.Pairwise (fun a b => a.precedes b = true) ∧
      (serve respond q (.replicate (drained.length + 1) .popMin)).1 =
        drained.map (fun e => .entry (.ok (e.key, e.payload))) ++ [.entry (.error .empty)] := by
  -- Each pop leaves one entry less, all of which come after what it took out.
  induction hn : q.toList.length generalizing q with
  | zero =>
    have hnil := List.length_eq_zero_iff.mp hn
    have hpop := hq.popMin_eq_error_iff.mpr ⟨hnil, rfl⟩
    exact ⟨[], by rw [hnil], .nil, by simp [serve, respond, hpop]⟩
  | succ n ih =>
    rcases hq.popMin_cases with ⟨-, hnil⟩ | ⟨e, q', hpop, hv, -, hperm, hall⟩
    · simp [hnil] at hn
    have hlen : q'.toList.length = n := by
      have := hperm.length_eq
      simp only [List.length_cons] at this
      omega
    obtain ⟨rest, hrest, hsorted, hreplies⟩ := ih hv hlen
    refine ⟨e :: rest, (hrest.cons e).trans hperm.symm, .cons (fun d hd => hall d (hrest.mem_iff.mp hd)) hsorted, ?_⟩
    rw [List.length_cons, List.replicate_succ]
    simp only [serve, respond, hpop, hreplies, List.map_cons, List.cons_append]

variable [DecidableEq ρ]

/-- What is drained are the records of the ledger in the order of leaving. -/
theorem Refines.drain {q : Queue κ π} {l : Ledger κ π} (h : Refines q l) : ∃ drained : List (Record κ π),
    drained.Perm l.records.entries ∧ drained.Pairwise Ledger.Before ∧ drained.head? = l.first? ∧
      (Queue.serve Queue.respond q (.replicate (drained.length + 1) .popMin)).1 =
        drained.map (fun e => .entry (.ok (e.1, e.2.1))) ++ [.entry (.error .empty)] := by
  obtain ⟨drained, hperm, hsorted, hreplies⟩ := h.valid.drain
  have hrecords := (hperm.map Entry.record).trans h.perm
  have hbefore : (drained.map Entry.record).Pairwise Ledger.Before :=
    List.pairwise_map.mpr (hsorted.imp before_record.mpr)
  refine ⟨drained.map Entry.record, hrecords, hbefore, ?_, ?_⟩
  · generalize drained.map Entry.record = records at hrecords hbefore
    cases records with
    | nil => rw [Ledger.first?, ← hrecords.nil_eq]; rfl
    | cons e rest =>
      rw [List.head?_cons, eq_comm, Ledger.first?_eq_some_iff, ← hrecords.mem_iff]
      refine ⟨List.mem_cons_self, fun d hd => ?_⟩
      rcases List.mem_cons.mp (hrecords.mem_iff.mpr hd) with rfl | hd
      · exact .inl rfl
      · exact .inr (List.rel_of_pairwise_cons hbefore hd)
  · rw [List.length_map, hreplies, List.map_map]
    rfl

/-! ### Any history -/

/-- Whatever is asked of a queue from the start on, it answers as the reference does; and draining it then
    gives every record of the reference once, in strictly increasing order. -/
theorem replies_eq_reference (commands : List (Command κ π)) :
    (serve respond empty commands).1 = (serve Ledger.respond .empty commands).1 ∧
      ∃ drained : List (Record κ π),
        drained.Perm (serve Ledger.respond .empty commands).2.records.entries ∧
          drained.Pairwise Ledger.Before ∧ drained.head? = (serve Ledger.respond .empty commands).2.first? ∧
          (serve respond (serve respond empty commands).2 (.replicate (drained.length + 1) .popMin)).1 =
            drained.map (fun e => .entry (.ok (e.1, e.2.1))) ++ [.entry (.error .empty)] := by
  obtain ⟨hreplies, hend⟩ := refines_empty.serve commands
  exact ⟨hreplies, hend.drain⟩

/-- A history with a tie, a payload that gets worse, a removal and a key that comes back after everything was
    cleared. -/
theorem replies_of_history : IsStrictTotalOrder Nat (· < ·) ∧
    (serve respond (empty : Queue Nat Nat) [.insert 1 5, .insert 2 5, .insert 2 1, .update 1 (· + 2), .insert 3 7,
      .update 4 id, .peekMin, .remove 2, .popMin, .size, .get 3, .clear, .popMin, .insert 3 7, .insert 1 7,
      .update 3 (· - 0), .contains 2, .popMin, .popMin, .popMin]).1 =
    [.done (.ok ()), .done (.ok ()), .done (.error .duplicateKey), .done (.ok ()), .done (.ok ()),
      .done (.error .missingKey), .entry (.ok (2, 5)), .payload (some 5), .entry (.ok (1, 7)), .size 1,
      .payload (some 7), .done (.ok ()), .entry (.error .empty), .done (.ok ()), .done (.ok ()), .done (.ok ()),
      .present false, .entry (.ok (3, 7)), .entry (.ok (1, 7)), .entry (.error .empty)] := by
  refine ⟨inferInstance, ?_⟩
  rw [(replies_eq_reference _).1]
  rfl

end Draining

end Mapf.Queue
