import Mapf.Proofs.OrderedMaps
import Mapf.Proofs.Texts
import Mapf.Scenario.Format
import Mathlib.Data.List.Forall2

/-! # The listing of a scenario

What a scenario file says, line by line, without reading it: which numbers stand at which places of a line (`Field`),
which lines have to be routes (`routeLines`), and which of them are at fault (`Faulty`). A text is read exactly if
it begins with its version and no line behind it is at fault; then no route is lost, none is added, and the routes of
a bucket keep the order of their lines (`Lists`). Otherwise the error names the first line that is at fault
(`parse_listing`). -/

namespace Mapf.Scenario

/-! ### Lines -/

/-- The word at place `i` of a line is a numeral for `n`. -/
def Field (line : List Char) (i n : Nat) : Prop :=
  ∃ words word, Text.IsWords line words ∧ words[i]? = some word ∧ Text.IsNumeral word n

/-- The places of a line at which numerals stand: bucket and coordinates, on the first line also the sizes. -/
def numeralPlaces (first : Bool) : List Nat := if first then [0, 2, 3, 4, 5, 6, 7] else [0, 4, 5, 6, 7]

/-- A line that can be read as a route, and as the first one also as a description of the map. -/
structure Fit (first : Bool) (line : List Char) : Prop where
  long : ∃ words, Text.IsWords line words ∧ 8 ≤ words.length
  numerals : ∀ i ∈ numeralPlaces first, ∃ n, Field line i n

/-- What a line says of a route: columns come before rows. -/
structure Gives (line : List Char) (bucket : Nat) (route : Route) : Prop where
  bucket : Field line 0 bucket
  start : Field line 5 route.start.x ∧ Field line 4 route.start.y
  goal : Field line 7 route.goal.x ∧ Field line 6 route.goal.y

/-- What a line says of the map. -/
structure Describes (line : List Char) (s : Scenario) : Prop where
  map : ∃ words, Text.IsWords line words ∧ words[1]? = some s.map.toList
  width : Field line 2 s.mapWidth
  height : Field line 3 s.mapHeight

/-- The lines that are not blank. -/
def routeLines (lines : List (List Char)) : List (List Char) := lines.filter fun line => !line.all Text.isBlank

/-- Line `i`, counted from 0, is neither blank nor fit to be read. -/
def Faulty (lines : List (List Char)) (i : Nat) : Prop :=
  ∃ line, lines[i]? = some line ∧ ¬Text.Blanks line ∧ ¬Fit (routeLines (lines.take i)).isEmpty line

/-- The routes of a bucket, in their order. -/
def routesOf (entries : List (Nat × Route)) (bucket : Nat) : List Route :=
  (entries.filter fun e => e.1 = bucket).map Prod.snd

/-- A scenario that holds what the lines say and nothing else. -/
structure Lists (lines : List (List Char)) (s : Scenario) : Prop where
  map : ∀ line, (routeLines lines).head? = some line → Describes line s
  buckets : ∃ entries : List (Nat × Route), List.Forall₂ (fun line e => Gives line e.1 e.2) (routeLines lines) entries ∧
    ∀ bucket routes, s.buckets.get? bucket = some routes ↔ routes ≠ [] ∧ routes = routesOf entries bucket
  count : s.routeCount = (routeLines lines).length
  blank : routeLines lines = [] → s = empty

/-- The message begins with the number of a line. -/
def FormatError.Names (e : FormatError) (number : Nat) : Prop :=
  ∃ (what : String) (causes : List String), e.chain = s!"line {number}: {what}" :: causes

variable {line : List Char} {lines : List (List Char)} {s t : Scenario} {number i n : Nat} {words : List (List Char)}

theorem field_iff (h : Text.IsWords line words) :
    Field line i n ↔ ∃ word, words[i]? = some word ∧ Text.IsNumeral word n := by
  constructor
  · rintro ⟨words', word, hwords', hword⟩
    obtain rfl : words = words' := h.words_eq.symm.trans hwords'.words_eq
    exact ⟨word, hword⟩
  · rintro ⟨word, hword⟩
    exact ⟨words, word, h, hword⟩

theorem words_eq_nil_iff : Text.words line = [] ↔ Text.Blanks line := by
  rw [← Text.isWords_iff]
  constructor
  · intro h
    cases h with
    | blanks h => exact h
  · exact .blanks

/-! ### Reading one line -/

theorem readField_eq_ok_iff {word : List Char} : readField number word = .ok n ↔ Text.IsNumeral word n := by
  rw [readField, ← Text.readNumeral_eq_ok_iff]
  cases Text.readNumeral word with
  | error e => exact iff_of_false nofun nofun
  | ok m =>
    rw [Except.ok.injEq]
    exact Iff.of_eq (Except.ok.injEq m n)

/-- Whatever fails names the line. -/
def Naming {α : Type} (number : Nat) (x : Except FormatError α) : Prop := ∀ e, x = .error e → e.Names number

theorem Naming.ok {α : Type} (a : α) : Naming number (.ok a) := nofun

theorem Naming.bind {α β : Type} {x : Except FormatError α} {f : α → Except FormatError β} (hx : Naming number x)
    (hf : ∀ a, Naming number (f a)) : Naming number (x >>= f) := by
  cases x with
  | error e =>
    rintro _ ⟨⟩
    exact hx e rfl
  | ok a => exact hf a

theorem naming_readField (number : Nat) (word : List Char) : Naming number (readField number word) := by
  intro e h
  rw [readField] at h
  cases hread : Text.readNumeral word with
  | error cause =>
    rw [hread] at h
    cases h
    refine ⟨s!"bad number {Text.quoted word}", [cause.message], ?_⟩
    simp only [FormatError.chain, String.append_assoc, toString, show ": bad number " = ": " ++ "bad number " from rfl]
  | ok m =>
    rw [hread] at h
    cases h

theorem naming_addLine (s : Scenario) (number : Nat) (line : List Char) : Naming number (s.addLine number line) := by
  unfold addLine
  split
  case h_1 => exact .ok _
  case h_2 =>
    refine (naming_readField _ _).bind fun _ => (naming_readField _ _).bind fun _ => ?_
    refine (naming_readField _ _).bind fun _ => (naming_readField _ _).bind fun _ => ?_
    -- The sizes are read in between, from the first line only.
    split
    case isTrue =>
      exact (naming_readField _ _).bind fun _ => (naming_readField _ _).bind fun _ => (Naming.ok _).bind fun _ =>
        (naming_readField _ _).bind fun _ => .ok _
    case isFalse => exact (Naming.ok _).bind fun _ => (naming_readField _ _).bind fun _ => .ok _
  case h_3 =>
    rintro _ ⟨⟩
    refine ⟨"expected at least 8 fields", [], ?_⟩
    simp only [FormatError.chain, String.append_assoc, toString]
    rfl

/-- What becomes of a scenario with the route of one more line. -/
structure Takes (s : Scenario) (line : List Char) (t : Scenario) : Prop where
  route : ∃ bucket route, Gives line bucket route ∧ t.buckets = (s.addRoute bucket route).buckets
  first : s.map.isEmpty = true → Describes line t
  later : s.map.isEmpty = false → t.map = s.map ∧ t.mapWidth = s.mapWidth ∧ t.mapHeight = s.mapHeight

theorem exists_eight {α : Type} {l : List α} (h : 8 ≤ l.length) :
    ∃ a b c d e f g i rest, l = a :: b :: c :: d :: e :: f :: g :: i :: rest := by
  match l, h with
  | a :: b :: c :: d :: e :: f :: g :: i :: rest, _ => exact ⟨a, b, c, d, e, f, g, i, rest, rfl⟩

theorem Fit.addLine (h : Fit s.map.isEmpty line) (number : Nat) : ∃ t, s.addLine number line = .ok t := by
  obtain ⟨words, hwords, hlen⟩ := h.long
  obtain ⟨bucket, map, width, height, startY, startX, goalY, goalX, more, rfl⟩ := exists_eight hlen
  have hread : ∀ {i word}, i ∈ numeralPlaces s.map.isEmpty →
      (bucket :: map :: width :: height :: startY :: startX :: goalY :: goalX :: more)[i]? = some word →
      ∃ n, readField number word = .ok n := by
    intro i word hi hword
    obtain ⟨n, hn⟩ := h.numerals i hi
    obtain ⟨word', hword', hn⟩ := (field_iff hwords).mp hn
    cases hword.symm.trans hword'
    exact ⟨n, readField_eq_ok_iff.mpr hn⟩
  have hplaces : ∀ i ∈ [0, 4, 5, 6, 7], i ∈ numeralPlaces s.map.isEmpty := by
    cases s.map.isEmpty <;> decide
  obtain ⟨b, hb⟩ := hread (hplaces 0 (by decide)) rfl
  obtain ⟨sy, hsy⟩ := hread (hplaces 4 (by decide)) rfl
  obtain ⟨sx, hsx⟩ := hread (hplaces 5 (by decide)) rfl
  obtain ⟨gy, hgy⟩ := hread (hplaces 6 (by decide)) rfl
  obtain ⟨gx, hgx⟩ := hread (hplaces 7 (by decide)) rfl
  rw [Scenario.addLine, hwords.words_eq]
  dsimp only
  rw [hsx, hsy, hgx, hgy, hb]
  cases hfirst : s.map.isEmpty with
  | false => exact ⟨_, rfl⟩
  | true =>
    rw [hfirst] at hread
    obtain ⟨w, hw⟩ := hread (i := 2) (by decide) rfl
    obtain ⟨h, hh⟩ := hread (i := 3) (by decide) rfl
    rw [hw, hh]
    exact ⟨_, rfl⟩

theorem Gives.fit {bucket : Nat} {route : Route} {first : Bool} (h : Gives line bucket route)
    (hlong : ∃ words, Text.IsWords line words ∧ 8 ≤ words.length)
    (hsizes : first = true → (∃ n, Field line 2 n) ∧ ∃ n, Field line 3 n) : Fit first line := by
  refine ⟨hlong, ?_⟩
  cases first with
  | false =>
    simp only [numeralPlaces, Bool.false_eq_true, if_false, List.forall_mem_cons]
    exact ⟨⟨_, h.bucket⟩, ⟨_, h.start.2⟩, ⟨_, h.start.1⟩, ⟨_, h.goal.2⟩, ⟨_, h.goal.1⟩, nofun⟩
  | true =>
    obtain ⟨hwidth, hheight⟩ := hsizes rfl
    simp only [numeralPlaces, if_true, List.forall_mem_cons]
    exact ⟨⟨_, h.bucket⟩, hwidth, hheight, ⟨_, h.start.2⟩, ⟨_, h.start.1⟩, ⟨_, h.goal.2⟩, ⟨_, h.goal.1⟩, nofun⟩

theorem addLine_of_blanks (h : Text.Blanks line) : s.addLine number line = .ok s := by
  rw [addLine, words_eq_nil_iff.mpr h]

/-- A line that was read is fit to be, and its route is taken in. -/
theorem takes_of_addLine (hline : ¬Text.Blanks line) (h : s.addLine number line = .ok t) :
    Fit s.map.isEmpty line ∧ Takes s line t := by
  obtain ⟨words, hwords⟩ := Text.exists_isWords line
  rw [← words_eq_nil_iff, hwords.words_eq] at hline
  rw [Scenario.addLine, hwords.words_eq] at h
  match words, hline with
  | bucket :: map :: width :: height :: startY :: startX :: goalY :: goalX :: more, _ =>
    have hfield : ∀ {i n word}, (bucket :: map :: width :: height :: startY :: startX :: goalY :: goalX :: more)[i]? =
        some word → readField number word = .ok n → Field line i n :=
      fun hword hn => (field_iff hwords).mpr ⟨_, hword, readField_eq_ok_iff.mp hn⟩
    have hlong : ∃ words, Text.IsWords line words ∧ 8 ≤ words.length :=
      ⟨_, hwords, by simp only [List.length_cons]; omega⟩
    dsimp only at h
    obtain ⟨sx, hsx, h⟩ := bind_eq_ok_iff.mp h
    obtain ⟨sy, hsy, h⟩ := bind_eq_ok_iff.mp h
    obtain ⟨gx, hgx, h⟩ := bind_eq_ok_iff.mp h
    obtain ⟨gy, hgy, h⟩ := bind_eq_ok_iff.mp h
    have hgives : ∀ {b}, readField number bucket = .ok b → Gives line b ⟨⟨sx, sy⟩, ⟨gx, gy⟩⟩ :=
      fun hb => ⟨hfield rfl hb, ⟨hfield rfl hsx, hfield rfl hsy⟩, ⟨hfield rfl hgx, hfield rfl hgy⟩⟩
    cases hfirst : s.map.isEmpty with
    | false =>
      rw [hfirst] at h
      obtain ⟨_, ⟨⟩, h⟩ := bind_eq_ok_iff.mp h
      obtain ⟨b, hb, ⟨⟩⟩ := bind_eq_ok_iff.mp h
      exact ⟨(hgives hb).fit hlong nofun, ⟨b, _, hgives hb, rfl⟩, by rw [hfirst]; nofun, fun _ => ⟨rfl, rfl, rfl⟩⟩
    | true =>
      rw [hfirst] at h
      obtain ⟨w, hw, h⟩ := bind_eq_ok_iff.mp h
      obtain ⟨ht, hht, h⟩ := bind_eq_ok_iff.mp h
      obtain ⟨_, ⟨⟩, h⟩ := bind_eq_ok_iff.mp h
      obtain ⟨b, hb, ⟨⟩⟩ := bind_eq_ok_iff.mp h
      have hmap : ∃ words, Text.IsWords line words ∧ words[1]? = some (String.ofList map).toList := ⟨_, hwords, by simp⟩
      refine ⟨(hgives hb).fit hlong fun _ => ⟨⟨w, hfield rfl hw⟩, ⟨ht, hfield rfl hht⟩⟩, ⟨b, _, hgives hb, rfl⟩,
        fun _ => ?_, by rw [hfirst]; nofun⟩
      exact ⟨hmap, hfield rfl hw, hfield rfl hht⟩

/-! ### Reading line after line -/

theorem routeLines_snoc (h : ¬Text.Blanks line) : routeLines (lines ++ [line]) = routeLines lines ++ [line] := by
  have hline : (!line.all Text.isBlank) = true := by simpa [Text.Blanks] using h
  rw [routeLines, routeLines, List.filter_append, List.filter_cons, if_pos hline, List.filter_nil]

theorem routeLines_blanks (h : Text.Blanks line) : routeLines (lines ++ [line]) = routeLines lines := by
  have hline : ¬(!line.all Text.isBlank) = true := by simpa [Text.Blanks] using h
  rw [routeLines, routeLines, List.filter_append, List.filter_cons, if_neg hline, List.filter_nil, List.append_nil]

theorem routesOf_append (entries : List (Nat × Route)) (b : Nat) (route : Route) (bucket : Nat) :
    routesOf (entries ++ [(b, route)]) bucket = routesOf entries bucket ++ if b = bucket then [route] else [] := by
  rw [routesOf, List.filter_append, List.map_append, routesOf]
  by_cases h : b = bucket
  · simp [h]
  · simp [h]

theorem routeCount_eq (s : Scenario) : s.routeCount = (s.buckets.values.map List.length).sum :=
  List.sum_eq_foldl_nat.symm

theorem routeCount_addRoute (s : Scenario) (bucket : Nat) (route : Route) :
    (s.addRoute bucket route).routeCount = s.routeCount + 1 := by
  have hsum := s.buckets.sum_values_insert bucket ((s.buckets.get? bucket).getD [] ++ [route]) List.length
  rw [routeCount_eq, routeCount_eq, addRoute, OrderedMap.alter]
  rw [List.length_append, List.length_singleton] at hsum
  cases hknown : s.buckets.get? bucket with
  | none =>
    rw [hknown] at hsum
    exact hsum
  | some known =>
    rw [hknown] at hsum
    simp only [Option.map_some, Option.getD_some] at hsum ⊢
    omega

/-- The map has a name as soon as there is a route. -/
theorem Lists.isEmpty_map (h : Lists lines s) : s.map.isEmpty = (routeLines lines).isEmpty := by
  cases hroutes : routeLines lines with
  | nil =>
    rw [h.blank hroutes]
    rfl
  | cons line more =>
    obtain ⟨words, hwords, hname⟩ := (h.map line (by rw [hroutes]; rfl)).map
    have hne : s.map.toList ≠ [] := (hwords.word_of_mem (List.mem_of_getElem? hname)).1
    rw [List.isEmpty_cons, Bool.eq_false_iff, Ne, String.isEmpty_iff, ← String.toList_eq_nil_iff]
    exact hne

theorem lists_nil : Lists [] empty where
  map := nofun
  buckets := ⟨[], .nil, fun bucket routes => by simp [empty, routesOf]⟩
  count := rfl
  blank _ := rfl

theorem Lists.blanks (h : Lists lines s) (hline : Text.Blanks line) : Lists (lines ++ [line]) s := by
  obtain ⟨hmap, hbuckets, hcount, hblank⟩ := h
  rw [← routeLines_blanks hline] at hmap hbuckets hcount hblank
  exact ⟨hmap, hbuckets, hcount, hblank⟩

theorem Lists.snoc (h : Lists lines s) (hline : ¬Text.Blanks line) (ht : Takes s line t) :
    Lists (lines ++ [line]) t := by
  have hroutes : routeLines (lines ++ [line]) = routeLines lines ++ [line] := routeLines_snoc hline
  obtain ⟨b, route, hgives, hbuckets⟩ := ht.route
  obtain ⟨entries, hentries, hget⟩ := h.buckets
  have hknown : (s.buckets.get? b).getD [] = routesOf entries b := by
    cases hb : s.buckets.get? b with
    | some routes => exact ((hget b routes).mp hb).2
    | none =>
      by_contra hne
      exact nomatch hb.symm.trans ((hget b _).mpr ⟨Ne.symm hne, rfl⟩)
  refine ⟨?map, ⟨entries ++ [(b, route)], ?lines, ?buckets⟩, ?count, ?blank⟩
  case map =>
    intro head hhead
    rw [hroutes] at hhead
    cases hfirst : routeLines lines with
    | nil =>
      rw [hfirst] at hhead
      cases hhead
      exact ht.first (by rw [h.isEmpty_map, hfirst]; rfl)
    | cons first more =>
      rw [hfirst] at hhead
      cases hhead
      obtain ⟨hmap, hwidth, hheight⟩ := ht.later (by rw [h.isEmpty_map, hfirst]; rfl)
      obtain ⟨hm, hw, hh⟩ := h.map _ (by rw [hfirst]; rfl)
      exact ⟨hmap ▸ hm, hwidth ▸ hw, hheight ▸ hh⟩
  case lines =>
    rw [hroutes]
    exact List.rel_append hentries (.cons hgives .nil)
  case buckets =>
    intro bucket routes
    rw [hbuckets, addRoute, OrderedMap.get?_alter, routesOf_append, hknown]
    by_cases hb : bucket = b
    · subst hb
      rw [if_pos rfl, if_pos rfl, Option.some.injEq]
      constructor
      · rintro rfl
        exact ⟨by simp, rfl⟩
      · rintro ⟨-, rfl⟩
        rfl
    · rw [if_neg hb, if_neg (Ne.symm hb), List.append_nil]
      exact hget bucket routes
  case count =>
    rw [hroutes, List.length_append, List.length_singleton, ← h.count, ← routeCount_addRoute s b route, routeCount_eq,
      routeCount_eq, hbuckets]
  case blank =>
    rw [hroutes]
    exact fun hnil => absurd hnil (by simp)

/-- What is to come of the lines behind the version: a scenario, or an error for the first line that is at fault. -/
inductive Outcome (lines : List (List Char)) : Except FormatError Scenario → Prop
  | read {s : Scenario} : (∀ i, ¬Faulty lines i) → Lists lines s → Outcome lines (.ok s)
  | failed {e : FormatError} {i : Nat} : Faulty lines i → (∀ j < i, ¬Faulty lines j) → e.Names (i + 2) →
      Outcome lines (.error e)

variable {front rest : List (List Char)}

theorem faulty_middle_iff : Faulty (front ++ line :: rest) front.length ↔
    ¬Text.Blanks line ∧ ¬Fit (routeLines front).isEmpty line := by
  simp [Faulty]

theorem faulty_append_iff (h : i < front.length) : Faulty (front ++ rest) i ↔ Faulty front i := by
  rw [Faulty, Faulty, List.getElem?_append_left h, List.take_append_of_le_length (Nat.le_of_lt h)]

/-- By induction on the lines that are left; those in front are listed and none of them is at fault. -/
theorem outcome_addLines (h : Lists front s) (hfront : ∀ j < front.length, ¬Faulty (front ++ rest) j) :
    Outcome (front ++ rest) (s.addLines (front.length + 2) (rest.map some)) := by
  induction rest generalizing front s with
  | nil =>
    rw [List.append_nil] at hfront ⊢
    refine .read (fun i hi => ?_) h
    have hlt : i < front.length := by
      obtain ⟨line, hline, -⟩ := hi
      exact (List.getElem?_eq_some_iff.mp hline).1
    exact hfront i hlt hi
  | cons line rest ih =>
    have hnext : ∀ {t}, ¬Faulty (front ++ line :: rest) front.length → Lists (front ++ [line]) t →
        Outcome (front ++ line :: rest) (t.addLines (front.length + 2 + 1) (rest.map some)) := by
      intro t hline ht
      have hsnoc : front ++ line :: rest = front ++ [line] ++ rest := by simp
      have hlen : front.length + 2 + 1 = (front ++ [line]).length + 2 := by simp
      rw [hsnoc, hlen]
      refine ih ht fun j hj => ?_
      rw [← hsnoc]
      rw [List.length_append, List.length_singleton, Nat.lt_succ_iff_lt_or_eq] at hj
      rcases hj with hj | rfl
      · exact hfront j hj
      · exact hline
    rw [List.map_cons, addLines]
    rw [faulty_middle_iff, ← h.isEmpty_map] at hnext
    by_cases hline : Text.Blanks line
    case pos =>
      rw [addLine_of_blanks hline]
      exact hnext (fun hfault => hfault.1 hline) (h.blanks hline)
    case neg =>
      cases hadd : s.addLine (front.length + 2) line with
      | ok t =>
        obtain ⟨hfit, htakes⟩ := takes_of_addLine hline hadd
        exact hnext (fun hfault => hfault.2 hfit) (h.snoc hline htakes)
      | error e =>
        refine .failed (i := front.length) ?_ hfront (naming_addLine s _ line e hadd)
        rw [faulty_middle_iff, ← h.isEmpty_map]
        refine ⟨hline, fun hfit => ?_⟩
        obtain ⟨t, ht⟩ := hfit.addLine (front.length + 2)
        cases hadd.symm.trans ht

theorem parse_eq {version : List Char} {later : List (List Char)} {text : String}
    (h : Text.IsLines text.toList (version :: later)) : parse text =
      if "version".toList <+: version then addLines .empty 2 (later.map some) else .error .missingVersion := by
  rw [parse, h.lines_eq, List.map_cons, ofLines]
  simp only [List.isPrefixOf_iff_prefix]

/-- A text is read exactly if it begins with its version and no later line is at fault, and then as the listing that
    it is. Otherwise the error names the first later line at fault; every line of the file counts, from 1. -/
theorem parse_listing (text : String) :
    ∃ lines, Text.IsLines text.toList lines ∧
      ((∃ s, parse text = .ok s) ↔
        ∃ version later, lines = version :: later ∧ "version".toList <+: version ∧ ∀ i, ¬Faulty later i) ∧
      (∀ version later s, lines = version :: later → parse text = .ok s → Lists later s) ∧
      ∀ version later i, lines = version :: later → "version".toList <+: version → Faulty later i →
        (∀ j < i, ¬Faulty later j) → ∃ e, parse text = .error e ∧ e.Names (i + 2) := by
  obtain ⟨lines, hlines⟩ := Text.exists_isLines text.toList
  refine ⟨lines, hlines, ?_⟩
  cases lines with
  | nil =>
    have hparse : parse text = .error .missingVersion := by
      rw [parse, hlines.lines_eq]
      rfl
    rw [hparse]
    exact ⟨iff_of_false nofun nofun, nofun, nofun⟩
  | cons version later =>
    have houtcome : Outcome later (addLines .empty 2 (later.map some)) := outcome_addLines lists_nil nofun
    rw [parse_eq hlines]
    by_cases hversion : "version".toList <+: version
    case neg =>
      rw [if_neg hversion]
      refine ⟨iff_of_false nofun ?_, nofun, ?_⟩
      · rintro ⟨_, _, ⟨⟩, h, -⟩
        exact hversion h
      · rintro _ _ i ⟨⟩ h
        exact (hversion h).elim
    case pos =>
      rw [if_pos hversion]
      generalize addLines .empty 2 (later.map some) = result at houtcome
      cases houtcome with
      | @read s hnone hlists =>
        refine ⟨iff_of_true ⟨s, rfl⟩ ⟨version, later, rfl, hversion, hnone⟩, ?_, ?_⟩
        · rintro _ _ _ ⟨⟩ ⟨⟩
          exact hlists
        · rintro _ _ i ⟨⟩ - hi
          exact (hnone i hi).elim
      | @failed e i hi hfirst hnames =>
        refine ⟨iff_of_false nofun ?_, nofun, ?_⟩
        · rintro ⟨_, _, ⟨⟩, -, hnone⟩
          exact hnone i hi
        · rintro _ _ k ⟨⟩ - hk hfirst'
          obtain rfl : i = k := Nat.le_antisymm (Nat.not_lt.mp fun hlt => hfirst k hlt hk)
            (Nat.not_lt.mp fun hlt => hfirst' i hlt hi)
          exact ⟨e, rfl, hnames⟩

/-- Routes of two buckets in turn, blank lines, both kinds of end, and words that do not count. -/
def mooringLines : List (List Char) :=
  ["".toList, "3\tbay.map\t4\t5\t1\t2\t3\t0\t2.5".toList, " \t".toList, "1 - x y +0 1 2 3".toList,
    "3 bay.map 9 9 2 2 0 4".toList]

def mooringText : String := "version 1\n\n3\tbay.map\t4\t5\t1\t2\t3\t0\t2.5\n \t\n1 - x y +0 1 2 3\r\n3 bay.map 9 9 2 2 0 4"

def moorings : Scenario :=
  ⟨"bay.map", 4, 5, .ofList [(1, [⟨⟨1, 0⟩, ⟨3, 2⟩⟩]), (3, [⟨⟨2, 1⟩, ⟨0, 3⟩⟩, ⟨⟨2, 2⟩, ⟨4, 0⟩⟩])]⟩

/-- They are what their lines list, and with a line that is cut short the text is refused for that line. -/
theorem parse_moorings : parse mooringText = .ok moorings ∧ Lists mooringLines moorings ∧
    ∃ e, parse (mooringText ++ "\n3 bay.map 9") = .error e ∧ e.Names 7 := by
  have hread : parse mooringText = .ok moorings := rfl
  obtain ⟨lines, hlines, hgood, hlists, -⟩ := parse_listing mooringText
  obtain rfl : "version 1".toList :: mooringLines = lines := by
    rw [← hlines.lines_eq]
    decide
  obtain ⟨lines, hlines', -, -, hfails⟩ := parse_listing (mooringText ++ "\n3 bay.map 9")
  obtain rfl : "version 1".toList :: (mooringLines ++ ["3 bay.map 9".toList]) = lines := by
    rw [← hlines'.lines_eq]
    decide
  obtain ⟨_, _, ⟨⟩, hversion, hnone⟩ := hgood.mp ⟨_, hread⟩
  have hshort : ¬Fit (routeLines mooringLines).isEmpty "3 bay.map 9".toList := by
    rintro ⟨⟨words, hwords, hlong⟩, -⟩
    rw [← hwords.words_eq] at hlong
    exact absurd hlong (by decide)
  have hfault : Faulty (mooringLines ++ ["3 bay.map 9".toList]) mooringLines.length :=
    faulty_middle_iff.mpr ⟨fun hblank => absurd (words_eq_nil_iff.mpr hblank) (by decide), hshort⟩
  exact ⟨hread, hlists _ _ _ rfl hread,
    hfails _ _ _ rfl hversion hfault fun j hj => mt (faulty_append_iff hj).mp (hnone j)⟩

end Mapf.Scenario
