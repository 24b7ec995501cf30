import Mapf.Text.Blank
import Mapf.Text.Lines
import Mapf.Text.Numeral
import Mathlib.Algebra.Group.Nat.Defs
import Mathlib.Data.List.TakeWhile

/-! # Lines, words and numerals

How the readers of all formats take a text apart, said without reading it: which lines it has (`IsLines`), which
words a line has (`IsWords`), what is left of a line without the blanks at its ends (`Trimmed`, `TrimmedEnd`) and
which number a word stands for (`IsNumeral`). Each is what the function of the same purpose computes. -/

namespace Mapf

/-- A reader that goes on where another one ended. -/
theorem bind_eq_ok_iff {ε α β : Type} {x : Except ε α} {f : α → Except ε β} {b : β} :
    x >>= f = .ok b ↔ ∃ a, x = .ok a ∧ f a = .ok b := by
  cases x with
  | error e => simp [bind, Except.bind]
  | ok a => simp [bind, Except.bind]

namespace Text

/-! ### Lines

A text is peeled off from the front, one line at a time, so both directions go by the lines. -/

/-- A line ends at a newline, to which a return right before it belongs, or at the end of the text. -/
inductive IsLines : List Char → List (List Char) → Prop
  | nil : IsLines [] []
  | last {line : List Char} : line ≠ [] → '\n' ∉ line → IsLines line [line]
  | ended {line text : List Char} {lines : List (List Char)} : '\n' ∉ line → line.getLast? ≠ some '\r' →
      IsLines text lines → IsLines (line ++ '\n' :: text) (line :: lines)
  | returned {line text : List Char} {lines : List (List Char)} : '\n' ∉ line → IsLines text lines →
      IsLines (line ++ '\r' :: '\n' :: text) (line :: lines)

section

variable {α : Type} [DecidableEq α] {separator : α} {part rest : List α}

theorem splitAt_ne_nil : splitAt separator rest ≠ [] := by
  fun_cases splitAt separator rest with
  | case1 => nofun
  | case2 => nofun
  | case3 => nofun
  | case4 => nofun

theorem splitAt_append (h : separator ∉ part) :
    splitAt separator (part ++ separator :: rest) = part :: splitAt separator rest := by
  induction part with
  | nil => rw [List.nil_append, splitAt, if_pos rfl]
  | cons c part ih =>
    obtain ⟨hc, hpart⟩ := List.ne_and_not_mem_of_not_mem_cons h
    rw [List.cons_append, splitAt, if_neg (Ne.symm hc), ih hpart]

theorem splitAt_of_notMem (h : separator ∉ part) : splitAt separator part = [part] := by
  induction part with
  | nil => rfl
  | cons c part ih =>
    obtain ⟨hc, hpart⟩ := List.ne_and_not_mem_of_not_mem_cons h
    rw [splitAt, if_neg (Ne.symm hc), ih hpart]

theorem dropLastOf_append : dropLastOf separator (part ++ [separator]) = part := by
  rw [dropLastOf, List.getLast?_concat, if_pos rfl, List.dropLast_concat]

theorem dropLastOf_of_ne (h : part.getLast? ≠ some separator) : dropLastOf separator part = part := if_neg h

end

variable {line text : List Char}

theorem lines_of_notMem (hne : line ≠ []) (h : '\n' ∉ line) : lines line = [line] := by
  rw [lines, linesOf, splitAt_of_notMem h]
  cases line with
  | nil => exact absurd rfl hne
  | cons c line => rfl

theorem lines_append (h : '\n' ∉ line) : lines (line ++ '\n' :: text) = dropLastOf '\r' line :: lines text := by
  rw [lines, lines, linesOf, linesOf, splitAt_append h]
  simp only [List.dropLast_cons_of_ne_nil splitAt_ne_nil, List.getLast?_cons_of_ne_nil splitAt_ne_nil, List.map_cons]
  split <;> rfl

theorem IsLines.lines_eq {ls : List (List Char)} (h : IsLines text ls) : lines text = ls := by
  induction h with
  | nil => rfl
  | last hne h => exact lines_of_notMem hne h
  | ended h hlast _ ih => rw [lines_append h, dropLastOf_of_ne hlast, ih]
  | @returned line text _ h _ ih =>
    have hline : '\n' ∉ line ++ ['\r'] := by simp [h]
    rw [show line ++ '\r' :: '\n' :: text = (line ++ ['\r']) ++ '\n' :: text by simp, lines_append hline,
      dropLastOf_append, ih]

theorem exists_isLines (text : List Char) : ∃ ls, IsLines text ls := by
  by_cases h : '\n' ∈ text
  case neg =>
    rcases eq_or_ne text [] with rfl | hne
    · exact ⟨_, .nil⟩
    · exact ⟨_, .last hne h⟩
  case pos =>
    obtain ⟨line, rest, heq, hline⟩ := List.eq_append_cons_of_mem h
    have hlt : rest.length < text.length := by
      rw [heq, List.length_append, List.length_cons]
      omega
    obtain ⟨ls, hls⟩ := exists_isLines rest
    subst heq
    by_cases hlast : line.getLast? = some '\r'
    case neg => exact ⟨_, .ended hline hlast hls⟩
    case pos =>
      obtain ⟨line, rfl⟩ := List.getLast?_eq_some_iff.mp hlast
      have hline' : '\n' ∉ line := fun hm => hline (List.mem_append_left _ hm)
      exact ⟨line :: ls, by simpa using IsLines.returned hline' hls⟩
termination_by text.length

theorem isLines_iff {ls : List (List Char)} : IsLines text ls ↔ lines text = ls := by
  constructor
  · exact IsLines.lines_eq
  · rintro rfl
    obtain ⟨ls, h⟩ := exists_isLines text
    rwa [h.lines_eq]

/-! ### Blanks at the ends -/

def Blanks (cs : List Char) : Prop := ∀ c ∈ cs, isBlank c = true

/-- `row` is `line` without the blanks at its end. -/
def TrimmedEnd (line row : List Char) : Prop :=
  ∃ back, line = row ++ back ∧ Blanks back ∧ ∀ c ∈ row.getLast?, isBlank c = false

/-- `core` is `line` without the blanks at both ends. -/
def Trimmed (line core : List Char) : Prop :=
  ∃ front back, line = front ++ core ++ back ∧ Blanks front ∧ Blanks back ∧
    (∀ c ∈ core.head?, isBlank c = false) ∧ ∀ c ∈ core.getLast?, isBlank c = false

variable {cs core front rest : List Char}

theorem trimStart_append (h : Blanks front) : trimStart (front ++ rest) = trimStart rest :=
  List.dropWhile_append_of_pos h

theorem trimStart_of_head? (h : ∀ c ∈ rest.head?, isBlank c = false) : trimStart rest = rest := by
  cases rest with
  | nil => rfl
  | cons c rest => exact List.dropWhile_cons_of_neg (by rw [h c rfl]; nofun)

theorem trimStart_eq_iff : trimStart cs = rest ↔
    ∃ front, cs = front ++ rest ∧ Blanks front ∧ ∀ c ∈ rest.head?, isBlank c = false := by
  constructor
  · rintro rfl
    refine ⟨cs.takeWhile isBlank, List.takeWhile_append_dropWhile.symm, fun c => List.mem_takeWhile_imp, fun c hc => ?_⟩
    have hhead := List.head?_dropWhile_not isBlank cs
    rwa [show (cs.dropWhile isBlank).head? = some c from hc] at hhead
  · rintro ⟨front, rfl, hfront, hhead⟩
    rw [trimStart_append hfront, trimStart_of_head? hhead]

theorem trimEnd_eq_iff : trimEnd line = core ↔ TrimmedEnd line core := by
  have hreverse : trimEnd line = core ↔ trimStart line.reverse = core.reverse := List.reverse_eq_iff
  rw [hreverse, trimStart_eq_iff, List.head?_reverse]
  constructor
  · rintro ⟨front, hline, hfront, hlast⟩
    refine ⟨front.reverse, ?_, fun c hc => hfront c (List.mem_reverse.mp hc), hlast⟩
    rw [← List.reverse_reverse line, hline, List.reverse_append, List.reverse_reverse]
  · rintro ⟨back, rfl, hback, hlast⟩
    exact ⟨back.reverse, List.reverse_append, fun c hc => hback c (List.mem_reverse.mp hc), hlast⟩

theorem trim_eq_iff : trim line = core ↔ Trimmed line core := by
  rw [trim, trimEnd_eq_iff]
  constructor
  · rintro ⟨back, hback, hblanks, hlast⟩
    obtain ⟨front, hfront, hfront', hhead⟩ := trimStart_eq_iff.mp hback
    refine ⟨front, back, by rw [hfront, List.append_assoc], hfront', hblanks, fun c hc => hhead c ?_, hlast⟩
    rw [List.head?_append, show core.head? = some c from hc]
    rfl
  · rintro ⟨front, back, rfl, hfront, hback, hhead, hlast⟩
    rw [List.append_assoc, trimStart_append hfront]
    cases core with
    | nil =>
      -- Nothing is left, and the blanks at the end count as blanks in front.
      have hnil : trimStart back = [] := by
        rw [← List.append_nil back, trimStart_append hback]
        rfl
      rw [List.nil_append, hnil]
      exact ⟨[], rfl, nofun, nofun⟩
    | cons c core =>
      have hstart : trimStart (c :: core ++ back) = c :: core ++ back := trimStart_of_head? hhead
      exact ⟨back, hstart, hback, hlast⟩

/-! ### Words -/

def Word (cs : List Char) : Prop := cs ≠ [] ∧ ∀ c ∈ cs, isBlank c = false

inductive IsWords : List Char → List (List Char) → Prop
  | blanks {cs : List Char} : Blanks cs → IsWords cs []
  | word {front word rest : List Char} {words : List (List Char)} : Blanks front → Word word →
      (∀ c ∈ rest.head?, isBlank c = true) → IsWords rest words → IsWords (front ++ word ++ rest) (word :: words)

theorem IsWords.word_of_mem {ws : List (List Char)} {word : List Char} (h : IsWords cs ws) (hm : word ∈ ws) :
    Word word := by
  induction h with
  | blanks => cases hm
  | word _ hword _ _ ih =>
    rcases List.mem_cons.mp hm with rfl | hm
    · exact hword
    · exact ih hm

theorem words_blank_cons {c : Char} (h : isBlank c = true) : words (c :: cs) = words cs := by
  rw [words, fields, if_pos h]
  rfl

theorem words_blanks_append (h : Blanks front) : words (front ++ cs) = words cs := by
  induction front with
  | nil => rfl
  | cons c front ih =>
    obtain ⟨hc, hfront⟩ := List.forall_mem_cons.mp h
    rw [List.cons_append, words_blank_cons hc, ih hfront]

/-- The first part is what stands before the first blank. -/
theorem fields_append {word : List Char} (h : ∀ c ∈ word, isBlank c = false)
    (hrest : ∀ c ∈ rest.head?, isBlank c = true) : ∃ more, fields (word ++ rest) = word :: more ∧
      words rest = more.filter fun word => !word.isEmpty := by
  induction word with
  | nil =>
    cases rest with
    | nil => exact ⟨[], rfl, rfl⟩
    | cons c rest =>
      have hc : isBlank c = true := hrest c rfl
      exact ⟨fields rest, by rw [List.nil_append, fields, if_pos hc], words_blank_cons hc⟩
  | cons c word ih =>
    obtain ⟨hc, hword⟩ := List.forall_mem_cons.mp h
    obtain ⟨more, hfields, hmore⟩ := ih hword
    exact ⟨more, by rw [List.cons_append, fields, if_neg (by rw [hc]; nofun), hfields, consWord], hmore⟩

theorem IsWords.words_eq {ws : List (List Char)} (h : IsWords cs ws) : words cs = ws := by
  induction h with
  | @blanks cs h =>
    rw [← List.append_nil cs, words_blanks_append h]
    rfl
  | @word front word rest ws hfront hword hrest _ ih =>
    obtain ⟨more, hfields, hmore⟩ := fields_append hword.2 hrest
    have hne : word.isEmpty = false := List.isEmpty_eq_false_iff.mpr hword.1
    rw [List.append_assoc, words_blanks_append hfront, words, hfields, List.filter_cons_of_pos (by rw [hne]; rfl),
      ← hmore, ih]

/-- A word reaches to the next blank. -/
theorem exists_word_append {c : Char} (hc : isBlank c = false) (tail : List Char) :
    ∃ word rest, c :: tail = word ++ rest ∧ Word word ∧ (∀ d ∈ rest.head?, isBlank d = true) ∧
      rest.length ≤ tail.length := by
  induction tail generalizing c with
  | nil => exact ⟨[c], [], rfl, ⟨nofun, by simpa using hc⟩, nofun, Nat.le_refl _⟩
  | cons d tail ih =>
    by_cases hd : isBlank d = true
    case pos => exact ⟨[c], d :: tail, rfl, ⟨nofun, by simpa using hc⟩, by simpa using hd, Nat.le_refl _⟩
    case neg =>
      obtain ⟨word, rest, heq, hword, hrest, hlen⟩ := ih (Bool.eq_false_iff.mpr hd)
      exact ⟨c :: word, rest, by rw [heq, List.cons_append], ⟨nofun, List.forall_mem_cons.mpr ⟨hc, hword.2⟩⟩, hrest,
        Nat.le_succ_of_le hlen⟩

theorem exists_isWords (cs : List Char) : ∃ ws, IsWords cs ws := by
  obtain ⟨front, hcs, hfront, hhead⟩ := trimStart_eq_iff.mp (rfl : trimStart cs = trimStart cs)
  cases htrim : trimStart cs with
  | nil =>
    rw [htrim, List.append_nil] at hcs
    exact ⟨[], hcs ▸ .blanks hfront⟩
  | cons c tail =>
    rw [htrim] at hcs hhead
    obtain ⟨word, rest, htail, hword, hrest, hlen⟩ := exists_word_append (hhead c rfl) tail
    have hlt : rest.length < cs.length := by
      rw [hcs, List.length_append, List.length_cons]
      omega
    obtain ⟨ws, hws⟩ := exists_isWords rest
    refine ⟨word :: ws, ?_⟩
    rw [hcs, htail, ← List.append_assoc]
    exact .word hfront hword hrest hws
termination_by cs.length

theorem isWords_iff {ws : List (List Char)} : IsWords cs ws ↔ words cs = ws := by
  constructor
  · exact IsWords.words_eq
  · rintro rfl
    obtain ⟨ws, h⟩ := exists_isWords cs
    rwa [h.words_eq]

/-! ### Numerals -/

/-- A number in decimal digits, with or without a plus sign, that fits in 64 bits. -/
def IsNumeral (word : List Char) (n : Nat) : Prop :=
  ∃ digits, (word = digits ∨ word = '+' :: digits) ∧ digits ≠ [] ∧ (∀ c ∈ digits, c.isDigit = true) ∧
    n = Nat.ofDigitChars 10 digits 0 ∧ n < 2 ^ 64

theorem IsNumeral.lt {word : List Char} {n : Nat} (h : IsNumeral word n) : n < 2 ^ 64 := by
  obtain ⟨_, -, -, -, -, hlt⟩ := h
  exact hlt

theorem le_ofDigitChars (digits : List Char) (value : Nat) : value ≤ Nat.ofDigitChars 10 digits value := by
  induction digits generalizing value with
  | nil => exact Nat.le_refl _
  | cons c digits ih =>
    rw [Nat.ofDigitChars_cons]
    exact Nat.le_trans (by omega) (ih _)

/-- Digits on the left only make a number larger, so a number that fits has been small enough at every digit. -/
theorem readDigits_eq_ok_iff {value n : Nat} {digits : List Char} (hv : value < 2 ^ 64) :
    readDigits value digits = .ok n ↔
      (∀ c ∈ digits, c.isDigit = true) ∧ n = Nat.ofDigitChars 10 digits value ∧ n < 2 ^ 64 := by
  induction digits generalizing value with
  | nil =>
    rw [readDigits, Except.ok.injEq]
    constructor
    · rintro rfl
      exact ⟨nofun, rfl, hv⟩
    · rintro ⟨-, rfl, -⟩
      rfl
  | cons c digits ih =>
    rw [readDigits, digit?, List.forall_mem_cons, Nat.ofDigitChars_cons, Nat.mul_comm]
    by_cases hc : c.isDigit = true
    case neg => simp [hc]
    case pos =>
      simp only [if_pos hc]
      split
      case isTrue hlt => rw [ih hlt, and_iff_right hc]
      case isFalse hge =>
        refine iff_of_false nofun ?_
        rintro ⟨-, rfl, hlt⟩
        exact hge (Nat.lt_of_le_of_lt (le_ofDigitChars _ _) hlt)

theorem readNumeral_eq_ok_iff {word : List Char} {n : Nat} : readNumeral word = .ok n ↔ IsNumeral word n := by
  fun_cases readNumeral word with
  | case1 =>
    refine iff_of_false nofun ?_
    rintro ⟨digits, rfl | h, hne, -⟩
    · exact hne rfl
    · cases h
  | case2 =>
    refine iff_of_false nofun ?_
    rintro ⟨digits, rfl | h, hne, hdigits, -⟩
    · exact absurd (hdigits '+' (List.mem_cons_self ..)) nofun
    · cases h
      exact hne rfl
  | case3 digits hne =>
    rw [readDigits_eq_ok_iff (by decide)]
    constructor
    · rintro ⟨hdigits, hn, hlt⟩
      exact ⟨digits, .inr rfl, hne, hdigits, hn, hlt⟩
    · rintro ⟨digits', rfl | h, -, hdigits, hn, hlt⟩
      · exact absurd (hdigits '+' (List.mem_cons_self ..)) nofun
      · cases h
        exact ⟨hdigits, hn, hlt⟩
  | case4 _ hnil _ hplus =>
    rw [readDigits_eq_ok_iff (by decide)]
    constructor
    · rintro ⟨hdigits, hn, hlt⟩
      exact ⟨word, .inl rfl, hnil, hdigits, hn, hlt⟩
    · rintro ⟨digits, rfl | h, -, hdigits, hn, hlt⟩
      · exact ⟨hdigits, hn, hlt⟩
      · exact (hplus digits h).elim

end Text

end Mapf
