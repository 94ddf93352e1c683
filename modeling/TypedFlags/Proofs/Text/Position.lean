import Mathlib.Data.List.TakeWhile
import Mathlib.Data.Nat.SuccPred
import Mathlib.Data.Prod.Lex
import Mathlib.Order.Interval.Set.Monotone
import TypedFlags.Text.Position
/-!
# What a line and a column say

`Position.after` computes a place by looking backwards for a line feed. What the two numbers mean is
said here without looking for anything: `Locates` splits the text before the place into whole lines
and the start of the line the place is in. There is one such split, so a text has one line and one
column behind it (`locates_iff`).

No two places of a text have the same line and column, for each place comes after the places before
it also by line and column (`strictMonoOn_rank_atOffset`).

`Position.atByte` walks forwards. However far it goes, it stays on the lines of the text
(`byteWalk_line`), which are those between its line feeds (`length_lines`).
-/

set_option autoImplicit false

namespace TypedFlags.Text

/-- A line and a column, both counted from 1, name the place behind a text: the text is a number of
    whole lines, each with the line feed that ends it, and behind them the part of a line. -/
def Locates (before : List Char) (p : Position) : Prop :=
  ∃ lines part : List Char, before = lines ++ part ∧ (∀ c ∈ lines.getLast?, c = '\n') ∧
    '\n' ∉ part ∧ p.line = lines.count '\n' + 1 ∧ p.column = part.length + 1

/-- Looking backwards, what stands before the first line feed is the part of a line. -/
theorem takeWhile_reverse {lines part : List Char} (hlines : ∀ c ∈ lines.getLast?, c = '\n')
    (hpart : '\n' ∉ part) :
    (lines ++ part).reverse.takeWhile (· ≠ '\n') = part.reverse := by
  have hkept : ∀ c ∈ part.reverse, decide (c ≠ '\n') = true := by
    intro c hc
    rw [List.mem_reverse] at hc
    exact decide_eq_true fun h => hpart (h ▸ hc)
  have hstop : lines.reverse.takeWhile (· ≠ '\n') = [] := by
    rw [← List.head?_reverse] at hlines
    cases hr : lines.reverse with
    | nil => rfl
    | cons c cs =>
      rw [hr] at hlines
      have hc : c = '\n' := hlines c rfl
      simp [hc]
  rw [List.reverse_append, List.takeWhile_append_of_pos hkept, hstop, List.append_nil]

/-- Every text splits into whole lines and the part of a line. -/
theorem exists_lines (before : List Char) :
    ∃ lines part : List Char, before = lines ++ part ∧ (∀ c ∈ lines.getLast?, c = '\n') ∧
      '\n' ∉ part := by
  let isPart : Char → Bool := (· ≠ '\n')
  refine ⟨(before.reverse.dropWhile isPart).reverse, (before.reverse.takeWhile isPart).reverse,
    ?_, ?_, ?_⟩
  · rw [← List.reverse_append, List.takeWhile_append_dropWhile, List.reverse_reverse]
  · intro c hc
    rw [List.getLast?_reverse] at hc
    have hstop := List.head?_dropWhile_not isPart before.reverse
    rw [hc] at hstop
    simpa [isPart] using hstop
  · intro hmem
    rw [List.mem_reverse] at hmem
    have hpart := List.mem_takeWhile_imp hmem
    simp [isPart] at hpart

/-- **A text has one line and one column behind it.** -/
theorem locates_iff {before : List Char} {p : Position} : Locates before p ↔ p = .after before := by
  constructor
  · intro h
    obtain ⟨lines, part, rfl, hlines, hpart, hline, hcolumn⟩ := h
    have hcount : (lines ++ part).count '\n' = lines.count '\n' := by
      rw [List.count_append, List.count_eq_zero_of_not_mem hpart, Nat.add_zero]
    obtain ⟨line, column⟩ := p
    rw [Position.after, takeWhile_reverse hlines hpart, List.length_reverse, hcount]
    exact congrArg₂ Position.mk hline hcolumn
  · intro h
    obtain ⟨lines, part, rfl, hlines, hpart⟩ := exists_lines before
    refine ⟨lines, part, rfl, hlines, hpart, ?_, ?_⟩
    · rw [h, Position.after, List.count_append, List.count_eq_zero_of_not_mem hpart, Nat.add_zero]
    · rw [h, Position.after, takeWhile_reverse hlines hpart, List.length_reverse]

theorem locates_after (before : List Char) : Locates before (.after before) := locates_iff.2 rfl

/-! ## The order of places -/

/-- Places are ordered by their lines, and those on one line by their columns. -/
def Position.rank (p : Position) : ℕ ×ₗ ℕ := toLex (p.line, p.column)

/-- One character further is the next column, and behind a line feed it is the next line. -/
theorem after_append_singleton (before : List Char) (c : Char) :
    Position.after (before ++ [c]) =
      if c = '\n' then ⟨(Position.after before).line + 1, 1⟩
      else ⟨(Position.after before).line, (Position.after before).column + 1⟩ := by
  by_cases hc : c = '\n'
  · simp [Position.after, hc]
  · simp [Position.after, hc]

theorem rank_after_lt (before : List Char) (c : Char) :
    (Position.after before).rank < (Position.after (before ++ [c])).rank := by
  rw [after_append_singleton, Position.rank, Position.rank, Prod.Lex.toLex_lt_toLex]
  by_cases hc : c = '\n'
  · rw [if_pos hc]
    exact .inl (Nat.lt_succ_self _)
  · rw [if_neg hc]
    exact .inr ⟨rfl, Nat.lt_succ_self _⟩

/-- **The further into a text, the later the place**, by line and column. -/
theorem strictMonoOn_rank_atOffset (text : List Char) :
    StrictMonoOn (fun p => (Position.atOffset text p).rank) (Set.Iic text.length) := by
  refine strictMonoOn_Iic_of_lt_succ fun p hp => ?_
  have hnext : text.take (p + 1) = text.take p ++ [text[p]] := List.take_succ_eq_append_getElem hp
  rw [Nat.succ_eq_succ, Nat.succ_eq_add_one, Position.atOffset, Position.atOffset, hnext]
  exact rank_after_lt _ _

/-- So no two places of a text look the same. -/
theorem atOffset_inj {text : List Char} {p q : Nat} (hp : p ≤ text.length) (hq : q ≤ text.length) :
    Position.atOffset text p = .atOffset text q ↔ p = q := by
  constructor
  · intro h
    exact (strictMonoOn_rank_atOffset text).injOn hp hq (congrArg Position.rank h)
  · intro h
    rw [h]

/-! ## Lines -/

/-- The lines of a text. -/
def lines (text : List Char) : List (List Char) := text.splitOn '\n'

theorem lines_cons (c : Char) (text : List Char) :
    lines (c :: text) =
      if c = '\n' then [] :: lines text else (lines text).modifyHead (c :: ·) := by
  unfold lines
  simp only [List.splitOn_eq_splitOnP, List.splitOnP_cons_eq_if_modifyHead, beq_iff_eq]

theorem lines_ne_nil (text : List Char) : lines text ≠ [] := by
  unfold lines
  rw [List.splitOn_eq_splitOnP]
  exact List.splitOnP_ne_nil _ text

theorem length_lines (text : List Char) : (lines text).length = text.count '\n' + 1 := by
  induction text with
  | nil => rfl
  | cons c text ih =>
    rw [lines_cons, List.count_cons]
    by_cases hc : c = '\n'
    · simp [hc, ih]
    · simp [hc, ih]

/-- Leaving characters out line by line is leaving them out of the whole, if line ends stay. -/
theorem map_filter_lines {p : Char → Bool} (hp : p '\n' = true) (text : List Char) :
    (lines text).map (List.filter p) = lines (text.filter p) := by
  induction text with
  | nil => rfl
  | cons c text ih =>
    obtain ⟨line, rest, hlines⟩ := List.exists_cons_of_ne_nil (lines_ne_nil text)
    rw [hlines] at ih
    rw [lines_cons]
    by_cases hc : c = '\n'
    · rw [if_pos hc, List.filter_cons_of_pos (hc ▸ hp), lines_cons, if_pos hc, ← ih, hlines]
      rfl
    · rw [if_neg hc, hlines, List.modifyHead_cons]
      cases hk : p c with
      | true =>
        rw [List.filter_cons_of_pos hk, lines_cons, if_neg hc, ← ih, List.map_cons,
          List.filter_cons_of_pos hk]
        rfl
      | false =>
        have hk' : ¬ p c = true := by simp [hk]
        rw [List.filter_cons_of_neg hk', ← ih, List.map_cons, List.filter_cons_of_neg hk']
        rfl

/-- However far a walk over a text goes, it stays on the lines of the text. -/
theorem byteWalk_line (line column offset : Nat) (text : List Char) :
    line ≤ (byteWalk line column text offset).line ∧
      (byteWalk line column text offset).line ≤ line + text.count '\n' := by
  fun_induction byteWalk line column text offset with
  | case1 => simp
  | case2 => simp
  | case3 line column text offset _ ih =>
    rw [List.count_cons_self]
    omega
  | case4 line column c text offset _ hc ih =>
    rw [List.count_cons_of_ne hc]
    exact ih

end TypedFlags.Text
