import Mathlib.Data.List.Infix
import Mathlib.Data.List.Basic

/-!
# Cutting a stream into lines

A reader takes the symbols of a stream one by one.  A line is complete at the
symbol `stop`, and also when it has `limit` symbols.  Which lines are complete
depends only on the symbols taken so far, not on the pieces in which they
arrived: lines are added at the end, and together with the unfinished line
they are the stream.
-/

namespace LineSplit

variable {α : Type*} [DecidableEq α]

/-- The symbol completes the line which holds the symbols before it. -/
def Ends (stop : α) (limit : ℕ) (held : List α) (a : α) : Prop :=
  a = stop ∨ held.length + 1 = limit

instance (stop : α) (limit : ℕ) (held : List α) (a : α) :
    Decidable (Ends stop limit held a) :=
  inferInstanceAs (Decidable (_ ∨ _))

/-- The unfinished line and the complete lines after some more symbols. -/
def feed (stop : α) (limit : ℕ) :
    List α → List α → List α × List (List α)
  | held, [] => (held, [])
  | held, a :: rest =>
      if Ends stop limit held a then
        let after := feed stop limit [] rest
        (after.1, (held ++ [a]) :: after.2)
      else feed stop limit (held ++ [a]) rest

def unfinished (stop : α) (limit : ℕ) (taken : List α) : List α :=
  (feed stop limit [] taken).1

def lines (stop : α) (limit : ℕ) (taken : List α) : List (List α) :=
  (feed stop limit [] taken).2

section Feed

variable (stop : α) (limit : ℕ)

theorem feed_append (held first second : List α) :
    feed stop limit held (first ++ second) =
      ((feed stop limit (feed stop limit held first).1 second).1,
        (feed stop limit held first).2 ++
          (feed stop limit (feed stop limit held first).1 second).2) := by
  induction first generalizing held with
  | nil => rfl
  | cons a rest ih =>
      by_cases hends : Ends stop limit held a
      · simp only [List.cons_append, feed, if_pos hends, ih]
      · simp only [List.cons_append, feed, if_neg hends, ih]

theorem feed_flatten (held taken : List α) :
    (feed stop limit held taken).2.flatten ++
      (feed stop limit held taken).1 = held ++ taken := by
  induction taken generalizing held with
  | nil => simp [feed]
  | cons a rest ih =>
      by_cases hends : Ends stop limit held a
      · simp [feed, if_pos hends, ih]
      · simp [feed, if_neg hends, ih]

end Feed

@[simp]
theorem unfinished_nil (stop : α) (limit : ℕ) :
    unfinished stop limit [] = [] :=
  rfl

@[simp]
theorem lines_nil (stop : α) (limit : ℕ) :
    lines stop limit [] = [] :=
  rfl

section Lines

variable {stop : α} {limit : ℕ}

theorem flatten_lines_append (taken : List α) :
    (lines stop limit taken).flatten ++ unfinished stop limit taken =
      taken :=
  feed_flatten stop limit [] taken

theorem lines_concat_of_ends
    {taken : List α} {a : α}
    (hends : Ends stop limit (unfinished stop limit taken) a) :
    lines stop limit (taken ++ [a]) =
      lines stop limit taken ++ [unfinished stop limit taken ++ [a]] := by
  simp only [lines, feed_append]
  rw [unfinished] at hends
  simp only [feed, if_pos hends]
  rfl

theorem unfinished_concat_of_ends
    {taken : List α} {a : α}
    (hends : Ends stop limit (unfinished stop limit taken) a) :
    unfinished stop limit (taken ++ [a]) = [] := by
  rw [unfinished, feed_append]
  rw [unfinished] at hends
  simp only [feed, if_pos hends]

theorem lines_concat_of_not_ends
    {taken : List α} {a : α}
    (hopen : ¬ Ends stop limit (unfinished stop limit taken) a) :
    lines stop limit (taken ++ [a]) = lines stop limit taken := by
  simp only [lines, feed_append]
  rw [unfinished] at hopen
  simp only [feed, if_neg hopen, List.append_nil]

theorem unfinished_concat_of_not_ends
    {taken : List α} {a : α}
    (hopen : ¬ Ends stop limit (unfinished stop limit taken) a) :
    unfinished stop limit (taken ++ [a]) =
      unfinished stop limit taken ++ [a] := by
  rw [unfinished, feed_append]
  rw [unfinished] at hopen
  simp only [feed, if_neg hopen]
  rfl

/-- Lines are only added at the end. -/
theorem lines_isPrefix (taken more : List α) :
    lines stop limit taken <+: lines stop limit (taken ++ more) := by
  simp only [lines, feed_append]
  exact List.prefix_append _ _

/-! ## Lines which are handed on -/

/-- What is handed on for the complete lines. -/
def render (stop : α) (limit : ℕ) (hand : List α → List α)
    (taken : List α) : List α :=
  ((lines stop limit taken).map hand).flatten

@[simp]
theorem render_nil (hand : List α → List α) :
    render stop limit hand [] = [] :=
  rfl

theorem render_isPrefix (hand : List α → List α) (taken more : List α) :
    render stop limit hand taken <+:
      render stop limit hand (taken ++ more) := by
  obtain ⟨added, hadded⟩ : lines stop limit taken <+:
      lines stop limit (taken ++ more) :=
    lines_isPrefix taken more
  simp only [render, ← hadded, List.map_append, List.flatten_append]
  exact List.prefix_append _ _

theorem render_concat_of_ends
    (hand : List α → List α) {taken : List α} {a : α}
    (hends : Ends stop limit (unfinished stop limit taken) a) :
    render stop limit hand (taken ++ [a]) =
      render stop limit hand taken ++
        hand (unfinished stop limit taken ++ [a]) := by
  simp only [render, lines_concat_of_ends hends, List.map_append,
    List.flatten_append, List.map_cons, List.map_nil, List.flatten_cons,
    List.flatten_nil, List.append_nil]

theorem render_concat_of_not_ends
    (hand : List α → List α) {taken : List α} {a : α}
    (hopen : ¬ Ends stop limit (unfinished stop limit taken) a) :
    render stop limit hand (taken ++ [a]) =
      render stop limit hand taken := by
  rw [render, lines_concat_of_not_ends hopen, render]

/-- Lines which are handed on as they are. -/
theorem render_eq_flatten
    {hand : List α → List α} {taken : List α}
    (hsame : ∀ line ∈ lines stop limit taken, hand line = line) :
    render stop limit hand taken = (lines stop limit taken).flatten := by
  rw [render, List.map_congr_left hsame, List.map_id']

/-! ## Streams whose lines are never cut -/

/-- Every complete line ends with the symbol, also those of the largest
length. -/
def Short (stop : α) (limit : ℕ) (taken : List α) : Prop :=
  ∀ line ∈ lines stop limit taken, line.getLast? = some stop

instance (stop : α) (limit : ℕ) (taken : List α) :
    Decidable (Short stop limit taken) :=
  inferInstanceAs (Decidable (∀ _ ∈ _, _))

theorem Short.of_isPrefix
    {taken whole : List α} (hshort : Short stop limit whole)
    (hpre : taken <+: whole) :
    Short stop limit taken := by
  obtain ⟨more, rfl⟩ := hpre
  intro line hline
  exact hshort line ((lines_isPrefix taken more).subset hline)

end Lines

end LineSplit
