import Mathlib.Data.List.Basic

/-!
# Lines and separators

How a reader cuts a sequence of symbols: at the first separator (`cutAt`), or at every line
break (`splitLines`). A line ends at `cr lf`, at `cr` or at `lf`, so no line has either of
them, and lines without them that were joined by `cr lf` are found again.

## Main results

* `cutAt_append` — the first separator.
* `splitLines_intercalate` — lines that were joined.
* `unbroken_of_mem_splitLines` — lines have no line break.
-/

namespace Proxinator.Lib

variable {α : Type*} {cr lf : α}

/-- There is no line break in the text. -/
def Unbroken (cr lf : α) (text : List α) : Prop := cr ∉ text ∧ lf ∉ text

theorem unbroken_nil : Unbroken cr lf [] := ⟨by simp, by simp⟩

theorem unbroken_cons {c : α} {text : List α} :
    Unbroken cr lf (c :: text) ↔ ¬ (c = cr ∨ c = lf) ∧ Unbroken cr lf text := by
  simp only [Unbroken, List.mem_cons, not_or]
  constructor
  · rintro ⟨⟨hcr, htext⟩, hlf, htext'⟩
    exact ⟨⟨Ne.symm hcr, Ne.symm hlf⟩, htext, htext'⟩
  · rintro ⟨⟨hcr, hlf⟩, htext, htext'⟩
    exact ⟨⟨Ne.symm hcr, htext⟩, Ne.symm hlf, htext'⟩

variable [DecidableEq α]

/-! ## The first separator -/

/-- What comes before and after the first separator, if there is one. -/
def cutAt (separator : α) : List α → Option (List α × List α)
  | [] => none
  | a :: as =>
    if a = separator then some ([], as)
    else (cutAt separator as).map fun parts => (a :: parts.1, parts.2)

/-- **What has no separator is cut off in front of one.** -/
theorem cutAt_append {separator : α} {front : List α} (h : separator ∉ front) (back : List α) :
    cutAt separator (front ++ separator :: back) = some (front, back) := by
  induction front with
  | nil => simp [cutAt]
  | cons a front ih =>
      simp only [List.mem_cons, not_or] at h
      rw [List.cons_append, cutAt, if_neg (Ne.symm h.1), ih h.2]
      rfl

/-! ## Lines -/

/-- The lines of a text; the last one is what follows the last line break. -/
def splitLines (cr lf : α) : List α → List (List α)
  | [] => [[]]
  | [c] => if c = cr ∨ c = lf then [[], []] else [[c]]
  | c :: c' :: rest =>
    if c = cr ∧ c' = lf then [] :: splitLines cr lf rest
    else if c = cr ∨ c = lf then [] :: splitLines cr lf (c' :: rest)
    else (splitLines cr lf (c' :: rest)).modifyHead (c :: ·)

theorem splitLines_ne_nil (text : List α) : splitLines cr lf text ≠ [] := by
  fun_induction splitLines cr lf text <;> simp_all [List.modifyHead_eq_nil_iff]

/-- A symbol that breaks no line belongs to the first one. -/
theorem splitLines_cons {c : α} (hc : ¬ (c = cr ∨ c = lf)) (rest : List α) :
    splitLines cr lf (c :: rest) = (splitLines cr lf rest).modifyHead (c :: ·) := by
  cases rest with
  | nil => simp [splitLines, hc]
  | cons c' rest =>
      have hpair : ¬ (c = cr ∧ c' = lf) := fun h => hc (Or.inl h.1)
      rw [splitLines, if_neg hpair, if_neg hc]

theorem splitLines_append {line : List α} (h : Unbroken cr lf line) (rest : List α) :
    splitLines cr lf (line ++ rest) = (splitLines cr lf rest).modifyHead (line ++ ·) := by
  induction line with
  | nil =>
      cases hlines : splitLines cr lf rest with
      | nil => exact absurd hlines (splitLines_ne_nil rest)
      | cons first lines => simp [hlines]
  | cons c line ih =>
      obtain ⟨hc, hline⟩ := unbroken_cons.mp h
      rw [List.cons_append, splitLines_cons hc, ih hline, List.modifyHead_modifyHead]
      rfl

/-- A line that is ended. -/
theorem splitLines_line {line : List α} (h : Unbroken cr lf line) (rest : List α) :
    splitLines cr lf (line ++ cr :: lf :: rest) = line :: splitLines cr lf rest := by
  have hbreak : splitLines cr lf (cr :: lf :: rest) = [] :: splitLines cr lf rest := by
    rw [splitLines, if_pos ⟨rfl, rfl⟩]
  rw [splitLines_append h, hbreak]
  simp

/-- **Lines that were joined are found again.** -/
theorem splitLines_intercalate {lines : List (List α)} (hne : lines ≠ [])
    (h : ∀ line ∈ lines, Unbroken cr lf line) :
    splitLines cr lf ([cr, lf].intercalate lines) = lines := by
  induction lines with
  | nil => exact absurd rfl hne
  | cons line lines ih =>
      have hline := h line List.mem_cons_self
      cases lines with
      | nil =>
          have hlast := splitLines_append hline ([] : List α)
          rw [List.intercalate_singleton]
          simpa [splitLines] using hlast
      | cons next lines =>
          rw [List.intercalate_cons_of_ne_nil (by simp), List.append_assoc, List.cons_append,
            List.cons_append, List.nil_append, splitLines_line hline, ih (by simp)]
          exact fun line' hline' => h line' (List.mem_cons_of_mem _ hline')

/-- **There is no line break within a line.** -/
theorem unbroken_of_mem_splitLines {text line : List α} (h : line ∈ splitLines cr lf text) :
    Unbroken cr lf line := by
  fun_induction splitLines cr lf text generalizing line with
  | case1 =>
      rw [List.mem_singleton.mp h]
      exact unbroken_nil
  | case2 c hc =>
      have hnil : line = [] := by simpa using h
      rw [hnil]
      exact unbroken_nil
  | case3 c hc =>
      rw [List.mem_singleton.mp h]
      exact unbroken_cons.mpr ⟨hc, unbroken_nil⟩
  | case4 c c' rest hc ih | case5 c c' rest hpair hc ih =>
      rcases List.mem_cons.mp h with rfl | h
      · exact unbroken_nil
      · exact ih h
  | case6 c c' rest hpair hc ih =>
      cases hlines : splitLines cr lf (c' :: rest) with
      | nil => exact absurd hlines (splitLines_ne_nil _)
      | cons first lines =>
          rw [hlines] at h ih
          rcases List.mem_cons.mp h with rfl | h
          · exact unbroken_cons.mpr ⟨hc, ih List.mem_cons_self⟩
          · exact ih (List.mem_cons_of_mem _ h)

end Proxinator.Lib
