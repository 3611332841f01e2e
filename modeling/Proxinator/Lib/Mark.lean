import Proxinator.Lib.Lines

/-!
# Messages that end at a mark

A reader that is given a stream in pieces and waits for a mark, such as a blank line, takes all
up to the first mark for the message (`cutAfter`). What it takes does not depend on the pieces: of
a stream that begins with a message and its mark it reads nothing until it has all of the message,
and from then on that message (`Ends.cutAfter_take`). Lines that were joined and closed with a
blank one are such a message (`ends_intercalate`).

## Main definitions

* `cutAfter mark l` — what comes up to the first mark, and what comes after it.
* `Ends mark m` — the first mark in `m` is at its end.
-/

namespace Proxinator.Lib

variable {α : Type*} [DecidableEq α] {mark : List α}

/-- What comes up to the first mark, with it, and what comes after it. -/
def cutAfter (mark : List α) : List α → Option (List α × List α)
  | [] => if mark = [] then some ([], []) else none
  | a :: as =>
    if mark.isPrefixOf (a :: as) then some (mark, (a :: as).drop mark.length)
    else (cutAfter mark as).map fun parts => (a :: parts.1, parts.2)

/-- The first mark in the message is at its end. -/
def Ends (mark m : List α) : Prop := cutAfter mark m = some (m, [])

theorem cutAfter_of_begins {l : List α} (h : mark <+: l) :
    cutAfter mark l = some (mark, l.drop mark.length) := by
  cases l with
  | nil =>
      have hnil : mark = [] := List.prefix_nil.mp h
      rw [cutAfter, if_pos hnil, hnil]
      rfl
  | cons a as => rw [cutAfter, if_pos (List.isPrefixOf_iff_prefix.mpr h)]

theorem cutAfter_cons {a : α} {as : List α} (h : ¬ mark <+: a :: as) :
    cutAfter mark (a :: as) = (cutAfter mark as).map fun parts => (a :: parts.1, parts.2) := by
  rw [cutAfter, if_neg (fun hbegins => h (List.isPrefixOf_iff_prefix.mp hbegins))]

/-- Nothing is lost, and the first part ends with the mark. -/
theorem cutAfter_spec {l front back : List α} (h : cutAfter mark l = some (front, back)) :
    l = front ++ back ∧ mark <:+ front := by
  induction l generalizing front back with
  | nil =>
      rw [cutAfter] at h
      split_ifs at h with hnil
      cases h
      exact ⟨rfl, hnil ▸ List.suffix_rfl⟩
  | cons a as ih =>
      by_cases hbegins : mark <+: a :: as
      · rw [cutAfter_of_begins hbegins] at h
        cases h
        refine ⟨?_, List.suffix_rfl⟩
        obtain ⟨rest, hrest⟩ := hbegins
        rw [← hrest, List.drop_left]
      · rw [cutAfter_cons hbegins] at h
        obtain ⟨⟨front', back'⟩, hcut, heq⟩ := Option.map_eq_some_iff.mp h
        cases heq
        obtain ⟨rfl, hsuffix⟩ := ih hcut
        exact ⟨rfl, hsuffix.trans (List.suffix_cons a front')⟩

/-- **What follows does not change what was read.** -/
theorem cutAfter_append {l front back : List α} (h : cutAfter mark l = some (front, back))
    (rest : List α) : cutAfter mark (l ++ rest) = some (front, back ++ rest) := by
  induction l generalizing front back with
  | nil =>
      rw [cutAfter] at h
      split_ifs at h with hnil
      cases h
      subst hnil
      exact cutAfter_of_begins List.nil_prefix
  | cons a as ih =>
      by_cases hbegins : mark <+: a :: as
      · rw [cutAfter_of_begins hbegins] at h
        cases h
        rw [cutAfter_of_begins (hbegins.trans (List.prefix_append _ _)),
          List.drop_append_of_le_length hbegins.length_le]
      · rw [cutAfter_cons hbegins] at h
        obtain ⟨⟨front', back'⟩, hcut, heq⟩ := Option.map_eq_some_iff.mp h
        cases heq
        have hlater : ¬ mark <+: a :: (as ++ rest) := by
          intro hlater
          refine hbegins (List.prefix_of_prefix_length_le hlater (List.prefix_append _ rest) ?_)
          obtain ⟨rfl, hsuffix⟩ := cutAfter_spec hcut
          have hle := hsuffix.length_le
          simp only [List.length_cons, List.length_append]
          omega
        rw [List.cons_append, cutAfter_cons hlater, ih hcut]
        rfl

namespace Ends

variable {m : List α}

/-- **A stream that begins with a message is cut behind it.** -/
theorem cutAfter_eq (h : Ends mark m) (rest : List α) :
    cutAfter mark (m ++ rest) = some (m, rest) := cutAfter_append h rest

/-- **A reader has read nothing until it has all of the message, and then the message.** -/
theorem cutAfter_take (h : Ends mark m) (rest : List α) (n : ℕ) :
    cutAfter mark ((m ++ rest).take n) =
      if n < m.length then none else some (m, rest.take (n - m.length)) := by
  rw [List.take_append]
  split_ifs with hn
  · have hrest : rest.take (n - m.length) = [] := by
      rw [Nat.sub_eq_zero_of_le (Nat.le_of_lt hn), List.take_zero]
    rw [hrest, List.append_nil]
    by_contra hne
    obtain ⟨⟨front, back⟩, hcut⟩ := Option.ne_none_iff_exists'.mp hne
    have hmore := cutAfter_append hcut (m.drop n)
    rw [List.take_append_drop, h] at hmore
    obtain ⟨hfront, -⟩ := Prod.mk.inj (Option.some.inj hmore)
    have hlength := congrArg List.length (cutAfter_spec hcut).1
    rw [← hfront, List.length_take, List.length_append] at hlength
    omega
  · rw [List.take_of_length_le (by omega)]
    exact h.cutAfter_eq _

end Ends

/-! ## Lines -/

variable {cr lf : α}

/-- No mark begins in a line. -/
theorem cutAfter_unbroken {rest line : List α} (h : Unbroken cr lf line) (text : List α) :
    cutAfter (cr :: rest) (line ++ text) =
      (cutAfter (cr :: rest) text).map fun parts => (line ++ parts.1, parts.2) := by
  induction line with
  | nil => simp
  | cons c line ih =>
      obtain ⟨hc, hline⟩ := unbroken_cons.mp h
      have hbegins : ¬ cr :: rest <+: c :: (line ++ text) :=
        fun hbegins => hc (Or.inl (List.cons_prefix_cons.mp hbegins).1.symm)
      rw [List.cons_append, cutAfter_cons hbegins, ih hline, Option.map_map]
      rfl

/-- Nor does one begin with the end of a line, if the next line has something in it. -/
theorem cutAfter_break (hne : cr ≠ lf) {c : α} (hc : c ≠ cr) (text : List α) :
    cutAfter [cr, lf, cr, lf] (cr :: lf :: c :: text) =
      (cutAfter [cr, lf, cr, lf] (c :: text)).map
        fun parts => (cr :: lf :: parts.1, parts.2) := by
  have hcr : ¬ [cr, lf, cr, lf] <+: cr :: lf :: c :: text := by
    simp [List.cons_prefix_cons, Ne.symm hc]
  have hlf : ¬ [cr, lf, cr, lf] <+: lf :: c :: text := by
    simp [List.cons_prefix_cons, hne]
  rw [cutAfter_cons hcr, cutAfter_cons hlf, Option.map_map]
  rfl

/-- **Lines that were joined and closed with a blank one end there.** -/
theorem ends_intercalate (hne : cr ≠ lf) {lines : List (List α)} (hlines : lines ≠ [])
    (hfull : [] ∉ lines) (h : ∀ line ∈ lines, Unbroken cr lf line) :
    Ends [cr, lf, cr, lf] ([cr, lf].intercalate (lines ++ [[], []])) := by
  induction lines with
  | nil => exact absurd rfl hlines
  | cons line lines ih =>
      have hline := h line List.mem_cons_self
      rw [Ends, List.cons_append, List.intercalate_cons_of_ne_nil (by simp), List.append_assoc,
        cutAfter_unbroken hline]
      cases lines with
      | nil =>
          have hblank : cutAfter [cr, lf, cr, lf] [cr, lf, cr, lf] =
              some ([cr, lf, cr, lf], []) := cutAfter_of_begins List.prefix_rfl
          simp [List.intercalate, hblank]
      | cons next lines =>
          have hrest := ih (by simp) (fun hmem => hfull (List.mem_cons_of_mem _ hmem))
            fun line' hline' => h line' (List.mem_cons_of_mem _ hline')
          rw [Ends] at hrest
          -- the next line begins with something that is no line break
          obtain ⟨c, next, rfl⟩ := List.exists_cons_of_ne_nil
            (fun heq : next = [] => hfull (by simp [heq]))
          obtain ⟨hc, -⟩ := unbroken_cons.mp (h (c :: next) (by simp))
          obtain ⟨text, htext⟩ : ∃ text,
              [cr, lf].intercalate ((c :: next) :: lines ++ [[], []]) = c :: text := by
            rw [List.cons_append, List.intercalate_cons_of_ne_nil (by simp)]
            exact ⟨_, rfl⟩
          rw [htext] at hrest ⊢
          rw [List.cons_append, List.cons_append, List.nil_append,
            cutAfter_break hne (fun heq => hc (Or.inl heq)), hrest]
          rfl

end Proxinator.Lib
