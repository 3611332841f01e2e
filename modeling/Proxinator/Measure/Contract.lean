import Proxinator.Measure.Listeners

/-!
# The contract of an event emitter

A chain is to behave as one emitter, on which its own emissions and those of its inner streams
are emissions: a listener registered with `once` runs at most once, a listener that was removed
runs no more, and a listener registered with `on` runs once per emission. A chain does so in
exactly those runs in which an inner stream emits only before the first `once` and the first
removal (`Listeners.contract_iff`). The listeners are told apart by their registrations.
-/

namespace Proxinator.Measure.Listeners

open Lib

variable {β : Type*}

/-- The registrations that ran, over all emissions. -/
def runs (s : Listeners β) : List ℕ := s.emissions.flatMap Emission.ran

/-- The contract of an event emitter. -/
structure Contract (s : Listeners β) : Prop where
  /-- A listener registered with `once` runs at most once. -/
  once : ∀ (k : ℕ) r, s.registrations[k]? = some r → r.once = true → s.runs.count k ≤ 1
  /-- A listener runs no more after it was removed. -/
  removed : ∀ emission ∈ s.emissions, ∀ k ∈ emission.removed, k ∉ emission.ran
  /-- A listener registered with `on` runs once per emission. -/
  on : ∀ emission ∈ s.emissions, ∀ k < emission.registered, ∀ r, s.registrations[k]? = some r →
    r.once = false → k ∉ emission.removed → emission.ran.count k = 1

/-- An inner stream emits only while there was neither a `once` nor a removal. -/
def Clean (s : Listeners β) (e : Event β) : Prop :=
  ∀ i < s.streams, e = .emit (.inner i) →
    (∀ r ∈ s.registrations, r.once = false) ∧ s.removed = []

/-- Every event but an emission is clean. -/
theorem clean_of_ne {s : Listeners β} {e : Event β} (h : ∀ source, e ≠ .emit source) : s.Clean e := by
  intro i _ heq
  exact absurd heq (h (.inner i))

/-! ## What is kept -/

/-- What the registrations leave on an inner stream. -/
def innerEntries (s : Listeners β) (i : ℕ) : List (Entry Source β) :=
  s.registrations.zipIdx.flatMap fun r => r.1.innerEntries i r.2

/-- As long as every inner emission is clean, the inner streams have the listeners of all
registrations, and the outer transform those that have neither been removed nor run out. -/
structure Kept (s : Listeners β) : Prop where
  inner : ∀ i, s.emitters.listeners (.inner i) = if i < s.streams then s.innerEntries i else []
  mem_outer : ∀ entry, entry ∈ s.emitters.listeners .outer ↔
    (∃ k r, s.registrations[k]? = some r ∧ entry = Registration.outerEntry k r) ∧
      entry.call ∉ s.removed ∧ entry ∉ s.emitters.fired
  distinct : ((s.emitters.listeners .outer).map Entry.call).Nodup
  fired : ∀ entry ∈ s.emitters.fired,
    ∃ k callback, s.registrations[k]? = some ⟨callback, true⟩ ∧ entry = .wrapper k callback .outer
  /-- A `once` has run if its outer wrapper has fired. -/
  ran_once : ∀ k callback, .wrapper k callback .outer ∈ s.emitters.fired → s.runs.count k = 1
  not_ran : ∀ k callback, s.registrations[k]? = some ⟨callback, true⟩ →
    .wrapper k callback .outer ∉ s.emitters.fired → s.runs.count k = 0
  bounded : ∀ emission ∈ s.emissions, emission.registered ≤ s.registrations.length ∧
    ∀ k ∈ emission.ran, k < emission.registered
  removed : ∀ k ∈ s.removed, k < s.registrations.length

/-! ## A registration -/

theorem nodup_innerEntries (s : Listeners β) (i : ℕ) : (s.innerEntries i).Nodup := by
  rw [innerEntries, List.nodup_flatMap]
  constructor
  · intro r _
    rw [Registration.innerEntries]
    split <;> simp
  · have hcalls : (s.registrations.zipIdx.map Prod.snd).Nodup := by
      rw [List.zipIdx_map_snd]
      exact List.nodup_range'
    refine (List.pairwise_map.mp hcalls).imp fun hne entry hentry hentry' => hne ?_
    rw [← Registration.call_of_mem_innerEntries hentry,
      Registration.call_of_mem_innerEntries hentry']

theorem innerEntries_of_on {s : Listeners β} (hon : ∀ r ∈ s.registrations, r.once = false)
    (i : ℕ) :
    s.innerEntries i = s.registrations.zipIdx.map fun r => .listener r.2 r.1.callback := by
  rw [innerEntries, List.map_eq_flatMap]
  apply List.flatMap_congr
  intro r hr
  rw [Registration.innerEntries, hon r.1 (List.fst_mem_of_mem_zipIdx hr)]
  rfl

namespace Kept

variable {s : Listeners β}

theorem emitters_distinct (h : s.Kept) : s.emitters.Distinct := by
  intro e
  cases e with
  | inner i =>
      rw [h.inner]
      split
      · exact nodup_innerEntries s i
      · exact List.nodup_nil
  | outer => exact h.distinct.of_map

/-- What is on the outer transform is of a registration. -/
theorem call_lt (h : s.Kept) {entry : Entry Source β} (hentry : entry ∈ s.emitters.listeners .outer) :
    entry.call < s.registrations.length := by
  obtain ⟨⟨k, r, hr, rfl⟩, -⟩ := (h.mem_outer entry).mp hentry
  rw [Registration.call_outerEntry]
  exact (List.getElem?_eq_some_iff.mp hr).1

/-- What is on the outer transform is taken off it alone. -/
theorem target?_eq (h : s.Kept) {entry : Entry Source β}
    (hentry : entry ∈ s.emitters.listeners .outer) (hwrapper : entry.target? ≠ none) :
    entry.target? = some .outer := by
  obtain ⟨⟨k, r, hr, rfl⟩, -⟩ := (h.mem_outer entry).mp hentry
  rw [Registration.target?_outerEntry] at hwrapper ⊢
  split at hwrapper
  next honce => rw [if_pos honce]
  next => exact absurd rfl hwrapper

theorem call_fired_lt (h : s.Kept) {entry : Entry Source β} (hentry : entry ∈ s.emitters.fired) :
    entry.call < s.registrations.length := by
  obtain ⟨k, callback, hr, rfl⟩ := h.fired entry hentry
  exact (List.getElem?_eq_some_iff.mp hr).1

/-- The wrapper of an inner stream has not fired. -/
theorem live_inner (h : s.Kept) (k i : ℕ) (callback : β) :
    s.emitters.Live (.wrapper k callback (.inner i)) := by
  refine Or.inr fun hfired => ?_
  obtain ⟨k', callback', -, heq⟩ := h.fired _ hfired
  cases heq

/-- The next registration has not run. -/
theorem count_runs_length (h : s.Kept) : s.runs.count s.registrations.length = 0 := by
  apply List.count_eq_zero.mpr
  intro hran
  obtain ⟨emission, hemission, hk⟩ := List.mem_flatMap.mp hran
  obtain ⟨hle, hlt⟩ := h.bounded emission hemission
  exact absurd ((hlt _ hk).trans_le hle) (lt_irrefl _)

end Kept

namespace Registered

variable {s s' : Listeners β} {r : Registration β}

theorem runs (h : Registered s r s') : s'.runs = s.runs := by
  rw [Listeners.runs, Listeners.runs, h.emissions]

/-- The registrations that there are. -/
theorem getElem?_iff (h : Registered s r s') {k : ℕ} {r' : Registration β} :
    s'.registrations[k]? = some r' ↔
      s.registrations[k]? = some r' ∨ k = s.registrations.length ∧ r = r' := by
  rw [h.registrations]
  rcases lt_trichotomy k s.registrations.length with hlt | rfl | hgt
  · simp [List.getElem?_append_left hlt, hlt.ne]
  · simp
  · rw [List.getElem?_eq_none (by rw [List.length_append]; exact hgt), List.getElem?_eq_none hgt.le]
    simp [hgt.ne']

theorem contract (h : Registered s r s') (hkept : s.Kept) (hcontract : s.Contract) :
    s'.Contract := by
  constructor
  · intro k r' hr' honce
    rw [h.runs]
    rcases h.getElem?_iff.mp hr' with hr' | ⟨rfl, -⟩
    · exact hcontract.once k r' hr' honce
    · rw [hkept.count_runs_length]
      omega
  · rw [h.emissions]
    exact hcontract.removed
  · intro emission hemission k hk r' hr'
    rw [h.emissions] at hemission
    have hlt := hk.trans_le (hkept.bounded emission hemission).1
    rcases h.getElem?_iff.mp hr' with hr' | ⟨rfl, -⟩
    · exact hcontract.on emission hemission k hk r' hr'
    · omega

/-- What is on the outer transform. -/
theorem mem_outer (h : Registered s r s') (hkept : s.Kept) (entry : Entry Source β) :
    entry ∈ s'.emitters.listeners .outer ↔
      (∃ k r, s'.registrations[k]? = some r ∧ entry = Registration.outerEntry k r) ∧
        entry.call ∉ s'.removed ∧ entry ∉ s'.emitters.fired := by
  rw [h.outer, List.mem_append, List.mem_singleton, hkept.mem_outer, h.removed, h.fired]
  constructor
  · rintro (⟨⟨k, r', hr', rfl⟩, hnot⟩ | rfl)
    · exact ⟨⟨k, r', h.getElem?_iff.mpr (Or.inl hr'), rfl⟩, hnot⟩
    · refine ⟨⟨_, r, h.getElem?_iff.mpr (Or.inr ⟨rfl, rfl⟩), rfl⟩, ?_, ?_⟩
      · intro hremoved
        have hlt := hkept.removed _ hremoved
        rw [Registration.call_outerEntry] at hlt
        omega
      · intro hfired
        have hlt := hkept.call_fired_lt hfired
        rw [Registration.call_outerEntry] at hlt
        omega
  · rintro ⟨⟨k, r', hr', rfl⟩, hnot⟩
    rcases h.getElem?_iff.mp hr' with hr' | ⟨rfl, rfl⟩
    · exact Or.inl ⟨⟨k, r', hr', rfl⟩, hnot⟩
    · exact Or.inr rfl

theorem kept (h : Registered s r s') (hkept : s.Kept) : s'.Kept := by
  have hlength : s'.registrations.length = s.registrations.length + 1 := by
    rw [h.registrations]
    simp
  constructor
  · intro i
    rw [h.inner, hkept.inner, h.streams, innerEntries, innerEntries, h.registrations]
    split <;> simp [List.zipIdx_append]
  · exact h.mem_outer hkept
  · rw [h.outer, List.map_append, List.map_singleton, Registration.call_outerEntry]
    refine List.nodup_append.mpr ⟨hkept.distinct, List.nodup_singleton _, ?_⟩
    intro call hcall k hk
    obtain ⟨entry, hentry, rfl⟩ := List.mem_map.mp hcall
    rw [List.mem_singleton.mp hk]
    exact (hkept.call_lt hentry).ne
  · intro entry hentry
    rw [h.fired] at hentry
    obtain ⟨k, callback, hregistered, rfl⟩ := hkept.fired entry hentry
    exact ⟨k, callback, h.getElem?_iff.mpr (Or.inl hregistered), rfl⟩
  · rw [h.runs, h.fired]
    exact hkept.ran_once
  · intro k callback hregistered hfired
    rw [h.fired] at hfired
    rw [h.runs]
    rcases h.getElem?_iff.mp hregistered with hregistered | ⟨rfl, -⟩
    · exact hkept.not_ran k callback hregistered hfired
    · exact hkept.count_runs_length
  · intro emission hemission
    rw [h.emissions] at hemission
    obtain ⟨hle, hran⟩ := hkept.bounded emission hemission
    exact ⟨by omega, hran⟩
  · intro k hk
    rw [h.removed] at hk
    have hlt := hkept.removed k hk
    omega

end Registered

/-! ## A removal -/

variable [DecidableEq β]

/-- A removal takes one entry off the outer transform. -/
theorem removeListener_of_some {callback : β} {s : Listeners β} (hkept : s.Kept)
    {found : Entry Source β}
    (h : (s.emitters.listeners .outer).reverse.find? (fun entry => entry.callback = callback) =
      some found) :
    (s.removeListener callback).emitters.listeners .outer =
        (s.emitters.listeners .outer).filter (· ≠ found) ∧
      (s.removeListener callback).removed = s.removed ++ [found.call] := by
  constructor
  · rw [removeListener, Emitters.listeners_removeListener_self, removeLast_of_find? h,
      removeLast_beq hkept.distinct.of_map]
  · rw [removeListener, h]
    rfl

theorem Contract.removeListener {s : Listeners β} (h : s.Contract) (callback : β) :
    (s.removeListener callback).Contract :=
  ⟨h.once, h.removed, h.on⟩

theorem Kept.removeListener {s : Listeners β} (h : s.Kept) (callback : β) :
    (s.removeListener callback).Kept := by
  cases hfind : (s.emitters.listeners .outer).reverse.find? fun entry => entry.callback = callback with
  | none =>
      rwa [removeListener_of_none hfind]
  | some found =>
      obtain ⟨houter, hremoved⟩ := removeListener_of_some h hfind
      have hfound : found ∈ s.emitters.listeners .outer :=
        List.mem_reverse.mp (List.mem_of_find?_eq_some hfind)
      constructor
      · intro i
        have hne : Source.inner i ≠ .outer := Source.noConfusion
        exact (Emitters.listeners_removeListener_of_ne hne _ _).trans (h.inner i)
      · intro entry
        rw [houter, List.mem_filter, decide_eq_true_eq, hremoved, List.mem_append,
          List.mem_singleton, not_or]
        constructor
        · rintro ⟨hentry, hne⟩
          obtain ⟨hregistered, hnot, hfired⟩ := (h.mem_outer entry).mp hentry
          refine ⟨hregistered, ⟨hnot, fun hcall => hne ?_⟩, hfired⟩
          exact List.inj_on_of_nodup_map h.distinct hentry hfound hcall
        · rintro ⟨hregistered, ⟨hnot, hcall⟩, hfired⟩
          refine ⟨(h.mem_outer entry).mpr ⟨hregistered, hnot, hfired⟩, ?_⟩
          rintro rfl
          exact hcall rfl
      · rw [houter]
        exact h.distinct.sublist (List.filter_sublist.map _)
      · exact h.fired
      · exact h.ran_once
      · exact h.not_ran
      · exact h.bounded
      · intro k hk
        rw [hremoved] at hk
        rcases List.mem_append.mp hk with hk | hk
        · exact h.removed k hk
        · rw [List.mem_singleton.mp hk]
          exact h.call_lt hfound

/-! ## An emission -/

section

variable {source : Source} {s : Listeners β}

theorem runs_emit (hsource : source.among s.streams = true) :
    (s.emit source).runs = s.runs ++ (s.emitters.emit source).2 := by
  rw [runs, emit_eq hsource, List.flatMap_append]
  simp [runs]

/-- What an emission has to run to keep the contract. -/
theorem emit_contract_iff (hsource : source.among s.streams = true) (h : s.Contract) :
    (s.emit source).Contract ↔
      (∀ (k : ℕ) r, s.registrations[k]? = some r → r.once = true →
        s.runs.count k + (s.emitters.emit source).2.count k ≤ 1) ∧
      (∀ k ∈ s.removed, k ∉ (s.emitters.emit source).2) ∧
      ∀ (k : ℕ) r, s.registrations[k]? = some r → r.once = false → k ∉ s.removed →
        (s.emitters.emit source).2.count k = 1 := by
  have hruns : ∀ k, (s.emit source).runs.count k =
      s.runs.count k + (s.emitters.emit source).2.count k := by
    intro k
    rw [runs_emit hsource, List.count_append]
  rw [emit_eq hsource] at hruns ⊢
  constructor
  · intro h'
    refine ⟨?_, ?_, ?_⟩
    · intro k r hr honce
      rw [← hruns]
      exact h'.once k r hr honce
    · exact h'.removed _ (List.mem_append_right _ (List.mem_singleton_self _))
    · intro k r hr honce
      exact h'.on _ (List.mem_append_right _ (List.mem_singleton_self _)) k
        (List.getElem?_eq_some_iff.mp hr).1 r hr honce
  · rintro ⟨honce, hremoved, hon⟩
    constructor
    · intro k r hr hr'
      rw [hruns]
      exact honce k r hr hr'
    · intro emission hemission
      rcases List.mem_append.mp hemission with hemission | hemission
      · exact h.removed emission hemission
      · rw [List.mem_singleton.mp hemission]
        exact hremoved
    · intro emission hemission
      rcases List.mem_append.mp hemission with hemission | hemission
      · exact h.on emission hemission
      · rw [List.mem_singleton.mp hemission]
        intro k _ r hr
        exact hon k r hr

end

/-! ### The outer transform -/

/-- The outer transform runs all that is on it. -/
theorem ran_outer {s : Listeners β} (h : s.Kept) :
    (s.emitters.emit .outer).2 = (s.emitters.listeners .outer).map Entry.call := by
  rw [(Emitters.called_emit h.emitters_distinct .outer).ran_eq, List.filter_eq_self.mpr]
  intro entry hentry
  exact decide_eq_true (Or.inr ((h.mem_outer entry).mp hentry).2.2)

/-- A registration is on the outer transform if it was neither removed nor has run out. -/
theorem mem_ran_outer {s : Listeners β} (h : s.Kept) {k : ℕ} {r : Registration β}
    (hr : s.registrations[k]? = some r) :
    k ∈ (s.emitters.emit .outer).2 ↔ k ∉ s.removed ∧ r.outerEntry k ∉ s.emitters.fired := by
  rw [ran_outer h, List.mem_map]
  constructor
  · rintro ⟨entry, hentry, rfl⟩
    obtain ⟨⟨k, r', hr', rfl⟩, hnot⟩ := (h.mem_outer entry).mp hentry
    rw [Registration.call_outerEntry] at hr hnot ⊢
    obtain rfl : r' = r := Option.some.inj (hr'.symm.trans hr)
    exact hnot
  · intro hnot
    refine ⟨r.outerEntry k, (h.mem_outer _).mpr ⟨⟨k, r, hr, rfl⟩, ?_⟩, by simp⟩
    rwa [Registration.call_outerEntry]

/-- How often a registration runs when the outer transform emits. -/
theorem count_ran_outer {s : Listeners β} (h : s.Kept) {k : ℕ} {r : Registration β}
    (hr : s.registrations[k]? = some r) :
    (s.emitters.emit .outer).2.count k =
      if k ∉ s.removed ∧ r.outerEntry k ∉ s.emitters.fired then 1 else 0 := by
  have hnodup : (s.emitters.emit .outer).2.Nodup := ran_outer h ▸ h.distinct
  split
  next hran => exact List.count_eq_one_of_mem hnodup ((mem_ran_outer h hr).mpr hran)
  next hran => exact List.count_eq_zero.mpr fun hmem => hran ((mem_ran_outer h hr).mp hmem)

theorem emit_outer_contract {s : Listeners β} (h : s.Kept) (hcontract : s.Contract) :
    (s.emit .outer).Contract := by
  have hsource : Source.outer.among s.streams = true := rfl
  refine (emit_contract_iff hsource hcontract).mpr ⟨?_, ?_, ?_⟩
  · rintro k ⟨callback, once⟩ hr rfl
    rw [count_ran_outer h hr]
    by_cases hfired : .wrapper k callback .outer ∈ s.emitters.fired
    · rw [h.ran_once k callback hfired, if_neg fun hran => hran.2 hfired]
    · rw [h.not_ran k callback hr hfired]
      split <;> omega
  · intro k hk hran
    have hr := List.getElem?_eq_getElem (h.removed k hk)
    exact ((mem_ran_outer h hr).mp hran).1 hk
  · rintro k ⟨callback, once⟩ hr rfl hk
    rw [count_ran_outer h hr, if_pos]
    refine ⟨hk, fun hfired => ?_⟩
    obtain ⟨k', callback', -, heq⟩ := h.fired _ hfired
    cases heq

/-- The wrappers on the outer transform have fired. -/
theorem mem_fired_outer {s : Listeners β} (h : s.Kept) (entry : Entry Source β) :
    entry ∈ (s.emitters.emit .outer).1.fired ↔
      entry ∈ s.emitters.fired ∨
        entry ∈ s.emitters.listeners .outer ∧ entry.target? = some .outer := by
  rw [(Emitters.called_emit h.emitters_distinct .outer).mem_fired]
  apply or_congr_right
  constructor
  · intro hentry
    exact ⟨hentry.1, h.target?_eq hentry.1 hentry.2.1⟩
  · intro hentry
    refine ⟨hentry.1, ?_, ((h.mem_outer entry).mp hentry.1).2.2⟩
    rw [hentry.2]
    exact Option.some_ne_none _

/-- Those that have fired are taken off it. -/
theorem mem_listeners_outer {s : Listeners β} (h : s.Kept) (entry : Entry Source β) :
    entry ∈ (s.emitters.emit .outer).1.listeners .outer ↔
      entry ∈ s.emitters.listeners .outer ∧ entry ∉ (s.emitters.emit .outer).1.fired := by
  rw [(Emitters.called_emit h.emitters_distinct .outer).listeners, List.mem_filter,
    decide_eq_true_eq, mem_fired_outer h, and_congr_right_iff]
  intro hentry
  have hfresh := ((h.mem_outer entry).mp hentry).2.2
  rw [not_or, and_iff_right hfresh]
  apply not_congr
  constructor
  · intro hcalled
    exact ⟨hentry, hcalled.2.2⟩
  · intro htarget
    refine ⟨hentry, ⟨?_, hfresh⟩, htarget.2⟩
    rw [htarget.2]
    exact Option.some_ne_none _

/-- The inner streams keep what is on them. -/
theorem listeners_inner_outer {s : Listeners β} (h : s.Kept) (i : ℕ) :
    (s.emitters.emit .outer).1.listeners (.inner i) = s.emitters.listeners (.inner i) := by
  rw [(Emitters.called_emit h.emitters_distinct .outer).listeners, List.filter_eq_self]
  intro entry _
  apply decide_eq_true
  rintro ⟨hentry, hfresh, htarget⟩
  cases (h.target?_eq hentry hfresh.1).symm.trans htarget

theorem emit_outer_kept {s : Listeners β} (h : s.Kept) : (s.emit .outer).Kept := by
  have hruns : ∀ k, (s.emit .outer).runs.count k =
      s.runs.count k + (s.emitters.emit .outer).2.count k := by
    intro k
    rw [runs_emit rfl, List.count_append]
  rw [emit_eq rfl] at hruns ⊢
  constructor
  · intro i
    exact (listeners_inner_outer h i).trans (h.inner i)
  · intro entry
    simp only [mem_listeners_outer h, h.mem_outer, and_assoc]
    refine and_congr_right fun _ => and_congr_right fun _ => and_iff_right_of_imp ?_
    intro hfired hold
    exact hfired ((mem_fired_outer h entry).mpr (Or.inl hold))
  · simp only [(Emitters.called_emit h.emitters_distinct .outer).listeners]
    exact h.distinct.sublist (List.filter_sublist.map _)
  · intro entry hentry
    rcases (mem_fired_outer h entry).mp hentry with hentry | ⟨hentry, htarget⟩
    · exact h.fired entry hentry
    · obtain ⟨⟨k, ⟨callback, once⟩, hr, rfl⟩, -⟩ := (h.mem_outer entry).mp hentry
      cases once with
      | false => cases htarget
      | true => exact ⟨k, callback, hr, rfl⟩
  · intro k callback hfired
    rw [hruns]
    rcases (mem_fired_outer h _).mp hfired with hfired | ⟨hentry, -⟩
    · obtain ⟨k', callback', hr, heq⟩ := h.fired _ hfired
      cases heq
      rw [h.ran_once k callback hfired, count_ran_outer h hr, if_neg fun hran => hran.2 hfired]
    · obtain ⟨⟨k', ⟨callback', once⟩, hr, heq⟩, hnot⟩ := (h.mem_outer _).mp hentry
      cases once with
      | false => cases heq
      | true =>
          cases heq
          rw [h.not_ran _ _ hr hnot.2, count_ran_outer h hr, Nat.zero_add]
          exact if_pos hnot
  · intro k callback hr hfired
    obtain ⟨hold, hnew⟩ := not_or.mp fun h' => hfired ((mem_fired_outer h _).mpr h')
    rw [hruns, h.not_ran k callback hr hold, count_ran_outer h hr, if_neg]
    intro hran
    exact hnew ⟨(h.mem_outer _).mpr ⟨⟨k, _, hr, rfl⟩, hran⟩, rfl⟩
  · intro emission hemission
    rcases List.mem_append.mp hemission with hemission | hemission
    · exact h.bounded emission hemission
    · rw [List.mem_singleton.mp hemission, ran_outer h]
      refine ⟨le_rfl, fun k hk => ?_⟩
      obtain ⟨entry, hentry, rfl⟩ := List.mem_map.mp hk
      exact h.call_lt hentry
  · exact h.removed

/-! ### An inner stream -/

/-- An inner stream runs all that is live on it. -/
theorem ran_inner {s : Listeners β} (h : s.Kept) {i : ℕ} (hi : i < s.streams) :
    (s.emitters.emit (.inner i)).2 =
      ((s.innerEntries i).filter fun entry => s.emitters.Live entry).map Entry.call := by
  rw [(Emitters.called_emit h.emitters_distinct (.inner i)).ran_eq, h.inner, if_pos hi]

/-- As long as there was no `once`, an inner stream runs every registration. -/
theorem ran_inner_of_on {s : Listeners β} (h : s.Kept) {i : ℕ} (hi : i < s.streams)
    (hon : ∀ r ∈ s.registrations, r.once = false) :
    (s.emitters.emit (.inner i)).2 = List.range' 0 s.registrations.length := by
  rw [ran_inner h hi, List.filter_eq_self.mpr, innerEntries_of_on hon, List.map_map,
    ← List.zipIdx_map_snd]
  · rfl
  · rw [innerEntries_of_on hon]
    intro entry hentry
    obtain ⟨r, -, rfl⟩ := List.mem_map.mp hentry
    exact decide_eq_true (Or.inl rfl)

/-- How often a registration runs, at least. -/
theorem count_ran_inner {s : Listeners β} (h : s.Kept) {i : ℕ} (hi : i < s.streams) {k : ℕ}
    {r : Registration β} (hr : s.registrations[k]? = some r) :
    (((r.innerEntries i k).filter fun entry => s.emitters.Live entry).map Entry.call).count k ≤
      (s.emitters.emit (.inner i)).2.count k := by
  have hsublist : (r.innerEntries i k).Sublist (s.innerEntries i) := by
    rw [innerEntries, List.flatMap_def]
    apply List.sublist_flatten_of_mem
    exact List.mem_map_of_mem (f := fun r => r.1.innerEntries i r.2)
      (List.mk_mem_zipIdx_iff_getElem?.mpr hr)
  rw [ran_inner h hi]
  exact ((hsublist.filter _).map _).count_le k

/-- **Every registration runs when an inner stream emits**, removed or not. -/
theorem mem_ran_inner {s : Listeners β} (h : s.Kept) {i : ℕ} (hi : i < s.streams) {k : ℕ}
    {r : Registration β} (hr : s.registrations[k]? = some r) :
    k ∈ (s.emitters.emit (.inner i)).2 := by
  apply List.count_pos_iff.mp
  refine lt_of_lt_of_le ?_ (count_ran_inner h hi hr)
  obtain ⟨callback, once⟩ := r
  cases once with
  | false => simp [Registration.innerEntries, Emitters.Live, Entry.target?, Entry.call]
  | true =>
      have hlive := h.live_inner k i callback
      simp [Registration.innerEntries, hlive, Entry.call]

/-- **A `once` runs twice**, by the emission of an inner stream at the latest. -/
theorem two_le_count_ran_inner {s : Listeners β} (h : s.Kept) {i : ℕ} (hi : i < s.streams) {k : ℕ}
    {callback : β} (hr : s.registrations[k]? = some ⟨callback, true⟩) :
    2 ≤ s.runs.count k + (s.emitters.emit (.inner i)).2.count k := by
  by_cases hfired : .wrapper k callback .outer ∈ s.emitters.fired
  · have hpos := List.count_pos_iff.mpr (mem_ran_inner h hi hr)
    rw [h.ran_once k callback hfired]
    omega
  · have hlive := h.live_inner k i callback
    have houter : s.emitters.Live (.wrapper k callback .outer) := Or.inr hfired
    have htwo : 2 ≤ (s.emitters.emit (.inner i)).2.count k := by
      simpa [Registration.innerEntries, hlive, houter, Entry.call] using count_ran_inner h hi hr
    omega

theorem emit_inner_contract_iff {s : Listeners β} (h : s.Kept) (hcontract : s.Contract) {i : ℕ}
    (hi : i < s.streams) :
    (s.emit (.inner i)).Contract ↔
      (∀ r ∈ s.registrations, r.once = false) ∧ s.removed = [] := by
  have hsource : (Source.inner i).among s.streams = true := decide_eq_true hi
  rw [emit_contract_iff hsource hcontract]
  constructor
  · rintro ⟨honce, hremoved, -⟩
    constructor
    · rintro ⟨callback, once⟩ hmem
      by_contra htrue
      obtain rfl : once = true := by simpa using htrue
      obtain ⟨k, hr⟩ := List.mem_iff_getElem?.mp hmem
      have htwo := two_le_count_ran_inner h hi hr
      have hle := honce k _ hr rfl
      omega
    · apply List.eq_nil_iff_forall_not_mem.mpr
      intro k hk
      have hr := List.getElem?_eq_getElem (h.removed k hk)
      exact hremoved k hk (mem_ran_inner h hi hr)
  · rintro ⟨hon, hremoved⟩
    rw [ran_inner_of_on h hi hon, hremoved]
    refine ⟨?_, by simp, ?_⟩
    · intro k r hr honce
      rw [hon r (List.mem_of_getElem? hr)] at honce
      cases honce
    · intro k r hr _ _
      apply List.count_eq_one_of_mem List.nodup_range'
      rw [List.mem_range'_1]
      have hlt := (List.getElem?_eq_some_iff.mp hr).1
      omega

theorem emit_inner_kept {s : Listeners β} (h : s.Kept) {i : ℕ} (hi : i < s.streams)
    (hon : ∀ r ∈ s.registrations, r.once = false) : (s.emit (.inner i)).Kept := by
  have hsource : (Source.inner i).among s.streams = true := decide_eq_true hi
  have hcalled := Emitters.called_emit h.emitters_distinct (.inner i)
  have hnone : ∀ entry, ¬ (entry ∈ s.emitters.listeners (.inner i) ∧ s.emitters.Fresh entry) := by
    rintro entry ⟨hentry, hwrapper, -⟩
    rw [h.inner, if_pos hi, innerEntries_of_on hon] at hentry
    obtain ⟨r, -, rfl⟩ := List.mem_map.mp hentry
    exact hwrapper rfl
  have hlisteners : ∀ e, (s.emitters.emit (.inner i)).1.listeners e = s.emitters.listeners e := by
    intro e
    rw [hcalled.listeners, List.filter_eq_self]
    intro entry _
    exact decide_eq_true fun hfresh => hnone entry ⟨hfresh.1, hfresh.2.1⟩
  have hfired : ∀ entry, entry ∈ (s.emitters.emit (.inner i)).1.fired ↔
      entry ∈ s.emitters.fired := by
    intro entry
    rw [hcalled.mem_fired, or_iff_left (hnone entry)]
  rw [emit_eq hsource]
  constructor
  · intro i'
    exact (hlisteners _).trans (h.inner i')
  · intro entry
    simp only [hlisteners, hfired]
    exact h.mem_outer entry
  · simp only [hlisteners]
    exact h.distinct
  · intro entry hentry
    exact h.fired entry ((hfired entry).mp hentry)
  · intro k callback hentry
    obtain ⟨k', callback', hr, -⟩ := h.fired _ ((hfired _).mp hentry)
    cases hon _ (List.mem_of_getElem? hr)
  · intro k callback hr
    cases hon _ (List.mem_of_getElem? hr)
  · intro emission hemission
    rcases List.mem_append.mp hemission with hemission | hemission
    · exact h.bounded emission hemission
    · rw [List.mem_singleton.mp hemission, ran_inner_of_on h hi hon]
      refine ⟨le_rfl, fun k hk => ?_⟩
      exact (List.mem_range'_1.mp hk).2.trans_eq (Nat.zero_add _)
  · exact h.removed

/-! ## Runs -/

theorem kept_step (hchan : chan ≠ "data") {s : Listeners β} {e : Event β} (h : s.Kept)
    (hclean : s.Clean e) : (s.step chan e).Kept := by
  cases e with
  | on callback => exact (registered_on hchan callback s).kept h
  | once callback => exact (registered_once hchan callback s).kept h
  | removeListener callback => exact h.removeListener callback
  | emit source =>
      cases source with
      | outer => exact emit_outer_kept h
      | inner i =>
          by_cases hi : i < s.streams
          · exact emit_inner_kept h hi (hclean i hi rfl).1
          · rwa [step, emit_inner_of_not_lt hi]

theorem step_contract_iff (hchan : chan ≠ "data") {s : Listeners β} {e : Event β} (h : s.Kept)
    (hcontract : s.Contract) : (s.step chan e).Contract ↔ s.Clean e := by
  cases e with
  | on callback =>
      exact iff_of_true ((registered_on hchan callback s).contract h hcontract)
        (clean_of_ne (by simp))
  | once callback =>
      exact iff_of_true ((registered_once hchan callback s).contract h hcontract)
        (clean_of_ne (by simp))
  | removeListener callback =>
      exact iff_of_true (hcontract.removeListener callback) (clean_of_ne (by simp))
  | emit source =>
      cases source with
      | outer =>
          refine iff_of_true (emit_outer_contract h hcontract) ?_
          intro i _ heq
          cases heq
      | inner i =>
          by_cases hi : i < s.streams
          · rw [step, emit_inner_contract_iff h hcontract hi]
            constructor
            · intro hclean _ _ _
              exact hclean
            · intro hclean
              exact hclean i hi rfl
          · rw [step, emit_inner_of_not_lt hi]
            refine iff_of_true hcontract ?_
            intro i' hi' heq
            cases heq
            exact absurd hi' hi

/-- **When the listeners of a chain keep the contract of an event emitter**: exactly if an inner
stream emits only while there was neither a `once` nor a removal. -/
theorem contract_iff (chan : String) (hchan : chan ≠ "data") (array : List Factory)
    (events : List (Event β)) :
    Throughout (step chan) Contract (new array) events ↔
      Along (step chan) Clean (new array) events := by
  refine throughout_iff_along (D := fun _ _ => True) (Q := Kept) ?_ ?_ ?_ ?_ ?_
  · exact Along.of_forall fun _ _ _ => trivial
  · constructor <;> simp [new, Emitters.new, innerEntries]
  · constructor <;> simp [new]
  · intro s e _ h hcontract
    exact step_contract_iff hchan h hcontract
  · intro s e _ h _ hclean
    exact kept_step hchan h hclean

/-- A listener that is removed before the outer transform emits. -/
theorem contract_removed :
    Throughout (step "speed") Contract (new [speed, bandwidth])
      [.on "a", .emit (.inner 1), .once "b", .removeListener "a", .emit .outer] := by
  refine (contract_iff "speed" (by decide) [speed, bandwidth] _).mpr ?_
  simp only [along_cons, along_nil, and_true]
  refine ⟨clean_of_ne (by simp), ?_, clean_of_ne (by simp), clean_of_ne (by simp), ?_⟩
  · intro i _ _
    refine ⟨?_, rfl⟩
    intro r hr
    rw [List.mem_singleton.mp hr]
  · intro i _ heq
    cases heq

/-- **A `once` runs twice, and a removed listener runs**, when the inner stream emits. -/
theorem not_contract_once :
    let twice : List (Event String) := [.once "a", .emit (.inner 0)]
    let late : List (Event String) := [.on "a", .removeListener "a", .emit (.inner 0)]
    (run (step "speed") (new [speed]) twice).emissions = [⟨1, [], [0, 0]⟩] ∧
      (run (step "speed") (new [speed]) late).emissions = [⟨1, [0], [0]⟩] ∧
      ¬ (run (step "speed") (new [speed]) twice).Contract ∧
      ¬ (run (step "speed") (new [speed]) late).Contract := by
  intro twice late
  have htwice : (run (step "speed") (new [speed]) twice).emissions = [⟨1, [], [0, 0]⟩] := by decide
  have hlate : (run (step "speed") (new [speed]) late).emissions = [⟨1, [0], [0]⟩] := by decide
  refine ⟨htwice, hlate, fun h => ?_, fun h => ?_⟩
  · have honce := h.once 0 ⟨"a", true⟩ rfl rfl
    rw [runs, htwice] at honce
    exact absurd honce (by decide)
  · exact h.removed ⟨1, [0], [0]⟩ (by rw [hlate]; decide) 0 (by decide) (by decide)

end Proxinator.Measure.Listeners
