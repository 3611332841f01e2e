import Proxinator.Measure.Throttle
import Proxinator.Lib.Cumulative
import Mathlib

/-!
# Bandwidth meters in a chain

A bandwidth meter counts the bytes of every chunk that its `transform` is given, and emits the
count. In a chain it stands beside the stream, not in it: it is given copies of the chunks that
the chain passes on, through the inner streams before it, and these may keep them back. So it
counts what has been passed on, each chunk once and in order, and never more
(`Metered.bandwidth_counts`). An empty chunk is counted by a meter that stands first, and gets no
further.

## Main definitions

* `Bandwidth`, `Bandwidth.transform` — a bandwidth meter.
* `Metered` — a chain, with the meters at its inner streams.
* `Linked` — every inner stream has got what came out of the one before it.
-/

namespace Proxinator.Measure

open Lib

/-! ## The meter -/

/-- A bandwidth meter. -/
structure Bandwidth where
  measurement : ℕ
  /-- The values of its "bandwidth" events. -/
  bandwidths : List ℕ
  deriving DecidableEq, Repr

namespace Bandwidth

/-- `measure.bandwidth`. -/
def new : Bandwidth := ⟨0, []⟩

/-- `getBandwidth()`. -/
def getBandwidth (m : Bandwidth) : ℕ := m.measurement

/-- It is given a chunk: the count grows, and is emitted. -/
def transform (m : Bandwidth) (chunk : Bytes) : Bandwidth :=
  let m := { m with measurement := m.measurement + chunk.length }
  { m with bandwidths := m.bandwidths ++ [m.getBandwidth] }

/-- The meter after chunks. -/
def after (chunks : List Bytes) : Bandwidth := chunks.foldl transform new

theorem after_concat (chunks : List Bytes) (chunk : Bytes) :
    after (chunks ++ [chunk]) = (after chunks).transform chunk := by
  rw [after, List.foldl_append]
  rfl

/-- **A meter emits the running totals of what it is given.** -/
theorem after_eq (chunks : List Bytes) : after chunks =
    ⟨(chunks.map List.length).sum, totals (chunks.map List.length)⟩ := by
  induction chunks using List.reverseRecOn with
  | nil => rfl
  | append_singleton chunks chunk ih =>
      rw [after_concat, ih, transform, getBandwidth, List.map_append, List.map_singleton,
        totals_concat]
      simp

/-- The count is the value it has emitted last. -/
theorem getBandwidth_after (chunks : List Bytes) :
    (after chunks).getBandwidth = (after chunks).bandwidths.getLastD 0 := by
  induction chunks using List.reverseRecOn with
  | nil => rfl
  | append_singleton chunks chunk _ => simp [after_concat, transform, getBandwidth]

end Bandwidth

/-! ## Inner streams one behind the other -/

@[simp] theorem pushed_pushed (chunks : List Bytes) : pushed (pushed chunks) = pushed chunks := by
  rw [pushed, pushed, List.filter_filter]
  simp

/-- What reaches the `i`-th inner stream of chunks that are written into the first. -/
def reaching (i : ℕ) (chunks : List Bytes) : List Bytes :=
  if i = 0 then chunks else pushed chunks

theorem reaching_pushed (i : ℕ) (chunks : List Bytes) :
    reaching i (pushed chunks) = pushed chunks := by
  rw [reaching, pushed_pushed, ite_self]

/-- Empty chunks count for nothing. -/
theorem sum_length_pushed (chunks : List Bytes) :
    ((pushed chunks).map List.length).sum = (chunks.map List.length).sum := by
  induction chunks with
  | nil => rfl
  | cons chunk chunks ih =>
      rw [List.map_cons, List.sum_cons, ← ih, pushed]
      by_cases hempty : chunk = []
      · rw [List.filter_cons_of_neg (by simpa using hempty), hempty]
        simp [pushed]
      · rw [List.filter_cons_of_pos (by simpa using hempty)]
        simp [pushed]

namespace Stream

/-- The chunks that its `transform` was given. -/
def given (st : Stream) : List Bytes :=
  st.output.map Prod.fst ++ (st.current.map Prod.fst).toList

/-- The chunks that were written into it. -/
def accepted (st : Stream) : List Bytes := st.given ++ st.queue

/-- The chunk that its `transform` would be given now. -/
def next (st : Stream) : Option Bytes :=
  match st.current with
  | none => st.queue.head?
  | some _ => none

@[simp] theorem given_write (chunk : Bytes) (st : Stream) : (st.write chunk).given = st.given := rfl

@[simp] theorem accepted_write (chunk : Bytes) (st : Stream) :
    (st.write chunk).accepted = st.accepted ++ [chunk] := by
  rw [accepted, accepted, given_write, List.append_assoc]
  rfl

theorem emitted_give (now : ℚ) (st : Stream) : (st.give now).emitted = st.emitted := by
  rw [give]
  split <;> rfl

theorem map_fst_emitted (st : Stream) :
    st.emitted.map Prod.fst = pushed (st.output.map Prod.fst) := map_fst_filled st.output

/-- Nothing that comes out is empty. -/
theorem pushed_emitted (st : Stream) :
    pushed (st.emitted.map Prod.fst) = st.emitted.map Prod.fst := by
  rw [map_fst_emitted, pushed_pushed]

theorem emitted_begins (st : Stream) : st.emitted.map Prod.fst <+: pushed st.given := by
  rw [map_fst_emitted, given, pushed_append]
  exact List.prefix_append _ _

theorem given_give (now : ℚ) (st : Stream) :
    (st.give now).given = st.given ++ st.next.toList := by
  obtain ⟨factory, queue, current, output⟩ := st
  cases current with
  | some current => simp [give, given, next]
  | none =>
      cases queue with
      | nil => simp [give, given, next]
      | cons chunk queue => simp [give, given, next]

@[simp] theorem accepted_give (now : ℚ) (st : Stream) : (st.give now).accepted = st.accepted := by
  obtain ⟨factory, queue, current, output⟩ := st
  cases current with
  | some current => rfl
  | none =>
      cases queue with
      | nil => rfl
      | cons chunk queue => simp [give, accepted, given]

/-- What it calls back with. -/
theorem output_callback (now : ℚ) (st : Stream) : (st.callback now).output.map Prod.fst =
    st.output.map Prod.fst ++ (st.current.map Prod.fst).toList := by
  rw [callback]
  cases st.current with
  | none => simp
  | some current => simp

/-- What comes out then. -/
theorem emitted_callback (now : ℚ) (st : Stream) : (st.callback now).emitted.map Prod.fst =
    st.emitted.map Prod.fst ++ pushed (st.current.map Prod.fst).toList := by
  rw [map_fst_emitted, output_callback, pushed_append, map_fst_emitted]

@[simp] theorem given_callback (now : ℚ) (st : Stream) : (st.callback now).given = st.given := by
  rw [given, output_callback, callback]
  cases hcurrent : st.current with
  | none => simp [given, hcurrent]
  | some current => simp [given, hcurrent]

@[simp] theorem accepted_callback (now : ℚ) (st : Stream) :
    (st.callback now).accepted = st.accepted := by
  rw [accepted, accepted, given_callback, callback]
  cases st.current with
  | none => rfl
  | some current => rfl

end Stream

namespace Chain

/-- **Every stream has got what came out of the one before it**, the first what `source` is. -/
def Linked : List Bytes → List Stream → Prop
  | _, [] => True
  | source, st :: streams => st.accepted = source ∧ Linked (st.emitted.map Prod.fst) streams

variable {source : List Bytes} {streams : List Stream}

theorem linked_new (array : List Factory) : Linked [] (array.map Stream.new) := by
  induction array with
  | nil => trivial
  | cons factory array ih => exact ⟨rfl, ih⟩

theorem Linked.writeFirst (h : Linked source streams) (chunk : Bytes) :
    Linked (source ++ [chunk]) (writeFirst streams chunk) := by
  cases streams with
  | nil => trivial
  | cons st streams => exact ⟨by rw [Stream.accepted_write, h.1], h.2⟩

theorem Linked.foldl_writeFirst (h : Linked source streams) (chunks : List Bytes) :
    Linked (source ++ chunks) (chunks.foldl Chain.writeFirst streams) := by
  induction chunks generalizing source streams with
  | nil => simpa using h
  | cons chunk chunks ih =>
      have hrest := ih (h.writeFirst chunk)
      simpa using hrest

theorem Linked.give (h : Linked source streams) (i : ℕ) (now : ℚ) :
    Linked source (streams.modify i (Stream.give now)) := by
  induction streams generalizing source i with
  | nil => simpa using h
  | cons st streams ih =>
      cases i with
      | zero => exact ⟨by rw [Stream.accepted_give, h.1], by rw [Stream.emitted_give]; exact h.2⟩
      | succ i => exact ⟨h.1, ih h.2 i⟩

/-- What comes out of a stream is written into the next one. -/
theorem Linked.callback (h : Linked source streams) {i : ℕ} {st : Stream} {chunk : Bytes} {due : ℚ}
    (hst : streams[i]? = some st) (hcurrent : st.current = some (chunk, due)) (now : ℚ) :
    Linked source (if chunk = [] then streams.modify i (Stream.callback now)
      else (streams.modify i (Stream.callback now)).modify (i + 1) (Stream.write chunk)) := by
  induction streams generalizing source i with
  | nil => cases hst
  | cons st' streams ih =>
      cases i with
      | succ i =>
          have hrest := ih h.2 hst
          split_ifs at hrest ⊢
          · exact ⟨h.1, hrest⟩
          · exact ⟨h.1, hrest⟩
      | zero =>
          obtain rfl := Option.some.inj hst
          have haccepted : (st'.callback now).accepted = source := by
            rw [Stream.accepted_callback, h.1]
          have hemitted : (st'.callback now).emitted.map Prod.fst =
              st'.emitted.map Prod.fst ++ pushed [chunk] := by
            rw [Stream.emitted_callback, hcurrent]
            rfl
          split_ifs with hempty
          · refine ⟨haccepted, ?_⟩
            rw [hemitted, hempty]
            simpa [pushed] using h.2
          · refine ⟨haccepted, ?_⟩
            have hchunk : pushed [chunk] = [chunk] := by simp [pushed, hempty]
            rw [hemitted, hchunk]
            exact Linked.writeFirst h.2 chunk

/-- What comes behind a stream is linked to what comes out of it. -/
theorem Linked.drop (h : Linked source streams) {i : ℕ} {st : Stream}
    (hst : streams[i]? = some st) :
    Linked (st.emitted.map Prod.fst) (streams.drop (i + 1)) := by
  induction streams generalizing source i with
  | nil => cases hst
  | cons st' streams ih =>
      cases i with
      | zero =>
          obtain rfl := Option.some.inj hst
          exact h.2
      | succ i => exact ih h.2 hst

/-- What a stream has got begins what can reach it. -/
theorem Linked.accepted_begins (h : Linked source streams) {i : ℕ} {st : Stream}
    (hst : streams[i]? = some st) : st.accepted <+: reaching i source := by
  induction streams generalizing source i with
  | nil => cases hst
  | cons st' streams ih =>
      obtain ⟨rfl, hrest⟩ := h
      cases i with
      | zero =>
          obtain rfl := Option.some.inj hst
          exact List.prefix_rfl
      | succ i =>
          have hnext := ih hrest hst
          rw [← Stream.pushed_emitted, reaching_pushed, Stream.pushed_emitted] at hnext
          have hgiven : pushed st'.given <+: pushed st'.accepted :=
            List.IsPrefix.filter _ (List.prefix_append _ _)
          exact (hnext.trans (Stream.emitted_begins st')).trans hgiven

/-- Of two streams the later has been given no more than what can come out of the earlier. -/
theorem Linked.given_begins (h : Linked source streams) {i j : ℕ} (hij : i < j) {st st' : Stream}
    (hst : streams[i]? = some st) (hst' : streams[j]? = some st') :
    st'.given <+: pushed st.given := by
  have hdrop : (streams.drop (i + 1))[j - (i + 1)]? = some st' := by
    rw [List.getElem?_drop, Nat.add_sub_cancel' hij, hst']
  have haccepted := (h.drop hst).accepted_begins hdrop
  rw [← Stream.pushed_emitted, reaching_pushed, Stream.pushed_emitted] at haccepted
  exact ((List.prefix_append _ _).trans haccepted).trans (Stream.emitted_begins st)

/-- Nothing that is given to a stream behind another is empty. -/
theorem Linked.pushed_given (h : Linked source streams) {i : ℕ} (hi : 0 < i) {st : Stream}
    (hst : streams[i]? = some st) : pushed st.given = st.given := by
  have hgiven : st.given <+: pushed source := by
    have haccepted := h.accepted_begins hst
    rw [reaching, if_neg hi.ne'] at haccepted
    exact (List.prefix_append _ _).trans haccepted
  refine List.filter_eq_self.mpr fun chunk hchunk => ?_
  exact (List.mem_filter.mp (hgiven.subset hchunk)).2

/-- No inner stream holds a chunk. -/
def Idle (s : Chain) : Prop := ∀ st ∈ s.streams, st.queue = [] ∧ st.current = none

/-- Streams that hold nothing have all been given everything that can reach them. -/
theorem Linked.given_eq (h : Linked source streams)
    (hidle : ∀ st ∈ streams, st.queue = [] ∧ st.current = none) {i : ℕ} {st : Stream}
    (hst : streams[i]? = some st) : st.given = reaching i source := by
  induction streams generalizing source i with
  | nil => cases hst
  | cons st' streams ih =>
      obtain ⟨rfl, hrest⟩ := h
      rw [List.forall_mem_cons] at hidle
      have hgiven : st'.given = st'.accepted := by
        rw [Stream.accepted, hidle.1.1, List.append_nil]
      cases i with
      | zero =>
          obtain rfl := Option.some.inj hst
          exact hgiven
      | succ i =>
          have hemitted : st'.emitted.map Prod.fst = pushed st'.given := by
            rw [Stream.map_fst_emitted, Stream.given, hidle.1.2]
            simp
          rw [ih hrest hidle.2 hst, hemitted, reaching_pushed, hgiven]
          rfl

/-! ## The chain with its meters -/

/-- The chunk that the `transform` of the `j`-th inner stream is given on an event. -/
def gives (s : Chain) : Event → ℕ → Option Bytes
  | .give i, j => if i = j then s.streams[i]?.bind Stream.next else none
  | _, _ => none

theorem linked_drain {s : Chain} (h : Linked s.given s.streams) :
    Linked s.drain.given s.drain.streams := h.foldl_writeFirst s.queue

/-- **What the outer transform is given goes through the inner streams.** -/
theorem linked_act {s : Chain} (h : Linked s.given s.streams) (e : Event) :
    Linked (s.act e).given (s.act e).streams := by
  cases e with
  | write chunk =>
      rw [act, write]
      dsimp only
      split_ifs
      · exact linked_drain h
      · exact h
  | transform =>
      rw [act]
      split_ifs
      · exact h
      · rw [transform]
        split
        · exact h
        · exact h.writeFirst _
  | flow => exact linked_drain h
  | pause => exact h
  | give i => exact h.give i s.now
  | callback i =>
      rw [act, callback]
      cases hcurrent : s.streams[i]?.bind Stream.current with
      | none => exact h
      | some current =>
          obtain ⟨chunk, due⟩ := current
          obtain ⟨st, hst, hst'⟩ := Option.bind_eq_some_iff.mp hcurrent
          exact h.callback hst hst' s.now

/-- A chunk that is written is not given yet. -/
theorem given_foldl_writeFirst (streams : List Stream) (chunks : List Bytes) :
    (chunks.foldl writeFirst streams).map Stream.given = streams.map Stream.given := by
  induction chunks generalizing streams with
  | nil => rfl
  | cons chunk chunks ih =>
      rw [List.foldl_cons, ih]
      cases streams with
      | nil => rfl
      | cons st streams => rfl

/-- Nothing is given on what leaves that alone. -/
theorem given_modify {f : Stream → Stream} (hf : ∀ st, (f st).given = st.given)
    (streams : List Stream) (i : ℕ) :
    (streams.modify i f).map Stream.given = streams.map Stream.given := by
  induction streams generalizing i with
  | nil => cases i <;> rfl
  | cons st streams ih =>
      cases i with
      | zero => exact congrArg (· :: _) (hf st)
      | succ i => exact congrArg (st.given :: ·) (ih i)

/-- **What each inner stream is given on an event.** -/
theorem given_act (s : Chain) (e : Event) (j : ℕ) : (s.act e).streams[j]?.map Stream.given =
    s.streams[j]?.map fun st => st.given ++ (s.gives e j).toList := by
  have hsame : ∀ streams : List Stream, streams.map Stream.given = s.streams.map Stream.given →
      streams[j]?.map Stream.given = s.streams[j]?.map fun st => st.given ++ [] := by
    intro streams h
    simp only [List.append_nil]
    rw [← List.getElem?_map, h, List.getElem?_map]
  cases e with
  | write chunk =>
      refine hsame _ ?_
      rw [act, write]
      dsimp only
      split_ifs
      · exact given_foldl_writeFirst _ _
      · rfl
  | transform =>
      refine hsame _ ?_
      rw [act]
      split_ifs
      · rfl
      · rw [transform]
        split
        · rfl
        · exact given_foldl_writeFirst _ [_]
  | flow => exact hsame _ (given_foldl_writeFirst _ _)
  | pause => exact hsame _ rfl
  | give i =>
      rw [act, gives, List.getElem?_modify]
      by_cases hij : i = j
      · subst hij
        cases s.streams[i]? with
        | none => rfl
        | some st => simp [Stream.given_give]
      · simp [hij]
  | callback i =>
      refine hsame _ ?_
      rw [act, callback]
      cases s.streams[i]?.bind Stream.current with
      | none => rfl
      | some current =>
          have hcalled := given_modify (Stream.given_callback s.now) s.streams i
          dsimp only
          split_ifs
          · exact hcalled
          · rw [given_modify (Stream.given_write current.1), hcalled]

end Chain

/-- A chain, with the bandwidth meters that stand at its inner streams. -/
structure Metered where
  chain : Chain
  meters : ℕ → Bandwidth

namespace Metered

/-- A new chain with new meters. -/
def new (now : ℚ) (array : List Factory) : Metered := ⟨Chain.new now array, fun _ => Bandwidth.new⟩

/-- One step of a chain: each meter counts what it is given. -/
def step (s : Metered) (e : Event × ℚ) : Metered :=
  { chain := s.chain.step e
    meters := fun j =>
      match s.chain.gives e.1 j with
      | some chunk => (s.meters j).transform chunk
      | none => s.meters j }

/-- The streams are linked, and every meter has counted what its stream was given. -/
structure Counted (s : Metered) : Prop where
  linked : Chain.Linked s.chain.given s.chain.streams
  meters_eq : ∀ j st, s.chain.streams[j]? = some st → s.meters j = Bandwidth.after st.given

theorem counted_new (now : ℚ) (array : List Factory) : (new now array).Counted := by
  refine ⟨Chain.linked_new array, fun j st hst => ?_⟩
  have hmem := List.mem_of_getElem? hst
  obtain ⟨factory, -, rfl⟩ := List.mem_map.mp hmem
  rfl

/-- **Every step keeps the count.** -/
theorem counted_step {s : Metered} (h : s.Counted) (e : Event × ℚ) : (s.step e).Counted := by
  obtain ⟨event, now⟩ := e
  refine ⟨Chain.linked_act (s := { s.chain with now := now }) h.linked event, fun j st' hst' => ?_⟩
  have hgiven := Chain.given_act { s.chain with now := now } event j
  obtain ⟨st, hst, hst''⟩ : ∃ st, s.chain.streams[j]? = some st ∧
      st.given ++ (s.chain.gives event j).toList = st'.given := by
    have hmap : (({ s.chain with now := now } : Chain).act event).streams[j]?.map Stream.given =
        some st'.given := by
      rw [show (({ s.chain with now := now } : Chain).act event).streams[j]? = some st' from hst']
      rfl
    rw [hgiven] at hmap
    exact Option.map_eq_some_iff.mp hmap
  have hmeter := h.meters_eq j st hst
  rw [step, ← hst'']
  dsimp only
  cases s.chain.gives event j with
  | none => simpa using hmeter
  | some chunk => rw [hmeter, Option.toList_some, Bandwidth.after_concat]

theorem exists_stream_step (s : Metered) (e : Event × ℚ) {j : ℕ}
    (h : ∃ st, s.chain.streams[j]? = some st) : ∃ st, (s.step e).chain.streams[j]? = some st := by
  obtain ⟨st, hst⟩ := h
  have hgiven := Chain.given_act { s.chain with now := e.2 } e.1 j
  rw [hst, Option.map_some] at hgiven
  obtain ⟨st', hst', -⟩ := Option.map_eq_some_iff.mp hgiven
  exact ⟨st', hst'⟩

/-- **A bandwidth meter in a chain counts what the chain passes on**, wherever it stands and
whatever stands before it, in every run: its events are the running totals of the chunks that reach
it, in order and none of them twice or left out; a meter further down is behind; and when no inner
stream holds a chunk, every meter has counted all that can reach it. Only the first inner stream is
reached by empty chunks. -/
theorem bandwidth_counts (now : ℚ) (array : List Factory) (events : List (Event × ℚ)) {i j : ℕ}
    (hij : i ≤ j) (hj : j < array.length) :
    let s := run step (new now array) events
    let counts := totals ((reaching i s.chain.given).map List.length)
    pushed s.chain.given = s.chain.emitted.map Prod.fst ++ s.chain.readable ∧
      (s.meters i).bandwidths <+: counts ∧
      (s.meters i).getBandwidth = (s.meters i).bandwidths.getLastD 0 ∧
      (0 < i → (s.meters j).bandwidths <+: (s.meters i).bandwidths) ∧
      (s.meters j).getBandwidth ≤ (s.meters i).getBandwidth ∧
      (s.chain.Idle → (s.meters i).bandwidths = counts) := by
  have hcounted : (run step (new now array) events).Counted :=
    run_invariant (P := Counted) (fun _ e h => counted_step h e) (counted_new now array) events
  have hinv : (run step (new now array) events).chain.Inv :=
    run_invariant (P := fun s : Metered => s.chain.Inv) (fun s e h => Chain.inv_step h e)
      (Chain.inv_new now array) events
  have hstreams : ∀ k, k < array.length →
      ∃ st, (run step (new now array) events).chain.streams[k]? = some st := by
    intro k hk
    refine run_invariant (P := fun s : Metered => ∃ st, s.chain.streams[k]? = some st)
      (fun s e h => exists_stream_step s e h) ?_ events
    exact ⟨Stream.new array[k], by simp [new, Chain.new, hk]⟩
  generalize run step (new now array) events = s at hcounted hinv hstreams
  obtain ⟨st, hst⟩ := hstreams i (by omega)
  obtain ⟨st', hst'⟩ := hstreams j hj
  have hmeter := hcounted.meters_eq i st hst
  have hmeter' := hcounted.meters_eq j st' hst'
  have hgiven : st.given <+: reaching i s.chain.given :=
    (List.prefix_append _ _).trans (hcounted.linked.accepted_begins hst)
  have hlater : st' = st ∨ st'.given <+: pushed st.given := by
    obtain rfl | hlt := Nat.eq_or_lt_of_le hij
    · exact Or.inl (Option.some.inj (hst'.symm.trans hst))
    · exact Or.inr (hcounted.linked.given_begins hlt hst hst')
  refine ⟨hinv.given_eq, ?_, ?_, fun hi => ?_, ?_, fun hidle => ?_⟩
  · rw [hmeter, Bandwidth.after_eq]
    exact totals_begins (hgiven.map _)
  · rw [hmeter, Bandwidth.getBandwidth_after]
  · rw [hmeter, hmeter', Bandwidth.after_eq, Bandwidth.after_eq]
    rcases hlater with rfl | hlater
    · exact List.prefix_rfl
    · rw [hcounted.linked.pushed_given hi hst] at hlater
      exact totals_begins (hlater.map _)
  · rw [hmeter, hmeter', Bandwidth.after_eq, Bandwidth.after_eq, Bandwidth.getBandwidth,
      Bandwidth.getBandwidth]
    rcases hlater with rfl | hlater
    · exact le_rfl
    · rw [← sum_length_pushed st.given]
      exact (hlater.map List.length).sublist.sum_le_sum fun _ _ => Nat.zero_le _
  · rw [hmeter, Bandwidth.after_eq, hcounted.linked.given_eq hidle hst]

/-- A throttle between two meters: the chunk of one byte has been passed on and has been counted by
the first meter, while the throttle works on the chunk of two. The empty one gets no further than
the first meter. -/
theorem bandwidth_counts_throttled :
    let s := run step (new 0 [bandwidth, slowdown none, bandwidth])
      [(.flow, 0), (.write [1, 2], 0), (.write [], 0), (.write [3], 0), (.give 0, 0),
        (.callback 0, 0), (.give 1, 0), (.give 0, 0), (.callback 0, 0), (.give 0, 0)]
    (s.meters 0).bandwidths = [2, 2, 3] ∧ (s.meters 2).bandwidths = [] ∧
      (s.meters 2).getBandwidth ≤ (s.meters 0).getBandwidth := by
  have h := bandwidth_counts 0 [bandwidth, slowdown none, bandwidth]
    [(.flow, 0), (.write [1, 2], 0), (.write [], 0), (.write [3], 0), (.give 0, 0),
      (.callback 0, 0), (.give 1, 0), (.give 0, 0), (.callback 0, 0), (.give 0, 0)] (i := 0)
    (j := 2) (by decide) (by decide)
  exact ⟨by decide +kernel, by decide +kernel, h.2.2.2.2.1⟩

end Metered

end Proxinator.Measure
