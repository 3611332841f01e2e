import Proxinator.Lib.Transform
import Mathlib.Order.Hom.Basic
import Mathlib.Data.List.Chain

/-!
# Streams as far as they are known

A stream is known up to some point, or to its end. One that is known up to a point may become
any stream that it begins; one that is known to its end stays what it is. This is a partial
order, and what is passed on of a stream, in order and without loss, lies below it. So pipes
that are laid one behind the other are a pipe (`Series.le`), also where they transform what they
carry by a monotone function.

## Main definitions

* `Known` — with its order.
* `Transform.Computes` — a transform stream that computes a monotone function, however its input
  is cut into chunks.
* `Series` — pipes one behind the other.
-/

namespace Proxinator.Lib

variable {α : Type*}

/-- What is known of a stream: its first items, and whether these are all. -/
@[ext] structure Known (α : Type*) where
  items : List α
  ended : Bool
  deriving DecidableEq, Repr

namespace Known

/-- A stream that is known further. -/
instance : PartialOrder (Known α) where
  le p q := p.items <+: q.items ∧ (p.ended = true → p = q)
  le_refl p := ⟨List.prefix_rfl, fun _ => rfl⟩
  le_trans p q r hpq hqr := by
    refine ⟨hpq.1.trans hqr.1, fun h => ?_⟩
    obtain rfl := hpq.2 h
    exact hqr.2 h
  le_antisymm p q hpq hqp := by
    ext1
    · exact hpq.1.eq_of_length_le hqp.1.length_le
    · by_cases hp : p.ended = true
      · rw [← hpq.2 hp]
      · by_cases hq : q.ended = true
        · rw [hqp.2 hq]
        · simp [hp, hq]

theorem le_def {p q : Known α} : p ≤ q ↔ p.items <+: q.items ∧ (p.ended = true → p = q) := Iff.rfl

/-- What has not ended lies below all that it begins. -/
theorem open_le {items : List α} {q : Known α} : ⟨items, false⟩ ≤ q ↔ items <+: q.items := by
  simp [le_def]

theorem items_begins {p q : Known α} (h : p ≤ q) : p.items <+: q.items := h.1

/-- More items. -/
def append (p : Known α) (items : List α) : Known α :=
  if p.ended then p else { p with items := p.items ++ items }

/-- The end. -/
def finish (p : Known α) : Known α := { p with ended := true }

theorem le_append (p : Known α) (items : List α) : p ≤ p.append items := by
  rw [append]
  split_ifs with hended
  · exact le_rfl
  · exact ⟨List.prefix_append _ _, fun h => absurd h hended⟩

theorem le_finish (p : Known α) : p ≤ p.finish := by
  refine ⟨List.prefix_rfl, fun h => ?_⟩
  ext1
  · rfl
  · exact h

end Known

/-! ## Transforms -/

/-- **The transform computes a function of what is known of a stream**, however the stream is cut
into chunks. -/
structure Transform.Computes (T : Transform (List α)) (f : Known α →o Known α) : Prop where
  images : ∀ chunks, ⟨(T.images [] chunks).flatten, false⟩ ≤ f ⟨chunks.flatten, false⟩
  outputs : ∀ chunks, f ⟨chunks.flatten, true⟩ = ⟨(T.outputs chunks).flatten, true⟩

/-- A transform that pushes for every chunk what the chunk has computes the identity. -/
theorem Transform.computes_id {T : Transform (List α)}
    (htransform : ∀ before chunk, (T.transform before chunk).flatten = chunk)
    (hflush : ∀ chunks, (T.flush chunks).flatten = []) : T.Computes OrderHom.id := by
  have himages : ∀ chunks before, (T.images before chunks).flatten = chunks.flatten := by
    intro chunks
    induction chunks with
    | nil => exact fun _ => rfl
    | cons chunk chunks ih =>
        intro before
        rw [Transform.images, List.flatten_append, htransform, ih, List.flatten_cons]
  refine ⟨fun chunks => ?_, fun chunks => ?_⟩
  · rw [himages]
    exact le_rfl
  · rw [Transform.outputs, List.flatten_append, himages, hflush, List.append_nil]
    rfl

/-- **What a transform at work has emitted lies below what it computes.** -/
theorem Buffered.Consistent.le {T : Transform (List α)} {f : Known α →o Known α}
    {sent taken : List (List α)} {b : Buffered (List α)} (h : b.Consistent T sent taken)
    (hT : T.Computes f) {ended : Bool} (hended : b.ending = true → ended = true) :
    ⟨taken.flatten, false⟩ ≤ f ⟨sent.flatten, ended⟩ := by
  have htaken : taken.flatten <+: (T.images [] b.processed ++
      if b.flushed then T.flush b.processed else []).flatten := by
    rw [← h.taken_eq, List.flatten_append]
    exact List.prefix_append _ _
  rw [Known.open_le]
  refine htaken.trans ?_
  by_cases hflushed : b.flushed = true
  · -- all that was sent has been processed, and the stream has ended
    obtain ⟨hending, hqueued⟩ := h.flushed_spec hflushed
    have hsent : sent = b.processed := by rw [h.sent_eq, hqueued, List.append_nil]
    rw [if_pos hflushed, hended hending, hsent, hT.outputs]
    exact List.prefix_rfl
  · rw [if_neg hflushed, List.append_nil]
    have hle : (⟨b.processed.flatten, false⟩ : Known α) ≤ ⟨sent.flatten, ended⟩ := by
      rw [Known.open_le, h.sent_eq, List.flatten_append]
      exact List.prefix_append _ _
    exact Known.items_begins ((hT.images b.processed).trans (f.monotone hle))

/-! ## Pipes one behind the other -/

/-- A pipe: what went in, and what came out. -/
structure Pipe (α : Type*) where
  input : Known α
  output : Known α

/-- Functions one behind the other. -/
theorem foldl_mono (fs : List (Known α →o Known α)) {p q : Known α} (h : p ≤ q) :
    fs.foldl (fun known f => f known) p ≤ fs.foldl (fun known f => f known) q := by
  induction fs generalizing p q with
  | nil => exact h
  | cons f fs ih => exact ih (f.monotone h)

/-- What comes out of a number of pipes. -/
def outlet (source : Known α) (pipes : List (Pipe α)) : Known α :=
  match pipes.getLast? with
  | some pipe => pipe.output
  | none => source

@[simp] theorem outlet_nil (source : Known α) : outlet source [] = source := rfl

@[simp] theorem outlet_cons (source : Known α) (pipe : Pipe α) (pipes : List (Pipe α)) :
    outlet source (pipe :: pipes) = outlet pipe.output pipes := by
  cases hlast : pipes.getLast? with
  | none =>
      rw [List.getLast?_eq_none_iff.mp hlast]
      rfl
  | some _ => simp [outlet, List.getLast?_cons, hlast]

/-- **Pipes one behind the other**: into each of them goes what came out of the one before. -/
inductive Series : Known α → List (Pipe α) → Prop
  | nil (source : Known α) : Series source []
  | cons {source : Known α} {pipe : Pipe α} {pipes : List (Pipe α)} (h : pipe.input ≤ source)
      (hrest : Series pipe.output pipes) : Series source (pipe :: pipes)

namespace Series

variable {source source' : Known α} {pipe : Pipe α} {pipes pipes' : List (Pipe α)}

theorem cons_iff : Series source (pipe :: pipes) ↔
    pipe.input ≤ source ∧ Series pipe.output pipes := by
  constructor
  · intro h
    cases h with
    | cons h hrest => exact ⟨h, hrest⟩
  · exact fun h => .cons h.1 h.2

/-- More is known of what goes in. -/
theorem mono (h : Series source pipes) (hle : source ≤ source') : Series source' pipes := by
  cases h with
  | nil => exact .nil _
  | cons h hrest => exact .cons (h.trans hle) hrest

theorem append_iff : Series source (pipes ++ pipes') ↔
    Series source pipes ∧ Series (outlet source pipes) pipes' := by
  induction pipes generalizing source with
  | nil => simp [Series.nil]
  | cons pipe pipes ih => rw [List.cons_append, cons_iff, cons_iff, ih, outlet_cons, and_assoc]

/-- One of the pipes works: it takes in what came out of those before it, and lets out more. -/
theorem work {pipe' : Pipe α} (h : Series source (pipes ++ pipe :: pipes'))
    (hinput : pipe'.input ≤ outlet source pipes) (houtput : pipe.output ≤ pipe'.output) :
    Series source (pipes ++ pipe' :: pipes') := by
  rw [append_iff, cons_iff] at h ⊢
  exact ⟨h.1, hinput, h.2.2.mono houtput⟩

/-- **Pipes one behind the other compute the composition of what they compute.** -/
theorem outlet_le (h : Series source pipes) {fs : List (Known α →o Known α)}
    (hfs : List.Forall₂ (fun f pipe => pipe.output ≤ f pipe.input) fs pipes) :
    outlet source pipes ≤ fs.foldl (fun known f => f known) source := by
  induction hfs generalizing source with
  | nil => exact le_rfl
  | cons hpipe _ ih =>
      obtain ⟨hinput, hrest⟩ := cons_iff.mp h
      rw [outlet_cons, List.foldl_cons]
      have hle := hpipe.trans (OrderHom.monotone _ hinput)
      exact (ih hrest).trans (foldl_mono _ hle)

/-- What comes out of pipes that pass on what goes in begins what goes in. -/
theorem outlet_begins (h : Series source pipes)
    (hpipes : ∀ pipe ∈ pipes, pipe.output.items <+: pipe.input.items) :
    (outlet source pipes).items <+: source.items := by
  induction h with
  | nil => exact List.prefix_rfl
  | cons hinput _ ih =>
      rw [List.forall_mem_cons] at hpipes
      rw [outlet_cons]
      exact ((ih hpipes.2).trans hpipes.1).trans (Known.items_begins hinput)

end Series

theorem outlet_concat (source : Known α) (pipes : List (Pipe α)) (pipe : Pipe α) :
    outlet source (pipes ++ [pipe]) = pipe.output := by
  simp [outlet]

/-- What comes out of pipes that each have let out what came out of those before is what went
in. -/
theorem items_outlet {source : Known α} {pipes : List (Pipe α)}
    (h : ∀ before pipe after, pipes = before ++ pipe :: after →
      pipe.output.items = (outlet source before).items) :
    (outlet source pipes).items = source.items := by
  induction pipes using List.reverseRecOn with
  | nil => rfl
  | append_singleton pipes pipe ih =>
      rw [outlet_concat, h pipes pipe [] rfl]
      exact ih fun before pipe' after heq => h before pipe' (after ++ [pipe]) (by simp [heq])

end Proxinator.Lib
