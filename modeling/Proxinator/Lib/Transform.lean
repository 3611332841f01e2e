import Mathlib.Data.List.Basic

/-!
# Transform streams

A `Transform` turns a sequence of chunks into a sequence of chunks: what it pushes for a
chunk may depend on the chunks before it, and it may push more when it is flushed at the
end. `outputs` is its output for a whole sequence. A `Buffered` transform is one at work:
chunks that were written into it and wait, output that was pushed and waits to be read.
Whatever it buffers and whenever it works, what has been read followed by what
`remains` is its output for all it was written (`Buffered.Consistent`).

## Main definitions

* `Transform`, `Transform.outputs`
* `Buffered`, with its operations `write`, `finish`, `process`, `flush` and `read`
* `Buffered.remains` — what it will still emit.
* `Buffered.Consistent` — the accounting that every operation keeps.
-/

namespace Proxinator.Lib

variable {α : Type*}

/-- A stream transform, as a function of what it was given so far. -/
structure Transform (α : Type*) where
  /-- What is pushed for a chunk, after the chunks before it. -/
  transform : List α → α → List α
  /-- What is pushed at the end, after all chunks. -/
  flush : List α → List α

namespace Transform

/-- The transform that passes every chunk on. -/
def identity : Transform α := ⟨fun _ chunk => [chunk], fun _ => []⟩

/-- What is pushed for `chunks` after the chunks `before`. -/
def images (T : Transform α) : List α → List α → List α
  | _, [] => []
  | before, chunk :: chunks => T.transform before chunk ++ T.images (before ++ [chunk]) chunks

/-- The output for a whole sequence of chunks. -/
def outputs (T : Transform α) (chunks : List α) : List α := T.images [] chunks ++ T.flush chunks

theorem images_append (T : Transform α) (before chunks chunks' : List α) :
    T.images before (chunks ++ chunks') =
      T.images before chunks ++ T.images (before ++ chunks) chunks' := by
  induction chunks generalizing before with
  | nil => simp [images]
  | cons chunk chunks ih => simp [images, ih]

theorem images_concat (T : Transform α) (chunks : List α) (chunk : α) :
    T.images [] (chunks ++ [chunk]) = T.images [] chunks ++ T.transform chunks chunk := by
  simp [images_append, images]

end Transform

/-! ## A transform at work -/

/-- A transform stream with what it holds. -/
structure Buffered (α : Type*) where
  /-- Chunks it has taken. -/
  processed : List α
  /-- Chunks written into it that it has not taken yet. -/
  queued : List α
  /-- Output it has pushed that has not been read. -/
  readable : List α
  /-- `end()` was called on it. -/
  ending : Bool
  /-- It has been flushed. -/
  flushed : Bool

namespace Buffered

/-- A new transform stream. -/
def new : Buffered α := ⟨[], [], [], false, false⟩

/-- A chunk is written into it. -/
def write (b : Buffered α) (chunk : α) : Buffered α := { b with queued := b.queued ++ [chunk] }

/-- `end()`: no chunk follows. -/
def finish (b : Buffered α) : Buffered α := { b with ending := true }

/-- It takes the next chunk, if there is one. -/
def process (T : Transform α) (b : Buffered α) : Buffered α :=
  match b.queued with
  | [] => b
  | chunk :: queued =>
    { b with
      processed := b.processed ++ [chunk]
      queued := queued
      readable := b.readable ++ T.transform b.processed chunk }

/-- It is flushed, once every chunk is taken and no chunk follows. -/
def flush (T : Transform α) (b : Buffered α) : Buffered α :=
  if b.ending ∧ b.queued = [] ∧ ¬ b.flushed then
    { b with readable := b.readable ++ T.flush b.processed, flushed := true }
  else b

/-- The next piece of output is read. -/
def read (b : Buffered α) : Option (α × Buffered α) :=
  match b.readable with
  | [] => none
  | chunk :: readable => some (chunk, { b with readable := readable })

@[simp] theorem ending_process (T : Transform α) (b : Buffered α) :
    (b.process T).ending = b.ending := by
  rw [process]
  split <;> rfl

@[simp] theorem ending_flush (T : Transform α) (b : Buffered α) :
    (b.flush T).ending = b.ending := by
  rw [flush]
  split <;> rfl

theorem ending_of_read {b b' : Buffered α} {chunk : α} (h : b.read = some (chunk, b')) :
    b'.ending = b.ending := by
  rw [read] at h
  split at h
  · cases h
  · cases h
    rfl

/-- All that it will still emit, if nothing more is written into it. -/
def remains (T : Transform α) (b : Buffered α) : List α :=
  b.readable ++ T.images b.processed b.queued ++
    if b.flushed then [] else T.flush (b.processed ++ b.queued)

/-- What is read has remained. -/
theorem remains_of_read (T : Transform α) {b b' : Buffered α} {chunk : α}
    (h : b.read = some (chunk, b')) : b.remains T = chunk :: b'.remains T := by
  rw [read] at h
  split at h
  · cases h
  · rename_i readable hreadable
    cases h
    simp [remains, hreadable]

/-- The accounting of a transform that was written `sent` and from which `taken` was read. -/
structure Consistent (T : Transform α) (sent taken : List α) (b : Buffered α) : Prop where
  sent_eq : sent = b.processed ++ b.queued
  taken_eq : taken ++ b.readable =
    T.images [] b.processed ++ if b.flushed then T.flush b.processed else []
  flushed_spec : b.flushed = true → b.ending = true ∧ b.queued = []

namespace Consistent

variable {T : Transform α} {sent taken : List α} {b : Buffered α}

theorem new : Consistent T [] [] (Buffered.new : Buffered α) :=
  ⟨rfl, rfl, fun h => by cases h⟩

/-- **What was read and what remains are the output for all that was written.** -/
theorem append_remains (h : Consistent T sent taken b) :
    taken ++ b.remains T = T.outputs sent := by
  rw [remains, ← List.append_assoc, ← List.append_assoc, h.taken_eq, Transform.outputs, h.sent_eq,
    Transform.images_append]
  by_cases hf : b.flushed = true
  · have hq := (h.flushed_spec hf).2
    simp [hf, hq, Transform.images]
  · simp [hf]

theorem write (h : Consistent T sent taken b) (hb : b.ending = false) (chunk : α) :
    Consistent T (sent ++ [chunk]) taken (b.write chunk) := by
  refine ⟨?_, h.taken_eq, ?_⟩
  · rw [h.sent_eq]
    exact List.append_assoc ..
  · intro hf
    have := (h.flushed_spec hf).1
    rw [hb] at this
    cases this

theorem finish (h : Consistent T sent taken b) : Consistent T sent taken b.finish :=
  ⟨h.sent_eq, h.taken_eq, fun hf => ⟨rfl, (h.flushed_spec hf).2⟩⟩

theorem process (h : Consistent T sent taken b) : Consistent T sent taken (b.process T) := by
  rw [Buffered.process]
  cases hq : b.queued with
  | nil => exact h
  | cons chunk queued =>
      have hf : b.flushed = false := by
        by_contra hf
        have hnil := (h.flushed_spec (by simpa using hf)).2
        rw [hq] at hnil
        cases hnil
      refine ⟨?_, ?_, ?_⟩
      · rw [h.sent_eq, hq]
        simp
      · simp only [hf, Bool.false_eq_true, if_false, List.append_nil, Transform.images_concat]
        have htaken := h.taken_eq
        simp only [hf, Bool.false_eq_true, if_false, List.append_nil] at htaken
        rw [← List.append_assoc, htaken]
      · intro hf'
        rw [hf] at hf'
        cases hf'

theorem flush (h : Consistent T sent taken b) : Consistent T sent taken (b.flush T) := by
  rw [Buffered.flush]
  split
  · rename_i hcond
    obtain ⟨hending, hqueued, hflushed⟩ := hcond
    refine ⟨h.sent_eq, ?_, fun _ => ⟨hending, hqueued⟩⟩
    have htaken := h.taken_eq
    simp only [hflushed, Bool.false_eq_true, if_false, List.append_nil] at htaken
    simp only [if_true]
    rw [← List.append_assoc, htaken]
  · exact h

theorem read (h : Consistent T sent taken b) {chunk : α} {b' : Buffered α}
    (hread : b.read = some (chunk, b')) : Consistent T sent (taken ++ [chunk]) b' := by
  rw [Buffered.read] at hread
  split at hread
  · cases hread
  · rename_i readable hreadable
    cases hread
    refine ⟨h.sent_eq, ?_, h.flushed_spec⟩
    rw [← h.taken_eq, hreadable]
    simp

/-- What remains is fixed by what was written and what was read. -/
theorem remains_eq {b' : Buffered α} (h : Consistent T sent taken b)
    (h' : Consistent T sent taken b') : b'.remains T = b.remains T := by
  have := h'.append_remains.trans h.append_remains.symm
  exact List.append_cancel_left this

/-- Nothing remains in a transform that was flushed and read to the end. -/
theorem remains_eq_nil (h : Consistent T sent taken b) (hflushed : b.flushed = true)
    (hreadable : b.readable = []) : b.remains T = [] := by
  simp [remains, hflushed, hreadable, (h.flushed_spec hflushed).2, Transform.images]

/-- A transform that holds nothing more to emit reads nothing. -/
theorem read_eq_none {b : Buffered α} (hremains : b.remains T = []) : b.read = none := by
  have hnil : b.readable = [] := by
    rw [remains, List.append_assoc] at hremains
    exact (List.append_eq_nil_iff.mp hremains).1
  rw [Buffered.read, hnil]

end Consistent

end Buffered

end Proxinator.Lib
