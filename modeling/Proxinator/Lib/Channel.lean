import Proxinator.Lib.Run

/-!
# Channels

A channel carries a stream from its near end to its far end and another one back. It loses nothing,
and gives each end what the other has written, in order (`View.Faithful`); when it has settled, each
end has all of it. A channel comes with its laws, so that one can be built over another: what is
built has to prove them again from those of the other one.

## Main definitions

* `View` — what the two ends of a channel have written and been given.
* `Channel` — a machine with such a view, and its laws.
* `Channel.Move` — what happens to a channel, at its ends and inside.

## Main results

* `Channel.run_inv` — the invariant holds after every run.
-/

namespace Proxinator.Lib

variable {α : Type*}

theorem begins_take_add (stream : List α) (m n : ℕ) : stream.take m <+: stream.take (m + n) := by
  rw [List.take_add]
  exact List.prefix_append _ _

/-- What was written at the ends of a channel, and what came out there. -/
structure View (α : Type*) where
  /-- What the near end has written, -/
  written : List α
  /-- and what the far end has been given of it. -/
  out : List α
  /-- What the far end has written, -/
  back : List α
  /-- and what the near end has been given of it. -/
  read : List α

namespace View

/-- Nothing has been written. -/
def empty : View α := ⟨[], [], [], []⟩

/-- The near end writes. -/
def write (chunk : List α) (v : View α) : View α := ⟨v.written ++ chunk, v.out, v.back, v.read⟩

/-- The far end writes. -/
def reply (chunk : List α) (v : View α) : View α := ⟨v.written, v.out, v.back ++ chunk, v.read⟩

/-- What comes out is what was written, in order. -/
def Faithful (v : View α) : Prop := v.out <+: v.written ∧ v.read <+: v.back

/-- Everything has come out. -/
def Full (v : View α) : Prop := v.out = v.written ∧ v.read = v.back

/-- More has come out, and nothing was written. -/
structure Grows (v v' : View α) : Prop where
  written_eq : v'.written = v.written
  out_begins : v.out <+: v'.out
  back_eq : v'.back = v.back
  read_begins : v.read <+: v'.read

theorem Grows.refl (v : View α) : v.Grows v := ⟨rfl, List.prefix_rfl, rfl, List.prefix_rfl⟩

end View

/-- **A channel**, with its laws. -/
structure Channel (α : Type) where
  State : Type
  /-- What happens inside. -/
  Event : Type
  new : State
  step : State → Event → State
  Admits : State → Event → Prop
  /-- The near end can write. -/
  Ready : State → Prop
  write : List α → State → State
  /-- The far end writes. -/
  reply : List α → State → State
  view : State → View α
  /-- Nothing is under way. -/
  Settled : State → Prop
  Inv : State → Prop
  view_new : view new = .empty
  inv_new : Inv new
  inv_step : ∀ {s e}, Inv s → Admits s e → Inv (step s e)
  view_step : ∀ {s e}, Inv s → Admits s e → (view s).Grows (view (step s e))
  ready_step : ∀ {s e}, Inv s → Admits s e → Ready s → Ready (step s e)
  inv_write : ∀ {s} chunk, Inv s → Ready s → Inv (write chunk s)
  view_write : ∀ {s} chunk, Inv s → Ready s → view (write chunk s) = (view s).write chunk
  ready_write : ∀ {s} chunk, Ready s → Ready (write chunk s)
  inv_reply : ∀ {s} chunk, Inv s → Inv (reply chunk s)
  view_reply : ∀ {s} chunk, Inv s → view (reply chunk s) = (view s).reply chunk
  ready_reply : ∀ {s} chunk, Ready s → Ready (reply chunk s)
  faithful : ∀ {s}, Inv s → (view s).Faithful
  full : ∀ {s}, Inv s → Settled s → (view s).Full

namespace Channel

variable {α : Type}

/-- What happens to a channel. -/
inductive Move (c : Channel α)
  | inside (e : c.Event)
  | write (chunk : List α)
  | reply (chunk : List α)

variable (c : Channel α)

/-- One move. -/
def act (s : c.State) : c.Move → c.State
  | .inside e => c.step s e
  | .write chunk => c.write chunk s
  | .reply chunk => c.reply chunk s

/-- The near end writes only when it can. -/
def Allows (s : c.State) : c.Move → Prop
  | .inside e => c.Admits s e
  | .write _ => c.Ready s
  | .reply _ => True

/-- **The invariant holds after every run.** -/
theorem run_inv {moves : List c.Move} (h : Along c.act c.Allows c.new moves) :
    c.Inv (run c.act c.new moves) := by
  refine h.invariant (P := c.Inv) (fun s move hadm hs => ?_) c.inv_new
  cases move with
  | inside e => exact c.inv_step hs hadm
  | write chunk => exact c.inv_write chunk hs hadm
  | reply chunk => exact c.inv_reply chunk hs

/-! ## A connection -/

/-- Two streams, of each of which a part is still under way. -/
structure Transit (α : Type) where
  written : List α
  arrived : ℕ
  back : List α
  returned : ℕ

/-- What arrives on a connection: the next elements, at its far end or at its near end. -/
inductive Arrival
  | far (n : ℕ)
  | near (n : ℕ)

namespace Transit

def view (s : Transit α) : View α :=
  ⟨s.written, s.written.take s.arrived, s.back, s.back.take s.returned⟩

def step (s : Transit α) : Arrival → Transit α
  | .far n => { s with arrived := s.arrived + n }
  | .near n => { s with returned := s.returned + n }

/-- No more arrives than was written. -/
def Inv (s : Transit α) : Prop := s.arrived ≤ s.written.length ∧ s.returned ≤ s.back.length

def Admits (s : Transit α) : Arrival → Prop
  | .far n => s.arrived + n ≤ s.written.length
  | .near n => s.returned + n ≤ s.back.length

end Transit

/-- A connection between two hosts. -/
def network (α : Type) : Channel α where
  State := Transit α
  Event := Arrival
  new := ⟨[], 0, [], 0⟩
  step := Transit.step
  Admits := Transit.Admits
  Ready _ := True
  write chunk s := { s with written := s.written ++ chunk }
  reply chunk s := { s with back := s.back ++ chunk }
  view := Transit.view
  Settled s := s.arrived = s.written.length ∧ s.returned = s.back.length
  Inv := Transit.Inv
  view_new := rfl
  inv_new := ⟨le_rfl, le_rfl⟩
  inv_step := by
    intro s e hs hadm
    cases e with
    | far n => exact ⟨hadm, hs.2⟩
    | near n => exact ⟨hs.1, hadm⟩
  view_step := by
    intro s e _ _
    cases e with
    | far n => exact ⟨rfl, begins_take_add _ _ n, rfl, List.prefix_rfl⟩
    | near n => exact ⟨rfl, List.prefix_rfl, rfl, begins_take_add _ _ n⟩
  ready_step _ _ _ := trivial
  inv_write := by
    intro s chunk hs _
    exact ⟨hs.1.trans (by simp), hs.2⟩
  view_write := by
    intro s chunk hs _
    simp only [Transit.view, View.write, List.take_append_of_le_length hs.1]
  ready_write _ _ := trivial
  inv_reply := by
    intro s chunk hs
    exact ⟨hs.1, hs.2.trans (by simp)⟩
  view_reply := by
    intro s chunk hs
    simp only [Transit.view, View.reply, List.take_append_of_le_length hs.2]
  ready_reply _ _ := trivial
  faithful _ := ⟨List.take_prefix _ _, List.take_prefix _ _⟩
  full := by
    intro s _ hsettled
    simp only [View.Full, Transit.view, hsettled.1, hsettled.2, List.take_length, and_self]

end Channel

/-- A chunk of the first part of a stream. -/
theorem take_drop_of_begins {front stream : List α} (h : front <+: stream) {i n : ℕ}
    (hle : i + n ≤ front.length) : (front.drop i).take n = (stream.drop i).take n := by
  obtain ⟨rest, rfl⟩ := h
  rw [List.drop_append_of_le_length (by omega), List.take_append_of_le_length]
  rw [List.length_drop]
  omega

end Proxinator.Lib
