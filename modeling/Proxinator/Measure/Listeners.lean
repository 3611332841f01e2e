import Proxinator.Lib.Run
import Proxinator.Lib.Emitter
import Proxinator.Measure

/-!
# Listeners on a chain

A chain forwards the events of its inner streams by registering each listener with them also. Its
`on` puts the listener on every inner stream and on the outer transform. Its `once` makes each
inner stream put on a wrapper of its own, and then the `once` of Node puts on one more, with the
overridden `on`, so that one goes to the inner streams too; each of them runs the callback once.
`removeListener` is not overridden, and takes the listener off the outer transform only. So the
listeners behave as on one emitter until an inner stream emits after a `once` or a removal
(`Listeners.contract_iff`).

The calls and emissions come one after the other. Where Node itself emits on a registration or a
removal, for listeners of `newListener` and `removeListener`, that is one more emission.
-/

namespace Proxinator.Measure

open Lib

/-- An emitter of a chain. -/
inductive Source
  | inner (i : ℕ)
  /-- The outer transform. -/
  | outer
  deriving DecidableEq, Repr

/-- It is an emitter of a chain with so many inner streams. -/
def Source.among (streams : ℕ) : Source → Bool
  | inner i => i < streams
  | outer => true

variable {β : Type*}

/-- `transform.on(chan, callback)` of a chain. -/
def chainOn (chan : String) (streams : ℕ) (callback : Entry Source β) (s : Emitters Source β) :
    Emitters Source β :=
  let s :=
    if chan ≠ "data" then
      (List.range streams).foldl (fun s i => s.on (.inner i) callback) s
    else s
  -- `originalOn`
  s.on .outer callback

/-- `transform.once(chan, callback)` of a chain. -/
def chainOnce (chan : String) (streams call : ℕ) (callback : β) (s : Emitters Source β) :
    Emitters Source β :=
  let s :=
    if chan ≠ "data" then
      (List.range streams).foldl (fun s i => s.once (.inner i) call callback) s
    else s
  -- `originalOnce` registers its wrapper with `this.on`
  chainOn chan streams (.wrapper call callback .outer) s

/-- What a loop over the inner streams puts on. -/
theorem listeners_foldl_on (f : ℕ → Entry Source β) (streams : ℕ) (s : Emitters Source β)
    (e : Source) :
    ((List.range streams).foldl (fun s i => s.on (.inner i) (f i)) s).listeners e =
      s.listeners e ++
        match e with
        | .inner i => if i < streams then [f i] else []
        | .outer => [] := by
  induction streams with
  | zero => cases e <;> simp
  | succ streams ih =>
      rw [List.range_succ, List.foldl_append, List.foldl_cons, List.foldl_nil,
        Emitters.listeners_on, ih]
      cases e with
      | outer => simp
      | inner i =>
          by_cases hi : i = streams
          · simp [hi]
          · have hiff : i < streams ↔ i < streams + 1 := by omega
            simp [hi, hiff]

theorem fired_foldl_on (f : ℕ → Entry Source β) (streams : ℕ) (s : Emitters Source β) :
    ((List.range streams).foldl (fun s i => s.on (.inner i) (f i)) s).fired = s.fired :=
  foldl_component Emitters.fired (fun s i => Emitters.fired_on (.inner i) (f i) s) _ s

theorem listeners_chainOn {chan : String} (hchan : chan ≠ "data") (streams : ℕ)
    (entry : Entry Source β) (s : Emitters Source β) (e : Source) :
    (chainOn chan streams entry s).listeners e =
      s.listeners e ++ if e.among streams then [entry] else [] := by
  rw [chainOn, if_pos hchan, Emitters.listeners_on, listeners_foldl_on]
  cases e <;> simp [Source.among]

@[simp] theorem fired_chainOn (chan : String) (streams : ℕ) (entry : Entry Source β)
    (s : Emitters Source β) : (chainOn chan streams entry s).fired = s.fired := by
  rw [chainOn, Emitters.fired_on]
  split
  · rw [fired_foldl_on]
  · rfl

theorem listeners_chainOnce {chan : String} (hchan : chan ≠ "data") (streams call : ℕ)
    (callback : β) (s : Emitters Source β) (e : Source) :
    (chainOnce chan streams call callback s).listeners e =
      s.listeners e ++
        match e with
        | .inner i =>
          if i < streams then [.wrapper call callback (.inner i), .wrapper call callback .outer]
          else []
        | .outer => [.wrapper call callback .outer] := by
  rw [chainOnce, if_pos hchan, listeners_chainOn hchan]
  simp only [Emitters.once]
  rw [listeners_foldl_on]
  cases e with
  | inner i =>
      by_cases hi : i < streams
      · simp [Source.among, hi]
      · simp [Source.among, hi]
  | outer => simp [Source.among]

@[simp] theorem fired_chainOnce (chan : String) (streams call : ℕ) (callback : β)
    (s : Emitters Source β) : (chainOnce chan streams call callback s).fired = s.fired := by
  rw [chainOnce, fired_chainOn]
  split
  · exact fired_foldl_on _ streams s
  · rfl

/-- A call of `on` or `once`. -/
structure Registration (β : Type*) where
  callback : β
  once : Bool
  deriving DecidableEq, Repr

namespace Registration

/-- What a registration leaves on the outer transform. -/
def outerEntry (k : ℕ) (r : Registration β) : Entry Source β :=
  if r.once then .wrapper k r.callback .outer else .listener k r.callback

/-- What a registration leaves on an inner stream. -/
def innerEntries (i k : ℕ) (r : Registration β) : List (Entry Source β) :=
  if r.once then [.wrapper k r.callback (.inner i), .wrapper k r.callback .outer]
  else [.listener k r.callback]

@[simp] theorem call_outerEntry (k : ℕ) (r : Registration β) : (r.outerEntry k).call = k := by
  rw [outerEntry]
  split <;> rfl

theorem target?_outerEntry (k : ℕ) (r : Registration β) :
    (r.outerEntry k).target? = if r.once then some .outer else none := by
  rw [outerEntry]
  split <;> rfl

theorem call_of_mem_innerEntries {i k : ℕ} {r : Registration β} {entry : Entry Source β}
    (h : entry ∈ r.innerEntries i k) : entry.call = k := by
  rw [innerEntries] at h
  split at h
  · rcases List.mem_cons.mp h with rfl | h
    · rfl
    · rw [List.mem_singleton.mp h]
      rfl
  · rw [List.mem_singleton.mp h]
    rfl

end Registration

/-- An emission. -/
structure Emission where
  /-- How many registrations there were. -/
  registered : ℕ
  /-- Which of them had been removed. -/
  removed : List ℕ
  /-- Which of them ran. -/
  ran : List ℕ
  deriving DecidableEq, Repr

/-- The listeners of an event on a chain, and what happened to them. -/
structure Listeners (β : Type*) where
  /-- `streams.length` -/
  streams : ℕ
  emitters : Emitters Source β
  registrations : List (Registration β)
  /-- The registrations that were taken off. -/
  removed : List ℕ
  emissions : List Emission

namespace Listeners

/-- What happens to the listeners. -/
inductive Event (β : Type*)
  | on (callback : β)
  | once (callback : β)
  | removeListener (callback : β)
  | emit (source : Source)
  deriving DecidableEq, Repr

/-- A new chain. -/
def new (array : List Factory) : Listeners β := ⟨array.length, Emitters.new, [], [], []⟩

/-- `on` -/
def on (chan : String) (callback : β) (s : Listeners β) : Listeners β :=
  { s with
    emitters := chainOn chan s.streams (.listener s.registrations.length callback) s.emitters
    registrations := s.registrations ++ [⟨callback, false⟩] }

/-- `once` -/
def once (chan : String) (callback : β) (s : Listeners β) : Listeners β :=
  { s with
    emitters := chainOnce chan s.streams s.registrations.length callback s.emitters
    registrations := s.registrations ++ [⟨callback, true⟩] }

/-- `removeListener`, which a chain does not override. -/
def removeListener [DecidableEq β] (callback : β) (s : Listeners β) : Listeners β :=
  { s with
    emitters := s.emitters.removeListener .outer fun entry => entry.callback = callback
    removed := s.removed ++
      (((s.emitters.listeners .outer).reverse.find? fun entry => entry.callback = callback).map
        Entry.call).toList }

/-- An emission, if there is the stream. -/
def emit [DecidableEq β] (source : Source) (s : Listeners β) : Listeners β :=
  if source.among s.streams then
    let (emitters, ran) := s.emitters.emit source
    { s with
      emitters := emitters
      emissions := s.emissions ++ [⟨s.registrations.length, s.removed, ran⟩] }
  else s

/-- What happens to the listeners of an event. -/
def step [DecidableEq β] (chan : String) (s : Listeners β) : Event β → Listeners β
  | .on callback => s.on chan callback
  | .once callback => s.once chan callback
  | .removeListener callback => s.removeListener callback
  | .emit source => s.emit source

/-! ## What an event does -/

/-- What `on` and `once` do. -/
structure Registered (s : Listeners β) (r : Registration β) (s' : Listeners β) : Prop where
  streams : s'.streams = s.streams
  inner : ∀ i, s'.emitters.listeners (.inner i) = s.emitters.listeners (.inner i) ++
    if i < s.streams then r.innerEntries i s.registrations.length else []
  outer : s'.emitters.listeners .outer =
    s.emitters.listeners .outer ++ [r.outerEntry s.registrations.length]
  fired : s'.emitters.fired = s.emitters.fired
  registrations : s'.registrations = s.registrations ++ [r]
  removed : s'.removed = s.removed
  emissions : s'.emissions = s.emissions

variable {chan : String}

theorem registered_on (hchan : chan ≠ "data") (callback : β) (s : Listeners β) :
    Registered s ⟨callback, false⟩ (s.on chan callback) where
  streams := rfl
  inner i := by simp [on, listeners_chainOn hchan, Source.among, Registration.innerEntries]
  outer := by simp [on, listeners_chainOn hchan, Source.among, Registration.outerEntry]
  fired := fired_chainOn ..
  registrations := rfl
  removed := rfl
  emissions := rfl

theorem registered_once (hchan : chan ≠ "data") (callback : β) (s : Listeners β) :
    Registered s ⟨callback, true⟩ (s.once chan callback) where
  streams := rfl
  inner i := by simp [once, listeners_chainOnce hchan, Registration.innerEntries]
  outer := by simp [once, listeners_chainOnce hchan, Registration.outerEntry]
  fired := fired_chainOnce ..
  registrations := rfl
  removed := rfl
  emissions := rfl

variable [DecidableEq β]

theorem removeListener_of_none {callback : β} {s : Listeners β}
    (h : (s.emitters.listeners .outer).reverse.find? (fun entry => entry.callback = callback) =
      none) : s.removeListener callback = s := by
  rw [removeListener, h, Emitters.removeListener, removeLast_of_find?_none h,
    Function.update_eq_self]
  simp

section

variable {source : Source} {s : Listeners β}

theorem emit_eq (hsource : source.among s.streams = true) :
    s.emit source =
      { s with
        emitters := (s.emitters.emit source).1
        emissions :=
          s.emissions ++ [⟨s.registrations.length, s.removed, (s.emitters.emit source).2⟩] } := by
  rw [emit, if_pos hsource]

/-- There is no such stream. -/
theorem emit_inner_of_not_lt {i : ℕ} (hi : ¬ i < s.streams) : s.emit (.inner i) = s :=
  if_neg fun hamong => hi (of_decide_eq_true hamong)

end

end Listeners

end Proxinator.Measure
