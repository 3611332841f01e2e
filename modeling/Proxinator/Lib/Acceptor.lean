import Proxinator.Lib.Run
import Mathlib

/-!
# Servers that accept sockets and are shut down

A server accepts sockets while it listens, each of them goes its own way, and `close` shuts all
of them down and waits for them to close. What the server does with a socket is up to an
`Acceptor`; the library says what follows for the server if shutting a socket down destroys it.

## Main definitions

* `Acceptor` — how sockets are accepted, react and are shut down.
* `Acceptor.Sound` — what has to be shown of the sockets of one.
* `Acceptor.Server`, `Acceptor.step` — a server of such sockets.

## Main results

* `Acceptor.inv_run` — what holds of every socket of a server.
* `Acceptor.shutdown_run` — the server after `close`.
-/

namespace Proxinator.Lib

/-- How sockets are accepted, react to events and are shut down. -/
structure Acceptor (α σ ε : Type*) where
  accepted : α → σ
  react : σ → ε → σ
  /-- What `close` of the server does to a socket. -/
  shut : σ → σ
  /-- How many connections of the socket the server counts. -/
  connections : σ → ℕ
  destroyed : σ → Bool
  /-- The socket has emitted `close`. -/
  closed : σ → Bool

namespace Acceptor

variable {α σ ε : Type*}

/-- What holds of every socket of a server that is not closed. -/
structure Keeps (A : Acceptor α σ ε) (Inv : σ → Prop) : Prop where
  inv_accepted : ∀ a, Inv (A.accepted a)
  inv_react : ∀ s e, Inv s → Inv (A.react s e)

/-- **Shutting a socket down destroys it**, and it stays so and is counted no more. `Inv` is what
holds of every socket. -/
structure Sound (A : Acceptor α σ ε) (Inv : σ → Prop) : Prop extends A.Keeps Inv where
  inv_shut : ∀ s, Inv s → Inv (A.shut s)
  shut_destroyed : ∀ s, Inv s → A.destroyed (A.shut s) = true
  shut_connections : ∀ s, Inv s → A.connections (A.shut s) = 0
  react_destroyed : ∀ s e, Inv s → A.destroyed s = true → A.destroyed (A.react s e) = true
  react_connections : ∀ s e, Inv s → A.destroyed s = true → A.connections s = 0 →
    A.connections (A.react s e) = 0
  react_closed : ∀ s e, Inv s → A.closed s = true → A.closed (A.react s e) = true

/-- A server. -/
structure Server (σ : Type*) where
  listening : Bool
  sockets : List σ
  /-- How many callbacks of `close` wait for the sockets to close, -/
  waiting : ℕ
  /-- and how many have been called. -/
  called : ℕ
  deriving DecidableEq, Repr

/-- An event of a server. -/
inductive Event (α ε : Type*)
  | accept (a : α)
  | socket (i : ℕ) (e : ε)
  | close

/-- A server that listens. -/
def new : Server σ := ⟨true, [], 0, 0⟩

/-- The callbacks are called once the server does not listen and every socket has closed. -/
def drain (A : Acceptor α σ ε) (server : Server σ) : Server σ :=
  if server.listening = false ∧ ∀ s ∈ server.sockets, A.closed s = true then
    { server with waiting := 0, called := server.called + server.waiting }
  else server

/-- The reaction to one event. -/
def step (A : Acceptor α σ ε) (server : Server σ) : Event α ε → Server σ
  | .accept a =>
    if server.listening then { server with sockets := server.sockets ++ [A.accepted a] }
    else server
  | .socket i e => A.drain { server with sockets := server.sockets.modify i (A.react · e) }
  | .close =>
    A.drain
      { server with
        listening := false
        sockets := server.sockets.map A.shut
        waiting := server.waiting + 1 }

/-- `connectionCount()`. -/
def connectionCount (A : Acceptor α σ ε) (server : Server σ) : ℕ :=
  (server.sockets.map A.connections).sum

variable {A : Acceptor α σ ε} {Inv : σ → Prop} {server : Server σ}

@[simp] theorem drain_sockets : (A.drain server).sockets = server.sockets := by
  rw [drain]
  split_ifs <;> rfl

@[simp] theorem drain_listening : (A.drain server).listening = server.listening := by
  rw [drain]
  split_ifs <;> rfl

@[simp] theorem drain_total :
    (A.drain server).called + (A.drain server).waiting = server.called + server.waiting := by
  rw [drain]
  split_ifs
  · simp
  · rfl

/-- The server is closed. -/
def Event.isClose : Event α ε → Bool
  | .close => true
  | _ => false

/-- **What holds of a socket from the start and is kept holds of every socket of a server.** -/
theorem Keeps.step (h : A.Keeps Inv) (hserver : ∀ s ∈ server.sockets, Inv s) {e : Event α ε}
    (he : e.isClose = false) : ∀ s ∈ (A.step server e).sockets, Inv s := by
  intro s hs
  cases e with
  | accept a =>
      rw [Acceptor.step] at hs
      split_ifs at hs
      · rcases List.mem_append.mp hs with hs | hs
        · exact hserver s hs
        · rw [List.mem_singleton.mp hs]
          exact h.inv_accepted a
      · exact hserver s hs
  | socket i e =>
      rw [Acceptor.step, drain_sockets] at hs
      obtain ⟨j, hj, rfl⟩ := List.getElem_of_mem hs
      rw [List.getElem_modify]
      split_ifs
      · exact h.inv_react _ _ (hserver _ (List.getElem_mem _))
      · exact hserver _ (List.getElem_mem _)
  | close => cases he

theorem Keeps.run (h : A.Keeps Inv) {events : List (Event α ε)}
    (hevents : ∀ e ∈ events, e.isClose = false) :
    ∀ s ∈ (run A.step new events).sockets, Inv s := by
  have halong : Along A.step (fun _ e => e.isClose = false) new events :=
    Along.of_forall fun e he _ => hevents e he
  exact halong.invariant (P := fun server : Server σ => ∀ s ∈ server.sockets, Inv s)
    (fun _ e he hserver => h.step hserver he) fun _ hs => by cases hs

/-- What shutting down keeps as well holds after every run. -/
theorem inv_step (h : A.Sound Inv) (hserver : ∀ s ∈ server.sockets, Inv s) (e : Event α ε) :
    ∀ s ∈ (A.step server e).sockets, Inv s := by
  cases e with
  | accept a => exact h.toKeeps.step hserver rfl
  | socket i e => exact h.toKeeps.step hserver rfl
  | close =>
      intro s hs
      rw [step, drain_sockets] at hs
      obtain ⟨s', hs', rfl⟩ := List.mem_map.mp hs
      exact h.inv_shut s' (hserver s' hs')

theorem inv_run (h : A.Sound Inv) (events : List (Event α ε)) :
    ∀ s ∈ (run A.step new events).sockets, Inv s :=
  run_invariant (P := fun server : Server σ => ∀ s ∈ server.sockets, Inv s)
    (fun _ e hserver => inv_step h hserver e) (fun _ hs => by cases hs) events

/-- Counts that add up for every socket add up for the server. -/
theorem connectionCount_add {f g : σ → ℕ}
    (h : ∀ s ∈ server.sockets, A.connections s + f s = g s) :
    A.connectionCount server + (server.sockets.map f).sum = (server.sockets.map g).sum := by
  rw [connectionCount, ← List.sum_map_add, List.map_congr_left h]

/-! ## Shutdown -/

/-- A server that was closed: it does not listen, its sockets are destroyed, none of their
connections is counted, and no more sockets are there than before. -/
structure Shut (A : Acceptor α σ ε) (Inv : σ → Prop) (n : ℕ) (server : Server σ) : Prop where
  listening_eq : server.listening = false
  sockets : ∀ s ∈ server.sockets, Inv s ∧ A.destroyed s = true ∧ A.connections s = 0
  length_eq : server.sockets.length = n

theorem shut_close (h : A.Sound Inv) (hserver : ∀ s ∈ server.sockets, Inv s) :
    A.Shut Inv server.sockets.length (A.step server .close) where
  listening_eq := by simp [step]
  sockets s hs := by
    rw [step, drain_sockets] at hs
    obtain ⟨s', hs', rfl⟩ := List.mem_map.mp hs
    have hinv := hserver s' hs'
    exact ⟨h.inv_shut s' hinv, h.shut_destroyed s' hinv, h.shut_connections s' hinv⟩
  length_eq := by simp [step]

/-- **A server that was closed stays so.** -/
theorem Shut.step (h : A.Sound Inv) {n : ℕ} (hserver : A.Shut Inv n server) (e : Event α ε) :
    A.Shut Inv n (A.step server e) := by
  cases e with
  | accept a =>
      rw [Acceptor.step, if_neg (by simp [hserver.listening_eq])]
      exact hserver
  | socket i e =>
      refine ⟨by simp [Acceptor.step, hserver.listening_eq], fun s hs => ?_,
        by simp [Acceptor.step, hserver.length_eq]⟩
      rw [Acceptor.step, drain_sockets] at hs
      obtain ⟨j, hj, rfl⟩ := List.getElem_of_mem hs
      rw [List.length_modify] at hj
      obtain ⟨hinv, hdestroyed, hcount⟩ := hserver.sockets _ (List.getElem_mem hj)
      rw [List.getElem_modify]
      split_ifs
      · exact ⟨h.inv_react _ e hinv, h.react_destroyed _ e hinv hdestroyed,
          h.react_connections _ e hinv hdestroyed hcount⟩
      · exact ⟨hinv, hdestroyed, hcount⟩
  | close =>
      have hclosed := shut_close h fun s hs => (hserver.sockets s hs).1
      rw [hserver.length_eq] at hclosed
      exact hclosed

/-- How often the server was closed. -/
def closes (events : List (Event α ε)) : ℕ := events.countP Event.isClose

/-- Every `close` has its callback, called or waiting. -/
theorem called_add_waiting (events : List (Event α ε)) :
    (run A.step new events).called + (run A.step new events).waiting = closes events := by
  induction events using List.reverseRecOn with
  | nil => rfl
  | append_singleton events e ih =>
      rw [run_concat, closes, List.countP_append, List.countP_singleton, ← closes, ← ih]
      cases e with
      | accept a =>
          rw [Acceptor.step]
          by_cases hlistening : (run A.step new events).listening = true
          · rw [if_pos hlistening]
            rfl
          · rw [if_neg hlistening]
            rfl
      | socket i e => simp [Acceptor.step, Event.isClose]
      | close => simp [Acceptor.step, Event.isClose, Nat.add_assoc]

/-- Callbacks wait exactly while a socket has not closed. -/
def Waits (A : Acceptor α σ ε) (server : Server σ) : Prop :=
  server.listening = false → (server.waiting = 0 ↔ ∀ s ∈ server.sockets, A.closed s = true)

/-- Draining makes the callbacks wait exactly while a socket has not closed. -/
theorem waits_drain (h : server.waiting = 0 → ∀ s ∈ server.sockets, A.closed s = true) :
    A.Waits (A.drain server) := by
  rw [Waits, drain]
  split_ifs with hdrained
  · exact fun _ => iff_of_true rfl hdrained.2
  · intro hlistening
    have hopen : ¬ ∀ s ∈ server.sockets, A.closed s = true :=
      fun hall => hdrained ⟨hlistening, hall⟩
    exact iff_of_false (fun hzero => hopen (h hzero)) hopen

theorem Waits.step (h : A.Sound Inv) (hserver : ∀ s ∈ server.sockets, Inv s)
    (hwaits : A.Waits server) (e : Event α ε) : A.Waits (A.step server e) := by
  cases e with
  | accept a =>
      rw [Acceptor.step]
      split_ifs with hlistening
      · exact fun hnot => by rw [hlistening] at hnot; cases hnot
      · exact hwaits
  | socket i e =>
      rw [Acceptor.step]
      by_cases hlistening : server.listening = false
      · refine waits_drain fun hzero s hs => ?_
        obtain ⟨j, hj, rfl⟩ := List.getElem_of_mem hs
        rw [List.length_modify] at hj
        have hclosed := (hwaits hlistening).mp hzero _ (List.getElem_mem hj)
        rw [List.getElem_modify]
        split_ifs
        · exact h.react_closed _ e (hserver _ (List.getElem_mem hj)) hclosed
        · exact hclosed
      · intro hnot
        rw [drain_listening] at hnot
        exact absurd hnot hlistening
  | close => exact waits_drain fun hzero => absurd hzero (Nat.succ_ne_zero _)

theorem waits_run (h : A.Sound Inv) (events : List (Event α ε)) :
    A.Waits (run A.step new events) := by
  refine (run_invariant (P := fun server : Server σ =>
    (∀ s ∈ server.sockets, Inv s) ∧ A.Waits server) (fun _ e hserver => ?_) ⟨?_, ?_⟩ events).2
  · exact ⟨inv_step h hserver.1 e, hserver.2.step h hserver.1 e⟩
  · exact fun _ hs => by cases hs
  · exact fun hnot => by cases hnot

/-- **After `close` a server is shut, and its callbacks are called once every socket has
closed**, no matter what happened before and happens then. -/
theorem shutdown_run (h : A.Sound Inv) (before after : List (Event α ε)) :
    A.Shut Inv (run A.step new before).sockets.length
        (run A.step new (before ++ .close :: after)) ∧
      A.connectionCount (run A.step new (before ++ .close :: after)) = 0 ∧
      ((∀ s ∈ (run A.step new (before ++ .close :: after)).sockets, A.closed s = true) ↔
        (run A.step new (before ++ .close :: after)).called =
          closes (before ++ .close :: after)) := by
  have hshut : A.Shut Inv (run A.step new before).sockets.length
      (run A.step new (before ++ .close :: after)) := by
    rw [run_append, run_cons]
    exact run_invariant (P := A.Shut Inv _) (fun _ e hserver => hserver.step h e)
      (shut_close h (inv_run h before)) after
  refine ⟨hshut, ?_, ?_⟩
  · refine List.sum_eq_zero fun n hn => ?_
    obtain ⟨s, hs, rfl⟩ := List.mem_map.mp hn
    exact (hshut.sockets s hs).2.2
  · have htotal := called_add_waiting (A := A) (before ++ .close :: after)
    rw [← waits_run h _ hshut.listening_eq]
    omega

end Acceptor

end Proxinator.Lib
