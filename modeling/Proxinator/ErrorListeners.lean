import Proxinator.Forward
import Proxinator.Reverse
import Proxinator.Socks5.Handshake

/-!
# Error listeners on client sockets

An `error` event without a listener is an uncaught exception. The forward and the SOCKS5
server attach a listener when they take over a client socket. The reverse server leaves it
to `bind`, so a client that resets its connection before, during or after `waitSNI` takes
the process down (`reverse_error_uncaught`); `error_listener_iff` has the three servers.
-/

namespace Proxinator

open Lib

namespace Forward.Connection

theorem errorListeners_writeResponse (c : Connection) (statusCode : NumberText) (message : String)
    (headers : Headers) :
    (c.writeResponse statusCode message headers).errorListeners = c.errorListeners := by
  rw [writeResponse]
  split_ifs <;> rfl

theorem errorListeners_call (code : Option String) (c : Connection) (listener : ErrorListener) :
    (c.callErrorListener code listener).errorListeners = c.errorListeners := by
  cases listener with
  | server => rfl
  | tunnel =>
      rw [callErrorListener]
      split_ifs <;> rfl

/-- Every step keeps the server's listener. -/
theorem server_mem_step {c : Connection} (e : Event) (h : .server ∈ c.errorListeners) :
    .server ∈ (c.step e).errorListeners := by
  cases e with
  | bind =>
      refine List.mem_append_left _ ?_
      rwa [errorListeners_writeResponse]
  | refuse message status headers =>
      rw [step, refuse, endSocket, errorListeners_writeResponse]
      exact h
  | «end» => exact h
  | data data =>
      rw [step, onData]
      split_ifs <;> exact h
  | error code =>
      rw [step, onError]
      split_ifs
      · exact h
      · exact h
      · rw [foldl_component errorListeners (errorListeners_call code)]
        exact h
  | close =>
      rw [step, onClose]
      split_ifs <;> exact h

/-- The forward server always listens to the errors of a client socket. -/
theorem server_mem_run (head : Bytes) (events : List Event) :
    .server ∈ (run step (accepted head) events).errorListeners :=
  run_invariant (P := fun c : Connection => .server ∈ c.errorListeners)
    (fun _ e => server_mem_step e) (List.mem_singleton.mpr rfl) events

end Forward.Connection

namespace Reverse.Connection

theorem errorListeners_callData (data : Bytes) (c : Connection) (listener : DataListener) :
    (c.callDataListener data listener).errorListeners = c.errorListeners := by
  cases listener with
  | pipe => rfl
  | waitSNI call =>
      simp only [callDataListener, onData]
      split_ifs <;> rfl

theorem errorListeners_callClose (c : Connection) (listener : CloseListener) :
    (c.callCloseListener listener).errorListeners = c.errorListeners := by
  cases listener <;> rfl

theorem errorListeners_onError (code : Option String) (c : Connection) :
    (c.onError code).errorListeners = c.errorListeners := by
  rw [onError]
  split_ifs <;> rfl

/-- No event but `bind` attaches an error listener. -/
theorem errorListeners_step {c : Connection} {e : Event} (he : e ≠ .bind) :
    (c.step e).errorListeners = c.errorListeners := by
  cases e with
  | bind => exact absurd rfl he
  | waitSNI | «end» => rfl
  | read =>
      rw [step, read]
      split_ifs
      · split
        · rfl
        · exact foldl_component errorListeners (errorListeners_callData _) _ _
      · rfl
  | timeout call =>
      rw [step, onTimeout]
      split_ifs <;> rfl
  | close =>
      rw [step, close]
      split_ifs
      · rfl
      · exact foldl_component errorListeners errorListeners_callClose _ _
  | error code =>
      rw [step, error]
      split_ifs
      · rfl
      · rfl
      · exact iterate_component errorListeners (errorListeners_onError code) _ _

/-- A connection of the reverse server has an error listener exactly once it was bound. -/
theorem errorListeners_run (chunks : List Bytes) (events : List Event) :
    0 < (run step (accepted chunks) events).errorListeners ↔ .bind ∈ events := by
  induction events using List.reverseRecOn with
  | nil => simp [accepted]
  | append_singleton events e ih =>
      rw [run_concat, List.mem_append, List.mem_singleton, ← ih]
      by_cases he : e = .bind
      · subst he
        simp [step, bind]
      · rw [errorListeners_step he]
        simp [Ne.symm he]

end Reverse.Connection

/-- **Which client sockets have an error listener until they close.** Those of the forward
and the SOCKS5 server do in every reachable state, those of the reverse server exactly when
`bind` has been called. -/
theorem error_listener_iff (head : Bytes) (forwardEvents : List Forward.Event)
    (opts : Socks5.Options) (endpoints : Socks5.SocketInfo) (socksEvents : List Socks5.Event)
    (chunks : List Bytes) (reverseEvents : List Reverse.Event) :
    (run Forward.Connection.step (.accepted head) forwardEvents).errorListeners ≠ [] ∧
    (run (Socks5.Socket.step opts) (.accepted endpoints) socksEvents).errorListeners ≠ [] ∧
    let c := run Reverse.Connection.step (.accepted chunks) reverseEvents
    ((c.closed = false → 0 < c.errorListeners) ↔ c.closed = true ∨ .bind ∈ reverseEvents) := by
  refine ⟨?_, ?_, ?_⟩
  · exact List.ne_nil_of_mem (Forward.Connection.server_mem_run head forwardEvents)
  · exact List.ne_nil_of_mem (Socks5.Socket.inv_run opts endpoints socksEvents).guarded
  · intro c
    rw [← Reverse.Connection.errorListeners_run chunks reverseEvents]
    cases hclosed : c.closed with
    | false => simp [c]
    | true => simp

/-- **A client that resets its connection while `waitSNI` is pending.** -/
theorem reverse_error_uncaught :
    let c := run Reverse.Connection.step (.accepted []) [.waitSNI]
    c.closed = false ∧ c.errorListeners = 0 ∧
      (c.step (.error (some "ECONNRESET"))).uncaught = true := by
  decide

end Proxinator
