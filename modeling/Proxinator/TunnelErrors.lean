import Proxinator.ErrorListeners

/-!
# How errors of a tunnel are reported

After `bind` an error of one of the two sockets is reported by the tunnel: once and with the
connection, or not at all where it is benign. The target has no listeners but those of its
tunnels; where it is bound by several of them, which is up to the user, each reports to its own
connection, and what is said here of a target is said of each of its tunnels. A client
socket of the forward and of the SOCKS5 server still has the one that the server attached
when it took over the socket, which reports every error without a connection, so there each
client error is reported wrongly. The reverse server attaches none of its own.

## Main results

* `Forward.Connection.errors_error`, `Socks5.Socket.errors_error`,
  `Reverse.Connection.errors_error` — what each server reports of a client error.
* `tunnel_error_iff` — for which sockets an error is reported as it should be.
-/

namespace Proxinator

open Lib

/-- An `error` event of a server: the code, and whether the connection came with it. -/
structure Report where
  code : Option String
  connection : Bool
  deriving DecidableEq, Repr

/-- What should be reported of an error: nothing of a benign one, and else one event with the
connection. -/
def reportOf (code : Option String) : List Report :=
  if isBenign code then [] else [⟨code, true⟩]

/-! ## The target -/

namespace Tunnel

/-- The options with which the servers make their tunnels. -/
def bindOptions (up down : Option (Transform Bytes)) (idleTimeout : ℕ) : Options :=
  ⟨up, down, idleTimeout, true, true⟩

/-- What a call of the tunnel has the server emit: `onError` passes the connection on. -/
def Call.report : Call → Option Report
  | .onError _ code => some ⟨code, true⟩
  | _ => none

/-- The errors that the server emitted for a tunnel. -/
def errors (t : Tunnel) : List Report := t.log.filterMap Call.report

/-- An error of a socket is reported by the tunnel as it should be. -/
theorem errors_error (up down : Option (Transform Bytes)) (idleTimeout : ℕ) (t : Tunnel)
    (side : Side) (code : Option String) :
    (t.step (bindOptions up down idleTimeout) (.error side code)).errors =
      t.errors ++ reportOf code := by
  rw [step, onError, reportOf]
  by_cases hbenign : isBenign code = true
  · simp [hbenign, destroy, errors, Call.report]
  · simp [hbenign, destroy, errors, Call.report, bindOptions]

end Tunnel

/-! ## The client -/

namespace Forward

/-- An `error` that is emitted. -/
def Emitted.report : Emitted → Option Report
  | .error code withConnection => some ⟨code, withConnection⟩
  | _ => none

namespace Connection

/-- The errors that the server emitted for the connection. -/
def errors (c : Connection) : List Report := c.emitted.filterMap Emitted.report

/-- What a listener reports. -/
def reportedBy (code : Option String) : ErrorListener → List Report
  | .server => [⟨code, false⟩]
  | .tunnel => reportOf code

theorem errors_call (code : Option String) (c : Connection) (listener : ErrorListener) :
    (c.callErrorListener code listener).errors = c.errors ++ reportedBy code listener := by
  cases listener with
  | server => simp [callErrorListener, errors, Emitted.report, reportedBy]
  | tunnel =>
      rw [callErrorListener, reportedBy, reportOf]
      split_ifs
      · simp [errors]
      · simp [errors, Emitted.report]

/-- A client error is reported by every listener. -/
theorem errors_error {c : Connection} (hopen : c.closed = false) (code : Option String) :
    (c.step (.error code)).errors = c.errors ++ c.errorListeners.flatMap (reportedBy code) := by
  rw [step, onError, hopen]
  by_cases hnil : c.errorListeners = []
  · simp [hnil, errors]
  · rw [if_neg (by decide), if_neg hnil, foldl_append_component errors (errors_call code)]
    rfl

end Connection

end Forward

namespace Socks5

/-- An `error` that is emitted. -/
def Action.report : Action → Option Report
  | .error code withConnection => some ⟨code, withConnection⟩
  | _ => none

namespace Socket

/-- The errors that the server emitted for the socket. -/
def errors (s : Socket) : List Report := s.log.filterMap Action.report

/-- What a listener reports. -/
def reportedBy (code : Option String) : ErrorListener → List Report
  | .server => [⟨code, false⟩]
  | .tunnel => reportOf code

theorem errors_call (code : Option String) (s : Socket) (listener : ErrorListener) :
    (s.callErrorListener code listener).errors = s.errors ++ reportedBy code listener := by
  cases listener with
  | server => simp [callErrorListener, act, errors, Action.report, reportedBy]
  | tunnel =>
      rw [callErrorListener, reportedBy, reportOf]
      split_ifs
      · simp [errors, destroy]
      · simp [errors, destroy, act, Action.report]

/-- A client error is reported by every listener. -/
theorem errors_error {opts : Options} {s : Socket} (hopen : s.closed = false)
    (code : Option String) :
    (s.step opts (.error code)).errors =
      s.errors ++ s.errorListeners.flatMap (reportedBy code) := by
  rw [step, onError, hopen]
  by_cases hnil : s.errorListeners = []
  · simp [hnil, errors, destroy, act, Action.report]
  · rw [if_neg (by decide), if_neg hnil, foldl_append_component errors (errors_call code)]
    rfl

end Socket

end Socks5

namespace Reverse

/-- An `error` that is emitted, always with the connection. -/
def Emitted.report : Emitted → Option Report
  | .error code => some ⟨code, true⟩
  | _ => none

namespace Connection

/-- The errors that the server emitted for the connection. -/
def errors (c : Connection) : List Report := c.emitted.filterMap Emitted.report

/-- A client error is reported by every tunnel. -/
theorem errors_error {c : Connection} (hopen : c.closed = false) (code : Option String) :
    (c.step (.error code)).errors =
      c.errors ++ (List.replicate c.errorListeners (reportOf code)).flatten := by
  have hcall : ∀ c : Connection, (c.onError code).errors = c.errors ++ reportOf code := by
    intro c
    rw [onError, reportOf]
    split_ifs
    · simp
    · simp [errors, Emitted.report]
  have hiterate : ∀ (n : ℕ) (c : Connection), (Nat.iterate (onError code) n c).errors =
      c.errors ++ (List.replicate n (reportOf code)).flatten := by
    intro n
    induction n with
    | zero => simp
    | succ n ih =>
        intro c
        rw [Function.iterate_succ_apply, ih, hcall, List.replicate_succ, List.flatten_cons,
          List.append_assoc]
  rw [step, error, hopen]
  by_cases hzero : c.errorListeners = 0
  · simp [hzero, errors]
  · rw [if_neg (by decide), if_neg hzero, hiterate]
    rfl

end Connection

end Reverse

/-! ## The three servers -/

/-- A client socket of one of the servers, with its connection. -/
inductive ClientSocket
  | forward (c : Forward.Connection)
  | socks5 (s : Socks5.Socket)
  | reverse (c : Reverse.Connection)

namespace ClientSocket

/-- A socket that has not closed after a run in which a tunnel was established. A SOCKS5 socket
can only be bound once it is promoted. -/
inductive Established : ClientSocket → Prop
  | forward (head : Bytes) (events : List Forward.Event) (hbind : .bind ∈ events)
      (hopen : (run Forward.Connection.step (.accepted head) events).closed = false) :
      Established (.forward (run Forward.Connection.step (.accepted head) events))
  | socks5 (opts : Socks5.Options) (endpoints : Socks5.SocketInfo)
      (events : List Socks5.Event) (hbind : .tunnel ∈
        (run (Socks5.Socket.step opts) (.accepted endpoints) events).errorListeners)
      (hopen : (run (Socks5.Socket.step opts) (.accepted endpoints) events).closed = false) :
      Established (.socks5 (run (Socks5.Socket.step opts) (.accepted endpoints) events))
  | reverse (chunks : List Bytes) (events : List Reverse.Event) (hbind : .bind ∈ events)
      (hopen : (run Reverse.Connection.step (.accepted chunks) events).closed = false) :
      Established (.reverse (run Reverse.Connection.step (.accepted chunks) events))

/-- The errors that the server emitted for the socket. -/
def errors : ClientSocket → List Report
  | forward c => c.errors
  | socks5 s => s.errors
  | reverse c => c.errors

/-- The socket emits `error`. -/
def onError (code : Option String) : ClientSocket → ClientSocket
  | forward c => .forward (c.step (.error code))
  -- the options of the server have no part in it
  | socks5 s => .socks5 (s.step ⟨false⟩ (.error code))
  | reverse c => .reverse (c.step (.error code))

end ClientSocket

/-- **An error of one of the sockets of a tunnel is reported once, and with the connection, or
not at all if it is benign.** Of a target only what the tunnel `t` reports counts; another
tunnel of the same target has a log of its own. -/
def ReportedOnce (up down : Option (Transform Bytes)) (idleTimeout : ℕ) (client : ClientSocket)
    (t : Tunnel) (code : Option String) : Side → Prop
  | .client => (client.onError code).errors = client.errors ++ reportOf code
  | .target =>
    (t.step (Tunnel.bindOptions up down idleTimeout) (.error .target code)).errors =
      t.errors ++ reportOf code

/-- A listener of the server itself makes the reports wrong. -/
theorem flatMap_ne_reportOf {ι : Type*} {listeners : List ι} {reportedBy : ι → List Report}
    {server : ι} {code : Option String} (hmem : server ∈ listeners)
    (hserver : reportedBy server = [⟨code, false⟩]) :
    listeners.flatMap reportedBy ≠ reportOf code := by
  intro heq
  have hreport : (⟨code, false⟩ : Report) ∈ reportOf code := by
    rw [← heq, List.mem_flatMap]
    exact ⟨server, hmem, by rw [hserver]; exact List.mem_singleton.mpr rfl⟩
  rw [reportOf] at hreport
  split_ifs at hreport
  · cases hreport
  · simp at hreport

/-- **Errors are reported as they should be exactly on the target, and on client sockets of the
reverse server**, there unless the socket was bound to several targets and the error is not
benign. -/
theorem tunnel_error_iff (up down : Option (Transform Bytes)) (idleTimeout : ℕ)
    (client : ClientSocket) (hclient : client.Established) (t : Tunnel) (side : Side)
    (code : Option String) :
    ReportedOnce up down idleTimeout client t code side ↔
      side = .target ∨
        ∃ c, client = .reverse c ∧ (isBenign code = true ∨ c.errorListeners = 1) := by
  cases side with
  | target =>
      rw [ReportedOnce]
      exact ⟨fun _ => Or.inl rfl, fun _ => Tunnel.errors_error up down idleTimeout t .target code⟩
  | client =>
      simp only [ReportedOnce, reduceCtorEq, false_or]
      cases hclient with
      | forward head events hbind hopen =>
          simp only [ClientSocket.onError, ClientSocket.errors,
            Forward.Connection.errors_error hopen, List.append_cancel_left_eq,
            reduceCtorEq, false_and, exists_false, iff_false]
          exact flatMap_ne_reportOf (Forward.Connection.server_mem_run head events) rfl
      | socks5 opts endpoints events hbind hopen =>
          simp only [ClientSocket.onError, ClientSocket.errors, Socks5.Socket.errors_error hopen,
            List.append_cancel_left_eq, reduceCtorEq, false_and, exists_false, iff_false]
          exact flatMap_ne_reportOf (Socks5.Socket.inv_run opts endpoints events).guarded rfl
      | reverse chunks events hbind hopen =>
          have hpos := (Reverse.Connection.errorListeners_run chunks events).mpr hbind
          generalize run Reverse.Connection.step (.accepted chunks) events = c at hopen hpos
          simp only [ClientSocket.onError, ClientSocket.errors,
            Reverse.Connection.errors_error hopen, List.append_cancel_left_eq,
            ClientSocket.reverse.injEq, exists_eq_left']
          by_cases hbenign : isBenign code = true
          · simp [reportOf, hbenign]
          · constructor
            · intro heq
              have hlength := congrArg List.length heq
              right
              simpa [reportOf, hbenign] using hlength
            · rintro (hbenign' | hone)
              · exact absurd hbenign' hbenign
              · simp [hone]

/-- A client of the reverse server after one `bind`. -/
def boundOnce : Reverse.Connection := run Reverse.Connection.step (.accepted []) [.bind]

theorem tunnel_error_boundOnce :
    ReportedOnce none none 0 (.reverse boundOnce) Tunnel.new (some "ETIMEDOUT") .client :=
  (tunnel_error_iff none none 0 (.reverse boundOnce)
    (.reverse [] [.bind] (by simp) rfl) Tunnel.new .client (some "ETIMEDOUT")).mpr
    (Or.inr ⟨boundOnce, rfl, Or.inr rfl⟩)

/-- **A reset of a client of the forward server is reported, and without the connection.** -/
theorem forward_reset_reported :
    let client := run Forward.Connection.step (.accepted []) [.bind]
    isBenign (some "ECONNRESET") = true ∧ (ClientSocket.forward client).Established ∧
      client.errors = [] ∧
      (client.step (.error (some "ECONNRESET"))).errors = [⟨some "ECONNRESET", false⟩] :=
  ⟨by decide, .forward [] [.bind] (by simp) rfl, rfl, by decide⟩

end Proxinator
