import Proxinator.Socks5.Accounting
import Proxinator.Lib.Deadline

/-!
# The handshake deadline

Every socket that the SOCKS5 server accepts has a timer for its handshake. The timer stops only
when the socket is promoted or closes, and it destroys the socket, so that no client keeps a
socket of the server for longer without making its request (`handshake_deadline`).
-/

namespace Proxinator.Socks5

open Lib

/-- `HANDSHAKE_TIMEOUT`. -/
@[simp] abbrev handshakeTimeout : ℕ := 30000

namespace Socket

variable {opts : Options} {s : Socket}

/-- The handshake is timed, or it is over. -/
def Timed (s : Socket) : Prop :=
  s.handshakeTimer = true ∨ s.promoted ≠ [] ∨ s.destroyed = true

/-- What decides whether a socket is `Timed`. -/
def vitals (s : Socket) : Bool × List Address × Bool :=
  (s.handshakeTimer, s.promoted, s.destroyed)

theorem Timed.of_vitals {s' : Socket} (h : s.Timed) (hvitals : s'.vitals = s.vitals) :
    s'.Timed := by
  simp only [vitals, Prod.mk.injEq] at hvitals
  rw [Timed, hvitals.1, hvitals.2.1, hvitals.2.2]
  exact h

theorem Timed.of_destroyed (h : s.destroyed = true) : s.Timed := Or.inr (Or.inr h)

theorem vitals_authenticate (answer : AuthInfo → Answer) (credentials : Option Credentials)
    (info : AuthInfo) (s : Socket) :
    (stateOf (s.authenticate answer credentials info)).vitals = s.vitals := by
  rw [authenticate]
  cases answer info with
  | throws => rfl
  | returns => rfl

theorem vitals_onGreeting (answer : AuthInfo → Answer) (g : Bytes) (s : Socket) :
    (stateOf (s.onGreeting opts answer g)).vitals = s.vitals := by
  rw [onGreeting_eq]
  cases choose g with
  | badVersion | userpass | noAcceptable => rfl
  | noAuth =>
      by_cases hopts : opts.authenticate = true
      · rw [if_pos hopts]
        exact vitals_authenticate answer none _ _
      · rw [if_neg hopts]
        rfl

theorem vitals_onAuth (answer : AuthInfo → Answer) (info : SocketInfo) (a : Bytes) (s : Socket) :
    (stateOf (s.onAuth opts answer info a)).vitals = s.vitals := by
  rw [onAuth]
  cases parseAuth a with
  | none => rfl
  | some credentials =>
      by_cases hopts : opts.authenticate = true
      · simp only [if_pos hopts]
        exact vitals_authenticate answer _ _ _
      · simp only [if_neg hopts]
        rfl

theorem vitals_onSettled (check : Check) (result : Settlement) (s : Socket) :
    (s.onSettled check result).vitals = s.vitals := by
  rw [onSettled.eq_def]
  split <;> rfl

/-- The request handler promotes the socket, or leaves its timer alone. -/
theorem onRequest_promotes (r : Bytes) (s : Socket) :
    (∃ address, s.onRequest r = s.promote address) ∨ (s.onRequest r).vitals = s.vitals := by
  rw [onRequest]
  by_cases hcmd : r[1]? ≠ some cmdConnect
  · rw [if_pos hcmd]
    exact Or.inr rfl
  · rw [if_neg hcmd]
    cases parseAddress r with
    | none => exact Or.inr rfl
    | some address => exact Or.inl ⟨address, rfl⟩

/-- A `data` listener promotes the socket, which stops its timer, or leaves that alone. -/
theorem callListener_promotes (answer : AuthInfo → Answer) (chunk : Bytes)
    (listener : DataListener) (s : Socket) :
    ((stateOf (s.callListener opts answer chunk listener)).promoted ≠ [] ∧
        (stateOf (s.callListener opts answer chunk listener)).handshakeTimer = false) ∨
      (stateOf (s.callListener opts answer chunk listener)).vitals = s.vitals := by
  cases listener with
  | greeting => exact Or.inr (vitals_onGreeting answer chunk _)
  | auth info => exact Or.inr (vitals_onAuth answer info chunk _)
  | request =>
      rcases onRequest_promotes chunk { s with dataListeners := s.dataListeners.erase .request }
        with ⟨address, heq⟩ | hvitals
      · left
        simp [callListener, heq, stateOf, promote, act]
      · exact Or.inr hvitals
  | pipe => exact Or.inr rfl

/-- An error destroys a socket. -/
theorem destroyed_onError (code : Option String) (s : Socket) :
    (s.onError code).destroyed = true := by
  rw [onError]
  split_ifs
  · rfl
  · refine List.foldlRecOn (motive := fun s : Socket => s.destroyed = true) _ _ rfl
      fun s hs listener _ => ?_
    cases listener with
    | server => exact hs
    | tunnel =>
        rw [callErrorListener]
        split_ifs <;> rfl

/-- **Until the handshake is over it is timed.** -/
theorem timed_step (h : s.Timed) (e : Event) : (s.step opts e).Timed := by
  cases e with
  | data chunk answer =>
      rw [step]
      split_ifs
      · exact h
      · refine onData_invariant (P := Timed) h h (fun _ hs => hs) fun listener s hs => ?_
        rcases callListener_promotes answer chunk listener s with ⟨hpromoted, -⟩ | hvitals
        · exact Or.inr (Or.inl hpromoted)
        · exact hs.of_vitals hvitals
  | settle i result =>
      rw [step, onSettle]
      cases s.checks[i]? with
      | none => exact h
      | some check =>
          refine h.of_vitals ?_
          by_cases hasked : check.asked = true
          · simp only [if_pos hasked]
            exact vitals_onSettled check result _
          · simp only [if_neg hasked]
            exact vitals_onSettled check _ _
  | handshakeTimeout =>
      rw [step]
      split_ifs
      · exact .of_destroyed rfl
      · exact h
  | error code =>
      rw [step]
      split_ifs
      · exact h
      · exact .of_destroyed (destroyed_onError code s)
  | close =>
      rw [step]
      split_ifs
      · exact h
      · rw [onClose, foldl_close]
        exact .of_destroyed rfl
  | bind | refuse | «end» =>
      rw [step]
      split_ifs
      · exact h
      · exact h
  | destroy => exact .of_destroyed rfl

/-- Nothing starts the timer again. -/
theorem handshakeTimer_step (s : Socket) (e : Event)
    (h : (s.step opts e).handshakeTimer = true) : s.handshakeTimer = true := by
  revert h
  cases e with
  | data chunk answer =>
      rw [step]
      split_ifs
      · exact id
      · refine onData_invariant
          (P := fun s' : Socket => s'.handshakeTimer = true → s.handshakeTimer = true)
          id id (fun _ hs => hs) fun listener s' hs => ?_
        rcases callListener_promotes answer chunk listener s' with ⟨-, hstopped⟩ | hvitals
        · rw [hstopped]
          exact fun hfalse => by cases hfalse
        · rw [(Prod.mk.inj hvitals).1]
          exact hs
  | settle i result => exact (Untouched.onSettle i result s).timer_of
  | handshakeTimeout =>
      rw [step]
      split_ifs with htimer
      · exact fun _ => htimer
      · exact id
  | error code =>
      rw [step]
      split_ifs
      · exact id
      · exact (Untouched.onError code s).timer_of
  | close =>
      rw [step]
      split_ifs
      · exact id
      · rw [onClose, foldl_close]
        exact fun hfalse => by cases hfalse
  | bind | refuse | «end» =>
      rw [step]
      split_ifs
      · exact id
      · exact id
  | destroy => exact id

end Socket

/-! ## The server under a clock -/

namespace Server

/-- The timers of a server's sockets: that of the `i`th runs. -/
def running (server : Server) (i : ℕ) : Prop :=
  ∃ s, server.sockets[i]? = some s ∧ s.handshakeTimer = true

/-- A socket is accepted, and its timer is started. -/
def accepts (server : Server) : ServerEvent → ℕ → Bool
  | .accept _, i => i = server.sockets.length
  | _, _ => false

/-- The timer of a socket fires. -/
def fires : ServerEvent → ℕ → Prop
  | .socket i .handshakeTimeout, j => j = i
  | _, _ => False

/-- A server under a clock, which shows when each socket was accepted. -/
def clocked (opts : Options) (events : List (Clocked.Event ServerEvent)) : Clocked Server ℕ :=
  run (Clocked.step (step opts) accepts) (Clocked.start new) events

/-- The handshake timers fire when their time has come. -/
def OnTime (opts : Options) (events : List (Clocked.Event ServerEvent)) : Prop :=
  Along (Clocked.step (step opts) accepts) (Clocked.Punctual running fires handshakeTimeout)
    (Clocked.start new) events

/-- A socket of the server after a step: it has just been accepted, or has taken a step, or
none. -/
theorem getElem?_step (opts : Options) (server : Server) (e : ServerEvent) {i : ℕ} {s : Socket}
    (h : (server.step opts e).sockets[i]? = some s) :
    (server.accepts e i = true ∧ ∃ endpoints, s = Socket.accepted endpoints) ∨
      ∃ s', server.sockets[i]? = some s' ∧ (s = s' ∨ ∃ e, s = s'.step opts e) := by
  cases e with
  | accept endpoints =>
      rw [step, List.getElem?_append] at h
      by_cases hlt : i < server.sockets.length
      · rw [if_pos hlt] at h
        exact Or.inr ⟨s, h, Or.inl rfl⟩
      · rw [if_neg hlt] at h
        obtain ⟨hi, heq⟩ := List.getElem?_eq_some_iff.mp h
        rw [List.length_singleton] at hi
        refine Or.inl ⟨?_, endpoints, ?_⟩
        · simp only [accepts, decide_eq_true_eq]
          omega
        · simpa using heq.symm
  | socket j e =>
      rw [step, List.getElem?_modify] at h
      obtain ⟨s', hs', rfl⟩ := Option.map_eq_some_iff.mp h
      refine Or.inr ⟨s', hs', ?_⟩
      split_ifs
      · exact Or.inr ⟨e, rfl⟩
      · exact Or.inl rfl
  | close =>
      rw [step, List.getElem?_map] at h
      obtain ⟨s', hs', rfl⟩ := Option.map_eq_some_iff.mp h
      refine Or.inr ⟨s', hs', ?_⟩
      split_ifs
      · exact Or.inr ⟨.destroy, rfl⟩
      · exact Or.inl rfl

theorem running_step (opts : Options) (server : Server) (e : ServerEvent) (i : ℕ)
    (h : (server.step opts e).running i) : server.running i ∨ server.accepts e i = true := by
  obtain ⟨s, hs, htimer⟩ := h
  rcases getElem?_step opts server e hs with ⟨haccepts, -⟩ | ⟨s', hs', rfl | ⟨e', rfl⟩⟩
  · exact Or.inr haccepts
  · exact Or.inl ⟨s, hs', htimer⟩
  · exact Or.inl ⟨s', hs', Socket.handshakeTimer_step s' e' htimer⟩

/-- The handshake of every socket is timed until it is over. -/
theorem timed_run (opts : Options) (events : List ServerEvent) :
    ∀ s ∈ (run (step opts) new events).sockets, s.Timed := by
  intro s hs
  obtain ⟨endpoints, es, rfl⟩ := mem_sockets opts events s hs
  exact run_invariant (P := Socket.Timed) (fun _ e h => Socket.timed_step h e) (Or.inl rfl) es

/-- **No client keeps a socket of the server for longer than the handshake's timeout without
making its request**: after that time its socket has been promoted, or is destroyed. -/
theorem handshake_deadline (opts : Options) (events : List (Clocked.Event ServerEvent))
    (h : OnTime opts events) (i : ℕ) (s : Socket)
    (hs : (clocked opts events).state.sockets[i]? = some s)
    (htime : (clocked opts events).since i + handshakeTimeout < (clocked opts events).now) :
    s.promoted ≠ [] ∨ s.destroyed = true := by
  have htimed : s.Timed := by
    rw [clocked, Clocked.state_run] at hs
    exact timed_run opts _ s (List.mem_of_getElem? hs)
  refine htimed.resolve_left fun htimer => ?_
  have hle := Clocked.Punctual.running_le (running_step opts) h
    (fun k ⟨s', hs', _⟩ => by cases hs') ⟨s, hs, htimer⟩
  exact Nat.not_lt.mpr hle htime

/-- A client connects and sends nothing. -/
private def silentClient : List (Clocked.Event ServerEvent) :=
  .event (.accept ⟨none, none, none, none⟩) :: List.replicate 30000 .tick ++
    [.event (.socket 0 .handshakeTimeout), .tick]

private def silent : Socket := Socket.accepted ⟨none, none, none, none⟩

theorem handshake_deadline_silent :
    ∃ s, (clocked ⟨false⟩ silentClient).state.sockets[0]? = some s ∧ s.destroyed = true := by
  have haccept : Clocked.step (step ⟨false⟩) accepts (Clocked.start new)
      (.event (.accept ⟨none, none, none, none⟩)) = ⟨⟨[silent]⟩, 0, fun _ => 0⟩ := by
    simp only [Clocked.step, Clocked.start, Clocked.mk.injEq]
    refine ⟨rfl, trivial, ?_⟩
    funext k
    exact ite_self 0
  have hfires : Clocked.step (step ⟨false⟩) accepts ⟨⟨[silent]⟩, 30000, fun _ => 0⟩
      (.event (.socket 0 .handshakeTimeout)) =
        ⟨⟨[silent.step ⟨false⟩ .handshakeTimeout]⟩, 30000, fun _ => 0⟩ := by
    simp only [Clocked.step, Clocked.mk.injEq]
    refine ⟨rfl, trivial, ?_⟩
    funext k
    split
    next h => cases h
    next => rfl
  have hrun : clocked ⟨false⟩ silentClient =
      ⟨⟨[silent.step ⟨false⟩ .handshakeTimeout]⟩, 30001, fun _ => 0⟩ := by
    rw [clocked, silentClient, List.cons_append, run_cons, run_append, haccept,
      Clocked.run_ticks, run_cons]
    simp only [Nat.zero_add]
    rw [hfires]
    rfl
  have hontime : OnTime ⟨false⟩ silentClient := by
    rw [OnTime, silentClient, List.cons_append, along_cons, along_append, haccept,
      Clocked.run_ticks]
    simp only [Nat.zero_add]
    refine ⟨fun k hk => hk.elim, Clocked.along_ticks fun k _ => ?_, ?_⟩
    · simp
    · rw [along_cons, along_cons, hfires]
      refine ⟨fun k _ => by simp, fun k hk => ?_, along_nil⟩
      obtain ⟨s, hs, htimer⟩ := hk
      obtain rfl := List.mem_singleton.mp (List.mem_of_getElem? hs)
      cases htimer
  have hsocket : (clocked ⟨false⟩ silentClient).state.sockets[0]? =
      some (silent.step ⟨false⟩ .handshakeTimeout) := by
    rw [hrun]
    rfl
  have hlate := handshake_deadline ⟨false⟩ silentClient hontime 0 _ hsocket (by simp [hrun])
  exact ⟨_, hsocket, hlate.resolve_left (by simp [silent, Socket.step, Socket.accepted,
    Socket.destroy])⟩

end Server

end Proxinator.Socks5
