import Proxinator.Socks5.Accounting
import Proxinator.Lib.Acceptor

/-!
# The shutdown of the SOCKS5 server

`close` of the SOCKS5 server destroys the sockets in `_handshaking` and in `_connections` and
clears both sets. A socket that has not closed is in one of them, unless it was destroyed before;
and a destroyed socket is not promoted any more, whatever its checks settle with
(`socks5_shutdown`).
-/

namespace Proxinator.Socks5

open Lib

namespace Socket

variable {opts : Options} {s s' : Socket}

/-- What holds of a socket also after `close` of the server. -/
structure Reached (s : Socket) : Prop where
  destroyed : s.closed = true → s.destroyed = true
  tracked : s.closed = false → Server.tracked s = true ∨ s.destroyed = true
  connectionEvents_eq : s.connectionEvents = s.promoted.length
  closeEvents_eq : s.closeEvents = if s.closed then s.promoted.length else 0

theorem reached_accepted (endpoints : SocketInfo) : (accepted endpoints).Reached :=
  ⟨by simp [accepted], fun _ => Or.inl rfl, rfl, rfl⟩

theorem Reached.untouched (hs : s.Reached) (h : Untouched s s') : s'.Reached where
  destroyed hc := by
    rw [h.closed_eq] at hc
    exact h.destroyed_of (hs.destroyed hc)
  tracked hopen := by
    rw [h.closed_eq] at hopen
    rw [Server.tracked, h.handshaking_eq, h.connections_eq]
    exact (hs.tracked hopen).imp id h.destroyed_of
  connectionEvents_eq := by
    rw [h.connectionEvents_eq, h.promoted_eq]
    exact hs.connectionEvents_eq
  closeEvents_eq := by
    rw [h.closeEvents_eq, h.closed_eq, h.promoted_eq]
    exact hs.closeEvents_eq

/-- What a step does to a socket: it leaves the sets alone, it is data for a socket that is
alive, or `close` of the socket or of the server. -/
theorem step_cases (opts : Options) (s : Socket) (e : Event) :
    Untouched s (s.step opts e) ∨
      (∃ chunk answer, s.destroyed = false ∧ s.step opts e = s.onData opts answer chunk) ∨
      (s.closed = false ∧ s.step opts e = s.onClose) ∨
      s.step opts e = { s with handshaking := false, connections := [] }.destroy := by
  cases e with
  | data chunk answer =>
      rw [step]
      by_cases hstill : (s.paused || s.destroyed) = true
      · rw [if_pos hstill]
        exact Or.inl (Untouched.refl s)
      · rw [if_neg hstill]
        simp only [Bool.or_eq_true, not_or, Bool.not_eq_true] at hstill
        exact Or.inr (Or.inl ⟨chunk, answer, hstill.2, rfl⟩)
  | settle i result => exact Or.inl (Untouched.onSettle i result s)
  | handshakeTimeout =>
      rw [step]
      split_ifs
      · exact Or.inl (Untouched.of_log_eq rfl rfl rfl rfl (by simp [Socket.destroy])
          (fun _ => rfl) rfl)
      · exact Or.inl (Untouched.refl s)
  | error code =>
      rw [step]
      split_ifs
      · exact Or.inl (Untouched.refl s)
      · exact Or.inl (Untouched.onError code s)
  | close =>
      rw [step]
      split_ifs with hclosed
      · exact Or.inl (Untouched.refl s)
      · exact Or.inr (Or.inr (Or.inl ⟨by simpa using hclosed, rfl⟩))
  | bind =>
      rw [step]
      split_ifs
      · exact Or.inl (Untouched.refl s)
      · exact Or.inl (Untouched.bind s)
  | refuse =>
      rw [step]
      split_ifs
      · exact Or.inl (Untouched.refl s)
      · exact Or.inl ((Untouched.write s _).trans (Untouched.endSocket _))
  | «end» =>
      rw [step]
      split_ifs
      · exact Or.inl (Untouched.refl s)
      · exact Or.inl (Untouched.endSocket s)
  | destroy => exact Or.inr (Or.inr (Or.inr rfl))

/-- A promotion of an open socket is counted. -/
theorem Reached.promote (hs : s.Reached) (hopen : s.closed = false) (address : Address) :
    (s.promote address).Reached := by
  have hemitted : s.log.countP Action.isConnection = s.promoted.length := hs.connectionEvents_eq
  have hcloses : s.log.count .close = 0 := by
    have hcount := hs.closeEvents_eq
    rwa [hopen] at hcount
  refine ⟨?_, fun _ => Or.inl ?_, ?_, ?_⟩
  · simp [Socket.promote, Socket.act, hopen]
  · simp [Socket.promote, Socket.act, Server.tracked]
  · simp [Socket.promote, Socket.act, connectionEvents, Action.isConnection, hemitted]
  · simp [Socket.promote, Socket.act, closeEvents, hopen, hcloses, List.count_append]

theorem Reached.piped (hs : s.Reached) (chunk : Bytes) : (s.act (.piped chunk)).Reached where
  destroyed := hs.destroyed
  tracked := hs.tracked
  connectionEvents_eq := by
    rw [connectionEvents, Socket.act, List.countP_append]
    exact hs.connectionEvents_eq
  closeEvents_eq := by
    rw [closeEvents, Socket.act, List.count_append]
    exact hs.closeEvents_eq

/-- A `data` listener of an open socket. -/
theorem Reached.callListener (hs : s.Reached) (hopen : s.closed = false) (opts : Options)
    (answer : AuthInfo → Answer) (chunk : Bytes) (listener : DataListener) :
    (stateOf (s.callListener opts answer chunk listener)).Reached ∧
      (stateOf (s.callListener opts answer chunk listener)).closed = false := by
  have huntouched : ∀ {s'}, Untouched s s' → s'.Reached ∧ s'.closed = false := fun h =>
    ⟨hs.untouched h, h.closed_eq.trans hopen⟩
  have hremoved : Untouched s { s with dataListeners := s.dataListeners.erase listener } :=
    Untouched.of_log_eq rfl rfl rfl rfl id id rfl
  cases listener with
  | greeting => exact huntouched (hremoved.trans (Untouched.onGreeting opts answer chunk _))
  | auth info => exact huntouched (hremoved.trans (Untouched.onAuth opts answer info chunk _))
  | request =>
      rcases onRequest_cases chunk { s with dataListeners := s.dataListeners.erase .request }
        with h | ⟨address, -, h⟩
      · exact huntouched (hremoved.trans h)
      · simp only [Socket.callListener, h]
        exact ⟨(hs.untouched hremoved).promote hopen address, hopen⟩
  | pipe => exact ⟨hs.piped chunk, hopen⟩

theorem Reached.data (hs : s.Reached) (hopen : s.closed = false) (opts : Options)
    (answer : AuthInfo → Answer) (chunk : Bytes) :
    (s.onData opts answer chunk).Reached ∧ (s.onData opts answer chunk).closed = false :=
  onData_invariant (P := fun s => s.Reached ∧ s.closed = false)
    ⟨hs.untouched (Untouched.act s rfl), hopen⟩ ⟨hs.untouched (Untouched.act s rfl), hopen⟩
    (fun _ h => ⟨h.1.untouched (Untouched.act _ rfl), h.2⟩)
    fun listener _ h => h.1.callListener h.2 opts answer chunk listener

theorem Reached.close (hs : s.Reached) (hopen : s.closed = false) : s.onClose.Reached := by
  have hemitted : s.log.countP Action.isConnection = s.promoted.length := hs.connectionEvents_eq
  have hcloses : s.log.count .close = 0 := by
    have hcount := hs.closeEvents_eq
    rwa [hopen] at hcount
  have hnone : (List.replicate s.promoted.length Action.close).countP Action.isConnection = 0 := by
    rw [List.countP_replicate]
    rfl
  rw [onClose, foldl_close]
  refine ⟨fun _ => rfl, by simp, ?_, ?_⟩
  · simp [connectionEvents, hemitted, hnone]
  · simp [closeEvents, List.count_append, hcloses]

/-- **Every step keeps a socket within reach of `close`**, that of the server included. -/
theorem reached_step (hs : s.Reached) (e : Event) : (s.step opts e).Reached := by
  rcases step_cases opts s e with huntouched | ⟨chunk, answer, halive, heq⟩ | ⟨hopen, heq⟩ | heq
  · exact hs.untouched huntouched
  · rw [heq]
    refine (hs.data ?_ opts answer chunk).1
    rw [← Bool.not_eq_true]
    intro hclosed
    rw [hs.destroyed hclosed] at halive
    cases halive
  · rw [heq]
    exact hs.close hopen
  · rw [heq]
    exact ⟨fun _ => rfl, fun _ => Or.inr rfl, hs.connectionEvents_eq, hs.closeEvents_eq⟩

end Socket

namespace Server

/-- What `close` of the server does to a socket. -/
def shut (opts : Options) (s : Socket) : Socket := if tracked s then s.step opts .destroy else s

/-- The SOCKS5 server. -/
def acceptor (opts : Options) : Acceptor SocketInfo Socket Event where
  accepted := Socket.accepted
  react := Socket.step opts
  shut := shut opts
  connections s := s.connections.length
  destroyed := Socket.destroyed
  closed := Socket.closed

theorem sound_acceptor (opts : Options) : (acceptor opts).Sound Socket.Reached where
  inv_accepted := Socket.reached_accepted
  inv_react _ e h := Socket.reached_step h e
  inv_shut s h := by
    simp only [acceptor, shut]
    split_ifs
    · exact Socket.reached_step h .destroy
    · exact h
  shut_destroyed s h := by
    simp only [acceptor, shut]
    split_ifs with htracked
    · rfl
    · cases hclosed : s.closed with
      | true => exact h.destroyed hclosed
      | false => exact (h.tracked hclosed).resolve_left htracked
  shut_connections s h := by
    simp only [acceptor, shut]
    split_ifs with htracked
    · rfl
    · simp only [tracked, Bool.or_eq_true, Bool.not_eq_true', not_or, Bool.not_eq_true,
        Bool.not_eq_false] at htracked
      simpa using htracked.2
  react_destroyed s e h hdestroyed := by
    simp only [acceptor] at hdestroyed ⊢
    rcases Socket.step_cases opts s e with huntouched | ⟨_, _, halive, -⟩ | ⟨-, heq⟩ | heq
    · exact huntouched.destroyed_of hdestroyed
    · rw [hdestroyed] at halive
      cases halive
    · rw [heq, Socket.onClose, Socket.foldl_close]
    · rw [heq]
      rfl
  react_connections s e h hdestroyed hnone := by
    simp only [acceptor] at hdestroyed hnone ⊢
    rcases Socket.step_cases opts s e with huntouched | ⟨_, _, halive, -⟩ | ⟨-, heq⟩ | heq
    · rw [huntouched.connections_eq, hnone]
    · rw [hdestroyed] at halive
      cases halive
    · rw [heq, Socket.onClose, Socket.foldl_close]
      rfl
    · rw [heq]
      rfl
  react_closed s e h hclosed := by
    simp only [acceptor] at hclosed ⊢
    rcases Socket.step_cases opts s e with huntouched | ⟨_, _, halive, -⟩ | ⟨-, heq⟩ | heq
    · rw [huntouched.closed_eq, hclosed]
    · rw [h.destroyed hclosed] at halive
      cases halive
    · rw [heq, Socket.onClose, Socket.foldl_close]
    · rw [heq]
      exact hclosed

/-- The server after a run. -/
def served (opts : Options) (events : List (Acceptor.Event SocketInfo Event)) :
    Acceptor.Server Socket :=
  run (acceptor opts).step Acceptor.new events

end Server

end Proxinator.Socks5
