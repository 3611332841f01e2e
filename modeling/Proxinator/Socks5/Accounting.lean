import Proxinator.Socks5.Handshake

/-!
# What the server keeps of its sockets

Where a client socket is in the two sets of the server, how often `connection` and `close`
were emitted for it, and whether its handshake timer runs. The events of the server's own
`close` apart, every handler keeps these `Accounted`: most of them leave all of it
`Untouched`, the request handler promotes, and the `close` listeners clear everything.

## Main results

* `Socket.accounted_step`, `Socket.accounted_run` — the accounts of one socket.
* `Server.accounting` — the sets, the counts and the timers over a whole run of the server,
  and what `close` destroys after it.
-/

namespace Proxinator.Socks5

open Lib

/-- An event that `close` of the server consists of. -/
def ServerEvent.IsClose : ServerEvent → Prop
  | .close | .socket _ .destroy => True
  | _ => False

/-- `connection` was emitted. -/
def Action.isConnection : Action → Bool
  | .connection _ => true
  | _ => false

/-- An action that is counted: `connection`, `close`, and chunks piped to a target. -/
def Action.isCounted : Action → Bool
  | .connection _ | .close | .piped _ => true
  | _ => false

namespace Socket

/-- How often `connection` was emitted for the socket. -/
def connectionEvents (s : Socket) : ℕ := s.log.countP Action.isConnection

/-- How often `close` was emitted for its connections. -/
def closeEvents (s : Socket) : ℕ := s.log.count .close

/-- **The accounts of a socket.** It is in `_handshaking` until it is promoted or closes, its
connections are in `_connections` until it closes, and each of them is given one `close`
event then. -/
structure Accounted (s : Socket) : Prop where
  handshaking_iff : s.handshaking = true ↔ s.closed = false ∧ s.promoted = []
  connections_eq : s.connections = if s.closed then [] else s.promoted
  timer : s.handshakeTimer = true → s.closed = false ∧ s.promoted = []
  destroyed : s.closed = true → s.destroyed = true
  connectionEvents_eq : s.connectionEvents = s.promoted.length
  closeEvents_eq : s.closeEvents = if s.closed then s.promoted.length else 0

theorem accounted_accepted (endpoints : SocketInfo) : (accepted endpoints).Accounted := by
  constructor <;> simp [accepted, connectionEvents, closeEvents]

/-! ## Steps that touch none of it -/

/-- A step that leaves the sets alone and does nothing that is counted. -/
structure Untouched (s s' : Socket) : Prop where
  closed_eq : s'.closed = s.closed
  handshaking_eq : s'.handshaking = s.handshaking
  promoted_eq : s'.promoted = s.promoted
  connections_eq : s'.connections = s.connections
  timer_of : s'.handshakeTimer = true → s.handshakeTimer = true
  destroyed_of : s.destroyed = true → s'.destroyed = true
  log_eq : ∃ extra, s'.log = s.log ++ extra ∧ ∀ action ∈ extra, action.isCounted = false

/-- A step that does nothing at all. -/
theorem Untouched.of_log_eq {s s' : Socket} (hclosed : s'.closed = s.closed)
    (hhandshaking : s'.handshaking = s.handshaking) (hpromoted : s'.promoted = s.promoted)
    (hconnections : s'.connections = s.connections)
    (htimer : s'.handshakeTimer = true → s.handshakeTimer = true)
    (hdestroyed : s.destroyed = true → s'.destroyed = true) (hlog : s'.log = s.log) :
    Untouched s s' :=
  ⟨hclosed, hhandshaking, hpromoted, hconnections, htimer, hdestroyed, [], by simp [hlog],
    by simp⟩

theorem Untouched.refl (s : Socket) : Untouched s s :=
  Untouched.of_log_eq rfl rfl rfl rfl id id rfl

theorem Untouched.trans {s s' s'' : Socket} (h : Untouched s s') (h' : Untouched s' s'') :
    Untouched s s'' := by
  exact ⟨h'.closed_eq.trans h.closed_eq, h'.handshaking_eq.trans h.handshaking_eq,
    h'.promoted_eq.trans h.promoted_eq, h'.connections_eq.trans h.connections_eq,
    fun ht => h.timer_of (h'.timer_of ht), fun hd => h'.destroyed_of (h.destroyed_of hd),
    exists_append_trans h.log_eq h'.log_eq⟩

theorem Untouched.act (s : Socket) {action : Action} (h : action.isCounted = false) :
    Untouched s (s.act action) :=
  ⟨rfl, rfl, rfl, rfl, id, id, [action], rfl, by simpa using h⟩

theorem Untouched.connectionEvents_eq {s s' : Socket} (h : Untouched s s') :
    s'.connectionEvents = s.connectionEvents := by
  obtain ⟨extra, hlog, hextra⟩ := h.log_eq
  have hnone : extra.countP Action.isConnection = 0 := by
    apply List.countP_eq_zero.mpr
    intro action haction
    have hcounted := hextra action haction
    cases action <;> simp_all [Action.isCounted, Action.isConnection]
  rw [connectionEvents, hlog, List.countP_append, hnone]
  rfl

theorem Untouched.closeEvents_eq {s s' : Socket} (h : Untouched s s') :
    s'.closeEvents = s.closeEvents := by
  obtain ⟨extra, hlog, hextra⟩ := h.log_eq
  have hnone : extra.count .close = 0 := by
    apply List.count_eq_zero.mpr
    intro hclose
    exact absurd (hextra _ hclose) (by decide)
  rw [closeEvents, hlog, List.count_append, hnone]
  rfl

theorem Untouched.write (s : Socket) (data : Bytes) : Untouched s (s.write data) :=
  Untouched.act s rfl

theorem Untouched.endSocket (s : Socket) : Untouched s s.endSocket :=
  Untouched.act s rfl

theorem Untouched.onceData (s : Socket) (listener : DataListener) :
    Untouched s (s.onceData listener) :=
  Untouched.of_log_eq rfl rfl rfl rfl id id rfl

theorem Untouched.destroy (s : Socket) : Untouched s s.destroy :=
  Untouched.of_log_eq rfl rfl rfl rfl id (fun _ => rfl) rfl

theorem Untouched.handleRequest (s : Socket) : Untouched s s.handleRequest :=
  Untouched.of_log_eq rfl rfl rfl rfl id id rfl

theorem Untouched.checks (s : Socket) (checks : List Check) :
    Untouched s { s with checks := checks } :=
  Untouched.of_log_eq rfl rfl rfl rfl id id rfl

theorem Untouched.auth (s : Socket) (auth : Option Credentials) :
    Untouched s { s with auth := auth } :=
  Untouched.of_log_eq rfl rfl rfl rfl id id rfl

theorem Untouched.authenticate (s : Socket) (answer : AuthInfo → Answer)
    (credentials : Option Credentials) (info : AuthInfo) :
    Untouched s (stateOf (s.authenticate answer credentials info)) := by
  have hact : Untouched s (s.act (.authenticate info)) := Untouched.act s rfl
  rw [Socket.authenticate]
  cases answer info with
  | throws => exact hact
  | returns => exact hact.trans (Untouched.checks _ _)

theorem Untouched.onGreeting (opts : Options) (answer : AuthInfo → Answer) (g : Bytes)
    (s : Socket) : Untouched s (stateOf (s.onGreeting opts answer g)) := by
  rw [onGreeting_eq]
  cases choose g with
  | badVersion => exact Untouched.endSocket s
  | userpass => exact (Untouched.write s _).trans (Untouched.onceData _ _)
  | noAuth =>
      by_cases hopts : opts.authenticate = true
      · rw [if_pos hopts]
        exact (Untouched.write s _).trans (Untouched.authenticate _ answer _ _)
      · rw [if_neg hopts]
        exact (Untouched.write s _).trans (Untouched.handleRequest _)
  | noAcceptable => exact (Untouched.write s _).trans (Untouched.endSocket _)

theorem Untouched.onAuth (opts : Options) (answer : AuthInfo → Answer) (info : SocketInfo)
    (a : Bytes) (s : Socket) : Untouched s (stateOf (s.onAuth opts answer info a)) := by
  rw [Socket.onAuth]
  cases parseAuth a with
  | none => exact (Untouched.write s _).trans (Untouched.endSocket _)
  | some credentials =>
      by_cases hopts : opts.authenticate = true
      · simp only [if_pos hopts]
        exact Untouched.authenticate s answer _ _
      · simp only [if_neg hopts]
        exact Untouched.checks s _

theorem Untouched.onSettled (check : Check) (result : Settlement) (s : Socket) :
    Untouched s (s.onSettled check result) := by
  rw [onSettled.eq_def]
  split
  · exact ((Untouched.auth s _).trans (Untouched.write _ _)).trans (Untouched.handleRequest _)
  · exact Untouched.handleRequest s
  · exact (Untouched.write s _).trans (Untouched.endSocket _)
  · exact Untouched.endSocket s
  · exact (Untouched.act s rfl).trans (Untouched.endSocket _)

theorem Untouched.onSettle (i : ℕ) (result : Settlement) (s : Socket) :
    Untouched s (s.onSettle i result) := by
  rw [Socket.onSettle]
  cases s.checks[i]? with
  | none => exact Untouched.refl s
  | some check =>
      have hchecks := Untouched.checks s (s.checks.eraseIdx i)
      by_cases hasked : check.asked = true
      · simp only [if_pos hasked]
        have hsettled : Untouched _ ({ s with checks := s.checks.eraseIdx i }.act
          (.settled result)) := Untouched.act _ rfl
        exact (hchecks.trans hsettled).trans (Untouched.onSettled check result _)
      · simp only [if_neg hasked]
        exact hchecks.trans (Untouched.onSettled check _ _)

theorem Untouched.callErrorListener (code : Option String) (s : Socket)
    (listener : ErrorListener) : Untouched s (s.callErrorListener code listener) := by
  cases listener with
  | server => exact Untouched.act s rfl
  | tunnel =>
      rw [Socket.callErrorListener]
      by_cases hbenign : isBenign code = true
      · rw [if_pos hbenign]
        exact Untouched.destroy s
      · rw [if_neg hbenign]
        exact (Untouched.act s rfl).trans (Untouched.destroy _)

theorem Untouched.onError (code : Option String) (s : Socket) :
    Untouched s (s.onError code) := by
  have hfold : ∀ (listeners : List ErrorListener) (s : Socket),
      Untouched s (listeners.foldl (Socket.callErrorListener code) s) := by
    intro listeners
    induction listeners with
    | nil => exact Untouched.refl
    | cons listener listeners ih =>
        intro s
        exact (Untouched.callErrorListener code s listener).trans (ih _)
  rw [Socket.onError]
  split_ifs
  · exact (Untouched.destroy s).trans (Untouched.act _ rfl)
  · exact (Untouched.destroy s).trans (hfold _ _)

theorem Untouched.bind (s : Socket) : Untouched s s.bind :=
  (Untouched.write s _).trans (Untouched.of_log_eq rfl rfl rfl rfl id id rfl)

/-! ## The steps of a socket -/

variable {s s' : Socket}

/-- What touches none of it keeps the accounts. -/
theorem Accounted.untouched (hs : s.Accounted) (h : Untouched s s') : s'.Accounted where
  handshaking_iff := by
    rw [h.handshaking_eq, h.closed_eq, h.promoted_eq]
    exact hs.handshaking_iff
  connections_eq := by
    rw [h.connections_eq, h.closed_eq, h.promoted_eq]
    exact hs.connections_eq
  timer := by
    intro ht
    rw [h.closed_eq, h.promoted_eq]
    exact hs.timer (h.timer_of ht)
  destroyed := by
    intro hc
    rw [h.closed_eq] at hc
    exact h.destroyed_of (hs.destroyed hc)
  connectionEvents_eq := by
    rw [h.connectionEvents_eq, h.promoted_eq]
    exact hs.connectionEvents_eq
  closeEvents_eq := by
    rw [h.closeEvents_eq, h.closed_eq, h.promoted_eq]
    exact hs.closeEvents_eq

/-- A chunk that is piped. -/
theorem Accounted.piped (hs : s.Accounted) (chunk : Bytes) : (s.act (.piped chunk)).Accounted where
  handshaking_iff := hs.handshaking_iff
  connections_eq := hs.connections_eq
  timer := hs.timer
  destroyed := hs.destroyed
  connectionEvents_eq := by
    rw [connectionEvents, Socket.act, List.countP_append]
    exact hs.connectionEvents_eq
  closeEvents_eq := by
    rw [closeEvents, Socket.act, List.count_append]
    exact hs.closeEvents_eq

/-- A promotion moves the socket from one set to the other and is emitted once. -/
theorem Accounted.promote (hs : s.Accounted) (hopen : s.closed = false) (address : Address) :
    (s.promote address).Accounted := by
  have hconnections : s.connections = s.promoted := by
    rw [hs.connections_eq, hopen]
    rfl
  have hemitted : s.log.countP Action.isConnection = s.promoted.length := hs.connectionEvents_eq
  have hcloses : s.log.count .close = 0 := by
    have hcount := hs.closeEvents_eq
    rwa [hopen] at hcount
  constructor
  · simp [Socket.promote, Socket.act]
  · simp [Socket.promote, Socket.act, hopen, hconnections]
  · simp [Socket.promote, Socket.act]
  · simp [Socket.promote, Socket.act, hopen]
  · simp [Socket.promote, Socket.act, connectionEvents, Action.isConnection, hemitted]
  · simp [Socket.promote, Socket.act, closeEvents, hopen, hcloses, List.count_append]

/-- The `close` listeners of the connections are called. -/
theorem foldl_close (connections : List Address) (s : Socket) :
    connections.foldl (fun s _ => s.act .close) s =
      { s with log := s.log ++ List.replicate connections.length .close } := by
  induction connections generalizing s with
  | nil => simp
  | cons address connections ih =>
      rw [List.foldl_cons, ih]
      simp [Socket.act, List.replicate_succ]

/-- The socket closes: it leaves both sets, and every connection gets its `close`. -/
theorem Accounted.close (hs : s.Accounted) (hopen : s.closed = false) :
    s.onClose.Accounted := by
  have hemitted : s.log.countP Action.isConnection = s.promoted.length := hs.connectionEvents_eq
  have hcloses : s.log.count .close = 0 := by
    have hcount := hs.closeEvents_eq
    rwa [hopen] at hcount
  have hnone : (List.replicate s.promoted.length Action.close).countP Action.isConnection = 0 := by
    rw [List.countP_replicate]
    rfl
  rw [onClose, foldl_close]
  constructor
  · simp
  · simp
  · simp
  · simp
  · simp [connectionEvents, hemitted, hnone]
  · simp [closeEvents, List.count_append, hcloses]

/-- The request handler leaves the accounts alone, or it promotes the socket. -/
theorem onRequest_cases (r : Bytes) (s : Socket) :
    Untouched s (s.onRequest r) ∨
      ∃ address, parseAddress r = some address ∧ s.onRequest r = s.promote address := by
  rw [onRequest]
  split_ifs
  · exact Or.inl ((Untouched.write s _).trans (Untouched.endSocket _))
  · cases parseAddress r with
    | none => exact Or.inl ((Untouched.write s _).trans (Untouched.endSocket _))
    | some address => exact Or.inr ⟨address, rfl, rfl⟩

/-- A `data` listener keeps the accounts of a socket that has not closed. -/
theorem Accounted.callListener (hs : s.Accounted) (hopen : s.closed = false) (opts : Options)
    (answer : AuthInfo → Answer) (chunk : Bytes) (listener : DataListener) :
    (stateOf (s.callListener opts answer chunk listener)).Accounted ∧
      (stateOf (s.callListener opts answer chunk listener)).closed = false := by
  have huntouched : ∀ {s'}, Untouched s s' → s'.Accounted ∧ s'.closed = false := fun h =>
    ⟨hs.untouched h, h.closed_eq.trans hopen⟩
  have hremoved : Untouched s { s with dataListeners := s.dataListeners.erase listener } :=
    Untouched.of_log_eq rfl rfl rfl rfl id id rfl
  cases listener with
  | greeting => exact huntouched (hremoved.trans (Untouched.onGreeting opts answer chunk _))
  | auth info => exact huntouched (hremoved.trans (Untouched.onAuth opts answer info chunk _))
  | request =>
      rcases onRequest_cases chunk { s with dataListeners := s.dataListeners.erase .request }
        with h | ⟨address, -, h⟩
      · exact huntouched (hremoved.trans h)
      · simp only [Socket.callListener, h]
        exact ⟨(hs.untouched hremoved).promote hopen address, hopen⟩
  | pipe => exact ⟨hs.piped chunk, hopen⟩

theorem Accounted.data (hs : s.Accounted) (hopen : s.closed = false) (opts : Options)
    (answer : AuthInfo → Answer) (chunk : Bytes) : (s.onData opts answer chunk).Accounted := by
  have hboth : (s.onData opts answer chunk).Accounted ∧
      (s.onData opts answer chunk).closed = false := onData_invariant
    (P := fun s => s.Accounted ∧ s.closed = false)
    ⟨hs.untouched (Untouched.act s rfl), hopen⟩ ⟨hs.untouched (Untouched.act s rfl), hopen⟩
    (fun s h => ⟨h.1.untouched (Untouched.act s rfl), h.2⟩)
    fun listener s h => h.1.callListener h.2 opts answer chunk listener
  exact hboth.1

/-- **Every step keeps the accounts**, except that `close` of the server clears both sets. -/
theorem accounted_step (opts : Options) {e : Event} (he : e ≠ .destroy) (hs : s.Accounted) :
    (s.step opts e).Accounted := by
  cases e with
  | data chunk answer =>
      rw [step]
      by_cases hstill : (s.paused || s.destroyed) = true
      · rwa [if_pos hstill]
      · rw [if_neg hstill]
        apply hs.data
        by_contra hclosed
        have hdestroyed := hs.destroyed (by simpa using hclosed)
        simp [hdestroyed] at hstill
  | settle i result => exact hs.untouched (Untouched.onSettle i result s)
  | handshakeTimeout =>
      rw [step]
      split_ifs
      · exact hs.untouched (Untouched.of_log_eq rfl rfl rfl rfl (by simp [Socket.destroy])
          (fun _ => rfl) rfl)
      · exact hs
  | error code =>
      rw [step]
      split_ifs
      · exact hs
      · exact hs.untouched (Untouched.onError code s)
  | close =>
      rw [step]
      split_ifs with hclosed
      · exact hs
      · exact hs.close (by simpa using hclosed)
  | bind =>
      rw [step]
      split_ifs
      · exact hs
      · exact hs.untouched (Untouched.bind s)
  | refuse =>
      rw [step]
      split_ifs
      · exact hs
      · exact hs.untouched ((Untouched.write s _).trans (Untouched.endSocket _))
  | «end» =>
      rw [step]
      split_ifs
      · exact hs
      · exact hs.untouched (Untouched.endSocket s)
  | destroy => exact absurd rfl he

end Socket

/-! ## The server -/

namespace Server

/-- How often the server emitted `connection`. -/
def connectionEvents (server : Server) : ℕ := (server.sockets.map Socket.connectionEvents).sum

/-- How often the server emitted `close`. -/
def closeEvents (server : Server) : ℕ := (server.sockets.map Socket.closeEvents).sum

/-- **The server accounts for its sockets.** -/
structure Accounts (opts : Options) (server : Server) : Prop where
  /-- A socket that has not closed is in exactly one of the two sets, in `_connections` as the
  socket of its one connection. -/
  placed : ∀ s ∈ server.sockets, s.closed = false →
    (s.handshaking = true ∧ s.connections = [] ∧ s.connectionEvents = 0) ∨
      (s.handshaking = false ∧ (∃ address, s.connections = [address]) ∧ s.connectionEvents = 1)
  /-- A closed socket is in neither. -/
  removed : ∀ s ∈ server.sockets, s.closed = true → s.handshaking = false ∧ s.connections = []
  /-- `connectionCount()` is the number of `connection` events less that of `close` events. -/
  count : server.connectionCount + server.closeEvents = server.connectionEvents
  /-- A promoted connection has got exactly one `close` once its socket has closed, and none
  before. -/
  closes : ∀ s ∈ server.sockets, s.connectionEvents = 1 →
    s.closeEvents = if s.closed then 1 else 0
  /-- The handshake timer of a promoted socket is cancelled and does nothing to it. -/
  timer : ∀ s ∈ server.sockets, s.connectionEvents ≠ 0 →
    s.handshakeTimer = false ∧ s.step opts .handshakeTimeout = s
  /-- `close` of the server destroys every socket that has not closed. -/
  shutdown : ∀ s ∈ (server.step opts .close).sockets, s.closed = false → s.destroyed = true

/-- Every step of the server but `close` keeps the accounts of its sockets. -/
theorem accounted_step (opts : Options) (server : Server) {e : ServerEvent} (he : ¬ e.IsClose)
    (hserver : ∀ s ∈ server.sockets, s.Accounted) :
    ∀ s ∈ (server.step opts e).sockets, s.Accounted := by
  intro s hs
  cases e with
  | accept endpoints =>
      rcases List.mem_append.mp hs with hs | hs
      · exact hserver s hs
      · rw [List.mem_singleton.mp hs]
        exact Socket.accounted_accepted endpoints
  | socket i e =>
      rw [step] at hs
      obtain ⟨j, hj, rfl⟩ := List.getElem_of_mem hs
      rw [List.getElem_modify]
      split
      · apply Socket.accounted_step opts ?_ (hserver _ (List.getElem_mem _))
        rintro rfl
        exact he trivial
      · exact hserver _ (List.getElem_mem _)
  | close => exact absurd trivial he

/-- The counts of accounted sockets add up. -/
theorem count_of_accounted (sockets : List Socket) (h : ∀ s ∈ sockets, s.Accounted) :
    connectionCount ⟨sockets⟩ + closeEvents ⟨sockets⟩ = connectionEvents ⟨sockets⟩ := by
  induction sockets with
  | nil => rfl
  | cons s sockets ih =>
      have hs := h s List.mem_cons_self
      have htail := ih fun s' hs' => h s' (List.mem_cons_of_mem s hs')
      have hhead : s.connections.length + s.closeEvents = s.connectionEvents := by
        rw [hs.connections_eq, hs.closeEvents_eq, hs.connectionEvents_eq]
        cases s.closed <;> simp
      simp only [connectionCount, closeEvents, connectionEvents, List.map_cons,
        List.sum_cons] at htail ⊢
      omega

/-- **The SOCKS5 server accounts for every open socket**, whatever its sockets do and in
whatever order, until it is closed. -/
theorem accounting (opts : Options) (events : List ServerEvent)
    (hevents : ∀ e ∈ events, ¬ e.IsClose) : (run (step opts) new events).Accounts opts := by
  have hkept : ∀ s ∈ (run (step opts) new events).sockets, s.Accounted := by
    have halong : Along (step opts) (fun _ e => ¬ e.IsClose) new events :=
      Along.of_forall fun e he _ => hevents e he
    exact halong.invariant (P := fun server => ∀ s ∈ server.sockets, s.Accounted)
      (fun server e he hserver => accounted_step opts server he hserver) (by simp [new])
  have hone : ∀ s ∈ (run (step opts) new events).sockets,
      s.promoted = [] ∨ ∃ address, s.promoted = [address] := by
    intro s hs
    obtain ⟨endpoints, es, rfl⟩ := mem_sockets opts events s hs
    rcases (Socket.inv_run opts endpoints es).stage with ⟨hnil, -⟩ | ⟨address, hp⟩
    · exact Or.inl hnil
    · exact Or.inr ⟨address, hp.promoted_eq⟩
  constructor
  · intro s hs hopen
    have h := hkept s hs
    rcases hone s hs with hnil | ⟨address, hpromoted⟩
    · left
      rw [h.handshaking_iff, h.connections_eq, h.connectionEvents_eq]
      simp [hopen, hnil]
    · right
      rw [← Bool.not_eq_true, h.handshaking_iff, h.connections_eq, h.connectionEvents_eq]
      simp [hopen, hpromoted]
  · intro s hs hclosed
    have h := hkept s hs
    rw [← Bool.not_eq_true, h.handshaking_iff, h.connections_eq]
    simp [hclosed]
  · exact count_of_accounted _ hkept
  · intro s hs hevent
    rw [(hkept s hs).closeEvents_eq, ← (hkept s hs).connectionEvents_eq, hevent]
  · intro s hs hevent
    have htimer : s.handshakeTimer = false := by
      rw [← Bool.not_eq_true]
      intro ht
      rw [(hkept s hs).connectionEvents_eq, ((hkept s hs).timer ht).2] at hevent
      exact hevent rfl
    exact ⟨htimer, by simp [Socket.step, htimer]⟩
  · intro s hs hopen
    obtain ⟨s', hs', rfl⟩ := List.mem_map.mp hs
    by_cases htracked : tracked s' = true
    · simp [htracked, Socket.step, Socket.destroy]
    · -- an untracked socket has closed
      rw [if_neg htracked] at hopen
      have h := hkept s' hs'
      have hpromoted : s'.promoted = [] := by
        have hconnections := h.connections_eq
        simp only [tracked, Bool.or_eq_true, Bool.not_eq_true', not_or] at htracked
        simpa [hopen] using hconnections.symm.trans (by simpa using htracked.2)
      refine absurd ?_ htracked
      rw [tracked, h.handshaking_iff.mpr ⟨hopen, hpromoted⟩]
      rfl

/-- Of two sockets one is promoted and closes, the other sends a greeting that is refused. -/
def closedAndRefused : List ServerEvent :=
  let answer : AuthInfo → Answer := fun _ => .returns
  [.accept ⟨none, none, none, none⟩, .accept ⟨none, none, none, none⟩,
    .socket 0 (.data [0x05, 0x01, 0x00] answer), .socket 1 (.data [0x04] answer),
    .socket 0 (.data [0x05, 0x01, 0x00, 0x01, 127, 0, 0, 1, 0x00, 0x50] answer),
    .socket 0 .bind, .socket 0 .close]

theorem accounting_closedAndRefused :
    (run (step ⟨false⟩) new closedAndRefused).Accounts ⟨false⟩ :=
  accounting ⟨false⟩ closedAndRefused (by simp [closedAndRefused, ServerEvent.IsClose])

end Server

end Proxinator.Socks5
